import QwenVLPaged.TableOperations

/-!
# What the swap loops move

The loops of `swap_out_sequence` and `swap_in_sequence` walk the entries of every table in order.
Each loop is described by the list of its moves: which frame went to which slot, or which slot to
which frame. Nothing here depends on how often a frame is referenced.
-/

namespace QwenVLPaged

namespace MemoryAllocator

theorem mem_residentKeys {allocator : MemoryAllocator} {slot : SwapSlotId} :
    slot ∈ allocator.residentKeys ↔ ∃ bytes, allocator.slotBytes slot = some bytes := by
  unfold residentKeys slotBytes
  cases allocator.swapBackend with
  | none => simp
  | some backend =>
      simp only [Option.map_some, Option.getD_some, Option.bind_some, ← Option.isSome_iff_exists]
      exact AList.mem_keys.trans AList.lookup_isSome.symm

/-! ## Evictions -/

/-- The frames were handed, in order, to the slots beside them. -/
structure Evictions (before after : MemoryAllocator)
    (moves : List (PhysicalBlockId × SwapSlotId)) : Prop where
  sound : after.Sound
  config : after.config = before.config
  blocks : after.blocks = before.blocks
  freeList : after.freeList = (moves.map Prod.fst).reverse ++ before.freeList
  residentKeys : after.residentKeys = (moves.map Prod.snd).reverse ++ before.residentKeys
  refCount : ∀ id, after.refCount id =
    if id ∈ moves.map Prod.fst then 0 else before.refCount id
  slotBytes : ∀ slot, slot ∉ moves.map Prod.snd → after.slotBytes slot = before.slotBytes slot
  stored : ∀ move ∈ moves, after.slotBytes move.2 = before.frameBytes move.1

theorem Evictions.refl {allocator : MemoryAllocator} (sound : allocator.Sound) :
    Evictions allocator allocator [] :=
  ⟨sound, rfl, rfl, rfl, rfl, by simp, by simp, by simp⟩

theorem Evictions.frameBytes {before after : MemoryAllocator}
    {moves : List (PhysicalBlockId × SwapSlotId)} (evictions : Evictions before after moves)
    (id : PhysicalBlockId) : after.frameBytes id = before.frameBytes id := by
  simp [MemoryAllocator.frameBytes, block, evictions.blocks]

/-- The frames freed by evictions are frames of the pool, so their number fits 32 bits. -/
theorem Evictions.length_lt {before after : MemoryAllocator}
    {moves : List (PhysicalBlockId × SwapSlotId)} (evictions : Evictions before after moves) :
    moves.length < 2 ^ 32 := by
  have within := evictions.sound.free_length_le
  have small := after.config.maxBlocks_lt
  rw [evictions.freeList] at within
  simp only [List.length_append, List.length_reverse, List.length_map] at within
  omega

theorem Evictions.trans {first second third : MemoryAllocator}
    {front back : List (PhysicalBlockId × SwapSlotId)} (left : Evictions first second front)
    (right : Evictions second third back) : Evictions first third (front ++ back) := by
  have keys : third.residentKeys =
      (back.map Prod.snd).reverse ++ ((front.map Prod.snd).reverse ++ first.residentKeys) := by
    rw [right.residentKeys, left.residentKeys]
  refine ⟨right.sound, right.config.trans left.config, right.blocks.trans left.blocks, ?_, ?_, ?_,
    ?_, ?_⟩
  · rw [right.freeList, left.freeList]
    simp
  · rw [keys]
    simp
  · intro id
    rw [right.refCount, left.refCount]
    simp only [List.map_append, List.mem_append]
    by_cases late : id ∈ back.map Prod.fst
    · simp only [late, or_true, if_true]
    · simp only [late, or_false, if_false]
  · intro slot outside
    simp only [List.map_append, List.mem_append, not_or] at outside
    rw [right.slotBytes slot outside.2, left.slotBytes slot outside.1]
  · intro move member
    rcases List.mem_append.mp member with early | late
    · -- The slots of the second loop are new, so they are not those of the first.
      have fresh : move.2 ∉ back.map Prod.snd := by
        have distinct := residentKeys_nodup third
        rw [keys] at distinct
        intro again
        exact (List.nodup_append.mp distinct).2.2 move.2 (List.mem_reverse.mpr again) move.2
          (List.mem_append_left _ (List.mem_reverse.mpr (List.mem_map_of_mem early))) rfl
      rw [right.slotBytes _ fresh]
      exact left.stored move early
    · rw [right.stored move late]
      exact left.frameBytes move.1

theorem Evicted.evictions {before after : MemoryAllocator} {id : PhysicalBlockId}
    {slot : SwapSlotId} (evicted : Evicted before after id slot) (sound : after.Sound) :
    Evictions before after [(id, slot)] := by
  refine ⟨sound, evicted.config, evicted.blocks, evicted.freeList, evicted.residentKeys, ?_, ?_, ?_⟩
  · intro other
    simp [evicted.refCount other]
  · intro other outside
    have different : other ≠ slot := by simpa using outside
    rw [evicted.slotBytes other, if_neg different]
  · intro move member
    obtain rfl := List.mem_singleton.mp member
    rw [evicted.slotBytes slot, if_pos rfl]

/-- A frame that the pool would not evict: it is not referenced exactly once, or there is no
backend with room. -/
def Refuses (allocator : MemoryAllocator) (id : PhysicalBlockId) : Prop :=
  allocator.refCount id ≠ 1 ∨
    ∀ backend, allocator.swapBackend = some backend → backend.maxSlots ≤ backend.residentSlots

theorem Sound.refuses {allocator after : MemoryAllocator} (sound : allocator.Sound)
    {id : PhysicalBlockId} (failed : allocator.swapOut id = (none, after)) :
    allocator.Refuses id := by
  unfold MemoryAllocator.swapOut at failed
  split at failed
  · rename_i backend info installed found
    split at failed
    · rename_i shared
      exact Or.inl (refCount_eq_of_info found ▸ shared)
    · obtain ⟨frame, frame_eq⟩ := sound.block_of_lt (sound.lt_of_info found)
      simp only [block, frame_eq, HostSwapBackend.store] at failed
      split at failed
      · rename_i stored_eq
        split at stored_eq
        · rename_i full
          refine Or.inr fun other equal => ?_
          obtain rfl := Option.some.inj (installed.symm.trans equal)
          exact full
        · simp at stored_eq
      · simp at failed
  · rename_i absent
    cases installed : allocator.swapBackend with
    | none => exact Or.inr fun backend equal => by simp [installed] at equal
    | some backend =>
        cases found : allocator.infos[id]? with
        | none => exact Or.inl (by simp [refCount_eq_zero_of_none found])
        | some info => exact absurd found (absent backend info installed)

/-- While frames were evicted, the eviction of this one was tried and refused. -/
def Refused (before after : MemoryAllocator) (id : PhysicalBlockId) : Prop :=
  ∃ tried front back, Evictions before tried front ∧ tried.Refuses id ∧ Evictions tried after back

theorem Refused.after {first second third : MemoryAllocator} {id : PhysicalBlockId}
    {moves : List (PhysicalBlockId × SwapSlotId)} (refused : Refused first second id)
    (later : Evictions second third moves) : Refused first third id := by
  obtain ⟨tried, front, back, early, refuses, late⟩ := refused
  exact ⟨tried, front, _, early, refuses, late.trans later⟩

theorem Refused.before {first second third : MemoryAllocator} {id : PhysicalBlockId}
    {moves : List (PhysicalBlockId × SwapSlotId)} (earlier : Evictions first second moves)
    (refused : Refused second third id) : Refused first third id := by
  obtain ⟨tried, front, back, early, refuses, late⟩ := refused
  exact ⟨tried, _, back, earlier.trans early, refuses, late⟩

/-! ## Restorations -/

/-- The slots were restored, in order, into the frames beside them. -/
structure Restorations (before after : MemoryAllocator)
    (moves : List (SwapSlotId × PhysicalBlockId)) : Prop where
  sound : after.Sound
  config : after.config = before.config
  freeList : before.freeList = moves.map Prod.snd ++ after.freeList
  refCount : ∀ id, after.refCount id =
    if id ∈ moves.map Prod.snd then 1 else before.refCount id
  frameBytes : ∀ id, id ∉ moves.map Prod.snd → after.frameBytes id = before.frameBytes id
  loaded : ∀ move ∈ moves, after.frameBytes move.2 = before.slotBytes move.1
  held : ∀ move ∈ moves, move.1 ∈ before.residentKeys
  slotBytes : ∀ slot, after.slotBytes slot =
    if slot ∈ moves.map Prod.fst then none else before.slotBytes slot

theorem Restorations.refl {allocator : MemoryAllocator} (sound : allocator.Sound) :
    Restorations allocator allocator [] :=
  ⟨sound, rfl, rfl, by simp, by simp, by simp, by simp, by simp⟩

theorem Restorations.mem_residentKeys {before after : MemoryAllocator}
    {moves : List (SwapSlotId × PhysicalBlockId)} (restored : Restorations before after moves)
    {slot : SwapSlotId} :
    slot ∈ after.residentKeys ↔ slot ∈ before.residentKeys ∧ slot ∉ moves.map Prod.fst := by
  rw [MemoryAllocator.mem_residentKeys, MemoryAllocator.mem_residentKeys, restored.slotBytes]
  by_cases moved : slot ∈ moves.map Prod.fst
  · simp only [if_pos moved]
    simp [moved]
  · simp only [if_neg moved]
    simp [moved]

theorem Restorations.trans {first second third : MemoryAllocator}
    {front back : List (SwapSlotId × PhysicalBlockId)} (sound : first.Sound)
    (left : Restorations first second front) (right : Restorations second third back) :
    Restorations first third (front ++ back) := by
  have free : first.freeList =
      front.map Prod.snd ++ (back.map Prod.snd ++ third.freeList) := by
    rw [left.freeList, right.freeList]
  have apart (id : PhysicalBlockId) (early : id ∈ front.map Prod.snd) :
      id ∉ back.map Prod.snd := by
    have distinct := sound.free_nodup
    rw [free] at distinct
    intro late
    exact (List.nodup_append.mp distinct).2.2 id early id (List.mem_append_left _ late) rfl
  refine ⟨right.sound, right.config.trans left.config, ?_, ?_, ?_, ?_, ?_, ?_⟩
  · rw [free]
    simp
  · intro id
    rw [right.refCount, left.refCount]
    simp only [List.map_append, List.mem_append]
    by_cases late : id ∈ back.map Prod.snd <;> by_cases early : id ∈ front.map Prod.snd <;>
      simp [late, early]
  · intro id outside
    simp only [List.map_append, List.mem_append, not_or] at outside
    rw [right.frameBytes id outside.2, left.frameBytes id outside.1]
  · intro move member
    rcases List.mem_append.mp member with early | late
    · rw [right.frameBytes _ (apart _ (List.mem_map_of_mem early))]
      exact left.loaded move early
    · have kept := (left.mem_residentKeys.mp (right.held move late)).2
      rw [right.loaded move late, left.slotBytes, if_neg kept]
  · intro move member
    rcases List.mem_append.mp member with early | late
    · exact left.held move early
    · exact (left.mem_residentKeys.mp (right.held move late)).1
  · intro slot
    rw [right.slotBytes, left.slotBytes]
    simp only [List.map_append, List.mem_append]
    by_cases late : slot ∈ back.map Prod.fst <;> by_cases early : slot ∈ front.map Prod.fst <;>
      simp [late, early]

theorem Restored.restorations {before after : MemoryAllocator} {slot : SwapSlotId}
    {id : PhysicalBlockId} (restored : Restored before after slot id) (sound : after.Sound) :
    Restorations before after [(slot, id)] := by
  refine ⟨sound, restored.config, restored.was_free, ?_, ?_, ?_, ?_, ?_⟩
  · intro other
    simp [restored.refCount other]
  · intro other outside
    have different : other ≠ id := by simpa using outside
    rw [restored.frameBytes other, if_neg different]
  · intro move member
    obtain rfl := List.mem_singleton.mp member
    rw [restored.frameBytes id, if_pos rfl]
  · intro move member
    obtain rfl := List.mem_singleton.mp member
    exact restored.held
  · intro other
    simp [restored.slotBytes other]

/-- A held slot is restored, unless no frame is free. -/
theorem Sound.swapIn_held {allocator : MemoryAllocator} (sound : allocator.Sound)
    {slot : SwapSlotId} (held : slot ∈ allocator.residentKeys) :
    allocator.freeList = [] ∧ allocator.swapIn slot = (none, allocator) ∨
      ∃ id after, allocator.swapIn slot = (some id, after) ∧
        Restorations allocator after [(slot, id)] := by
  rcases swap_eq : allocator.swapIn slot with ⟨_ | id, after⟩
  · obtain ⟨-, -, -, -, -, empty | missing⟩ := sound.swapIn_none swap_eq
    · refine Or.inl ⟨empty, ?_⟩
      rw [← swap_eq]
      unfold MemoryAllocator.swapIn MemoryAllocator.allocate
      cases allocator.swapBackend with
      | none => rfl
      | some backend => simp [empty]
    · obtain ⟨bytes, found⟩ := MemoryAllocator.mem_residentKeys.mp held
      simp [found] at missing
  · obtain ⟨sound', restored⟩ := sound.swapIn swap_eq
    exact Or.inr ⟨id, after, rfl, restored.restorations sound'⟩

end MemoryAllocator

namespace KVCacheManager

open MemoryAllocator (Evictions Refused Restorations)

/-- Slots of the swapped-out blocks of a list of entries. -/
def slotsOf (entries : List BlockTableEntry) : List SwapSlotId :=
  entries.filterMap (·.swapSlot)

@[simp]
theorem slotsOf_nil : slotsOf [] = [] := rfl

@[simp]
theorem slotsOf_append (front back : List BlockTableEntry) :
    slotsOf (front ++ back) = slotsOf front ++ slotsOf back := List.filterMap_append

theorem modify_append_cons {α : Type*} (front back : List α) (item : α) (update : α → α) :
    (front ++ item :: back).modify front.length update = front ++ update item :: back := by
  induction front with
  | nil => rfl
  | cons head front induction => simpa using induction

/-! ## Evicting the blocks of a table -/

/-- A block before and after the loop: unchanged, and then refused if it was resident, or moved to
a slot. -/
def EntryEvicted (before after : MemoryAllocator) (moves : List (PhysicalBlockId × SwapSlotId))
    (entry entry' : BlockTableEntry) : Prop :=
  entry' = entry ∧ (entry.swapSlot = none → Refused before after entry.physicalId) ∨
    entry.swapSlot = none ∧ ∃ slot, (entry.physicalId, slot) ∈ moves ∧
      entry' = { entry with swapSlot := some slot }

/-- The blocks of a list before and after the loop. -/
structure EntriesEvicted (before after : MemoryAllocator)
    (moves : List (PhysicalBlockId × SwapSlotId)) (entries entries' : List BlockTableEntry) :
    Prop where
  effect : Evictions before after moves
  blocks : List.Forall₂ (EntryEvicted before after moves) entries entries'
  slots : (slotsOf entries').Perm (moves.map Prod.snd ++ slotsOf entries)

theorem EntriesEvicted.nil {allocator : MemoryAllocator} (sound : allocator.Sound) :
    EntriesEvicted allocator allocator [] [] [] :=
  ⟨Evictions.refl sound, List.Forall₂.nil, List.Perm.refl _⟩

/-- One loop after the other. -/
theorem EntriesEvicted.append {first second third : MemoryAllocator}
    {moves moves' : List (PhysicalBlockId × SwapSlotId)}
    {front front' back back' : List BlockTableEntry}
    (left : EntriesEvicted first second moves front front')
    (right : EntriesEvicted second third moves' back back') :
    EntriesEvicted first third (moves ++ moves') (front ++ back) (front' ++ back') := by
  refine ⟨left.effect.trans right.effect, List.rel_append (left.blocks.imp ?_)
    (right.blocks.imp ?_), ?_⟩
  · rintro entry entry' (⟨same, refused⟩ | ⟨resident, slot, moved, changed⟩)
    · exact Or.inl ⟨same, fun resident => (refused resident).after right.effect⟩
    · exact Or.inr ⟨resident, slot, List.mem_append_left _ moved, changed⟩
  · rintro entry entry' (⟨same, refused⟩ | ⟨resident, slot, moved, changed⟩)
    · exact Or.inl ⟨same, fun resident => (refused resident).before left.effect⟩
    · exact Or.inr ⟨resident, slot, List.mem_append_right _ moved, changed⟩
  · rw [slotsOf_append, slotsOf_append, List.map_append, List.append_assoc]
    calc
      List.Perm _ ((moves.map Prod.snd ++ slotsOf front) ++
          (moves'.map Prod.snd ++ slotsOf back)) := left.slots.append right.slots
      List.Perm _ (moves.map Prod.snd ++ (moves'.map Prod.snd ++
          (slotsOf front ++ slotsOf back))) := by
        rw [List.append_assoc]
        exact (List.perm_append_comm_assoc _ _ _).append_left _

/-- A block that is swapped out already, or that the pool refuses to evict. -/
theorem EntriesEvicted.keep {allocator : MemoryAllocator} (sound : allocator.Sound)
    {entry : BlockTableEntry}
    (refuses : entry.swapSlot = none → allocator.Refuses entry.physicalId) :
    EntriesEvicted allocator allocator [] [entry] [entry] := by
  have same := Evictions.refl sound
  refine ⟨same, List.Forall₂.cons (Or.inl ⟨rfl, fun resident => ?_⟩) List.Forall₂.nil,
    List.Perm.refl _⟩
  exact ⟨allocator, [], [], same, refuses resident, same⟩

theorem EntriesEvicted.move {before after : MemoryAllocator} {entry : BlockTableEntry}
    {slot : SwapSlotId} (resident : entry.swapSlot = none)
    (effect : Evictions before after [(entry.physicalId, slot)]) :
    EntriesEvicted before after [(entry.physicalId, slot)] [entry]
      [{ entry with swapSlot := some slot }] := by
  refine ⟨effect, List.Forall₂.cons (Or.inr ⟨resident, slot, List.mem_singleton_self _, rfl⟩)
    List.Forall₂.nil, ?_⟩
  simp [slotsOf, resident]

/-- The loop over the blocks of a table behind those already visited. -/
theorem swapOutEntries_evicts {allocator : MemoryAllocator} (sound : allocator.Sound)
    (sequenceId : SequenceId) (cacheKind : CacheKind) (visited rest : List BlockTableEntry)
    (indexed : (⟨sequenceId, cacheKind, visited ++ rest⟩ : BlockTable).Indexed) :
    ∃ moves after rest',
      swapOutEntries allocator ⟨sequenceId, cacheKind, visited ++ rest⟩
          ((rest.filter fun entry => entry.swapSlot.isNone).map (·.logical.index)) =
        (moves.length, after, ⟨sequenceId, cacheKind, visited ++ rest'⟩) ∧
      EntriesEvicted allocator after moves rest rest' := by
  induction rest generalizing visited allocator with
  | nil => exact ⟨[], allocator, [], rfl, EntriesEvicted.nil sound⟩
  | cons entry rest induction =>
      have here : (visited ++ entry :: rest)[visited.length]? = some entry := by simp
      have position := indexed visited.length entry here
      -- Whatever happens to the first block, the loop goes on behind it.
      have resume (after : MemoryAllocator) (entry' : BlockTableEntry)
          (moves : List (PhysicalBlockId × SwapSlotId)) (sound : after.Sound)
          (logical : entry'.logical = entry.logical)
          (head : EntriesEvicted allocator after moves [entry] [entry']) :
          ∃ moves' final rest',
            swapOutEntries after ⟨sequenceId, cacheKind, visited ++ entry' :: rest⟩
                ((rest.filter fun entry => entry.swapSlot.isNone).map (·.logical.index)) =
              (moves'.length, final, ⟨sequenceId, cacheKind, visited ++ entry' :: rest'⟩) ∧
            EntriesEvicted allocator final (moves ++ moves') (entry :: rest) (entry' :: rest') := by
        have still_indexed :
            (⟨sequenceId, cacheKind, (visited ++ [entry']) ++ rest⟩ : BlockTable).Indexed :=
          indexed.of_logicals (by simp [logical])
        obtain ⟨moves', final, rest', run_eq, tail⟩ := induction sound _ still_indexed
        refine ⟨moves', final, rest', ?_, head.append tail⟩
        simpa using run_eq
      cases slot_eq : entry.swapSlot with
      | some slot =>
          obtain ⟨moves, final, rest', run_eq, evicted⟩ := resume allocator entry [] sound rfl
            (EntriesEvicted.keep sound (by simp [slot_eq]))
          refine ⟨moves, final, entry :: rest', ?_, evicted⟩
          rw [List.filter_cons_of_neg (by simp [slot_eq])]
          exact run_eq
      | none =>
          rw [List.filter_cons_of_pos (by simp [slot_eq]), List.map_cons, swapOutEntries,
            indexed.entry_eq, position, here]
          simp only
          rcases swap_eq : allocator.swapOut entry.physicalId with ⟨_ | slot, after⟩
          · obtain rfl := MemoryAllocator.swapOut_eq_none swap_eq
            obtain ⟨moves, final, rest', run_eq, evicted⟩ := resume after entry [] sound rfl
              (EntriesEvicted.keep sound fun _ => sound.refuses swap_eq)
            exact ⟨moves, final, entry :: rest', run_eq, evicted⟩
          · obtain ⟨sound', effect⟩ := sound.swapOut swap_eq
            obtain ⟨moves, final, rest', run_eq, evicted⟩ :=
              resume after { entry with swapSlot := some slot } [(entry.physicalId, slot)] sound'
                rfl (EntriesEvicted.move slot_eq (effect.evictions sound'))
            refine ⟨(entry.physicalId, slot) :: moves, final, _ :: rest', ?_, evicted⟩
            simp only [indexed.modifyEntry_eq, modify_append_cons, run_eq, List.length_cons]

theorem swapOutTables_evicts {allocator : MemoryAllocator} (sound : allocator.Sound)
    (tables : List BlockTable) (indexed : ∀ table ∈ tables, table.Indexed) :
    ∃ moves after tables',
      swapOutTables allocator tables = (moves.length, after, tables') ∧
      EntriesEvicted allocator after moves (tables.flatMap (·.entries))
        (tables'.flatMap (·.entries)) := by
  induction tables generalizing allocator with
  | nil => exact ⟨[], allocator, [], rfl, EntriesEvicted.nil sound⟩
  | cons table tables induction =>
      obtain ⟨moves, middle, entries, run_eq, head⟩ := swapOutEntries_evicts sound
        table.sequenceId table.cacheKind [] table.entries (indexed table List.mem_cons_self)
      obtain ⟨others, after, tables', rest_eq, tail⟩ := induction head.effect.sound
        (fun other member => indexed other (List.mem_cons_of_mem _ member))
      refine ⟨moves ++ others, after, ⟨table.sequenceId, table.cacheKind, entries⟩ :: tables', ?_,
        ?_⟩
      · have visit : swapOutEntries allocator table (residentIndices table) =
            (moves.length, middle, ⟨table.sequenceId, table.cacheKind, entries⟩) := run_eq
        simp only [swapOutTables, visit, rest_eq, List.length_append]
      · simpa using head.append tail

/-! ## Restoring the blocks of a table -/

/-- A block before and after the loop: unchanged, or moved from its slot to a frame. -/
def EntryRestored (moves : List (SwapSlotId × PhysicalBlockId))
    (entry entry' : BlockTableEntry) : Prop :=
  entry' = entry ∨
    ∃ slot id, entry.swapSlot = some slot ∧ (slot, id) ∈ moves ∧
      entry' = { entry with physicalId := id, swapSlot := none }

theorem EntryRestored.mono {moves moves' : List (SwapSlotId × PhysicalBlockId)}
    (fewer : moves ⊆ moves') {entry entry' : BlockTableEntry}
    (restored : EntryRestored moves entry entry') : EntryRestored moves' entry entry' := by
  rcases restored with same | ⟨slot, id, swapped, moved, changed⟩
  · exact Or.inl same
  · exact Or.inr ⟨slot, id, swapped, fewer moved, changed⟩

/-- The blocks of a list before and after the loop. -/
structure EntriesRestored (before after : MemoryAllocator)
    (moves : List (SwapSlotId × PhysicalBlockId)) (entries entries' : List BlockTableEntry) :
    Prop where
  effect : Restorations before after moves
  blocks : List.Forall₂ (EntryRestored moves) entries entries'
  slots : (slotsOf entries).Perm (moves.map Prod.fst ++ slotsOf entries')

theorem EntriesRestored.refl {allocator : MemoryAllocator} (sound : allocator.Sound)
    (entries : List BlockTableEntry) : EntriesRestored allocator allocator [] entries entries :=
  ⟨Restorations.refl sound, List.forall₂_same.mpr fun _ _ => Or.inl rfl, List.Perm.refl _⟩

/-- One loop after the other. -/
theorem EntriesRestored.append {first second third : MemoryAllocator}
    {moves moves' : List (SwapSlotId × PhysicalBlockId)}
    {front front' back back' : List BlockTableEntry} (sound : first.Sound)
    (left : EntriesRestored first second moves front front')
    (right : EntriesRestored second third moves' back back') :
    EntriesRestored first third (moves ++ moves') (front ++ back) (front' ++ back') := by
  refine ⟨left.effect.trans sound right.effect, List.rel_append
    (left.blocks.imp fun _ _ => EntryRestored.mono (List.subset_append_left _ _))
    (right.blocks.imp fun _ _ => EntryRestored.mono (List.subset_append_right _ _)), ?_⟩
  rw [slotsOf_append, slotsOf_append, List.map_append, List.append_assoc]
  calc
    List.Perm _ ((moves.map Prod.fst ++ slotsOf front') ++
        (moves'.map Prod.fst ++ slotsOf back')) := left.slots.append right.slots
    List.Perm _ (moves.map Prod.fst ++ (moves'.map Prod.fst ++
        (slotsOf front' ++ slotsOf back'))) := by
      rw [List.append_assoc]
      exact (List.perm_append_comm_assoc _ _ _).append_left _

theorem EntriesRestored.move {before after : MemoryAllocator} {entry : BlockTableEntry}
    {slot : SwapSlotId} {id : PhysicalBlockId} (swapped : entry.swapSlot = some slot)
    (effect : Restorations before after [(slot, id)]) :
    EntriesRestored before after [(slot, id)] [entry]
      [{ entry with physicalId := id, swapSlot := none }] := by
  refine ⟨effect, List.Forall₂.cons (Or.inr ⟨slot, id, swapped, List.mem_singleton_self _, rfl⟩)
    List.Forall₂.nil, ?_⟩
  simp [slotsOf, swapped]

/-- Distinct slots that the backend holds. -/
structure SlotsHeld (allocator : MemoryAllocator) (slots : List SwapSlotId) : Prop where
  resident : ∀ slot ∈ slots, slot ∈ allocator.residentKeys
  distinct : slots.Nodup

theorem SlotsHeld.front {allocator : MemoryAllocator} {front back : List SwapSlotId}
    (held : SlotsHeld allocator (front ++ back)) : SlotsHeld allocator front :=
  ⟨fun slot member => held.resident slot (List.mem_append_left _ member),
    (List.nodup_append.mp held.distinct).1⟩

theorem SlotsHeld.perm {allocator : MemoryAllocator} {slots slots' : List SwapSlotId}
    (held : SlotsHeld allocator slots) (same : slots.Perm slots') : SlotsHeld allocator slots' :=
  ⟨fun slot member => held.resident slot (same.mem_iff.mpr member),
    same.nodup_iff.mp held.distinct⟩

/-- What is still held after some slots were restored. -/
theorem SlotsHeld.restored {before after : MemoryAllocator} {slots : List SwapSlotId}
    {moves : List (SwapSlotId × PhysicalBlockId)}
    (held : SlotsHeld before (moves.map Prod.fst ++ slots))
    (restored : Restorations before after moves) : SlotsHeld after slots := by
  refine ⟨?_, (List.nodup_append.mp held.distinct).2.1⟩
  intro slot member
  refine restored.mem_residentKeys.mpr ⟨held.resident slot (List.mem_append_right _ member), ?_⟩
  intro early
  exact (List.nodup_append.mp held.distinct).2.2 slot early slot member rfl

/-- The end of a restoring loop: it went through if and only if everything is resident, and it
stops only for want of a free frame. -/
structure LoopEnd (restored : Bool) (after : MemoryAllocator) (entries : List BlockTableEntry) :
    Prop where
  done : restored = true → slotsOf entries = []
  stopped : restored = false → after.freeList = [] ∧ slotsOf entries ≠ []

/-- The loop over the blocks of a table behind those already visited. -/
theorem swapInEntries_restores {allocator : MemoryAllocator} (sound : allocator.Sound)
    (sequenceId : SequenceId) (cacheKind : CacheKind) (visited rest : List BlockTableEntry)
    (indexed : (⟨sequenceId, cacheKind, visited ++ rest⟩ : BlockTable).Indexed)
    (held : SlotsHeld allocator (slotsOf rest)) :
    ∃ restored moves after rest',
      swapInEntries allocator ⟨sequenceId, cacheKind, visited ++ rest⟩
          (List.range' visited.length rest.length) =
        (restored, after, ⟨sequenceId, cacheKind, visited ++ rest'⟩) ∧
      EntriesRestored allocator after moves rest rest' ∧ LoopEnd restored after rest' := by
  induction rest generalizing visited allocator with
  | nil => exact ⟨true, [], allocator, [], rfl, EntriesRestored.refl sound [], by simp, by simp⟩
  | cons entry rest induction =>
      have here : (visited ++ entry :: rest)[visited.length]? = some entry := by simp
      have position := indexed visited.length entry here
      have split : slotsOf (entry :: rest) = slotsOf [entry] ++ slotsOf rest :=
        slotsOf_append [entry] rest
      -- A first block that is resident afterwards is followed by the rest of the loop.
      have resume (after : MemoryAllocator) (entry' : BlockTableEntry)
          (moves : List (SwapSlotId × PhysicalBlockId))
          (logical : entry'.logical = entry.logical) (resident : entry'.swapSlot = none)
          (head : EntriesRestored allocator after moves [entry] [entry']) :
          ∃ restored moves' final rest',
            swapInEntries after ⟨sequenceId, cacheKind, visited ++ entry' :: rest⟩
                (List.range' (visited.length + 1) rest.length) =
              (restored, final, ⟨sequenceId, cacheKind, visited ++ entry' :: rest'⟩) ∧
            EntriesRestored allocator final (moves ++ moves') (entry :: rest) (entry' :: rest') ∧
            LoopEnd restored final (entry' :: rest') := by
        have still_indexed :
            (⟨sequenceId, cacheKind, (visited ++ [entry']) ++ rest⟩ : BlockTable).Indexed :=
          indexed.of_logicals (by simp [logical])
        have still_held : SlotsHeld after (slotsOf rest) := by
          refine (held.perm ?_).restored head.effect
          rw [split]
          have moved := head.slots
          rw [show slotsOf [entry'] = [] by simp [slotsOf, resident], List.append_nil] at moved
          exact moved.append_right _
        obtain ⟨restored, moves', final, rest', run_eq, tail, ended⟩ :=
          induction head.effect.sound _ still_indexed still_held
        have same : slotsOf (entry' :: rest') = slotsOf rest' := by simp [slotsOf, resident]
        refine ⟨restored, moves', final, rest', by simpa using run_eq, head.append sound tail, ?_⟩
        exact ⟨fun success => same.trans (ended.done success),
          fun failure => ⟨(ended.stopped failure).1, same ▸ (ended.stopped failure).2⟩⟩
      rw [List.length_cons, List.range'_succ, swapInEntries]
      simp only [here]
      cases slot_eq : entry.swapSlot with
      | none =>
          obtain ⟨restored, moves, final, rest', run_eq, effect, ended⟩ :=
            resume allocator entry [] rfl slot_eq (EntriesRestored.refl sound [entry])
          exact ⟨restored, moves, final, entry :: rest', run_eq, effect, ended⟩
      | some slot =>
          have slots_eq : slotsOf (entry :: rest) = slot :: slotsOf rest := by
            simp [slotsOf, slot_eq]
          have member : slot ∈ allocator.residentKeys := by
            apply held.resident
            rw [slots_eq]
            exact List.mem_cons_self
          simp only [Option.isNone_some, Bool.false_eq_true, if_false, position, indexed.entry_eq,
            here, Option.bind_some, slot_eq]
          rcases sound.swapIn_held member with ⟨empty, swap_eq⟩ | ⟨id, after, swap_eq, effect⟩
          · refine ⟨false, [], allocator, entry :: rest, by simp only [swap_eq],
              EntriesRestored.refl sound _, by simp, fun _ => ⟨empty, ?_⟩⟩
            rw [slots_eq]
            exact List.cons_ne_nil _ _
          · obtain ⟨restored, moves, final, rest', run_eq, effect, ended⟩ :=
              resume after { entry with physicalId := id, swapSlot := none } [(slot, id)] rfl rfl
                (EntriesRestored.move slot_eq effect)
            refine ⟨restored, (slot, id) :: moves, final, _ :: rest', ?_, effect, ended⟩
            simp only [swap_eq, indexed.modifyEntry_eq, modify_append_cons, run_eq]

/-- A table before and after the loop. -/
structure TableRestored (moves : List (SwapSlotId × PhysicalBlockId))
    (table table' : BlockTable) : Prop where
  sequenceId : table'.sequenceId = table.sequenceId
  cacheKind : table'.cacheKind = table.cacheKind
  entries : List.Forall₂ (EntryRestored moves) table.entries table'.entries

theorem TableRestored.mono {moves moves' : List (SwapSlotId × PhysicalBlockId)}
    (fewer : moves ⊆ moves') {table table' : BlockTable}
    (restored : TableRestored moves table table') : TableRestored moves' table table' :=
  ⟨restored.sequenceId, restored.cacheKind,
    restored.entries.imp fun _ _ => EntryRestored.mono fewer⟩

theorem tablesRestored_refl (moves : List (SwapSlotId × PhysicalBlockId))
    (tables : List BlockTable) : List.Forall₂ (TableRestored moves) tables tables :=
  List.forall₂_same.mpr fun _ _ => ⟨rfl, rfl, List.forall₂_same.mpr fun _ _ => Or.inl rfl⟩

theorem swapInTables_restores {allocator : MemoryAllocator} (sound : allocator.Sound)
    (tables : List BlockTable) (indexed : ∀ table ∈ tables, table.Indexed)
    (held : SlotsHeld allocator (slotsOf (tables.flatMap (·.entries)))) :
    ∃ restored moves after tables',
      swapInTables allocator tables = (restored, after, tables') ∧
      EntriesRestored allocator after moves (tables.flatMap (·.entries))
        (tables'.flatMap (·.entries)) ∧
      List.Forall₂ (TableRestored moves) tables tables' ∧
      LoopEnd restored after (tables'.flatMap (·.entries)) := by
  induction tables generalizing allocator with
  | nil =>
      exact ⟨true, [], allocator, [], rfl, EntriesRestored.refl sound [], List.Forall₂.nil,
        by simp, by simp⟩
  | cons table tables induction =>
      rw [List.flatMap_cons, slotsOf_append] at held
      obtain ⟨restored, moves, middle, entries, run_eq, head, ended⟩ := swapInEntries_restores sound
        table.sequenceId table.cacheKind [] table.entries (indexed table List.mem_cons_self)
        held.front
      have visit : swapInEntries allocator table (List.range table.size) =
          (restored, middle, ⟨table.sequenceId, table.cacheKind, entries⟩) := by
        rw [List.range_eq_range']
        exact run_eq
      cases restored with
      | false =>
          obtain ⟨empty, left⟩ := ended.stopped rfl
          refine ⟨false, moves, middle,
            ⟨table.sequenceId, table.cacheKind, entries⟩ :: tables,
            by simp only [swapInTables, visit], ?_,
            List.Forall₂.cons ⟨rfl, rfl, head.blocks⟩ (tablesRestored_refl moves tables),
            by simp, fun _ => ⟨empty, ?_⟩⟩
          · simpa using head.append sound (EntriesRestored.refl head.effect.sound
              (tables.flatMap (·.entries)))
          · rw [List.flatMap_cons, slotsOf_append]
            exact fun none_left => left (List.append_eq_nil_iff.mp none_left).1
      | true =>
          have head_done := ended.done rfl
          have moved := head.slots
          rw [head_done, List.append_nil] at moved
          obtain ⟨others, moves', after, tables', rest_eq, tail, tail_tables, tail_ended⟩ :=
            induction head.effect.sound
              (fun other member => indexed other (List.mem_cons_of_mem _ member))
              ((held.perm (moved.append_right _)).restored head.effect)
          have same : slotsOf (entries ++ tables'.flatMap (·.entries)) =
              slotsOf (tables'.flatMap (·.entries)) := by
            rw [slotsOf_append, head_done, List.nil_append]
          refine ⟨others, moves ++ moves', after,
            ⟨table.sequenceId, table.cacheKind, entries⟩ :: tables',
            by simp only [swapInTables, visit, rest_eq], by simpa using head.append sound tail, ?_, ?_⟩
          · have first : TableRestored moves table ⟨table.sequenceId, table.cacheKind, entries⟩ :=
              ⟨rfl, rfl, head.blocks⟩
            exact List.Forall₂.cons (first.mono (List.subset_append_left _ _))
              (tail_tables.imp fun _ _ => TableRestored.mono (List.subset_append_right _ _))
          exact ⟨fun success => same.trans (tail_ended.done success),
            fun failure => ⟨(tail_ended.stopped failure).1,
              same ▸ (tail_ended.stopped failure).2⟩⟩

end KVCacheManager
end QwenVLPaged
