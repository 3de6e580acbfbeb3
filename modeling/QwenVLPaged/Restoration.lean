import QwenVLPaged.Conservation
import QwenVLPaged.Preemption

/-!
# Restoring is all or nothing

A swapped-out request comes back as a whole or not at all: the count made before the first block
is moved leaves no later call a reason to fail. The blocks come back with the bytes they had when
they were evicted, which a log kept beside the run records.
-/

namespace QwenVLPaged

namespace KVCacheManager

open MemoryAllocator (Evictions Restorations)

/-! ## The log of evictions -/

/-- A block evicted by a call: its slot and the bytes of its frame before the call. -/
def evictedBy (before after : KVCacheManager) : List (SwapSlotId × Option (List UInt8)) :=
  (after.liveEntries.filterMap fun entry => entry.swapSlot.map fun slot =>
    (slot, before.allocator.frameBytes entry.physicalId)).filter
      fun eviction => decide (eviction.1 ∉ before.allocator.residentKeys)

/-- All the evictions of a run, the newest first. -/
def evictionLog : KVCacheManager → List (SwapSlotId × Option (List UInt8)) → List CacheOp →
    List (SwapSlotId × Option (List UInt8))
  | _, log, [] => log
  | manager, log, op :: ops =>
      evictionLog (manager.step op) (evictedBy manager (manager.step op) ++ log) ops

/-- Every swapped-out block has the bytes that the log has for its slot. -/
def Logged (manager : KVCacheManager) (log : List (SwapSlotId × Option (List UInt8))) : Prop :=
  ∀ entry ∈ manager.liveEntries, ∀ slot, entry.swapSlot = some slot →
    log.lookup slot = some (manager.allocator.slotBytes slot)

/-- A swapped-out block after a call is an old one, or was evicted by the call. -/
def Traced (before after : KVCacheManager) : Prop :=
  ∀ entry ∈ after.liveEntries, ∀ slot, entry.swapSlot = some slot →
    (slot ∈ before.allocator.residentKeys ∧ entry ∈ before.liveEntries ∧
        after.allocator.slotBytes slot = before.allocator.slotBytes slot) ∨
      (slot ∉ before.allocator.residentKeys ∧
        after.allocator.slotBytes slot = before.allocator.frameBytes entry.physicalId)

theorem Sound.slot_held {manager : KVCacheManager} (sound : manager.Sound)
    {entry : BlockTableEntry} (member : entry ∈ manager.liveEntries) {slot : SwapSlotId}
    (swapped : entry.swapSlot = some slot) : slot ∈ manager.allocator.residentKeys :=
  sound.held.resident slot (List.mem_filterMap.mpr ⟨entry, member, swapped⟩)

theorem Kept.trace {before after : KVCacheManager} (sound : before.Sound)
    (kept : Kept before after) : Traced before after := by
  intro entry member slot swapped
  obtain ⟨old, bytes⟩ := kept.traced entry member slot swapped
  exact Or.inl ⟨sound.slot_held old swapped, old, bytes⟩

theorem SequencesEvicted.trace {before after : KVCacheManager} {ids : List SequenceId}
    {moves : List (PhysicalBlockId × SwapSlotId)} (sound : before.Sound)
    (evicted : SequencesEvicted before after ids moves) : Traced before after := by
  have distinct := MemoryAllocator.residentKeys_nodup after.allocator
  rw [evicted.effect.residentKeys] at distinct
  have apart := (List.nodup_append.mp distinct).2.2
  intro entry member slot swapped
  rcases evicted.traced entry member slot swapped with old | moved
  · have held := sound.slot_held old swapped
    refine Or.inl ⟨held, old, evicted.effect.slotBytes slot ?_⟩
    intro again
    exact apart slot (List.mem_reverse.mpr again) slot held rfl
  · refine Or.inr ⟨?_, evicted.effect.stored _ moved⟩
    intro held
    exact apart slot (List.mem_reverse.mpr (List.mem_map_of_mem moved)) slot held rfl

theorem traced_step {manager : KVCacheManager} (sound : manager.Sound) (op : CacheOp) :
    Traced manager (manager.step op) := by
  cases op with
  | createSequence metadata => exact (sound.createSequence metadata).trace sound
  | forkSequence parentId childMetadata =>
      exact (sound.forkSequence parentId childMetadata).trace sound
  | reserveTokens sequenceId tokenCount =>
      exact (sound.reserveTokens sequenceId tokenCount).trace sound
  | ensureTokenWritable sequenceId token layer =>
      exact (sound.ensureTokenWritable sequenceId token layer).trace sound
  | writeToken sequenceId token layer stores =>
      exact (sound.writeToken sequenceId token layer stores).trace sound
  | swapOutSequence sequenceId =>
      obtain ⟨moves, after, run_eq, evicted⟩ := swapOutSequence_evicts sound sequenceId
      simp only [step, run_eq]
      exact evicted.trace sound
  | swapOutRequest requestId =>
      obtain ⟨moves, after, run_eq, evicted⟩ :=
        swapOutSequences_evicts sound (manager.sequencesFor requestId)
      simp only [step, swapOutRequest, run_eq]
      exact evicted.trace sound
  | swapInSequence sequenceId => exact (sound.swapInSequence sequenceId).trace sound
  | swapInRequest requestId =>
      refine Kept.trace sound (swapInRequest_induction ?_ (Kept.refl sound) requestId)
      exact fun _ id kept => kept.trans (kept.sound.swapInSequence id)
  | publishPrefix sequenceId key => exact (sound.publishPrefix sequenceId key).trace sound
  | attachPrefix sequenceId key => exact (sound.attachPrefix sequenceId key).trace sound
  | releaseSequence sequenceId => exact (sound.releaseSequence sequenceId).trace sound
  | releaseRequest requestId =>
      refine Kept.trace sound (releaseRequest_induction ?_ (Kept.refl sound) requestId)
      exact fun _ id kept => kept.trans (kept.sound.releaseSequence id)

/-- The log tells the bytes of a slot that only one value was recorded for. -/
theorem lookup_evictions {log rest : List (SwapSlotId × Option (List UInt8))} {slot : SwapSlotId}
    {bytes : Option (List UInt8)} (recorded : (slot, bytes) ∈ log)
    (only : ∀ other, (slot, other) ∈ log → other = bytes) :
    (log ++ rest).lookup slot = some bytes := by
  induction log with
  | nil => simp at recorded
  | cons eviction log induction =>
      obtain ⟨head, value⟩ := eviction
      rw [List.cons_append, List.lookup_cons]
      by_cases same : slot = head
      · subst same
        simp only [beq_self_eq_true]
        rw [only value List.mem_cons_self]
      · simp only [beq_eq_false_iff_ne.mpr same]
        refine induction ?_ fun other member => only other (List.mem_cons_of_mem _ member)
        rcases List.mem_cons.mp recorded with equal | later
        · exact absurd (Prod.mk.inj equal).1 same
        · exact later

theorem lookup_append_of_absent {log rest : List (SwapSlotId × Option (List UInt8))}
    {slot : SwapSlotId} (absent : ∀ bytes, (slot, bytes) ∉ log) :
    (log ++ rest).lookup slot = rest.lookup slot := by
  induction log with
  | nil => rfl
  | cons eviction log induction =>
      obtain ⟨head, value⟩ := eviction
      have different : slot ≠ head := fun same => absent value (same ▸ List.mem_cons_self)
      rw [List.cons_append, List.lookup_cons]
      simp only [beq_eq_false_iff_ne.mpr different]
      exact induction fun bytes member => absent bytes (List.mem_cons_of_mem _ member)

theorem mem_evictedBy {before after : KVCacheManager} {slot : SwapSlotId}
    {bytes : Option (List UInt8)} :
    (slot, bytes) ∈ evictedBy before after ↔
      slot ∉ before.allocator.residentKeys ∧ ∃ entry ∈ after.liveEntries,
        entry.swapSlot = some slot ∧ before.allocator.frameBytes entry.physicalId = bytes := by
  simp only [evictedBy, List.mem_filter, List.mem_filterMap, Option.map_eq_some_iff,
    decide_eq_true_eq, Prod.mk.injEq]
  constructor
  · rintro ⟨⟨entry, member, other, swapped, rfl, rfl⟩, outside⟩
    exact ⟨outside, entry, member, swapped, rfl⟩
  · rintro ⟨outside, entry, member, swapped, rfl⟩
    exact ⟨⟨entry, member, slot, swapped, rfl, rfl⟩, outside⟩

theorem logged_step {before after : KVCacheManager} (traced : Traced before after)
    {log : List (SwapSlotId × Option (List UInt8))} (logged : before.Logged log) :
    after.Logged (evictedBy before after ++ log) := by
  intro entry member slot swapped
  rcases traced entry member slot swapped with ⟨held, old, bytes⟩ | ⟨outside, bytes⟩
  · rw [lookup_append_of_absent fun _ recorded => (mem_evictedBy.mp recorded).1 held,
      logged entry old slot swapped, bytes]
  · refine lookup_evictions (mem_evictedBy.mpr ⟨outside, entry, member, swapped, bytes.symm⟩) ?_
    intro other recorded
    obtain ⟨-, entry', member', swapped', rfl⟩ := mem_evictedBy.mp recorded
    rcases traced entry' member' slot swapped' with ⟨held, -⟩ | ⟨-, bytes'⟩
    · exact absurd held outside
    · exact bytes'.symm

theorem logged_run {manager : KVCacheManager} (sound : manager.Sound)
    {log : List (SwapSlotId × Option (List UInt8))} (logged : manager.Logged log)
    (ops : List CacheOp) : (manager.run ops).Logged (evictionLog manager log ops) := by
  induction ops generalizing manager log with
  | nil => exact logged
  | cons op ops induction =>
      exact induction (sound_step sound op) (logged_step (traced_step sound op) logged)


/-! ## Restoring a list of sequences -/

/-- Blocks of one sequence, table by table. -/
def entriesAt (manager : KVCacheManager) (id : SequenceId) : List BlockTableEntry :=
  match manager.sequences.lookup id with
  | none => []
  | some state => state.tables.flatMap (·.entries)

/-- Swapped-out blocks of a list of sequences. -/
def swappedEntries (manager : KVCacheManager) (ids : List SequenceId) : List BlockTableEntry :=
  (ids.flatMap manager.entriesAt).filter fun entry => entry.swapSlot.isSome

theorem slotsAt_eq (manager : KVCacheManager) (id : SequenceId) :
    manager.slotsAt id = slotsOf (manager.entriesAt id) := by
  unfold slotsAt entriesAt
  cases manager.sequences.lookup id <;> rfl

theorem slotsOf_filter (entries : List BlockTableEntry) :
    slotsOf (entries.filter fun entry => entry.swapSlot.isSome) = slotsOf entries := by
  induction entries with
  | nil => rfl
  | cons entry entries induction =>
      cases slot_eq : entry.swapSlot <;> simp_all [slotsOf]

theorem length_slotsOf (entries : List BlockTableEntry) :
    (slotsOf entries).length = entries.countP fun entry => entry.swapSlot.isSome := by
  induction entries with
  | nil => rfl
  | cons entry entries induction =>
      cases slot_eq : entry.swapSlot <;> simp_all [slotsOf]

theorem slotsOf_swappedEntries (manager : KVCacheManager) (ids : List SequenceId) :
    slotsOf (manager.swappedEntries ids) = ids.flatMap manager.slotsAt := by
  rw [swappedEntries, slotsOf_filter]
  induction ids with
  | nil => rfl
  | cons id ids induction =>
      rw [List.flatMap_cons, slotsOf_append, induction, List.flatMap_cons, slotsAt_eq]

theorem length_swappedEntries (manager : KVCacheManager) (ids : List SequenceId) :
    (manager.swappedEntries ids).length = (ids.flatMap manager.slotsAt).length := by
  rw [← slotsOf_swappedEntries, swappedEntries, slotsOf_filter, length_slotsOf,
    List.countP_eq_length_filter]

theorem swappedBlocks_eq {manager : KVCacheManager} {id : SequenceId} {state : SequenceState}
    (found : manager.sequences.lookup id = some state) :
    swappedBlocks state.tables = wrap32 (manager.slotsAt id).length := by
  rw [swappedBlocks, slotsAt_of_lookup found, length_slotsOf]

theorem swappedBlocksOf_eq (manager : KVCacheManager) (ids : List SequenceId) :
    manager.swappedBlocksOf ids = wrap32 (ids.flatMap manager.slotsAt).length := by
  rw [swappedBlocksOf, List.length_flatMap]
  congr 3
  funext id
  unfold slotsAt
  cases manager.sequences.lookup id with
  | none => rfl
  | some state => exact (length_slotsOf _).symm

/-- What restoring a list of sequences does when no call fails. -/
structure SequencesRestored (before after : KVCacheManager) (ids : List SequenceId)
    (moves : List (SwapSlotId × PhysicalBlockId)) : Prop where
  effect : Restorations before.allocator after.allocator moves
  others : ∀ id, id ∉ ids → after.sequences.lookup id = before.sequences.lookup id
  tables : ∀ id ∈ ids, ∀ state, before.sequences.lookup id = some state →
    ∃ state', after.sequences.lookup id = some state' ∧
      List.Forall₂ (TableRestored moves) state.tables state'.tables
  resident : ∀ id ∈ ids, after.slotsAt id = []
  slots : (ids.flatMap before.slotsAt).Perm (moves.map Prod.fst)

theorem sequencesRestored_refl {manager : KVCacheManager} (sound : manager.Sound)
    {ids : List SequenceId} (resident : ∀ id ∈ ids, manager.slotsAt id = []) :
    SequencesRestored manager manager ids [] := by
  refine ⟨Restorations.refl sound.pool, fun _ _ => rfl, ?_, resident, ?_⟩
  · exact fun id _ state found => ⟨state, found, tablesRestored_refl [] state.tables⟩
  · rw [List.flatMap_eq_nil_iff.mpr resident]
    rfl

/-- A sequence whose swapped-out blocks fit the free frames is restored. -/
theorem swapInSequence_restores {manager : KVCacheManager} (sound : manager.Sound)
    {id : SequenceId} {state : SequenceState} (found : manager.sequences.lookup id = some state)
    (enough : (manager.slotsAt id).length ≤ manager.allocator.freeList.length) :
    ∃ moves after, manager.swapInSequence id = (true, after) ∧
      SequencesRestored manager after [id] moves := by
  have small : (manager.slotsAt id).length < 2 ^ 32 :=
    (enough.trans sound.pool.free_length_le).trans_lt manager.allocator.config.maxBlocks_lt
  have needed := swappedBlocks_eq found
  rw [wrap32_of_lt small] at needed
  by_cases none_swapped : (manager.slotsAt id).length = 0
  · refine ⟨[], manager, ?_, sequencesRestored_refl sound ?_⟩
    · simp [swapInSequence, found, needed, none_swapped]
    · intro other member
      rw [List.mem_singleton.mp member]
      exact List.length_eq_zero_iff.mp none_swapped
  · have held := (sound.split id).front
    rw [slotsAt_of_lookup found] at held
    obtain ⟨restored, moves, allocator, tables, run_eq, effect, related, ended⟩ :=
      swapInTables_restores sound.pool state.tables
        (fun table member => (sound.regular id state found table member).indexed) held
    have through : restored = true := by
      cases restored with
      | true => rfl
      | false =>
          -- The loop would have used up all the frames without having run out of blocks.
          obtain ⟨empty, left⟩ := ended.stopped rfl
          have lengths := effect.slots.length_eq
          have frames := congrArg List.length effect.effect.freeList
          rw [slotsAt_of_lookup found] at enough
          rw [empty] at frames
          have some_left := List.length_pos_iff.mpr left
          simp only [List.length_append, List.length_map, List.length_nil] at lengths frames
          omega
    subst through
    refine ⟨moves, { manager with
        allocator
        sequences := manager.sequences.insert id { state with tables } }, ?_,
      effect.effect, ?_, ?_, ?_, ?_⟩
    · simp [swapInSequence, found, needed, none_swapped, MemoryAllocator.canAllocate, enough,
        run_eq]
    · intro other outside
      exact AList.lookup_insert_ne (by simpa using outside)
    · intro other member state' lookup
      rw [List.mem_singleton.mp member] at lookup ⊢
      obtain rfl := Option.some.inj (found.symm.trans lookup)
      exact ⟨_, AList.lookup_insert _, related⟩
    · intro other member
      rw [List.mem_singleton.mp member, slotsAt_of_lookup (AList.lookup_insert _)]
      exact ended.done rfl
    · have same := effect.slots
      rw [ended.done rfl, List.append_nil] at same
      simpa [slotsAt_of_lookup found] using same

theorem slotsAt_congr {before after : KVCacheManager} {id : SequenceId}
    (same : after.sequences.lookup id = before.sequences.lookup id) :
    after.slotsAt id = before.slotsAt id := by
  unfold slotsAt
  rw [same]

theorem TableRestored.trans_unmoved {first second third : List BlockTable}
    {moves moves' : List (SwapSlotId × PhysicalBlockId)}
    (left : List.Forall₂ (TableRestored moves) first second) (same : third = second) :
    List.Forall₂ (TableRestored (moves ++ moves')) first third := by
  subst same
  exact left.imp fun _ _ => TableRestored.mono (List.subset_append_left _ _)

/-- Distinct sequences whose swapped-out blocks together fit the free frames are all restored. -/
theorem swapInSequences_restores {manager : KVCacheManager} (sound : manager.Sound)
    {ids : List SequenceId} (distinct : ids.Nodup)
    (known : ∀ id ∈ ids, ∃ state, manager.sequences.lookup id = some state)
    (enough : (ids.flatMap manager.slotsAt).length ≤ manager.allocator.freeList.length) :
    ∃ moves after, manager.swapInSequences ids = (true, after) ∧
      SequencesRestored manager after ids moves := by
  induction ids generalizing manager with
  | nil => exact ⟨[], manager, rfl, sequencesRestored_refl sound (by simp)⟩
  | cons id ids induction =>
      obtain ⟨fresh, tail_distinct⟩ := List.nodup_cons.mp distinct
      rw [List.flatMap_cons, List.length_append] at enough
      obtain ⟨state, found⟩ := known id List.mem_cons_self
      obtain ⟨moves, middle, head_eq, head⟩ := swapInSequence_restores sound found (by omega)
      have middle_sound : middle.Sound := by
        have kept := (sound.swapInSequence id).sound
        rwa [head_eq] at kept
      have unmoved (other : SequenceId) (member : other ∈ ids) :
          middle.sequences.lookup other = manager.sequences.lookup other :=
        head.others other (by
          rw [List.mem_singleton]
          exact fun same => fresh (same ▸ member))
      have tail_slots : ids.flatMap middle.slotsAt = ids.flatMap manager.slotsAt :=
        List.flatMap_congr fun other member => slotsAt_congr (unmoved other member)
      have tail_enough : (ids.flatMap middle.slotsAt).length ≤
          middle.allocator.freeList.length := by
        have frames := congrArg List.length head.effect.freeList
        have lengths := head.slots.length_eq
        simp only [List.flatMap_cons, List.flatMap_nil, List.append_nil, List.length_append,
          List.length_map] at frames lengths
        rw [tail_slots]
        omega
      obtain ⟨moves', after, tail_eq, tail⟩ := induction middle_sound tail_distinct
        (fun other member => by
          rw [unmoved other member]
          exact known other (List.mem_cons_of_mem _ member)) tail_enough
      refine ⟨moves ++ moves', after, by simp only [swapInSequences, head_eq, tail_eq],
        head.effect.trans sound.pool tail.effect, ?_, ?_, ?_, ?_⟩
      · intro other outside
        simp only [List.mem_cons, not_or] at outside
        rw [tail.others other outside.2, head.others other (by simpa using outside.1)]
      · intro other member state' lookup
        rcases List.mem_cons.mp member with rfl | later
        · obtain ⟨state₁, lookup₁, related⟩ :=
            head.tables other (List.mem_singleton_self _) state' lookup
          exact ⟨state₁, (tail.others other fresh).trans lookup₁,
            TableRestored.trans_unmoved related rfl⟩
        · rw [← unmoved other later] at lookup
          obtain ⟨state₁, lookup₁, related⟩ := tail.tables other later state' lookup
          exact ⟨state₁, lookup₁, related.imp fun _ _ =>
            TableRestored.mono (List.subset_append_right _ _)⟩
      · intro other member
        rcases List.mem_cons.mp member with rfl | later
        · rw [slotsAt_congr (tail.others other fresh)]
          exact head.resident other (List.mem_singleton_self _)
        · exact tail.resident other later
      · rw [List.flatMap_cons, List.map_append, ← tail_slots]
        have first := head.slots
        simp only [List.flatMap_cons, List.flatMap_nil, List.append_nil] at first
        exact first.append tail.slots

/-! ## All or nothing -/

/-- A block before and after a restore: one that was swapped out is back in a frame of its own,
with the bytes it had when it was evicted. -/
structure BlockRestored (log : List (SwapSlotId × Option (List UInt8))) (after : KVCacheManager)
    (entry entry' : BlockTableEntry) : Prop where
  logical : entry'.logical = entry.logical
  unmoved : entry.swapSlot = none → entry' = entry
  moved : ∀ slot, entry.swapSlot = some slot → entry'.swapSlot = none ∧
    after.allocator.refCount entry'.physicalId = 1 ∧
    log.lookup slot = some (after.allocator.frameBytes entry'.physicalId)

/-- The result of restoring some sequences: success exactly if the free frames suffice, and then
every block is back and exactly the slots of these blocks are given up; otherwise no change. -/
structure AllOrNothing (log : List (SwapSlotId × Option (List UInt8))) (before : KVCacheManager)
    (ids : List SequenceId) (result : Bool × KVCacheManager) : Prop where
  decided : result.1 = true ↔
    (before.swappedEntries ids).length ≤ before.allocator.stats.freeBlocks
  restored : result.1 = true → ∀ id ∈ ids, ∀ state, before.sequences.lookup id = some state →
    ∃ state', result.2.sequences.lookup id = some state' ∧
      List.Forall₂ (fun table table' =>
        List.Forall₂ (BlockRestored log result.2) table.entries table'.entries)
        state.tables state'.tables
  slots : result.1 = true → ∀ slot, slot ∈ result.2.allocator.residentKeys ↔
    slot ∈ before.allocator.residentKeys ∧ slot ∉ slotsOf (before.swappedEntries ids)
  untouched : result.1 = false → result.2 = before

theorem mem_entriesAt {manager : KVCacheManager} {id : SequenceId} {state : SequenceState}
    (found : manager.sequences.lookup id = some state) {table : BlockTable}
    (table_mem : table ∈ state.tables) {entry : BlockTableEntry} (member : entry ∈ table.entries) :
    entry ∈ manager.entriesAt id := by
  rw [entriesAt, found]
  exact List.mem_flatMap.mpr ⟨table, table_mem, member⟩

/-- Everything came back, so the result is as promised. -/
theorem SequencesRestored.allOrNothing {before after : KVCacheManager} {ids : List SequenceId}
    {moves : List (SwapSlotId × PhysicalBlockId)} (sound : before.Sound)
    {log : List (SwapSlotId × Option (List UInt8))} (logged : before.Logged log)
    (restored : SequencesRestored before after ids moves)
    (enough : (ids.flatMap before.slotsAt).length ≤ before.allocator.freeList.length) :
    AllOrNothing log before ids (true, after) := by
  refine ⟨?_, fun _ => ?_, fun _ slot => ?_, by simp⟩
  · rw [length_swappedEntries, sound.pool.freeBlocks_eq]
    simpa using enough
  · intro id member state found
    obtain ⟨state', found', related⟩ := restored.tables id member state found
    refine ⟨state', found', ?_⟩
    rw [List.forall₂_iff_get] at related ⊢
    refine ⟨related.1, fun layer inside inside' => ?_⟩
    have table_related := (related.2 layer inside inside').entries
    rw [List.forall₂_iff_get] at table_related ⊢
    refine ⟨table_related.1, fun position within within' => ?_⟩
    have old := mem_entriesAt found (List.get_mem state.tables ⟨layer, inside⟩)
      (List.get_mem _ ⟨position, within⟩)
    have new := mem_entriesAt found' (List.get_mem state'.tables ⟨layer, inside'⟩)
      (List.get_mem _ ⟨position, within'⟩)
    have entry_related := table_related.2 position within within'
    generalize (state.tables.get ⟨layer, inside⟩).entries.get ⟨position, within⟩ = entry at *
    generalize (state'.tables.get ⟨layer, inside'⟩).entries.get ⟨position, within'⟩ = entry' at *
    have back : entry'.swapSlot = none := by
      have none_left := restored.resident id member
      rw [slotsAt_eq] at none_left
      exact List.filterMap_eq_nil_iff.mp none_left entry' new
    rcases entry_related with same | ⟨slot, frame, swapped, moved, changed⟩
    · refine ⟨by rw [same], fun _ => same, fun slot swapped => ?_⟩
      rw [same, swapped] at back
      simp at back
    · refine ⟨by rw [changed], fun resident => by simp [swapped] at resident, ?_⟩
      intro other swapped'
      obtain rfl := Option.some.inj (swapped.symm.trans swapped')
      have live : entry ∈ before.liveEntries := by
        rw [entriesAt, found] at old
        exact mem_liveEntries.mpr ⟨id, state, found, old⟩
      refine ⟨back, ?_, ?_⟩
      · rw [changed, restored.effect.refCount, if_pos (List.mem_map_of_mem moved)]
      · rw [logged entry live slot swapped, changed]
        exact congrArg some (restored.effect.loaded _ moved).symm
  · rw [restored.effect.mem_residentKeys, slotsOf_swappedEntries, restored.slots.mem_iff]

/-- Too many blocks, so nothing happened. -/
theorem AllOrNothing.refused {manager : KVCacheManager} (sound : manager.Sound)
    {log : List (SwapSlotId × Option (List UInt8))} {ids : List SequenceId}
    (short : manager.allocator.freeList.length < (ids.flatMap manager.slotsAt).length) :
    AllOrNothing log manager ids (false, manager) := by
  refine ⟨?_, by simp, by simp, fun _ => rfl⟩
  rw [length_swappedEntries, sound.pool.freeBlocks_eq]
  simpa using short

theorem swapInSequence_allOrNothing {manager : KVCacheManager} (sound : manager.Sound)
    {log : List (SwapSlotId × Option (List UInt8))} (logged : manager.Logged log)
    {id : SequenceId} {state : SequenceState} (found : manager.sequences.lookup id = some state)
    (counted : (manager.swappedEntries [id]).length < 2 ^ 32) :
    AllOrNothing log manager [id] (manager.swapInSequence id) := by
  have own : [id].flatMap manager.slotsAt = manager.slotsAt id := List.flatMap_singleton _ _
  rw [length_swappedEntries, own] at counted
  by_cases enough : (manager.slotsAt id).length ≤ manager.allocator.freeList.length
  · obtain ⟨moves, after, run_eq, restored⟩ := swapInSequence_restores sound found enough
    rw [run_eq]
    exact restored.allOrNothing sound logged (own ▸ enough)
  · have needed := swappedBlocks_eq found
    rw [wrap32_of_lt counted] at needed
    have refused : manager.swapInSequence id = (false, manager) := by
      have positive : (manager.slotsAt id).length ≠ 0 := by omega
      simp [swapInSequence, found, needed, positive, MemoryAllocator.canAllocate, enough]
    rw [refused]
    exact AllOrNothing.refused sound (own ▸ Nat.lt_of_not_le enough)

theorem swapInRequest_allOrNothing {manager : KVCacheManager} (sound : manager.Sound)
    (listed : manager.Listed) {log : List (SwapSlotId × Option (List UInt8))}
    (logged : manager.Logged log) (requestId : RequestId)
    (counted : (manager.swappedEntries (manager.sequencesFor requestId)).length < 2 ^ 32) :
    AllOrNothing log manager (manager.sequencesFor requestId)
      (manager.swapInRequest requestId) := by
  rw [length_swappedEntries] at counted
  have needed := swappedBlocksOf_eq manager (manager.sequencesFor requestId)
  rw [wrap32_of_lt counted] at needed
  by_cases enough : ((manager.sequencesFor requestId).flatMap manager.slotsAt).length ≤
      manager.allocator.freeList.length
  · obtain ⟨moves, after, run_eq, restored⟩ := swapInSequences_restores sound
      (listed.once requestId) (fun id member => by
        obtain ⟨state, found, -⟩ := (listed.members requestId id).mp member
        exact ⟨state, found⟩) enough
    have through : manager.swapInRequest requestId = (true, after) := by
      rw [swapInRequest]
      simp only [needed, MemoryAllocator.canAllocate, enough, decide_true, Bool.not_true,
        Bool.and_false, Bool.false_eq_true, if_false, run_eq]
    rw [through]
    exact restored.allOrNothing sound logged enough
  · have refused : manager.swapInRequest requestId = (false, manager) := by
      have positive : 0 < ((manager.sequencesFor requestId).flatMap manager.slotsAt).length := by
        omega
      rw [swapInRequest]
      simp only [needed, MemoryAllocator.canAllocate, enough, positive, decide_false, decide_true,
        Bool.not_false, Bool.and_true, if_true]
    rw [refused]
    exact AllOrNothing.refused sound (Nat.lt_of_not_le enough)

theorem logged_create (allocator : MemoryAllocator) : (create allocator).Logged [] := by
  intro entry member
  simp [create, liveEntries] at member

/-- In every reachable state with a host swap space, restoring a sequence or a request of fewer
than `2 ^ 32` swapped-out blocks is all or nothing. -/
theorem swap_in_all_or_nothing (config : AllocatorConfig) (slab : ℕ → UInt8) (maxSlots : ℕ)
    (ops : List CacheOp) :
    let manager := (fresh config slab maxSlots).run ops
    let log := evictionLog (fresh config slab maxSlots) [] ops
    (∀ id, manager.contains id = true → (manager.swappedEntries [id]).length < 2 ^ 32 →
        AllOrNothing log manager [id] (manager.swapInSequence id)) ∧
      ∀ requestId,
        (manager.swappedEntries (manager.sequencesFor requestId)).length < 2 ^ 32 →
        AllOrNothing log manager (manager.sequencesFor requestId)
          (manager.swapInRequest requestId) := by
  intro manager log
  obtain ⟨sound, listed⟩ := sound_listed_overPool config slab (some maxSlots) ops
  have logged : manager.Logged log :=
    logged_run (sound_listed_overPool config slab (some maxSlots) []).1 (logged_create _) ops
  refine ⟨fun id known counted => ?_, fun requestId counted =>
    swapInRequest_allOrNothing sound listed logged requestId counted⟩
  obtain ⟨state, found⟩ := Option.isSome_iff_exists.mp known
  exact swapInSequence_allOrNothing sound logged found counted

/-- A block is written and evicted; the restore brings it back. -/
theorem swap_in_all_or_nothing_single :
    let ops := [.createSequence ⟨1, 1⟩, .reserveTokens 1 1,
      .writeToken 1 0 0 [⟨.key, 0, 0, 0, [7]⟩], .swapOutSequence 1]
    let manager := (fresh singleConfig (fun _ => 0) 1).run ops
    let log := evictionLog (fresh singleConfig (fun _ => 0) 1) [] ops
    (manager.swappedEntries [1]).length = 1 ∧
      AllOrNothing log manager [1] (manager.swapInSequence 1) ∧
      AllOrNothing log manager (manager.sequencesFor 1) (manager.swapInRequest 1) := by
  intro ops manager log
  obtain ⟨one, all⟩ := swap_in_all_or_nothing singleConfig (fun _ => 0) 1 ops
  exact ⟨by decide +kernel, one 1 (by decide +kernel) (by decide +kernel),
    all 1 (by decide +kernel)⟩

theorem lookup_evicted (count : ℕ) : (evicted count).sequences.lookup 1 =
    some ⟨⟨1, 1⟩, [evictedTable count], "", 0⟩ := lookup_singleSequence _

theorem length_slotsAt_evicted (count : ℕ) : ((evicted count).slotsAt 1).length = count := by
  rw [slotsAt_of_lookup (lookup_evicted count), length_slotsOf, List.flatMap_singleton]
  simp [evictedTable, List.countP_map, Function.comp_def, evictedEntry]

/-- A count that starts over at zero is taken for nothing to do. -/
theorem not_allOrNothing_evicted {count : ℕ} (wraps : wrap32 count = 0) (positive : 1 < count)
    (log : List (SwapSlotId × Option (List UInt8))) :
    ¬ AllOrNothing log (evicted count) [1] ((evicted count).swapInSequence 1) := by
  intro promise
  have success : ((evicted count).swapInSequence 1).1 = true := by
    have needed := swappedBlocks_eq (lookup_evicted count)
    rw [length_slotsAt_evicted, wraps] at needed
    simp only [swapInSequence, lookup_evicted, needed, if_true]
  have enough := promise.decided.mp success
  rw [length_swappedEntries, List.flatMap_singleton, length_slotsAt_evicted] at enough
  have free : (evicted count).allocator.stats.freeBlocks = 1 := rfl
  omega

/-- With `2 ^ 32` swapped-out blocks the 32-bit count is zero: the call reports success without
having restored a block. -/
theorem swap_in_claims_success_past_counter :
    ∃ ops, let manager := (fresh singleConfig (fun _ => 0) (2 ^ 32)).run ops
      manager.contains 1 = true ∧
        ¬ AllOrNothing (evictionLog (fresh singleConfig (fun _ => 0) (2 ^ 32)) [] ops) manager [1]
          (manager.swapInSequence 1) := by
  have run_eq : (fresh singleConfig (fun _ => 0) (2 ^ 32)).run
      (.createSequence ⟨1, 1⟩ :: rounds (2 ^ 32)) = evicted (2 ^ 32) := by
    have rounds_eq := (run_rounds (2 ^ 32) 0 (by omega)).1
    rw [Nat.zero_add] at rounds_eq
    rw [run, Execution.run_cons, step_createSequence_single]
    exact rounds_eq
  refine ⟨.createSequence ⟨1, 1⟩ :: rounds (2 ^ 32), ?_, ?_⟩
  · rw [run_eq, contains, lookup_evicted]
    rfl
  · rw [run_eq]
    exact not_allOrNothing_evicted (by simp [wrap32]) (by norm_num) _

end KVCacheManager
end QwenVLPaged
