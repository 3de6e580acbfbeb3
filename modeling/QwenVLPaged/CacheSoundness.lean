import QwenVLPaged.CacheRun
import QwenVLPaged.SwapLoops

/-!
# What every cache state satisfies

`KVCacheManager.Sound` is what all the calls keep, also past the 32-bit counters: the pool is
sound, every table is indexed from zero on, and the slots of the swapped-out blocks are distinct
and held by the backend.
-/

namespace QwenVLPaged

namespace BlockTable

/-- Mapping an index inside the table replaces a block, mapping the next one appends it. -/
theorem Indexed.map_at {table : BlockTable} (indexed : table.Indexed) (logical : LogicalBlock)
    (inside : logical.index ≤ table.entries.length) (physicalId : PhysicalBlockId)
    (writable : Bool) :
    table.map logical physicalId writable =
      { table with
        entries := table.entries.take logical.index ++ ⟨logical, physicalId, writable, none⟩ ::
          table.entries.drop (logical.index + 1) } := by
  simp only [BlockTable.map, indexed.fromIndex, indexed.beforeIndex]
  cases found : table.entries[logical.index]? with
  | none =>
      have outside := List.getElem?_eq_none_iff.mp found
      rw [List.drop_of_length_le outside, List.drop_of_length_le (by omega)]
  | some head =>
      obtain ⟨within, equal⟩ := List.getElem?_eq_some_iff.mp found
      rw [List.drop_eq_getElem_cons within, equal]
      simp only [indexed logical.index head found, if_true]

/-- A table indexed from zero on, within the 32-bit logical indices. -/
structure Regular (table : BlockTable) : Prop where
  indexed : table.Indexed
  bounded : table.entries.length ≤ 2 ^ 32

theorem regular_create (sequenceId : SequenceId) : (create sequenceId).Regular :=
  ⟨indexed_create sequenceId, by simp [create]⟩

/-- Mapping a 32-bit index that is not behind the end. -/
theorem Regular.map {table : BlockTable} (regular : table.Regular) (logical : LogicalBlock)
    (inside : logical.index ≤ table.entries.length) (small : logical.index < 2 ^ 32)
    (physicalId : PhysicalBlockId) (writable : Bool) :
    (table.map logical physicalId writable).Regular ∧
      logical.index < (table.map logical physicalId writable).entries.length ∧
      (KVCacheManager.slotsOf (table.map logical physicalId writable).entries).Sublist
        (KVCacheManager.slotsOf table.entries) ∧
      ∀ entry ∈ (table.map logical physicalId writable).entries, entry.swapSlot ≠ none →
        entry ∈ table.entries := by
  rw [regular.indexed.map_at logical inside]
  have front : (table.entries.take logical.index).length = logical.index :=
    List.length_take_of_le inside
  have bounded := regular.bounded
  refine ⟨⟨?_, ?_⟩, ?_, ?_, ?_⟩
  · intro position found member
    rcases Nat.lt_trichotomy position logical.index with before | here | after
    · rw [List.getElem?_append_left (by omega), List.getElem?_take_of_lt before] at member
      exact regular.indexed position found member
    · rw [here, List.getElem?_append_right front.le, front, Nat.sub_self] at member
      rw [here, ← Option.some.inj member]
    · rw [List.getElem?_append_right (by omega), front] at member
      obtain ⟨distance, rfl⟩ : ∃ distance, position = logical.index + (distance + 1) :=
        ⟨position - logical.index - 1, by omega⟩
      rw [Nat.add_sub_cancel_left, List.getElem?_cons_succ, List.getElem?_drop] at member
      rw [regular.indexed _ found member]
      omega
  · simp only [List.length_append, front, List.length_cons, List.length_drop]
    omega
  · simp only [List.length_append, front, List.length_cons]
    omega
  · have split : table.entries = table.entries.take logical.index ++
        table.entries.drop logical.index := (List.take_append_drop _ _).symm
    rw [KVCacheManager.slotsOf_append]
    conv_rhs => rw [split, KVCacheManager.slotsOf_append]
    refine List.Sublist.append_left ?_ _
    have resident (back : List BlockTableEntry) : KVCacheManager.slotsOf
        (⟨logical, physicalId, writable, none⟩ :: back) = KVCacheManager.slotsOf back := rfl
    rw [resident]
    exact (List.drop_sublist_drop_left _ (Nat.le_succ _)).filterMap _
  · intro entry member swapped
    rcases List.mem_append.mp member with early | late
    · exact List.mem_of_mem_take early
    · rcases List.mem_cons.mp late with rfl | behind
      · exact absurd rfl swapped
      · exact List.mem_of_mem_drop behind

end BlockTable

namespace MemoryAllocator

/-- A sound pool over the same slots as before. -/
structure Undisturbed (before after : MemoryAllocator) : Prop where
  sound : after.Sound
  config : after.config = before.config
  backend : after.swapBackend = before.swapBackend

theorem Undisturbed.refl {allocator : MemoryAllocator} (sound : allocator.Sound) :
    Undisturbed allocator allocator := ⟨sound, rfl, rfl⟩

theorem Undisturbed.trans {first second third : MemoryAllocator}
    (left : Undisturbed first second) (right : Undisturbed second third) :
    Undisturbed first third :=
  ⟨right.sound, right.config.trans left.config, right.backend.trans left.backend⟩

theorem Undisturbed.residentKeys {before after : MemoryAllocator}
    (undisturbed : Undisturbed before after) : after.residentKeys = before.residentKeys := by
  simp [MemoryAllocator.residentKeys, undisturbed.backend]

theorem Undisturbed.slotBytes {before after : MemoryAllocator}
    (undisturbed : Undisturbed before after) (slot : SwapSlotId) :
    after.slotBytes slot = before.slotBytes slot := by
  simp [MemoryAllocator.slotBytes, undisturbed.backend]

theorem Sound.undisturbed_allocate {allocator after : MemoryAllocator} (sound : allocator.Sound)
    {id : PhysicalBlockId} (taken : allocator.allocate = (some id, after)) :
    Undisturbed allocator after := by
  obtain ⟨sound', effect⟩ := sound.allocate taken
  exact ⟨sound', effect.config, effect.backend⟩

theorem Sound.undisturbed_release {allocator : MemoryAllocator} (sound : allocator.Sound)
    (id : PhysicalBlockId) : Undisturbed allocator (allocator.release id) := by
  obtain ⟨sound', effect⟩ := sound.release id
  exact ⟨sound', effect.config, effect.backend⟩

theorem Sound.undisturbed_retain {allocator : MemoryAllocator} (sound : allocator.Sound)
    (id : PhysicalBlockId) : Undisturbed allocator (allocator.retain id) := by
  obtain ⟨sound', effect⟩ := sound.retain id
  exact ⟨sound', effect.config, effect.backend⟩

theorem Sound.undisturbed_copyBlock {allocator : MemoryAllocator} (sound : allocator.Sound)
    (source destination : PhysicalBlockId) :
    Undisturbed allocator (allocator.copyBlock source destination) := by
  cases source_eq : allocator.blocks[source]? with
  | none => simpa [MemoryAllocator.copyBlock, block, source_eq] using Undisturbed.refl sound
  | some src =>
      cases destination_eq : allocator.blocks[destination]? with
      | none =>
          simpa [MemoryAllocator.copyBlock, block, source_eq, destination_eq] using
            Undisturbed.refl sound
      | some dst =>
          have below (id : PhysicalBlockId) (found : PhysicalBlock)
              (found_eq : allocator.blocks[id]? = some found) :
              id < allocator.config.maxBlocks := by
            rw [← sound.blocks_length]
            exact (List.getElem?_eq_some_iff.mp found_eq).1
          obtain ⟨sound', effect⟩ := sound.copyBlock (below source src source_eq)
            (below destination dst destination_eq)
          exact ⟨sound', effect.config, effect.backend⟩

theorem Sound.undisturbed_writeFrame {allocator : MemoryAllocator} (sound : allocator.Sound)
    (id : PhysicalBlockId) {update : List UInt8 → List UInt8}
    (length : ∀ data, (update data).length = data.length) :
    Undisturbed allocator (allocator.writeFrame id update) := by
  cases found : allocator.blocks[id]? with
  | none =>
      have same : allocator.writeFrame id update = allocator := by
        rw [writeFrame, List.modify_eq_self (List.getElem?_eq_none_iff.mp found)]
      rw [same]
      exact Undisturbed.refl sound
  | some frame =>
      have inside : id < allocator.config.maxBlocks := by
        rw [← sound.blocks_length]
        exact (List.getElem?_eq_some_iff.mp found).1
      have as_set : allocator.writeFrame id update =
          { allocator with
            blocks := allocator.blocks.set id { frame with data := update frame.data } } := by
        simp [writeFrame, List.modify_eq_set_getElem?, found]
      rw [as_set]
      refine ⟨sound.set_block inside (sound.shapes id frame found) ?_ sound.slot_size
        sound.slots_below, rfl, rfl⟩
      rw [length]
      exact sound.frame_size id frame.data (by simp [frameBytes, block, found])

end MemoryAllocator

namespace KVCacheManager

open MemoryAllocator (Undisturbed)

theorem undisturbed_retainAll {allocator : MemoryAllocator} (sound : allocator.Sound)
    (ids : List PhysicalBlockId) : Undisturbed allocator (retainAll allocator ids) := by
  induction ids generalizing allocator with
  | nil => exact Undisturbed.refl sound
  | cons id ids induction =>
      have head := sound.undisturbed_retain id
      exact head.trans (induction head.sound)

theorem undisturbed_releaseAll {allocator : MemoryAllocator} (sound : allocator.Sound)
    (ids : List PhysicalBlockId) : Undisturbed allocator (releaseAll allocator ids) := by
  induction ids generalizing allocator with
  | nil => exact Undisturbed.refl sound
  | cons id ids induction =>
      have head := sound.undisturbed_release id
      exact head.trans (induction head.sound)

/-! ## Tables that are mapped over -/

/-- A regular table after blocks were mapped into it: the swapped-out blocks that are left are as
they were. -/
structure Remapped (table table' : BlockTable) : Prop where
  regular : table'.Regular
  slots : (slotsOf table'.entries).Sublist (slotsOf table.entries)
  kept : ∀ entry ∈ table'.entries, entry.swapSlot ≠ none → entry ∈ table.entries

theorem Remapped.refl {table : BlockTable} (regular : table.Regular) : Remapped table table :=
  ⟨regular, List.Sublist.refl _, fun _ member _ => member⟩

theorem Remapped.trans {first second third : BlockTable} (left : Remapped first second)
    (right : Remapped second third) : Remapped first third :=
  ⟨right.regular, right.slots.trans left.slots, fun entry member swapped =>
    left.kept entry (right.kept entry member swapped) swapped⟩

/-- The index behind the one just mapped, in 32 bits. -/
theorem wrap32_succ_le {index length : ℕ} (mapped : wrap32 index < length) :
    wrap32 (index + 1) ≤ length := by
  unfold wrap32 at mapped ⊢
  omega

theorem reserveBlocks_remaps (sequenceId : SequenceId) (tokensPerBlock baseIndex : ℕ)
    (remaining offset : ℕ) {allocator : MemoryAllocator} (sound : allocator.Sound)
    {table : BlockTable} (regular : table.Regular)
    (inside : wrap32 (baseIndex + offset) ≤ table.entries.length) :
    Undisturbed allocator (reserveBlocks sequenceId tokensPerBlock baseIndex remaining offset
        allocator table).2.1 ∧
      Remapped table (reserveBlocks sequenceId tokensPerBlock baseIndex remaining offset
        allocator table).2.2 := by
  induction remaining generalizing offset allocator table with
  | zero => exact ⟨Undisturbed.refl sound, Remapped.refl regular⟩
  | succ remaining induction =>
      rw [reserveBlocks]
      rcases taken_eq : allocator.allocate with ⟨_ | physical, after⟩
      · obtain ⟨-, rfl⟩ := MemoryAllocator.allocate_eq_none taken_eq
        exact ⟨Undisturbed.refl sound, Remapped.refl regular⟩
      · have taken := sound.undisturbed_allocate taken_eq
        obtain ⟨mapped_regular, mapped_inside, mapped⟩ := regular.map
          (logicalAt sequenceId table.cacheKind tokensPerBlock (wrap32 (baseIndex + offset))) inside (Nat.mod_lt _ (by norm_num)) physical true
        obtain ⟨later, remapped⟩ := induction (offset + 1) taken.sound mapped_regular
          (wrap32_succ_le mapped_inside)
        exact ⟨taken.trans later, Remapped.trans ⟨mapped_regular, mapped.1, mapped.2⟩ remapped⟩

theorem attachBlocks_remaps (sequenceId : SequenceId) (tokensPerBlock index : ℕ)
    (ids : List PhysicalBlockId) {allocator : MemoryAllocator} (sound : allocator.Sound)
    {table : BlockTable} (regular : table.Regular)
    (inside : wrap32 index ≤ table.entries.length) :
    Undisturbed allocator (attachBlocks sequenceId tokensPerBlock index ids allocator table).1 ∧
      Remapped table (attachBlocks sequenceId tokensPerBlock index ids allocator table).2 := by
  induction ids generalizing index allocator table with
  | nil => exact ⟨Undisturbed.refl sound, Remapped.refl regular⟩
  | cons physical ids induction =>
      have retained := sound.undisturbed_retain physical
      obtain ⟨mapped_regular, mapped_inside, mapped⟩ := regular.map
        ⟨sequenceId, wrap32 index, table.cacheKind, wrap32 (index * tokensPerBlock),
          tokensPerBlock⟩ inside (Nat.mod_lt _ (by norm_num)) physical false
      obtain ⟨later, remapped⟩ := induction (index + 1) retained.sound mapped_regular
        (wrap32_succ_le mapped_inside)
      exact ⟨retained.trans later, Remapped.trans ⟨mapped_regular, mapped.1, mapped.2⟩ remapped⟩

/-- All tables of a sequence after a call that added no slot. -/
structure TablesRemapped (tables tables' : List BlockTable) : Prop where
  regular : ∀ table ∈ tables', table.Regular
  slots : (slotsOf (tables'.flatMap (·.entries))).Sublist (slotsOf (tables.flatMap (·.entries)))
  kept : ∀ entry ∈ tables'.flatMap (·.entries), entry.swapSlot ≠ none →
    entry ∈ tables.flatMap (·.entries)

theorem TablesRemapped.refl {tables : List BlockTable}
    (regular : ∀ table ∈ tables, table.Regular) : TablesRemapped tables tables :=
  ⟨regular, List.Sublist.refl _, fun _ member _ => member⟩

theorem TablesRemapped.cons {table table' : BlockTable} {tables tables' : List BlockTable}
    (head : Remapped table table') (tail : TablesRemapped tables tables') :
    TablesRemapped (table :: tables) (table' :: tables') := by
  refine ⟨?_, ?_, ?_⟩
  · intro other member
    rcases List.mem_cons.mp member with rfl | inside
    · exact head.regular
    · exact tail.regular other inside
  · rw [List.flatMap_cons, List.flatMap_cons, slotsOf_append, slotsOf_append]
    exact head.slots.append tail.slots
  · intro entry member swapped
    rw [List.flatMap_cons] at member ⊢
    rcases List.mem_append.mp member with first | later
    · exact List.mem_append_left _ (head.kept entry first swapped)
    · exact List.mem_append_right _ (tail.kept entry later swapped)

theorem reserveTables_remaps (sequenceId : SequenceId) (tokensPerBlock blocks : ℕ)
    {allocator : MemoryAllocator} (sound : allocator.Sound) {tables : List BlockTable}
    (regular : ∀ table ∈ tables, table.Regular) :
    Undisturbed allocator (reserveTables sequenceId tokensPerBlock blocks allocator tables).2.1 ∧
      TablesRemapped tables
        (reserveTables sequenceId tokensPerBlock blocks allocator tables).2.2 := by
  induction tables generalizing allocator with
  | nil => exact ⟨Undisturbed.refl sound, TablesRemapped.refl (by simp)⟩
  | cons table tables induction =>
      have table_regular := regular table List.mem_cons_self
      have tail_regular := fun other member => regular other (List.mem_cons_of_mem table member)
      have start : wrap32 (wrap32 table.size + 0) ≤ table.entries.length := by
        simp only [wrap32, BlockTable.size]
        omega
      obtain ⟨head, remapped⟩ := reserveBlocks_remaps sequenceId tokensPerBlock
        (wrap32 table.size) blocks 0 sound table_regular start
      rw [reserveTables]
      rcases run_eq : reserveBlocks sequenceId tokensPerBlock (wrap32 table.size) blocks 0
        allocator table with ⟨_ | _, after, grown⟩
      · rw [run_eq] at head remapped
        exact ⟨head, TablesRemapped.cons remapped (TablesRemapped.refl tail_regular)⟩
      · rw [run_eq] at head remapped
        obtain ⟨later, others⟩ := induction head.sound tail_regular
        exact ⟨head.trans later, TablesRemapped.cons remapped others⟩

theorem attachTables_remaps (sequenceId : SequenceId) (tokensPerBlock idsPerTable : ℕ)
    (ids : List PhysicalBlockId) {allocator : MemoryAllocator} (sound : allocator.Sound)
    {tables : List BlockTable} (regular : ∀ table ∈ tables, table.Regular) :
    Undisturbed allocator
        (attachTables sequenceId tokensPerBlock idsPerTable ids allocator tables).1 ∧
      TablesRemapped tables
        (attachTables sequenceId tokensPerBlock idsPerTable ids allocator tables).2 := by
  induction tables generalizing allocator ids with
  | nil => exact ⟨Undisturbed.refl sound, TablesRemapped.refl (by simp)⟩
  | cons table tables induction =>
      obtain ⟨head, remapped⟩ := attachBlocks_remaps sequenceId tokensPerBlock 0
        (ids.take idsPerTable) sound (regular table List.mem_cons_self) (by simp [wrap32])
      obtain ⟨later, others⟩ := induction (ids.drop idsPerTable) head.sound
        (fun other member => regular other (List.mem_cons_of_mem _ member))
      exact ⟨head.trans later, TablesRemapped.cons remapped others⟩

end KVCacheManager

namespace KVCacheManager

open MemoryAllocator (Undisturbed)

/-! ## The invariant -/

/-- What holds of the cache after any calls. -/
structure Sound (manager : KVCacheManager) : Prop where
  pool : manager.allocator.Sound
  regular : ∀ id state, manager.sequences.lookup id = some state →
    ∀ table ∈ state.tables, table.Regular
  held : SlotsHeld manager.allocator (slotsOf manager.liveEntries)

/-- Slots of the blocks of one sequence. -/
def slotsAt (manager : KVCacheManager) (id : SequenceId) : List SwapSlotId :=
  match manager.sequences.lookup id with
  | none => []
  | some state => slotsOf (state.tables.flatMap (·.entries))

/-- Slots of the blocks of all the other sequences. -/
def slotsWithout (manager : KVCacheManager) (id : SequenceId) : List SwapSlotId :=
  slotsOf ((manager.sequences.erase id).gather fun _ state => state.tables.flatMap (·.entries))

theorem slotsAt_of_lookup {manager : KVCacheManager} {id : SequenceId} {state : SequenceState}
    (found : manager.sequences.lookup id = some state) :
    manager.slotsAt id = slotsOf (state.tables.flatMap (·.entries)) := by
  simp [slotsAt, found]

theorem slots_perm (manager : KVCacheManager) (id : SequenceId) :
    (slotsOf manager.liveEntries).Perm (manager.slotsAt id ++ manager.slotsWithout id) := by
  unfold slotsAt slotsWithout
  cases found : manager.sequences.lookup id with
  | none =>
      rw [AList.erase_of_lookup_none found]
      exact List.Perm.refl _
  | some state =>
      rw [← slotsOf_append]
      exact (AList.gather_perm_of_lookup
        (fun _ (state : SequenceState) => state.tables.flatMap (·.entries)) found).filterMap _

theorem Sound.split {manager : KVCacheManager} (sound : manager.Sound) (id : SequenceId) :
    SlotsHeld manager.allocator (manager.slotsAt id ++ manager.slotsWithout id) :=
  sound.held.perm (manager.slots_perm id)

/-- The slots of one sequence are exchanged for others; all the other slots stay held. -/
def SlotsKept (before after : MemoryAllocator) (slots slots' : List SwapSlotId) : Prop :=
  ∀ rest, SlotsHeld before (slots ++ rest) → SlotsHeld after (slots' ++ rest)

theorem slotsKept_of_sublist {before after : MemoryAllocator} {slots slots' : List SwapSlotId}
    (undisturbed : Undisturbed before after) (fewer : slots'.Sublist slots) :
    SlotsKept before after slots slots' := by
  intro rest held
  have sub := fewer.append_right rest
  refine ⟨?_, sub.nodup held.distinct⟩
  intro slot member
  rw [undisturbed.residentKeys]
  exact held.resident slot (sub.subset member)

theorem EntriesEvicted.slotsKept {before after : MemoryAllocator}
    {moves : List (PhysicalBlockId × SwapSlotId)} {entries entries' : List BlockTableEntry}
    (evicted : EntriesEvicted before after moves entries entries') :
    SlotsKept before after (slotsOf entries) (slotsOf entries') := by
  intro rest held
  have keys := evicted.effect.residentKeys
  have distinct := MemoryAllocator.residentKeys_nodup after
  rw [keys] at distinct
  obtain ⟨moves_distinct, -, apart⟩ := List.nodup_append.mp distinct
  have same : (slotsOf entries' ++ rest).Perm
      (moves.map Prod.snd ++ (slotsOf entries ++ rest)) := by
    rw [← List.append_assoc]
    exact evicted.slots.append_right rest
  have after_held : SlotsHeld after (moves.map Prod.snd ++ (slotsOf entries ++ rest)) := by
    refine ⟨?_, List.nodup_append.mpr ⟨List.nodup_reverse.mp moves_distinct, held.distinct, ?_⟩⟩
    · intro slot member
      rw [keys]
      rcases List.mem_append.mp member with moved | old
      · exact List.mem_append_left _ (List.mem_reverse.mpr moved)
      · exact List.mem_append_right _ (held.resident slot old)
    · intro slot moved other old
      exact apart slot (List.mem_reverse.mpr moved) other (held.resident other old)
  exact after_held.perm same.symm

theorem EntriesRestored.slotsKept {before after : MemoryAllocator}
    {moves : List (SwapSlotId × PhysicalBlockId)} {entries entries' : List BlockTableEntry}
    (restored : EntriesRestored before after moves entries entries') :
    SlotsKept before after (slotsOf entries) (slotsOf entries') := by
  intro rest held
  have split : (slotsOf entries ++ rest).Perm
      (moves.map Prod.fst ++ (slotsOf entries' ++ rest)) := by
    rw [← List.append_assoc]
    exact restored.slots.append_right rest
  exact (held.perm split).restored restored.effect

/-- A call that changes one sequence. -/
theorem Sound.insert {before after : KVCacheManager} (sound : before.Sound) {id : SequenceId}
    {state : SequenceState} (sequences : after.sequences = before.sequences.insert id state)
    (pool : after.allocator.Sound) (regular : ∀ table ∈ state.tables, table.Regular)
    (kept : SlotsKept before.allocator after.allocator (before.slotsAt id)
      (slotsOf (state.tables.flatMap (·.entries)))) : after.Sound := by
  refine ⟨pool, ?_, ?_⟩
  · intro other found member
    rw [AList.lookup_inserted sequences] at member
    split at member
    · exact Option.some.inj member ▸ regular
    · exact sound.regular other found member
  · have live : slotsOf after.liveEntries =
        slotsOf (state.tables.flatMap (·.entries)) ++ before.slotsWithout id := by
      simp [liveEntries, sequences, slotsWithout]
    rw [live]
    exact kept _ (sound.split id)

/-- A call after which every swapped-out block is one from before, with the bytes it had. -/
structure Kept (before after : KVCacheManager) : Prop where
  sound : after.Sound
  config : after.allocator.config = before.allocator.config
  traced : ∀ entry ∈ after.liveEntries, ∀ slot, entry.swapSlot = some slot →
    entry ∈ before.liveEntries ∧
      after.allocator.slotBytes slot = before.allocator.slotBytes slot

theorem Kept.refl {manager : KVCacheManager} (sound : manager.Sound) : Kept manager manager :=
  ⟨sound, rfl, fun _ member _ _ => ⟨member, rfl⟩⟩

theorem Kept.trans {first second third : KVCacheManager} (left : Kept first second)
    (right : Kept second third) : Kept first third := by
  refine ⟨right.sound, right.config.trans left.config, fun entry member slot swapped => ?_⟩
  obtain ⟨middle, bytes⟩ := right.traced entry member slot swapped
  obtain ⟨early, bytes'⟩ := left.traced entry middle slot swapped
  exact ⟨early, bytes.trans bytes'⟩

theorem mem_liveEntries {manager : KVCacheManager} {entry : BlockTableEntry} :
    entry ∈ manager.liveEntries ↔ ∃ id state, manager.sequences.lookup id = some state ∧
      entry ∈ state.tables.flatMap (·.entries) := by
  simp only [liveEntries, AList.mem_gather]

/-- The swapped-out blocks of one sequence come from its old blocks; nothing else changes. -/
theorem Sound.kept_insert {before after : KVCacheManager} {id : SequenceId}
    {state : SequenceState} (sound : after.Sound)
    (config : after.allocator.config = before.allocator.config)
    (sequences : after.sequences = before.sequences.insert id state)
    (own : ∀ entry ∈ state.tables.flatMap (·.entries), entry.swapSlot ≠ none →
      ∃ old, before.sequences.lookup id = some old ∧ entry ∈ old.tables.flatMap (·.entries))
    (bytes : ∀ slot ∈ slotsOf after.liveEntries,
      after.allocator.slotBytes slot = before.allocator.slotBytes slot) : Kept before after := by
  refine ⟨sound, config, fun entry member slot swapped => ⟨?_, bytes slot ?_⟩⟩
  · obtain ⟨other, found, lookup, inside⟩ := mem_liveEntries.mp member
    rw [AList.lookup_inserted sequences] at lookup
    split at lookup
    · rw [← Option.some.inj lookup] at inside
      obtain ⟨old, old_eq, old_mem⟩ := own entry inside (by simp [swapped])
      exact mem_liveEntries.mpr ⟨id, old, old_eq, old_mem⟩
    · exact mem_liveEntries.mpr ⟨other, found, lookup, inside⟩
  · exact List.mem_filterMap.mpr ⟨entry, member, swapped⟩

/-- A call that changes no sequence. -/
theorem Sound.of_undisturbed {before after : KVCacheManager} (sound : before.Sound)
    (sequences : after.sequences = before.sequences)
    (undisturbed : Undisturbed before.allocator after.allocator) : Kept before after := by
  have live : after.liveEntries = before.liveEntries := by simp [liveEntries, sequences]
  refine ⟨⟨undisturbed.sound, by rw [sequences]; exact sound.regular, ?_⟩, undisturbed.config, ?_⟩
  · have kept := slotsKept_of_sublist undisturbed (List.Sublist.refl (slotsOf before.liveEntries))
    rw [live]
    simpa using kept [] (by simpa using sound.held)
  · intro entry member slot _
    rw [live] at member
    exact ⟨member, undisturbed.slotBytes slot⟩

/-- A call that maps over the tables of one sequence. -/
theorem Sound.remapped {before after : KVCacheManager} (sound : before.Sound) {id : SequenceId}
    {state state' : SequenceState} (found : before.sequences.lookup id = some state)
    (sequences : after.sequences = before.sequences.insert id state')
    (undisturbed : Undisturbed before.allocator after.allocator)
    (remapped : TablesRemapped state.tables state'.tables) : Kept before after := by
  refine (sound.insert sequences undisturbed.sound remapped.regular ?_).kept_insert
    undisturbed.config sequences ?_ ?_
  · rw [slotsAt_of_lookup found]
    exact slotsKept_of_sublist undisturbed remapped.slots
  · exact fun entry member swapped => ⟨state, found, remapped.kept entry member swapped⟩
  · exact fun slot _ => undisturbed.slotBytes slot

/-- A call that opens a sequence without swapped blocks. -/
theorem Sound.opened {before after : KVCacheManager} (sound : before.Sound) {id : SequenceId}
    {state : SequenceState} (sequences : after.sequences = before.sequences.insert id state)
    (undisturbed : Undisturbed before.allocator after.allocator)
    (regular : ∀ table ∈ state.tables, table.Regular)
    (resident : slotsOf (state.tables.flatMap (·.entries)) = []) : Kept before after := by
  refine (sound.insert sequences undisturbed.sound regular ?_).kept_insert undisturbed.config
    sequences ?_ ?_
  · rw [resident]
    exact slotsKept_of_sublist undisturbed (List.nil_sublist _)
  · intro entry member swapped
    exact absurd (List.filterMap_eq_nil_iff.mp resident entry member) swapped
  · exact fun slot _ => undisturbed.slotBytes slot

/-! ## Every call -/

theorem Sound.createSequence {manager : KVCacheManager} (sound : manager.Sound)
    (metadata : SequenceMetadata) : Kept manager (manager.createSequence metadata).2 := by
  unfold KVCacheManager.createSequence
  split
  · exact Kept.refl sound
  · refine sound.opened rfl (Undisturbed.refl sound.pool) ?_ ?_
    · intro table member
      rw [(List.mem_replicate.mp member).2]
      exact BlockTable.regular_create _
    · have empty : (List.replicate manager.tableCount
          (BlockTable.create metadata.sequenceId)).flatMap (·.entries) = [] := by
        apply List.flatMap_eq_nil_iff.mpr
        intro table member
        rw [(List.mem_replicate.mp member).2]
        rfl
      rw [empty]
      rfl

theorem slotsOf_of_resident {tables : List BlockTable} (resident : anySwapped tables = false) :
    slotsOf (tables.flatMap (·.entries)) = [] := by
  apply List.filterMap_eq_nil_iff.mpr
  intro entry member
  obtain ⟨table, table_mem, entry_mem⟩ := List.mem_flatMap.mp member
  have whole := List.any_eq_false.mp resident table table_mem
  have one := List.any_eq_false.mp (Bool.not_eq_true _ ▸ whole) entry entry_mem
  simpa using one

theorem slotsOf_fork (tables : List BlockTable) (child : SequenceId) :
    slotsOf ((tables.map fun table => table.fork child).flatMap (·.entries)) =
      slotsOf (tables.flatMap (·.entries)) := by
  simp only [slotsOf, List.flatMap_map, BlockTable.fork, List.filterMap_flatMap,
    List.filterMap_map, Function.comp_def]

theorem Sound.forkSequence {manager : KVCacheManager} (sound : manager.Sound)
    (parentId : SequenceId) (childMetadata : SequenceMetadata) :
    Kept manager (manager.forkSequence parentId childMetadata).2 := by
  unfold KVCacheManager.forkSequence
  cases found : manager.sequences.lookup parentId with
  | none => exact Kept.refl sound
  | some parent =>
      simp only
      split
      · exact Kept.refl sound
      · split
        · exact Kept.refl sound
        · rename_i whole
          refine sound.opened rfl (undisturbed_retainAll sound.pool _) ?_ ?_
          · intro table member
            obtain ⟨source, source_mem, rfl⟩ := List.mem_map.mp member
            have regular := sound.regular parentId parent found source source_mem
            exact ⟨regular.indexed.fork _, by simpa [BlockTable.fork] using regular.bounded⟩
          · rw [slotsOf_fork]
            exact slotsOf_of_resident (by simpa using whole)

theorem Sound.reserveTokens {manager : KVCacheManager} (sound : manager.Sound)
    (sequenceId : SequenceId) (tokenCount : ℕ) :
    Kept manager (manager.reserveTokens sequenceId tokenCount).2 := by
  unfold KVCacheManager.reserveTokens
  cases found : manager.sequences.lookup sequenceId with
  | none => exact Kept.refl sound
  | some state =>
      simp only
      split
      · exact Kept.refl sound
      · split
        · exact Kept.refl sound
        · obtain ⟨undisturbed, remapped⟩ := reserveTables_remaps sequenceId manager.tokensPerBlock
            (blocksNeeded tokenCount manager.tokensPerBlock) sound.pool
            (sound.regular sequenceId state found)
          exact sound.remapped found rfl undisturbed remapped

/-- One entry of one table exchanged for one with the same logical block and the same slot. -/
theorem tablesRemapped_set {tables : List BlockTable} {layer index : ℕ} {table : BlockTable}
    {update : BlockTableEntry → BlockTableEntry} (regular : ∀ table ∈ tables, table.Regular)
    (table_eq : tables[layer]? = some table)
    (resident : ∀ entry, table.entries[index]? = some entry → entry.swapSlot = none)
    (logical : ∀ entry, (update entry).logical = entry.logical)
    (slot : ∀ entry, (update entry).swapSlot = entry.swapSlot) :
    TablesRemapped tables (tables.set layer (table.modifyEntry index update)) := by
  have table_regular := regular table (List.mem_of_getElem? table_eq)
  have written : table.modifyEntry index update =
      { table with entries := table.entries.modify index update } :=
    table_regular.indexed.modifyEntry_eq index update
  have slots : slotsOf (table.modifyEntry index update).entries = slotsOf table.entries := by
    have same : (table.entries.modify index update).map (·.swapSlot) =
        table.entries.map (·.swapSlot) := by
      apply List.ext_getElem?
      intro position
      simp only [List.getElem?_map, List.getElem?_modify, Option.map_eq_map, Option.map_map]
      congr 1
      funext entry
      simp only [Function.comp_apply]
      split
      · exact slot entry
      · rfl
    have flat (entries : List BlockTableEntry) :
        slotsOf entries = (entries.map (·.swapSlot)).filterMap id := by
      simp [slotsOf, List.filterMap_map]
    rw [written, flat, flat, same]
  refine ⟨?_, ?_, ?_⟩
  · intro other member
    rcases List.mem_or_eq_of_mem_set member with old | rfl
    · exact regular other old
    · rw [written]
      exact ⟨table_regular.indexed.modify index fun entry => by rw [logical],
        by simpa using table_regular.bounded⟩
  · have flat (list : List BlockTable) : slotsOf (list.flatMap (·.entries)) =
        (list.map fun table => slotsOf table.entries).flatten := by
      simp only [slotsOf, List.flatMap_def, List.filterMap_flatten, List.map_map]
      rfl
    have same : (tables.map fun table => slotsOf table.entries).set layer
        (slotsOf table.entries) = tables.map fun table => slotsOf table.entries := by
      apply List.ext_getElem?
      intro position
      rw [List.getElem?_set]
      split
      · rename_i here
        subst here
        obtain ⟨inside, equal⟩ := List.getElem?_eq_some_iff.mp table_eq
        simp [inside, equal]
      · rfl
    rw [flat, flat, List.map_set, slots, same]
  · intro entry member swapped
    obtain ⟨other, other_mem, entry_mem⟩ := List.mem_flatMap.mp member
    rcases List.mem_or_eq_of_mem_set other_mem with old | rfl
    · exact List.mem_flatMap.mpr ⟨other, old, entry_mem⟩
    · refine List.mem_flatMap.mpr ⟨table, List.mem_of_getElem? table_eq, ?_⟩
      rw [written] at entry_mem
      obtain ⟨position, found⟩ := List.mem_iff_getElem?.mp entry_mem
      simp only [List.getElem?_modify, Option.map_eq_map, Option.map_eq_some_iff] at found
      obtain ⟨old, old_eq, rfl⟩ := found
      split at swapped
      · rename_i here
        exact absurd ((slot old).trans (resident old (here ▸ old_eq))) swapped
      · rename_i elsewhere
        simpa [elsewhere] using List.mem_of_getElem? old_eq

theorem Sound.ensureTokenWritable {manager : KVCacheManager} (sound : manager.Sound)
    (sequenceId : SequenceId) (token layer : ℕ) :
    Kept manager (manager.ensureTokenWritable sequenceId token layer).2 := by
  unfold KVCacheManager.ensureTokenWritable
  cases found : manager.sequences.lookup sequenceId with
  | none => exact Kept.refl sound
  | some state =>
      simp only
      cases table_eq : state.tables[layer]? with
      | none => exact Kept.refl sound
      | some table =>
          have regular := sound.regular sequenceId state found
          have indexed := (regular table (List.mem_of_getElem? table_eq)).indexed
          have exchange (after : KVCacheManager) (index : ℕ) (frame : PhysicalBlockId)
              (entry : BlockTableEntry) (entry_eq : table.entry index = some entry)
              (resident : ¬ entry.swapSlot.isSome = true)
              (undisturbed : Undisturbed manager.allocator after.allocator)
              (sequences : after.sequences = manager.sequences.insert sequenceId
                { state with tables := state.tables.set layer (table.modifyEntry index fun entry =>
                  { entry with physicalId := frame, writable := true }) }) :
              Kept manager after :=
            sound.remapped found sequences undisturbed (tablesRemapped_set regular table_eq
              (by
                intro other other_eq
                rw [indexed.entry_eq, other_eq] at entry_eq
                simpa [Option.some.inj entry_eq] using resident)
              (fun _ => rfl) fun _ => rfl)
          simp only
          split
          · exact Kept.refl sound
          · split
            · exact Kept.refl sound
            · split
              · exact Kept.refl sound
              · split
                · exact Kept.refl sound
                · split
                  · exact Kept.refl sound
                  · rename_i entry entry_eq resident _ _ _
                    split
                    · exact exchange _ _ _ entry entry_eq resident (Undisturbed.refl sound.pool) rfl
                    · rcases taken_eq : manager.allocator.allocate with ⟨_ | copy, taken⟩
                      · obtain ⟨-, rfl⟩ := MemoryAllocator.allocate_eq_none taken_eq
                        exact Kept.refl sound
                      · have first := sound.pool.undisturbed_allocate taken_eq
                        have second := first.trans
                          (first.sound.undisturbed_copyBlock entry.physicalId copy)
                        exact exchange _ _ _ entry entry_eq resident
                          (second.trans (second.sound.undisturbed_release entry.physicalId)) rfl

theorem Sound.writeToken {manager : KVCacheManager} (sound : manager.Sound)
    (sequenceId : SequenceId) (token layer : ℕ) (stores : List TokenStore) :
    Kept manager (manager.writeToken sequenceId token layer stores).2 := by
  have ensured := sound.ensureTokenWritable sequenceId token layer
  unfold KVCacheManager.writeToken
  rcases run_eq : manager.ensureTokenWritable sequenceId token layer with ⟨_ | frame, after⟩
  · rwa [run_eq] at ensured
  · rw [run_eq] at ensured
    exact ensured.trans (ensured.sound.of_undisturbed rfl
      (ensured.sound.pool.undisturbed_writeFrame frame
        fun data => storeTokens_length _ _ data stores))

theorem regular_relocated {before after : MemoryAllocator} {tables tables' : List BlockTable}
    (regular : ∀ table ∈ tables, table.Regular)
    (relocated : TablesRelocated before after tables tables') :
    ∀ table ∈ tables', table.Regular := by
  intro table member
  have owner_mem := List.mem_map_of_mem (f := fun table : BlockTable =>
    (table.sequenceId, table.cacheKind, table.entries.length)) member
  rw [relocated.owners] at owner_mem
  obtain ⟨source, source_mem, same⟩ := List.mem_map.mp owner_mem
  have lengths : source.entries.length = table.entries.length := congrArg (·.2.2) same
  exact ⟨relocated.indexed table member, lengths ▸ (regular source source_mem).bounded⟩

theorem Sound.swapOutSequence {manager : KVCacheManager} (sound : manager.Sound)
    (sequenceId : SequenceId) : (manager.swapOutSequence sequenceId).2.Sound := by
  unfold KVCacheManager.swapOutSequence
  cases found : manager.sequences.lookup sequenceId with
  | none => exact sound
  | some state =>
      have regular := sound.regular sequenceId state found
      have indexed := fun table member => (regular table member).indexed
      obtain ⟨moves, after, tables, run_eq, evicted⟩ :=
        swapOutTables_evicts sound.pool state.tables indexed
      obtain ⟨_, _, _, again, relocated⟩ :=
        swapOutTables_spec manager.allocator state.tables indexed
      obtain ⟨-, tables_eq⟩ := Prod.mk.inj (Prod.mk.inj (again.symm.trans run_eq)).2
      subst tables_eq
      simp only [run_eq]
      refine sound.insert rfl evicted.effect.sound (regular_relocated regular relocated) ?_
      rw [slotsAt_of_lookup found]
      exact evicted.slotsKept

/-- A block that is swapped out after the restoring loop was not touched. -/
theorem EntriesRestored.unmoved {before after : MemoryAllocator}
    {moves : List (SwapSlotId × PhysicalBlockId)} {entries entries' : List BlockTableEntry}
    (restored : EntriesRestored before after moves entries entries') {entry : BlockTableEntry}
    (member : entry ∈ entries') (swapped : entry.swapSlot ≠ none) : entry ∈ entries := by
  obtain ⟨position, inside, entry_eq⟩ := List.mem_iff_getElem.mp member
  have within : position < entries.length := restored.blocks.length_eq ▸ inside
  have related := (List.forall₂_iff_get.mp restored.blocks).2 position within inside
  rw [List.get_eq_getElem, List.get_eq_getElem, entry_eq] at related
  rcases related with same | ⟨slot, id, -, -, changed⟩
  · rw [same]
    exact List.getElem_mem within
  · exact absurd (by rw [changed]) swapped

theorem Sound.swapInSequence {manager : KVCacheManager} (sound : manager.Sound)
    (sequenceId : SequenceId) : Kept manager (manager.swapInSequence sequenceId).2 := by
  unfold KVCacheManager.swapInSequence
  cases found : manager.sequences.lookup sequenceId with
  | none => exact Kept.refl sound
  | some state =>
      have regular := sound.regular sequenceId state found
      have indexed := fun table member => (regular table member).indexed
      have held := (sound.split sequenceId).front
      rw [slotsAt_of_lookup found] at held
      obtain ⟨restored, moves, after, tables, run_eq, effect, -, -⟩ :=
        swapInTables_restores sound.pool state.tables indexed held
      obtain ⟨_, _, _, again, relocated, -⟩ :=
        swapInTables_spec manager.allocator state.tables indexed
      obtain ⟨-, tables_eq⟩ := Prod.mk.inj (Prod.mk.inj (again.symm.trans run_eq)).2
      subst tables_eq
      simp only
      split
      · exact Kept.refl sound
      · split
        · exact Kept.refl sound
        · simp only [run_eq]
          have kept := effect.slotsKept
          rw [← slotsAt_of_lookup found] at kept
          refine (sound.insert rfl effect.effect.sound (regular_relocated regular relocated)
            kept).kept_insert effect.effect.config rfl ?_ ?_
          · intro entry member swapped
            exact ⟨state, found, effect.unmoved member swapped⟩
          · intro slot member
            rw [effect.effect.slotBytes, if_neg]
            -- The restored slots belong to nobody any more.
            have held := sound.split sequenceId
            rw [slotsAt_of_lookup found] at held
            have split := (held.perm (effect.slots.append_right _)).distinct
            rw [List.append_assoc] at split
            intro moved
            refine (List.nodup_append.mp split).2.2 slot moved slot ?_ rfl
            simpa [liveEntries, slotsWithout] using member

theorem Sound.dropPrefixUser {manager : KVCacheManager} (sound : manager.Sound)
    (state : SequenceState) :
    Undisturbed manager.allocator (manager.dropPrefixUser state).1.allocator := by
  simp only [KVCacheManager.dropPrefixUser]
  repeat' split
  all_goals first
    | exact Undisturbed.refl sound.pool
    | exact undisturbed_releaseAll sound.pool _

/-- Giving back the blocks of a sequence gives up its slots and no others. -/
theorem slotsHeld_releaseEntries {allocator : MemoryAllocator} (sound : allocator.Sound)
    (entries : List BlockTableEntry) {rest : List SwapSlotId}
    (held : SlotsHeld allocator (slotsOf entries ++ rest)) :
    (entries.foldl releaseEntry allocator).Sound ∧
      (entries.foldl releaseEntry allocator).config = allocator.config ∧
      SlotsHeld (entries.foldl releaseEntry allocator) rest ∧
      ∀ slot ∈ rest, (entries.foldl releaseEntry allocator).slotBytes slot =
        allocator.slotBytes slot := by
  induction entries generalizing allocator with
  | nil => exact ⟨sound, rfl, held, fun _ _ => rfl⟩
  | cons entry entries induction =>
      rw [List.foldl_cons]
      cases slot_eq : entry.swapSlot with
      | none =>
          have released := sound.undisturbed_release entry.physicalId
          have resident : slotsOf (entry :: entries) = slotsOf entries := by
            simp [slotsOf, slot_eq]
          rw [resident] at held
          have kept := slotsKept_of_sublist released (List.Sublist.refl (slotsOf entries))
          rw [show releaseEntry allocator entry = allocator.release entry.physicalId by
            simp [releaseEntry, slot_eq]]
          obtain ⟨pool, config, left, bytes⟩ := induction released.sound (kept rest held)
          exact ⟨pool, config.trans released.config, left,
            fun slot member => (bytes slot member).trans (released.slotBytes slot)⟩
      | some slot =>
          have swapped : slotsOf (entry :: entries) = slot :: slotsOf entries := by
            simp [slotsOf, slot_eq]
          rw [swapped, List.cons_append] at held
          obtain ⟨fresh, distinct⟩ := List.nodup_cons.mp held.distinct
          rw [show releaseEntry allocator entry = allocator.discardSwapped slot by
            simp [releaseEntry, slot_eq]]
          have others : SlotsHeld (allocator.discardSwapped slot) (slotsOf entries ++ rest) := by
            refine ⟨fun other member => ?_, distinct⟩
            rw [MemoryAllocator.residentKeys_discardSwapped]
            refine (List.mem_erase_of_ne ?_).mpr
              (held.resident other (List.mem_cons_of_mem _ member))
            exact fun same => fresh (same ▸ member)
          obtain ⟨pool, config, left, bytes⟩ := induction (sound.discardSwapped slot) others
          refine ⟨pool, config, left, fun other member => ?_⟩
          have different : other ≠ slot := fun same =>
            fresh (List.mem_append_right _ (same ▸ member))
          rw [bytes other member, MemoryAllocator.slotBytes_discardSwapped, if_neg different]

theorem Sound.releaseSequence {manager : KVCacheManager} (sound : manager.Sound)
    (sequenceId : SequenceId) : Kept manager (manager.releaseSequence sequenceId) := by
  unfold KVCacheManager.releaseSequence
  cases found : manager.sequences.lookup sequenceId with
  | none => exact Kept.refl sound
  | some state =>
      have dropped := sound.dropPrefixUser state
      have split := sound.split sequenceId
      rw [slotsAt_of_lookup found] at split
      have kept := slotsKept_of_sublist dropped
        (List.Sublist.refl (slotsOf (state.tables.flatMap (·.entries))))
      obtain ⟨pool, config, held, bytes⟩ :=
        slotsHeld_releaseEntries dropped.sound _ (kept _ split)
      have sequences : (manager.dropPrefixUser state).1.sequences = manager.sequences :=
        sequences_dropPrefixUser manager state
      refine ⟨⟨by simpa using pool, ?_, ?_⟩, by simpa using config.trans dropped.config, ?_⟩
      · intro other found' member
        simp only [unindexSequence_sequences, sequences] at member
        by_cases same : other = sequenceId
        · subst same
          simp at member
        · rw [AList.lookup_erase_ne same] at member
          exact sound.regular other found' member
      · simpa [liveEntries, sequences, slotsWithout] using held
      · intro entry member slot swapped
        have others : entry ∈ (manager.sequences.erase sequenceId).gather
            fun _ state => state.tables.flatMap (·.entries) := by
          simpa [liveEntries, sequences] using member
        have without : slot ∈ manager.slotsWithout sequenceId :=
          List.mem_filterMap.mpr ⟨entry, others, swapped⟩
        refine ⟨?_, ?_⟩
        · exact (AList.gather_perm_of_lookup
            (fun _ (state : SequenceState) => state.tables.flatMap (·.entries))
            found).mem_iff.mpr (List.mem_append_right _ others)
        · simp only [unindexSequence_allocator]
          rw [bytes slot without, dropped.slotBytes]

theorem Sound.publishPrefix {manager : KVCacheManager} (sound : manager.Sound)
    (sequenceId : SequenceId) (key : String) :
    Kept manager (manager.publishPrefix sequenceId key).2 := by
  simp only [KVCacheManager.publishPrefix]
  split
  · exact Kept.refl sound
  · cases found : manager.sequences.lookup sequenceId with
    | none => exact Kept.refl sound
    | some state =>
        have same := TablesRemapped.refl (sound.regular sequenceId state found)
        simp only
        repeat' split
        all_goals first
          | exact Kept.refl sound
          | exact sound.remapped found rfl (Undisturbed.refl sound.pool) same
          | exact sound.remapped found rfl (undisturbed_retainAll sound.pool _) same

theorem Sound.attachPrefix {manager : KVCacheManager} (sound : manager.Sound)
    (sequenceId : SequenceId) (key : String) :
    Kept manager (manager.attachPrefix sequenceId key).2 := by
  simp only [KVCacheManager.attachPrefix]
  split
  · exact Kept.refl sound
  · cases found : manager.sequences.lookup sequenceId with
    | none => exact Kept.refl sound
    | some state =>
        simp only
        split
        · exact Kept.refl sound
        · split
          · split
            · exact Kept.refl sound
            · split
              · exact Kept.refl sound
              · rename_i record _ _ _
                obtain ⟨undisturbed, remapped⟩ := attachTables_remaps sequenceId
                  manager.tokensPerBlock (record.physicalIds.length / state.tables.length)
                  record.physicalIds sound.pool (sound.regular sequenceId state found)
                exact sound.remapped found rfl undisturbed remapped
          · exact Kept.refl sound

theorem sound_step {manager : KVCacheManager} (sound : manager.Sound) (op : CacheOp) :
    (manager.step op).Sound := by
  cases op with
  | createSequence metadata => exact (sound.createSequence metadata).sound
  | forkSequence parentId childMetadata => exact (sound.forkSequence parentId childMetadata).sound
  | reserveTokens sequenceId tokenCount => exact (sound.reserveTokens sequenceId tokenCount).sound
  | ensureTokenWritable sequenceId token layer =>
      exact (sound.ensureTokenWritable sequenceId token layer).sound
  | writeToken sequenceId token layer stores =>
      exact (sound.writeToken sequenceId token layer stores).sound
  | swapOutSequence sequenceId => exact sound.swapOutSequence sequenceId
  | swapOutRequest requestId =>
      exact swapOutSequences_induction (fun _ id holds => holds.swapOutSequence id) sound _
  | swapInSequence sequenceId => exact (sound.swapInSequence sequenceId).sound
  | swapInRequest requestId =>
      exact swapInRequest_induction (fun _ id holds => (holds.swapInSequence id).sound) sound
        requestId
  | publishPrefix sequenceId key => exact (sound.publishPrefix sequenceId key).sound
  | attachPrefix sequenceId key => exact (sound.attachPrefix sequenceId key).sound
  | releaseSequence sequenceId => exact (sound.releaseSequence sequenceId).sound
  | releaseRequest requestId =>
      exact releaseRequest_induction (fun _ id holds => (holds.releaseSequence id).sound) sound
        requestId

/-- A manager over a sound pool that has no sequences yet. -/
theorem sound_create {allocator : MemoryAllocator} (sound : allocator.Sound) :
    (create allocator).Sound :=
  ⟨sound, by simp [create], by simp [create, liveEntries], by simp [create, liveEntries]⟩

theorem sound_run {manager : KVCacheManager} (sound : manager.Sound) (ops : List CacheOp) :
    (manager.run ops).Sound := by
  induction ops generalizing manager with
  | nil => exact sound
  | cons op ops induction => exact induction (sound_step sound op)

end KVCacheManager

end QwenVLPaged
