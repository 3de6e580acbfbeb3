import QwenVLPaged.PrefixEffects

/-!
# Reference conservation

Every call of the cache manager keeps the accounts, as long as reference counts and logical
indices stay within 32 bits. Hence in every reachable state the counts of the allocator are the
references held by tables and records, and the resident slots are those of swapped entries.
-/

namespace QwenVLPaged

namespace KVCacheManager

/-- A reservation stays within the 32-bit logical indices. -/
def Indexable (manager : KVCacheManager) : CacheOp → Prop
  | .reserveTokens sequenceId tokenCount => manager.RoomFor sequenceId tokenCount
  | _ => True

/-- The call leaves fewer than `2 ^ 32` references on every frame. -/
def Counted (manager : KVCacheManager) (op : CacheOp) : Prop :=
  ∀ id, (manager.step op).references id < 2 ^ 32

/-- A call within the 32-bit reference counts and logical indices. -/
structure Admissible (manager : KVCacheManager) (op : CacheOp) : Prop where
  referenced : manager.Counted op
  indexable : manager.Indexable op

instance (manager : KVCacheManager) (sequenceId : SequenceId) (tokenCount : ℕ) :
    Decidable (manager.RoomFor sequenceId tokenCount) :=
  inferInstanceAs (Decidable (∀ state ∈ manager.sequences.lookup sequenceId, _))

instance (manager : KVCacheManager) : (op : CacheOp) → Decidable (manager.Indexable op)
  | .reserveTokens sequenceId tokenCount =>
      inferInstanceAs (Decidable (manager.RoomFor sequenceId tokenCount))
  | .createSequence _ | .forkSequence _ _ | .ensureTokenWritable _ _ _ | .writeToken _ _ _ _
  | .swapOutSequence _ | .swapOutRequest _ | .swapInSequence _ | .swapInRequest _
  | .publishPrefix _ _ | .attachPrefix _ _ | .releaseSequence _ | .releaseRequest _ =>
      isTrue trivial

/-- A state that owns fewer than `2 ^ 32` places puts fewer references on every frame. -/
theorem admissible_of_length {manager : KVCacheManager} {op : CacheOp}
    (few : (manager.step op).places.length < 2 ^ 32) (indexable : manager.Indexable op) :
    manager.Admissible op := by
  refine ⟨?_, indexable⟩
  intro id
  rw [← count_places]
  exact List.count_le_length.trans_lt few

/-- Reference counts agree with the references held, and the slots of swapped entries are, one
for one, the slots of the swap backend. -/
structure Conserved (manager : KVCacheManager) : Prop where
  counts : ∀ (frame : PhysicalBlockId) (info : PhysicalBlockInfo),
    manager.allocator.infos[frame]? = some info → info.refCount = manager.references frame
  slots : (manager.liveEntries.filterMap (·.swapSlot)).Perm manager.allocator.residentKeys

theorem filterMap_slot_places (manager : KVCacheManager) :
    manager.places.filterMap Place.slot? = manager.liveEntries.filterMap (·.swapSlot) := by
  have frames (ids : List PhysicalBlockId) : (ids.map Place.frame).filterMap Place.slot? = [] := by
    simp [List.filterMap_map, Function.comp_def]
  rw [places, List.filterMap_append, frames, List.append_nil, List.filterMap_map]
  congr 1
  funext entry
  cases slot : entry.swapSlot <;> simp [BlockTableEntry.place, slot]

theorem Accounted.conserved {manager : KVCacheManager} (accounted : manager.Accounted) :
    manager.Conserved := by
  refine ⟨?_, ?_⟩
  · intro frame info found
    have counted := accounted.ledger.refs frame
    rw [map_place_claimAt, count_places, MemoryAllocator.refCount_eq_of_info found] at counted
    exact counted
  · have slots := accounted.ledger.slots
    rw [List.filterMap_map] at slots
    rw [← filterMap_slot_places]
    exact slots

/-! ## Every call keeps the accounts -/

theorem Accounted.swapOutSequence {manager : KVCacheManager} (accounted : manager.Accounted)
    (sequenceId : SequenceId) : (manager.swapOutSequence sequenceId).2.Accounted := by
  rcases swapOutSequence_cases accounted sequenceId with same | ⟨_, _, _, _, run_eq, moved⟩
  · rwa [same]
  · rw [run_eq]
    exact moved.accounted accounted

theorem Accounted.swapInSequence {manager : KVCacheManager} (accounted : manager.Accounted)
    (sequenceId : SequenceId) : (manager.swapInSequence sequenceId).2.Accounted := by
  rcases swapInSequence_cases accounted sequenceId with
    ⟨_, same, -⟩ | ⟨_, _, _, _, run_eq, moved, -⟩
  · rwa [same]
  · rw [run_eq]
    exact moved.accounted accounted

theorem Accounted.releaseSequence {manager : KVCacheManager} (accounted : manager.Accounted)
    (sequenceId : SequenceId) : (manager.releaseSequence sequenceId).Accounted := by
  rcases releaseSequence_cases accounted sequenceId with ⟨-, same⟩ | ⟨_, released⟩
  · rwa [same]
  · exact released.accounted accounted

theorem accounted_step {manager : KVCacheManager} {op : CacheOp} (accounted : manager.Accounted)
    (admissible : manager.Admissible op) : (manager.step op).Accounted := by
  cases op with
  | createSequence metadata =>
      rcases createSequence_cases accounted metadata with same | ⟨after, run_eq, opened, -⟩
      · rwa [step, same]
      · rw [step, run_eq]
        exact opened.accounted accounted
  | forkSequence parentId childMetadata =>
      rcases forkSequence_cases accounted parentId childMetadata admissible.referenced with
        same | ⟨after, parent, child, run_eq, -, -, opened⟩
      · rwa [step, same]
      · rw [step, run_eq]
        exact opened.accounted accounted
  | reserveTokens sequenceId tokenCount =>
      rcases reserveTokens_cases accounted sequenceId tokenCount
        admissible.indexable with
        same | ⟨after, state, added, complete, run_eq, -, grown⟩
      · rwa [step, same]
      · rw [step, run_eq]
        exact grown.accounted accounted
  | ensureTokenWritable sequenceId token layer =>
      rcases ensureTokenWritable_cases accounted sequenceId token layer with
        same | ⟨after, state, tables, frame, run_eq, moved, -⟩
      · rwa [step, same]
      · rw [step, run_eq]
        exact moved.accounted accounted
  | writeToken sequenceId token layer stores =>
      rcases writeToken_cases accounted sequenceId token layer stores with
        same | ⟨middle, after, state, tables, frame, run_eq, moved, -, stored⟩
      · rwa [step, same]
      · rw [step, run_eq]
        exact stored.accounted (moved.accounted accounted)
  | swapOutSequence sequenceId => exact accounted.swapOutSequence sequenceId
  | swapOutRequest requestId =>
      exact swapOutSequences_induction (fun _ id holds => holds.swapOutSequence id) accounted _
  | swapInSequence sequenceId => exact accounted.swapInSequence sequenceId
  | swapInRequest requestId =>
      exact swapInRequest_induction (fun _ id holds => holds.swapInSequence id) accounted requestId
  | publishPrefix sequenceId key =>
      rcases publishPrefix_cases accounted sequenceId key admissible.referenced with
        ⟨done, same⟩ | ⟨after, state, front, existing, back, run_eq, -, joined⟩ |
          ⟨after, state, record, run_eq, -, published⟩
      · rwa [step, same]
      · rw [step, run_eq]
        exact joined.accounted accounted
      · rw [step, run_eq]
        exact published.accounted accounted
  | attachPrefix sequenceId key =>
      rcases attachPrefix_cases accounted sequenceId key admissible.referenced with
        same | ⟨after, state, record, added, run_eq, attached⟩
      · rwa [step, same]
      · rw [step, run_eq]
        exact attached.accounted accounted
  | releaseSequence sequenceId => exact accounted.releaseSequence sequenceId
  | releaseRequest requestId =>
      exact releaseRequest_induction (fun _ id holds => holds.releaseSequence id) accounted
        requestId

theorem accounted_run {manager : KVCacheManager} {ops : List CacheOp}
    (accounted : manager.Accounted) (admissible : Execution.Along step Admissible manager ops) :
    (manager.run ops).Accounted :=
  Execution.Along.invariant (fun _ _ => accounted_step) accounted admissible

/-- Reference conservation in every state reached from a fresh pool. -/
theorem references_conserved (config : AllocatorConfig) (slab : ℕ → UInt8) (maxSlots : ℕ)
    (ops : List CacheOp)
    (admissible : Execution.Along step Admissible (fresh config slab maxSlots) ops) :
    ((fresh config slab maxSlots).run ops).Conserved :=
  (accounted_run (accounted_fresh config slab maxSlots) admissible).conserved

/-- A small pool of one-byte elements. -/
def smallConfig : AllocatorConfig := ⟨⟨2, 1, 1, 1, 1, 0⟩, 1, 4, four_lt_word⟩

/-- Two branches, a published prefix with a second user, and a swapped block. -/
def sharingOps : List CacheOp :=
  [.createSequence ⟨1, 7⟩, .reserveTokens 1 3, .writeToken 1 0 0 [⟨.key, 0, 0, 0, [5]⟩],
    .forkSequence 1 ⟨2, 7⟩, .ensureTokenWritable 2 0 0, .publishPrefix 1 "p",
    .createSequence ⟨3, 8⟩, .attachPrefix 3 "p", .swapOutSequence 2]

theorem references_conserved_sharing :
    Execution.Along step Admissible (fresh smallConfig (fun _ => 0) 4) sharingOps ∧
      ((fresh smallConfig (fun _ => 0) 4).run sharingOps).Conserved ∧
      ((fresh smallConfig (fun _ => 0) 4).run sharingOps).references 2 = 4 := by
  have small : Execution.Along step
      (fun manager op => (manager.step op).places.length < 2 ^ 32 ∧ manager.Indexable op)
      (fresh smallConfig (fun _ => 0) 4) sharingOps := by decide
  have admissible := small.imp fun _ _ fits => admissible_of_length fits.1 fits.2
  exact ⟨admissible, references_conserved _ _ _ _ admissible, by decide⟩

/-! ## Past the last logical index

A swap space of `2 ^ 32` slots lets one sequence map and evict one block after the other until
the logical index, a 32-bit value, starts over. The next block is then mapped over the first one,
whose slot nobody owns any more. -/

/-- One frame of one token. -/
def singleConfig : AllocatorConfig := ⟨⟨1, 1, 1, 1, 1, 0⟩, 1, 1, one_lt_word⟩

/-- The entry of the block with the given index after its eviction. -/
def evictedEntry (index : ℕ) : BlockTableEntry :=
  ⟨logicalAt 1 .textKV 1 index, 0, true, some (index + 1)⟩

def evictedTable (count : ℕ) : BlockTable := ⟨1, .textKV, (List.range count).map evictedEntry⟩

def evictedSlots : ℕ → AList fun _ : SwapSlotId => List UInt8
  | 0 => ∅
  | count + 1 => (evictedSlots count).insert (count + 1) [0, 0]

/-- The sequence with the given blocks. -/
def singleSequence (entries : List BlockTableEntry) : AList fun _ : SequenceId => SequenceState :=
  (∅ : AList fun _ : SequenceId => SequenceState).insert 1
    ⟨⟨1, 1⟩, [⟨1, .textKV, entries⟩], "", 0⟩

/-- The state after mapping and evicting `count` blocks. -/
def evicted (count : ℕ) : KVCacheManager where
  allocator :=
    { config := singleConfig
      blocks := [⟨0, singleConfig.blockShape, [0, 0]⟩]
      infos := [⟨0, .free, 0, count⟩]
      freeList := [0]
      swapBackend := some ⟨2 ^ 32, count + 1, evictedSlots count⟩ }
  sequences := singleSequence (evictedTable count).entries
  sequencesByRequest := (∅ : AList fun _ : RequestId => List SequenceId).insert 1 [1]
  prefixIndex := ∅

/-- The state between mapping a block at `index` and evicting it. -/
def mapped (count : ℕ) (entries : List BlockTableEntry) : KVCacheManager :=
  { evicted count with
    allocator :=
      { (evicted count).allocator with infos := [⟨0, .active, 1, count⟩], freeList := [] }
    sequences := singleSequence entries }

theorem indexed_evictedTable (count : ℕ) : (evictedTable count).Indexed := by
  intro position found member
  simp only [evictedTable, List.getElem?_map, Option.map_eq_some_iff] at member
  obtain ⟨index, index_eq, rfl⟩ := member
  obtain ⟨-, rfl⟩ := List.getElem?_eq_some_iff.mp index_eq
  simp [evictedEntry, logicalAt]

theorem keys_evictedSlots (count : ℕ) :
    (evictedSlots count).entries.length = count ∧ ∀ slot ∈ (evictedSlots count).keys, slot ≤ count := by
  induction count with
  | zero => exact ⟨rfl, by simp [evictedSlots]⟩
  | succ count induction =>
      have fresh : count + 1 ∉ (evictedSlots count).keys := by
        intro member
        exact absurd (induction.2 _ member) (by simp)
      refine ⟨?_, ?_⟩
      · rw [evictedSlots, AList.entries_insert, List.length_cons,
          List.kerase_of_notMem_keys fresh, induction.1]
      · intro slot member
        rw [evictedSlots, AList.keys_insert, List.mem_cons] at member
        rcases member with rfl | old
        · exact le_rfl
        · exact (induction.2 slot (List.mem_of_mem_erase old)).trans (Nat.le_succ _)

theorem step_createSequence_single :
    (fresh singleConfig (fun _ => 0) (2 ^ 32)).step (.createSequence ⟨1, 1⟩) = evicted 0 := by
  rfl

theorem lookup_singleSequence (entries : List BlockTableEntry) :
    (singleSequence entries).lookup 1 = some ⟨⟨1, 1⟩, [⟨1, .textKV, entries⟩], "", 0⟩ :=
  AList.lookup_insert _

theorem insert_singleSequence (entries entries' : List BlockTableEntry) :
    (singleSequence entries).insert 1 ⟨⟨1, 1⟩, [⟨1, .textKV, entries'⟩], "", 0⟩ =
      singleSequence entries' :=
  AList.insert_insert _

theorem step_reserveTokens_evicted (count : ℕ) :
    (evicted count).step (.reserveTokens 1 1) =
      mapped count ((evictedTable count).map (logicalAt 1 .textKV 1 (wrap32 count)) 0 true).entries := by
  have size : (evictedTable count).size = count := by simp [evictedTable, BlockTable.size]
  have found : (evicted count).sequences.lookup 1 =
      some ⟨⟨1, 1⟩, [evictedTable count], "", 0⟩ := lookup_singleSequence _
  have grow : reserveBlocks 1 1 (wrap32 (evictedTable count).size) 1 0 (evicted count).allocator
      (evictedTable count) = (true, (mapped count []).allocator,
        (evictedTable count).map (logicalAt 1 .textKV 1 (wrap32 count)) 0 true) := by
    rw [size]
    simp [reserveBlocks, evicted, MemoryAllocator.allocate, mapped, logicalAt, wrap32,
      evictedTable]
  have block_size : (evicted count).tokensPerBlock = 1 := rfl
  have one_block : blocksNeeded 1 1 = 1 := by decide
  have available : (evicted count).allocator.canAllocate (wrap32 (1 * 1)) = true := rfl
  simp only [step, reserveTokens, found, block_size, one_block, List.length_singleton, available,
    reserveTables, grow]
  have owner : ((evictedTable count).map (logicalAt 1 .textKV 1 (wrap32 count)) 0 true) =
      ⟨1, .textKV, ((evictedTable count).map
        (logicalAt 1 .textKV 1 (wrap32 count)) 0 true).entries⟩ := by
    simp only [BlockTable.map, evictedTable]
    split
    · split <;> rfl
    · rfl
  rw [owner]
  simp only [Bool.not_true, Bool.false_eq_true, if_false, one_ne_zero]
  simp only [mapped, evicted, insert_singleSequence]

theorem evictedTable_succ (count : ℕ) :
    (evictedTable (count + 1)).entries = (evictedTable count).entries ++ [evictedEntry count] := by
  simp [evictedTable, List.range_succ]

/-- The blocks of the sequence while the last one is resident. -/
def mappedEntries (count : ℕ) : List BlockTableEntry :=
  (evictedTable count).entries ++ [⟨logicalAt 1 .textKV 1 count, 0, true, none⟩]

theorem resident_evictedTable (count : ℕ) :
    (evictedTable count).entries.filter (fun entry => entry.swapSlot.isNone) = [] := by
  simp [evictedTable, List.filter_eq_nil_iff, evictedEntry]

theorem residentIndices_mapped (count : ℕ) :
    residentIndices ⟨1, .textKV, mappedEntries count⟩ = [count] := by
  simp [residentIndices, mappedEntries, List.filter_append, resident_evictedTable, logicalAt]

theorem swapOut_mapped {count : ℕ} (below : count < 2 ^ 32) (entries : List BlockTableEntry) :
    (mapped count entries).allocator.swapOut 0 =
      (some (count + 1), (evicted (count + 1)).allocator) := by
  have room : ¬ (evictedSlots count).entries.length ≥ 2 ^ 32 := by
    rw [(keys_evictedSlots count).1]
    exact Nat.not_le.mpr below
  have stored : HostSwapBackend.store ⟨2 ^ 32, count + 1, evictedSlots count⟩
      ⟨0, singleConfig.blockShape, [0, 0]⟩ =
      (some (count + 1), ⟨2 ^ 32, count + 1 + 1, evictedSlots (count + 1)⟩) := by
    rw [HostSwapBackend.store, HostSwapBackend.residentSlots, if_neg room]
    rfl
  have backend : (mapped count entries).allocator.swapBackend =
      some ⟨2 ^ 32, count + 1, evictedSlots count⟩ := rfl
  have info : (mapped count entries).allocator.infos[0]? = some ⟨0, .active, 1, count⟩ := rfl
  have frame : (mapped count entries).allocator.block 0 =
      some ⟨0, singleConfig.blockShape, [0, 0]⟩ := rfl
  simp only [MemoryAllocator.swapOut, backend, info, frame, stored, ne_eq, not_true, if_false]
  rfl

/-- One round: the next block is mapped and evicted. -/
theorem round_evicted {count : ℕ} (below : count < 2 ^ 32) :
    (evicted count).step (.reserveTokens 1 1) = mapped count (mappedEntries count) ∧
      (mapped count (mappedEntries count)).step (.swapOutSequence 1) = evicted (count + 1) := by
  have length : (evictedTable count).entries.length = count := by simp [evictedTable]
  constructor
  · rw [step_reserveTokens_evicted, wrap32_of_lt below,
      (indexed_evictedTable count).map_next _ length.symm]
    rfl
  · have indexed : BlockTable.Indexed ⟨1, .textKV, mappedEntries count⟩ :=
      (indexed_evictedTable count).append _ length.symm
    have entry_eq : BlockTable.entry ⟨1, .textKV, mappedEntries count⟩ count =
        some ⟨logicalAt 1 .textKV 1 count, 0, true, none⟩ := by
      rw [indexed.entry_eq]
      simp [mappedEntries, length]
    have evict : BlockTable.modifyEntry ⟨1, .textKV, mappedEntries count⟩ count
          (fun entry => { entry with swapSlot := some (count + 1) }) =
        ⟨1, .textKV, (evictedTable (count + 1)).entries⟩ := by
      rw [indexed.modifyEntry_eq, List.modify_eq_set_getElem?, evictedTable_succ]
      simp [mappedEntries, length, evictedEntry]
    have sequences : (mapped count (mappedEntries count)).sequences =
        singleSequence (mappedEntries count) := rfl
    simp only [step, swapOutSequence, sequences, lookup_singleSequence, swapOutTables,
      residentIndices_mapped, swapOutEntries, entry_eq, swapOut_mapped below, evict,
      insert_singleSequence]
    rfl

theorem gather_singleSequence (entries : List BlockTableEntry) :
    (singleSequence entries).gather (fun _ state => state.tables.flatMap (·.entries)) =
      entries := by
  rw [singleSequence, AList.gather_insert, AList.erase_of_lookup_none (AList.lookup_empty 1)]
  simp

theorem references_le_resident {manager : KVCacheManager} {entries : List BlockTableEntry}
    (sequences : manager.sequences = singleSequence entries) (unpublished : manager.prefixIndex = ∅)
    (id : PhysicalBlockId) :
    manager.references id ≤ (entries.filter fun entry => entry.swapSlot.isNone).length := by
  have live : manager.liveEntries = entries := by rw [liveEntries, sequences, gather_singleSequence]
  rw [references, mappings, live, pinnedIds, unpublished, ← List.countP_eq_length_filter]
  refine List.countP_mono_left ?_
  intro entry _ mapped
  simp only [Bool.and_eq_true] at mapped
  exact mapped.1

/-- The rounds that map and evict `count` blocks. -/
def rounds (count : ℕ) : List CacheOp :=
  (List.replicate count [.reserveTokens 1 1, .swapOutSequence 1]).flatten

theorem run_rounds (count start : ℕ) (below : start + count ≤ 2 ^ 32) :
    run (evicted start) (rounds count) = evicted (start + count) ∧
      Execution.Along step Counted (evicted start) (rounds count) := by
  induction count generalizing start with
  | zero => exact ⟨rfl, trivial⟩
  | succ count induction =>
      obtain ⟨map_eq, evict_eq⟩ := round_evicted (show start < 2 ^ 32 by omega)
      obtain ⟨run_eq, along⟩ := induction (start + 1) (by omega)
      have unrolled : rounds (count + 1) =
          .reserveTokens 1 1 :: .swapOutSequence 1 :: rounds count := rfl
      have few_mapped (id : PhysicalBlockId) :
          (mapped start (mappedEntries start)).references id < 2 ^ 32 := by
        refine (references_le_resident rfl rfl id).trans_lt ?_
        simp [mappedEntries, resident_evictedTable]
      have few_evicted (id : PhysicalBlockId) : (evicted (start + 1)).references id < 2 ^ 32 := by
        refine (references_le_resident rfl rfl id).trans_lt ?_
        simp [resident_evictedTable]
      refine ⟨?_, ?_⟩
      · rw [unrolled, run, Execution.run_cons, Execution.run_cons, map_eq, evict_eq]
        rw [show start + (count + 1) = start + 1 + count by omega]
        exact run_eq
      · rw [unrolled]
        refine ⟨?_, ?_, ?_⟩
        · intro id
          rw [map_eq]
          exact few_mapped id
        · intro id
          rw [map_eq, evict_eq]
          exact few_evicted id
        · rw [map_eq, evict_eq]
          exact along

/-- The block mapped after the last logical index takes the place of the first block. -/
theorem remapped_evictedTable {count : ℕ} (wraps : wrap32 count = 0) (positive : 0 < count) :
    ((evictedTable count).map (logicalAt 1 .textKV 1 (wrap32 count)) 0 true).entries =
      ⟨logicalAt 1 .textKV 1 0, 0, true, none⟩ :: (evictedTable count).entries.tail := by
  obtain ⟨before, rfl⟩ := Nat.exists_eq_succ_of_ne_zero positive.ne'
  have indexed := indexed_evictedTable (before + 1)
  have split : (evictedTable (before + 1)).entries =
      evictedEntry 0 :: (evictedTable (before + 1)).entries.tail := by
    simp [evictedTable, List.range_succ_eq_map]
  rw [wraps, BlockTable.map]
  simp only [show (logicalAt 1 .textKV 1 0).index = 0 from rfl, indexed.beforeIndex,
    indexed.fromIndex, List.take_zero, List.drop_zero, List.nil_append]
  rw [split]
  rfl

theorem not_conserved_remapped {count : ℕ} (wraps : wrap32 count = 0) (positive : 0 < count) :
    ¬ ((evicted count).step (.reserveTokens 1 1)).Conserved := by
  intro conserved
  have lengths := conserved.slots.length_eq
  rw [step_reserveTokens_evicted, remapped_evictedTable wraps positive] at lengths
  have resident : (mapped count (⟨logicalAt 1 .textKV 1 0, 0, true, none⟩ ::
      (evictedTable count).entries.tail)).allocator.residentKeys.length = count := by
    have keys := (keys_evictedSlots count).1
    simpa [MemoryAllocator.residentKeys, mapped, evicted, AList.keys, List.keys] using keys
  have owned : ((mapped count (⟨logicalAt 1 .textKV 1 0, 0, true, none⟩ ::
      (evictedTable count).entries.tail)).liveEntries.filterMap (·.swapSlot)).length < count := by
    have live : (mapped count (⟨logicalAt 1 .textKV 1 0, 0, true, none⟩ ::
        (evictedTable count).entries.tail)).liveEntries =
        ⟨logicalAt 1 .textKV 1 0, 0, true, none⟩ :: (evictedTable count).entries.tail := by
      simp only [liveEntries, mapped, gather_singleSequence]
    have bound := List.length_filterMap_le (fun entry : BlockTableEntry => entry.swapSlot)
      (evictedTable count).entries.tail
    rw [live, List.filterMap_cons_none rfl]
    simp only [List.length_tail] at bound
    have length : (evictedTable count).entries.length = count := by simp [evictedTable]
    omega
  omega

/-- With `2 ^ 32` swap slots the bijection fails once the logical index has started over, although
no frame ever has two references. -/
theorem conservation_fails_past_last_index :
    ∃ ops, Execution.Along step Counted (fresh singleConfig (fun _ => 0) (2 ^ 32)) ops ∧
      ¬ ((fresh singleConfig (fun _ => 0) (2 ^ 32)).run ops).Conserved := by
  obtain ⟨run_eq, along⟩ := run_rounds (2 ^ 32) 0 (by omega)
  rw [run] at run_eq
  have wraps : wrap32 (0 + 2 ^ 32) = 0 := by simp [wrap32]
  refine ⟨.createSequence ⟨1, 1⟩ :: (rounds (2 ^ 32) ++ [.reserveTokens 1 1]), ⟨?_, ?_⟩, ?_⟩
  · intro id
    rw [step_createSequence_single]
    refine (references_le_resident rfl rfl id).trans_lt ?_
    simp [resident_evictedTable]
  · rw [step_createSequence_single, Execution.along_append]
    refine ⟨along, ?_, trivial⟩
    intro id
    rw [run_eq, step_reserveTokens_evicted, remapped_evictedTable wraps (by norm_num)]
    refine (references_le_resident rfl rfl id).trans_lt ?_
    have tail_swapped : ((evictedTable (0 + 2 ^ 32)).entries.tail.filter
        fun entry => entry.swapSlot.isNone) = [] := by
      have sub := (List.tail_sublist (evictedTable (0 + 2 ^ 32)).entries).filter
        fun entry => entry.swapSlot.isNone
      rw [resident_evictedTable] at sub
      exact List.sublist_nil.mp sub
    rw [List.filter_cons_of_pos rfl, tail_swapped]
    norm_num
  · rw [run, Execution.run_cons, step_createSequence_single, Execution.run_append, run_eq]
    exact not_conserved_remapped wraps (by norm_num)

end KVCacheManager
end QwenVLPaged
