import QwenVLPaged.DeviceTables
import QwenVLPaged.LogicalMemory

/-!
# Frames of flat sequences

Without per-layer frames every sequence has one table, and without swapping every entry of it names
a frame. Such a cache is a list of frames for each sequence together with the contents and the
reference counts of the frames. The results below say what each call does to these three, which is
all that a caller of the Python bindings can see.
-/

namespace QwenVLPaged
namespace KVCacheManager

/-- Frames of a live sequence, block by block. -/
def framesOf (manager : KVCacheManager) (id : SequenceId) : Option (List PhysicalBlockId) :=
  (manager.sequences.lookup id).map fun state => state.textTable.entries.map (·.physicalId)

/-- Bytes of a frame. -/
def frameData (manager : KVCacheManager) (frame : PhysicalBlockId) : List UInt8 :=
  manager.allocator.bytesAt (.frame frame)

/-- Contents of the blocks of a live sequence. -/
def blockContents (manager : KVCacheManager) (id : SequenceId) : Option (List (List UInt8)) :=
  (manager.framesOf id).map fun frames => frames.map manager.frameData

/-- A cache with one table for each sequence, all of its blocks resident and no frame twice in one
table. -/
structure Flat (manager : KVCacheManager) : Prop where
  accounted : manager.Accounted
  layers : manager.allocator.config.blockShape.layersPerFrame = 0
  resident : ∀ id state, manager.sequences.lookup id = some state →
    ∀ table ∈ state.tables, ∀ entry ∈ table.entries, entry.swapSlot = none
  distinct : ∀ id frames, manager.framesOf id = some frames → frames.Nodup

/-- The sequence maps the frame at this block and holds the only reference to it. -/
def Exclusive (manager : KVCacheManager) (id : SequenceId) (index : ℕ) (frame : PhysicalBlockId) :
    Prop :=
  ∃ frames, manager.framesOf id = some frames ∧ frames[index]? = some frame ∧
    manager.allocator.refCount frame = 1

theorem blockTableOf_framesOf (manager : KVCacheManager) (id : SequenceId) :
    manager.blockTableOf id = match manager.framesOf id with
      | some frames => .ok frames
      | none => .error ("no cache view for sequence " ++ toString id) := by
  cases found : manager.sequences.lookup id with
  | none => simp [blockTableOf, cacheView, framesOf, found]
  | some state => simp [blockTableOf_eq found, framesOf, found]

theorem framesOf_of_lookup {manager : KVCacheManager} {id : SequenceId} {state : SequenceState}
    {table : BlockTable} (found : manager.sequences.lookup id = some state)
    (tables : state.tables = [table]) :
    manager.framesOf id = some (table.entries.map (·.physicalId)) := by
  simp [framesOf, found, SequenceState.textTable, tables]

theorem framesOf_congr {before after : KVCacheManager} {id : SequenceId}
    (same : after.sequences.lookup id = before.sequences.lookup id) :
    after.framesOf id = before.framesOf id := by
  rw [framesOf, framesOf, same]

theorem tableCount_flat {config : AllocatorConfig} (layers : config.blockShape.layersPerFrame = 0) :
    config.tableCount = 1 := by
  have perLayer : config.blockShape.perLayerFrames = false := by
    simp only [BlockShape.perLayerFrames, BlockShape.frameLayers, layers, if_true]
    rcases Nat.lt_or_ge 1 config.blockShape.numLayers with several | few
    · simp only [several, decide_true, Bool.and_true, beq_eq_false_iff_ne]
      omega
    · simp [Nat.not_lt.mpr few]
  simp [AllocatorConfig.tableCount, perLayer]

theorem Accounted.refCount_eq {manager : KVCacheManager} (accounted : manager.Accounted)
    (frame : PhysicalBlockId) :
    manager.allocator.refCount frame = manager.places.count (.frame frame) := by
  rw [accounted.ledger.refs frame, map_place_claimAt]

namespace Flat

/-- The only table of a sequence. -/
theorem table_of {manager : KVCacheManager} (flat : manager.Flat) {id : SequenceId}
    {state : SequenceState} (found : manager.sequences.lookup id = some state) :
    ∃ table, state.tables = [table] := by
  have count := (flat.accounted.tabled id state found).count
  rw [tableCount_flat flat.layers] at count
  exact List.length_eq_one_iff.mp count

theorem placesOf_eq {manager : KVCacheManager} (flat : manager.Flat) {id : SequenceId}
    {frames : List PhysicalBlockId} (frames_eq : manager.framesOf id = some frames) :
    ∃ state, manager.sequences.lookup id = some state ∧
      placesOf state.tables = frames.map Place.frame := by
  obtain ⟨state, found, rfl⟩ := Option.map_eq_some_iff.mp frames_eq
  obtain ⟨table, tables⟩ := flat.table_of found
  refine ⟨state, found, ?_⟩
  simp only [tables, placesOf_cons, placesOf_nil, List.append_nil, SequenceState.textTable,
    List.headD_cons, List.map_map]
  refine List.map_congr_left fun entry member => ?_
  exact BlockTableEntry.place_of_resident
    (flat.resident id state found table (by simp [tables]) entry member)

theorem frame_mem {manager : KVCacheManager} (flat : manager.Flat) {id : SequenceId}
    {frames : List PhysicalBlockId} (frames_eq : manager.framesOf id = some frames)
    {frame : PhysicalBlockId} (member : frame ∈ frames) : Place.frame frame ∈ manager.places := by
  obtain ⟨state, found, places⟩ := flat.placesOf_eq frames_eq
  exact mem_places_of_mem_tables found (places ▸ List.mem_map_of_mem member)

theorem refCount_pos {manager : KVCacheManager} (flat : manager.Flat) {id : SequenceId}
    {frames : List PhysicalBlockId} (frames_eq : manager.framesOf id = some frames)
    {frame : PhysicalBlockId} (member : frame ∈ frames) :
    0 < manager.allocator.refCount frame := by
  rw [flat.accounted.refCount_eq]
  exact List.count_pos_iff.mpr (flat.frame_mem frames_eq member)

/-- A frame that is referenced once belongs to one sequence. -/
theorem unshared {manager : KVCacheManager} (flat : manager.Flat) {id other : SequenceId}
    (different : other ≠ id) {frames others : List PhysicalBlockId}
    (frames_eq : manager.framesOf id = some frames)
    (others_eq : manager.framesOf other = some others) {frame : PhysicalBlockId}
    (member : frame ∈ frames) (single : manager.allocator.refCount frame = 1) :
    frame ∉ others := by
  intro shared
  obtain ⟨state, found, places⟩ := flat.placesOf_eq frames_eq
  obtain ⟨state', found', places'⟩ := flat.placesOf_eq others_eq
  rw [flat.accounted.refCount_eq, (places_perm found).count_eq, List.count_append] at single
  have mine : 0 < (placesOf state.tables).count (.frame frame) :=
    List.count_pos_iff.mpr (places ▸ List.mem_map_of_mem member)
  have theirs : 0 < (manager.placesWithout id).count (.frame frame) :=
    List.count_pos_iff.mpr (mem_placesWithout_of_other different found'
      (places' ▸ List.mem_map_of_mem shared))
  omega

/-- Mapped and free frames together fit into the pool. -/
theorem length_add_free_le {manager : KVCacheManager} (flat : manager.Flat) {id : SequenceId}
    {frames : List PhysicalBlockId} (frames_eq : manager.framesOf id = some frames) :
    frames.length + manager.allocator.freeList.length ≤ manager.allocator.config.maxBlocks := by
  have formed := flat.accounted.ledger.formed
  have mapped : ∀ frame ∈ frames, frame < manager.allocator.config.maxBlocks := fun frame member =>
    formed.lt_of_refCount (flat.refCount_pos frames_eq member).ne'
  have apart : List.Disjoint frames manager.allocator.freeList := by
    intro frame member free
    exact (flat.refCount_pos frames_eq member).ne' ((formed.mem_free frame).mp free).2
  have nodup : (frames ++ manager.allocator.freeList).Nodup :=
    List.nodup_append'.mpr ⟨flat.distinct id frames frames_eq, formed.free_nodup, apart⟩
  have inside : frames ++ manager.allocator.freeList ⊆
      List.range manager.allocator.config.maxBlocks := by
    intro frame member
    rw [List.mem_range]
    rcases List.mem_append.mp member with owned | free
    · exact mapped frame owned
    · exact ((formed.mem_free frame).mp free).1
  simpa using (List.subperm_of_subset nodup inside).length_le

end Flat

theorem framesOf_insert_other {before after : KVCacheManager} {id : SequenceId}
    {state : SequenceState} (sequences : after.sequences = before.sequences.insert id state)
    (other : SequenceId) (different : other ≠ id) :
    after.framesOf other = before.framesOf other :=
  framesOf_congr (AList.lookup_inserted_ne sequences other different)

theorem framesOf_insert_this {before after : KVCacheManager} {id : SequenceId}
    {state : SequenceState} (sequences : after.sequences = before.sequences.insert id state)
    {table : BlockTable} (tables : state.tables = [table]) :
    after.framesOf id = some (table.entries.map (·.physicalId)) :=
  framesOf_of_lookup (AList.lookup_inserted_self sequences) tables

/-- A call that replaces the table of one sequence keeps the cache flat. -/
theorem Flat.insert {before after : KVCacheManager} (flat : before.Flat)
    (accounted : after.Accounted)
    (config : after.allocator.config = before.allocator.config) {id : SequenceId}
    {state : SequenceState} (sequences : after.sequences = before.sequences.insert id state)
    {table : BlockTable} (tables : state.tables = [table])
    (resident : ∀ entry ∈ table.entries, entry.swapSlot = none)
    (distinct : (table.entries.map (·.physicalId)).Nodup) : after.Flat := by
  refine ⟨accounted, by rw [config]; exact flat.layers, ?_, ?_⟩
  · intro other found found_eq
    rw [sequences] at found_eq
    by_cases same : other = id
    · subst same
      rw [AList.lookup_insert, Option.some.injEq] at found_eq
      subst found_eq
      simpa [tables] using resident
    · rw [AList.lookup_insert_ne same] at found_eq
      exact flat.resident other found found_eq
  · intro other frames frames_eq
    by_cases same : other = id
    · subst same
      rw [framesOf_insert_this sequences tables, Option.some.injEq] at frames_eq
      rw [← frames_eq]
      exact distinct
    · rw [framesOf_insert_other sequences other same] at frames_eq
      exact flat.distinct other frames frames_eq

/-! ## Creating -/

theorem flat_create {config : AllocatorConfig} (layers : config.blockShape.layersPerFrame = 0)
    (slab : ℕ → UInt8) : (create (.create config slab none)).Flat := by
  refine ⟨⟨?_, by simp [create], by simp [create]⟩, layers, by simp [create],
    by simp [create, framesOf]⟩
  have empty : (create (.create config slab none)).places = [] := by
    simp [places, liveEntries, pinnedIds, create]
  rw [empty]
  exact Ledger.create config slab none (by simp)

/-- A new sequence has no frames. -/
theorem Flat.createSequence {manager : KVCacheManager} (flat : manager.Flat)
    {metadata : SequenceMetadata} (unused : manager.framesOf metadata.sequenceId = none) :
    (manager.createSequence metadata).2.Flat ∧
      (manager.createSequence metadata).2.allocator = manager.allocator ∧
      (manager.createSequence metadata).2.framesOf metadata.sequenceId = some [] ∧
      ∀ other, other ≠ metadata.sequenceId →
        (manager.createSequence metadata).2.framesOf other = manager.framesOf other := by
  have absent : manager.sequences.lookup metadata.sequenceId = none :=
    Option.map_eq_none_iff.mp unused
  rcases createSequence_cases flat.accounted metadata with refused | ⟨after, run_eq, opened, same⟩
  · simp [KVCacheManager.createSequence, absent] at refused
  · have tables : (initialState manager.allocator.config.tableCount metadata).tables =
        [.create metadata.sequenceId] := by
      rw [initialState, tableCount_flat flat.layers, List.replicate_one]
    rw [run_eq]
    refine ⟨flat.insert (opened.accounted flat.accounted) opened.booked.config opened.sequences
      tables (by simp [BlockTable.create]) (by simp [BlockTable.create]), same, ?_,
      framesOf_insert_other opened.sequences⟩
    rw [framesOf_insert_this opened.sequences tables]
    rfl

/-! ## Reserving -/

/-- Blocks in free frames behind those of a sequence. -/
structure Extended (before after : KVCacheManager) (id : SequenceId) (blocks : ℕ) : Prop where
  flat : after.Flat
  config : after.allocator.config = before.allocator.config
  frames : ∃ old new, before.framesOf id = some old ∧ after.framesOf id = some (old ++ new) ∧
    new.length = blocks
  others : ∀ other, other ≠ id → after.framesOf other = before.framesOf other
  data : ∀ frame, 0 < before.allocator.refCount frame →
    after.frameData frame = before.frameData frame
  counts : ∀ frame, 0 < before.allocator.refCount frame →
    after.allocator.refCount frame = before.allocator.refCount frame

theorem Accounted.mem_places_of_refCount {manager : KVCacheManager} (accounted : manager.Accounted)
    {frame : PhysicalBlockId} (referenced : 0 < manager.allocator.refCount frame) :
    Place.frame frame ∈ manager.places := by
  rw [accounted.refCount_eq] at referenced
  exact List.count_pos_iff.mp referenced

theorem Grown.extended {before after : KVCacheManager} {id : SequenceId} {state : SequenceState}
    {blocks : ℕ} {added : List (List BlockTableEntry)} (flat : before.Flat)
    (grown : Grown before after id state blocks added true) : Extended before after id blocks := by
  obtain ⟨table, tables⟩ := flat.table_of grown.found
  obtain ⟨entries, rfl⟩ : ∃ entries, added = [entries] := by
    have lengths := grown.reserved.lengths
    rw [tables] at lengths
    exact List.length_eq_one_iff.mp lengths
  have extended : extendAll state.tables [entries] = [table.extend entries] := by
    rw [tables, extendAll_cons, extendAll_nil]
  have old := framesOf_of_lookup grown.found tables
  have reserved := grown.reserved.reserved
  rw [List.flatten_singleton] at reserved
  obtain ⟨fresh, places, booked⟩ := grown.booked
  have accounted := grown.accounted flat.accounted
  have free : ∀ entry ∈ entries, entry.physicalId ∈ before.allocator.freeList := by
    intro entry member
    rw [reserved.free]
    exact List.mem_append_left _ (List.mem_map_of_mem member)
  have unowned : ∀ entry ∈ entries, before.allocator.refCount entry.physicalId = 0 :=
    fun entry member =>
      ((flat.accounted.ledger.formed.mem_free _).mp (free entry member)).2
  have sequences := grown.sequences
  rw [extended] at sequences
  have counts : ∀ frame, 0 < before.allocator.refCount frame →
      after.allocator.refCount frame = before.allocator.refCount frame := by
    intro frame referenced
    have absent : (fresh.map Claim.place).count (.frame frame) = 0 := by
      rw [places, List.flatten_singleton, List.count_eq_zero]
      intro member
      obtain ⟨entry, inside, place⟩ := List.mem_map.mp member
      rw [BlockTableEntry.place_of_resident (reserved.resident entry inside),
        Place.frame.injEq] at place
      exact referenced.ne' (place ▸ unowned entry inside)
    rw [accounted.refCount_eq, booked.places.count_eq, List.count_append, absent, Nat.zero_add,
      flat.accounted.refCount_eq]
  refine ⟨flat.insert accounted booked.config sequences rfl ?_ ?_, booked.config,
    ⟨_, entries.map (·.physicalId), old, ?_, ?_⟩, framesOf_insert_other sequences, ?_, counts⟩
  · intro entry member
    rcases List.mem_append.mp member with inside | inside
    · exact flat.resident id state grown.found table (by simp [tables]) entry inside
    · exact reserved.resident entry inside
  · rw [BlockTable.extend, List.map_append]
    refine List.nodup_append'.mpr ⟨flat.distinct id _ old, ?_, ?_⟩
    · have free_nodup := flat.accounted.ledger.formed.free_nodup
      rw [reserved.free] at free_nodup
      exact (List.nodup_append'.mp free_nodup).1
    · intro frame inside new
      obtain ⟨entry, member, rfl⟩ := List.mem_map.mp new
      exact (flat.refCount_pos old inside).ne' (unowned entry member)
  · rw [framesOf_insert_this sequences rfl, BlockTable.extend, List.map_append]
  · rw [List.length_map]
    exact grown.reserved.full rfl entries List.mem_cons_self
  · intro frame referenced
    exact congrArg Claim.bytes
      (booked.claimAt_kept (flat.accounted.mem_places_of_refCount referenced))

/-- A reservation grows the table, or the sequence is unknown, or the frames do not suffice. -/
theorem Flat.reserveTokens {manager : KVCacheManager} (flat : manager.Flat)
    (id : SequenceId) (tokenCount : ℕ) :
    (manager.reserveTokens id tokenCount = (false, manager) ∧
      ∀ frames, manager.framesOf id = some frames →
        manager.allocator.config.tokensPerBlock ≠ 0 →
        manager.allocator.freeList.length <
          blocksNeeded tokenCount manager.allocator.config.tokensPerBlock) ∨
      ∃ after, manager.reserveTokens id tokenCount = (true, after) ∧
        Extended manager after id
          (blocksNeeded tokenCount manager.allocator.config.tokensPerBlock) := by
  have size_eq := tokensPerBlock_eq flat.accounted.ledger.formed.sound
  have small : blocksNeeded tokenCount manager.tokensPerBlock < 2 ^ 32 :=
    (Nat.div_le_self _ _).trans_lt (wrap32_lt _)
  cases found : manager.sequences.lookup id with
  | none => exact Or.inl ⟨by simp [KVCacheManager.reserveTokens, found], by simp [framesOf, found]⟩
  | some state =>
      obtain ⟨table, tables⟩ := flat.table_of found
      by_cases blocky : manager.tokensPerBlock = 0
      · refine Or.inl ⟨by simp [KVCacheManager.reserveTokens, found, blocky], ?_⟩
        intro frames _ positive
        exact absurd (size_eq ▸ blocky) positive
      by_cases fits : blocksNeeded tokenCount manager.tokensPerBlock ≤
          manager.allocator.freeList.length
      · have fits' : wrap32 (blocksNeeded tokenCount manager.tokensPerBlock *
            state.tables.length) ≤ manager.allocator.freeList.length := by
          rw [tables, List.length_singleton, Nat.mul_one, wrap32_of_lt small]
          exact fits
        have room : manager.RoomFor id tokenCount := by
          intro state' found' table' member
          obtain rfl := Option.some.inj (found.symm.trans found')
          rw [tables, List.mem_singleton] at member
          subst member
          have together := flat.length_add_free_le (framesOf_of_lookup found tables)
          have bound := manager.allocator.config.maxBlocks_lt
          rw [List.length_map] at together
          have few : manager.newBlocks tokenCount ≤ manager.allocator.freeList.length :=
            Nat.min_le_right _ _
          omega
        obtain ⟨after, added, complete, run_eq, grown⟩ :=
          reserveTokens_grown flat.accounted room found blocky fits'
        obtain rfl := grown.reserved.enough
          (by rw [tables, List.length_singleton, Nat.mul_one]; exact fits)
        exact Or.inr ⟨after, run_eq, size_eq ▸ grown.extended flat⟩
      · refine Or.inl ⟨?_, fun _ _ _ => by rw [← size_eq]; omega⟩
        have refused : manager.allocator.canAllocate (wrap32
            (blocksNeeded tokenCount manager.tokensPerBlock * state.tables.length)) = false := by
          rw [tables, List.length_singleton, Nat.mul_one, wrap32_of_lt small]
          simpa [MemoryAllocator.canAllocate] using fits
        simp [KVCacheManager.reserveTokens, found, blocky, refused]

/-! ## Making a block writable -/

/-- One block of a sequence in a frame of its own, with the same contents. -/
structure Rewritten (before after : KVCacheManager) (id : SequenceId) (index : ℕ)
    (frame : PhysicalBlockId) : Prop where
  flat : after.Flat
  config : after.allocator.config = before.allocator.config
  frames : ∃ old, before.framesOf id = some old ∧ index < old.length ∧
    after.framesOf id = some (old.set index frame)
  others : ∀ other, other ≠ id → after.framesOf other = before.framesOf other
  single : after.allocator.refCount frame = 1
  blocks : ∀ other old new, before.framesOf other = some old → after.framesOf other = some new →
    new.map after.frameData = old.map before.frameData
  /-- A frame that one block maps stays with it. -/
  counts : ∀ other, before.allocator.refCount other = 1 → after.allocator.refCount other = 1
  kept : ∀ old other, before.framesOf id = some old → old[index]? = some other →
    before.allocator.refCount other = 1 → frame = other

theorem map_frameData {manager : KVCacheManager} (flat : manager.Flat) {id : SequenceId}
    {state : SequenceState} (found : manager.sequences.lookup id = some state)
    {frames : List PhysicalBlockId} (frames_eq : manager.framesOf id = some frames) :
    blockBytesOf manager.allocator state.tables = [frames.map manager.frameData] := by
  obtain ⟨table, tables⟩ := flat.table_of found
  have same := framesOf_of_lookup found tables
  rw [frames_eq, Option.some.injEq] at same
  subst same
  rw [tables, blockBytesOf, List.map_singleton, List.map_map]
  congr 1
  refine List.map_congr_left fun entry member => ?_
  rw [BlockTableEntry.place_of_resident
    (flat.resident id state found table (by simp [tables]) entry member)]
  rfl

theorem Exchanged.rewritten {before after : KVCacheManager} {id : SequenceId}
    {state : SequenceState} {index : ℕ} {table : BlockTable} {entry : BlockTableEntry}
    {frame : PhysicalBlockId} (flat : before.Flat)
    (exchanged : Exchanged before after id state 0 index table entry frame) :
    Rewritten before after id index frame := by
  have moved := exchanged.moved
  have found := moved.found
  have tables : state.tables = [table] := by
    obtain ⟨only, tables⟩ := flat.table_of found
    have first := exchanged.table_eq
    rw [tables] at first ⊢
    simpa using first
  have written : exchangeBlock state.tables 0 index table frame =
      [{ table with entries := table.entries.modify index (writableAt frame) }] := by
    rw [exchangeBlock, tables, List.set_cons_zero]
  have inside := (List.getElem?_eq_some_iff.mp exchanged.entry_eq).1
  have old := framesOf_of_lookup found tables
  have old_frame : (table.entries.map (·.physicalId))[index]? = some entry.physicalId := by
    rw [List.getElem?_map, exchanged.entry_eq, Option.map_some]
  have new_frames : (table.entries.modify index (writableAt frame)).map (·.physicalId) =
      (table.entries.map (·.physicalId)).set index frame := by
    refine List.ext_getElem? fun position => ?_
    simp only [List.getElem?_map, List.getElem?_modify, List.getElem?_set, List.length_map]
    by_cases here : index = position
    · subst here
      simp [inside, writableAt]
    · simp [here]
  have sequences := moved.sequences
  rw [written] at sequences
  obtain ⟨owned, places, -, booked⟩ := moved.booked
  have accounted := moved.accounted flat.accounted
  have resident : ∀ other ∈ table.entries.modify index (writableAt frame),
      other.swapSlot = none := by
    intro other member
    obtain ⟨position, position_eq⟩ := List.mem_iff_getElem?.mp member
    rw [List.getElem?_modify, Option.map_eq_map, Option.map_eq_some_iff] at position_eq
    obtain ⟨source, source_eq, rfl⟩ := position_eq
    have source_resident := flat.resident id state found table (by simp [tables]) source
      (List.mem_of_getElem? source_eq)
    split
    · exact source_resident
    · exact source_resident
  -- References of the table before and after, beside those of everybody else.
  have before_count (other : PhysicalBlockId) : before.allocator.refCount other =
      (table.entries.map (·.physicalId)).count other +
        (before.placesWithout id).count (.frame other) := by
    obtain ⟨state', found', state_places⟩ := flat.placesOf_eq old
    obtain rfl := Option.some.inj (found.symm.trans found')
    rw [flat.accounted.refCount_eq, (places_perm found).count_eq, List.count_append, state_places,
      List.count_map_of_injective _ Place.frame (fun _ _ equal => Place.frame.inj equal)]
  have after_count (other : PhysicalBlockId) : after.allocator.refCount other =
      ((table.entries.map (·.physicalId)).set index frame).count other +
        (before.placesWithout id).count (.frame other) := by
    rw [accounted.refCount_eq, booked.places.count_eq, List.count_append, places, written,
      placesOf_cons, placesOf_nil, List.append_nil, ← new_frames]
    congr 1
    rw [← List.count_map_of_injective _ Place.frame (fun _ _ equal => Place.frame.inj equal),
      List.map_map]
    congr 1
    exact List.map_congr_left fun other member =>
      BlockTableEntry.place_of_resident (resident other member)
  obtain ⟨position_lt, position_eq⟩ := List.getElem?_eq_some_iff.mp old_frame
  have kept : ∀ other, before.allocator.refCount other = 1 →
      after.allocator.refCount other = 1 := by
    intro other single
    rcases exchanged.fresh with same | ⟨shared, unused⟩
    · rw [after_count, same, ← position_eq, List.set_getElem_self, ← before_count, single]
    · have not_old : entry.physicalId ≠ other := by
        rintro rfl
        omega
      have not_new : frame ≠ other := by
        rintro rfl
        omega
      rw [after_count, List.count_set position_lt, position_eq, ← single, before_count]
      simp [not_old, not_new]
  have new_distinct : ((table.entries.modify index (writableAt frame)).map
      (·.physicalId)).Nodup := by
    rw [new_frames, List.nodup_iff_count_le_one]
    intro other
    have once := List.nodup_iff_count_le_one.mp (flat.distinct id _ old) other
    by_cases new : frame = other
    · have single := exchanged.located.single
      rw [after_count, new] at single
      rw [new]
      omega
    · rw [List.count_set position_lt]
      simp only [beq_iff_eq, new, if_false]
      omega
  refine ⟨flat.insert accounted booked.config sequences rfl resident new_distinct, booked.config,
    ⟨_, old, by simpa using inside, ?_⟩, framesOf_insert_other sequences,
    exchanged.located.single, ?_, kept, ?_⟩
  · rw [framesOf_insert_this sequences rfl, new_frames]
  · intro other frames frames' frames_eq frames_eq'
    by_cases same : other = id
    · subst same
      have here := AList.lookup_inserted_self sequences
      have bytes := moved.blockBytesOf
      rw [written, map_frameData flat found frames_eq] at bytes
      have new_bytes := map_frameData
        (flat.insert accounted booked.config sequences rfl resident new_distinct) here frames_eq'
      exact List.singleton_inj.mp (new_bytes.symm.trans bytes)
    · rw [framesOf_insert_other sequences other same, frames_eq, Option.some.injEq] at frames_eq'
      subst frames_eq'
      obtain ⟨state', found', state_places⟩ := flat.placesOf_eq frames_eq
      refine List.map_congr_left fun frame member => congrArg Claim.bytes (moved.steady _ ?_)
      exact mem_placesWithout_of_other same found' (state_places ▸ List.mem_map_of_mem member)
  · intro frames other frames_eq here single
    rw [old, Option.some.injEq] at frames_eq
    subst frames_eq
    rw [old_frame, Option.some.injEq] at here
    rcases exchanged.fresh with same | ⟨shared, -⟩
    · rw [same, here]
    · rw [here] at shared
      omega

/-- A pool with frames has the block size of its shape. -/
theorem tokensPerBlock_of_frames {config : AllocatorConfig} (frames : config.maxBlocks ≠ 0) :
    config.tokensPerBlock = config.blockShape.tokensPerBlock := by
  rw [AllocatorConfig.tokensPerBlock, if_neg frames]

theorem Flat.maxBlocks_ne_zero {manager : KVCacheManager} (flat : manager.Flat) {id : SequenceId}
    {frames : List PhysicalBlockId} (frames_eq : manager.framesOf id = some frames) {index : ℕ}
    (inside : index < frames.length) : manager.allocator.config.maxBlocks ≠ 0 := by
  have bound := flat.length_add_free_le frames_eq
  omega

/-- A block of a sequence becomes writable, or it needs a copy and no frame is free. -/
theorem Flat.ensureTokenWritable {manager : KVCacheManager} (flat : manager.Flat)
    (id : SequenceId) (token : ℕ) :
    (manager.ensureTokenWritable id token 0 = (none, manager) ∧
      ∀ frames, manager.framesOf id = some frames →
        token / manager.allocator.config.blockShape.tokensPerBlock < frames.length →
        manager.allocator.config.blockShape.tokensPerBlock ≠ 0 →
        manager.allocator.freeList = []) ∨
      ∃ after frame, manager.ensureTokenWritable id token 0 = (some frame, after) ∧
        Rewritten manager after id
          (token / manager.allocator.config.blockShape.tokensPerBlock) frame := by
  rcases ensureTokenWritable_exchanged flat.accounted id token 0 with
    ⟨refused, reason⟩ | ⟨after, state, table, entry, frame, granted, exchanged⟩
  · refine Or.inl ⟨refused, ?_⟩
    intro frames frames_eq inside blocky
    have size := tokensPerBlock_of_frames (flat.maxBlocks_ne_zero frames_eq inside)
    obtain ⟨state, found, rfl⟩ := Option.map_eq_some_iff.mp frames_eq
    obtain ⟨table, tables⟩ := flat.table_of found
    simp only [SequenceState.textTable, tables, List.headD_cons, List.length_map, ← size] at inside
    have entry_eq := List.getElem?_eq_getElem inside
    exact reason state table _ found (by simp [tables]) entry_eq
      (flat.resident id state found table (by simp [tables]) _ (List.mem_of_getElem? entry_eq))
      (size ▸ blocky)
  · have rewritten := exchanged.rewritten flat
    obtain ⟨old, old_eq, inside, -⟩ := rewritten.frames
    rw [tokensPerBlock_of_frames (flat.maxBlocks_ne_zero old_eq inside)] at rewritten
    exact Or.inr ⟨after, frame, granted, rewritten⟩

/-! ## Branching -/

/-- A child that maps the frames of its parent. -/
structure Branched (before after : KVCacheManager) (parentId childId : SequenceId) : Prop where
  flat : after.Flat
  config : after.allocator.config = before.allocator.config
  absent : before.framesOf childId = none
  frames : ∃ frames, before.framesOf parentId = some frames ∧
    after.framesOf childId = some frames
  others : ∀ other, other ≠ childId → after.framesOf other = before.framesOf other
  data : ∀ frame, 0 < before.allocator.refCount frame →
    after.frameData frame = before.frameData frame
  counts : ∀ frames frame, before.framesOf parentId = some frames → frame ∉ frames →
    after.allocator.refCount frame = before.allocator.refCount frame

theorem Opened.branched {before after : KVCacheManager} {parentId childId : SequenceId}
    {parent child : SequenceState} (flat : before.Flat)
    (found : before.sequences.lookup parentId = some parent)
    (tables : child.tables = parent.tables.map fun table => table.fork childId)
    (opened : Opened before after childId child) : Branched before after parentId childId := by
  obtain ⟨table, parent_tables⟩ := flat.table_of found
  rw [parent_tables, List.map_singleton] at tables
  have old := framesOf_of_lookup found parent_tables
  have forked : ((table.fork childId).entries.map (·.physicalId)) =
      table.entries.map (·.physicalId) := by
    simp [BlockTable.fork, Function.comp_def]
  have accounted := opened.accounted flat.accounted
  have new_frames := framesOf_insert_this opened.sequences tables
  have absent : before.framesOf childId = none := by simp [framesOf, opened.absent]
  refine ⟨flat.insert accounted opened.booked.config opened.sequences tables ?_ ?_,
    opened.booked.config, absent, ⟨_, old, by rw [new_frames, forked]⟩,
    framesOf_insert_other opened.sequences, ?_, ?_⟩
  · intro entry member
    obtain ⟨source, source_mem, rfl⟩ := List.mem_map.mp member
    exact flat.resident parentId parent found table (by simp [parent_tables]) source source_mem
  · rw [forked]
    exact flat.distinct parentId _ old
  · intro frame referenced
    exact congrArg Claim.bytes
      (opened.booked.claimAt_kept (flat.accounted.mem_places_of_refCount referenced))
  · intro frames frame frames_eq missing
    rw [old, Option.some.injEq] at frames_eq
    have unmapped : ((placesOf child.tables).map before.allocator.claimAt).map Claim.place =
        (table.entries.map (·.physicalId)).map Place.frame := by
      obtain ⟨state, state_found, places⟩ := flat.placesOf_eq old
      obtain rfl := Option.some.inj (found.symm.trans state_found)
      rw [map_place_claimAt, ← places, ← placesOf_fork parent.tables childId, tables,
        parent_tables, List.map_singleton]
    rw [accounted.refCount_eq, opened.booked.places.count_eq, List.count_append, unmapped,
      flat.accounted.refCount_eq,
      List.count_map_of_injective _ Place.frame (fun _ _ equal => Place.frame.inj equal),
      List.count_eq_zero.mpr (frames_eq ▸ missing), Nat.zero_add]

theorem Flat.forkSequence {manager : KVCacheManager} (flat : manager.Flat)
    (parentId : SequenceId) (childMetadata : SequenceMetadata)
    (bounded : ∀ frame,
      (manager.forkSequence parentId childMetadata).2.references frame < 2 ^ 32) :
    manager.forkSequence parentId childMetadata = (false, manager) ∨
      ∃ after, manager.forkSequence parentId childMetadata = (true, after) ∧
        Branched manager after parentId childMetadata.sequenceId := by
  rcases forkSequence_cases flat.accounted parentId childMetadata bounded with
    refused | ⟨after, parent, child, forked, found, tables, opened⟩
  · exact Or.inl refused
  · exact Or.inr ⟨after, forked, opened.branched flat found tables⟩

/-- A live sequence forks into every unused id. -/
theorem Flat.forkSequence_succeeds {manager : KVCacheManager} (flat : manager.Flat)
    {parentId : SequenceId} {childMetadata : SequenceMetadata} {frames : List PhysicalBlockId}
    (frames_eq : manager.framesOf parentId = some frames)
    (unused : manager.framesOf childMetadata.sequenceId = none) :
    (manager.forkSequence parentId childMetadata).1 = true := by
  obtain ⟨parent, found, -⟩ := Option.map_eq_some_iff.mp frames_eq
  have absent : manager.sequences.lookup childMetadata.sequenceId = none :=
    Option.map_eq_none_iff.mp unused
  have whole : anySwapped parent.tables = false := by
    rw [anySwapped, List.any_eq_false]
    intro table member
    rw [Bool.not_eq_true, List.any_eq_false]
    intro entry inside
    simp [flat.resident parentId parent found table member entry inside]
  simp [KVCacheManager.forkSequence, found, absent, whole]

/-! ## Overwriting -/

/-- New contents of one frame. -/
structure Overwritten (before after : KVCacheManager) (frame : PhysicalBlockId)
    (update : List UInt8 → List UInt8) : Prop where
  flat : after.Flat
  config : after.allocator.config = before.allocator.config
  frames : ∀ id, after.framesOf id = before.framesOf id
  written : after.frameData frame = update (before.frameData frame)
  data : ∀ other, other ≠ frame → 0 < before.allocator.refCount other →
    after.frameData other = before.frameData other
  counts : ∀ other, after.allocator.refCount other = before.allocator.refCount other
  free : after.allocator.freeList = before.allocator.freeList

theorem Flat.writeFrame {manager : KVCacheManager} (flat : manager.Flat) {id : SequenceId}
    {index : ℕ} {frame : PhysicalBlockId} (exclusive : manager.Exclusive id index frame)
    {update : List UInt8 → List UInt8} (length : ∀ data, (update data).length = data.length) :
    Overwritten manager
      { manager with allocator := manager.allocator.writeFrame frame update } frame update := by
  obtain ⟨frames, frames_eq, frame_eq, single⟩ := exclusive
  have owned := flat.frame_mem frames_eq (List.mem_of_getElem? frame_eq)
  have stored : Stored manager
      { manager with allocator := manager.allocator.writeFrame frame update } frame update :=
    stored_writeFrame flat.accounted owned single length rfl rfl rfl
  refine ⟨⟨stored.accounted flat.accounted, flat.layers, flat.resident, flat.distinct⟩, rfl,
    fun _ => rfl, stored.bytes, ?_, fun _ => rfl, rfl⟩
  intro other different referenced
  refine congrArg Claim.bytes (stored.others _
    (flat.accounted.mem_places_of_refCount referenced) ?_)
  simpa using different

/-! ## Exclusive frames -/

theorem Exclusive.extended {before after : KVCacheManager} {id grown : SequenceId}
    {index blocks : ℕ} {frame : PhysicalBlockId} (exclusive : before.Exclusive id index frame)
    (extended : Extended before after grown blocks) : after.Exclusive id index frame := by
  obtain ⟨frames, frames_eq, frame_eq, single⟩ := exclusive
  have count : after.allocator.refCount frame = 1 := by
    rw [extended.counts frame (by omega), single]
  by_cases same : id = grown
  · subst same
    obtain ⟨old, new, old_eq, new_eq, -⟩ := extended.frames
    obtain rfl := Option.some.inj (frames_eq.symm.trans old_eq)
    refine ⟨_, new_eq, ?_, count⟩
    rw [List.getElem?_append_left (List.getElem?_eq_some_iff.mp frame_eq).1, frame_eq]
  · exact ⟨frames, (extended.others id same).trans frames_eq, frame_eq, count⟩

theorem Exclusive.rewritten {before after : KVCacheManager} {id moved : SequenceId}
    {index block : ℕ} {frame copy : PhysicalBlockId}
    (exclusive : before.Exclusive id index frame)
    (rewritten : Rewritten before after moved block copy) : after.Exclusive id index frame := by
  obtain ⟨frames, frames_eq, frame_eq, single⟩ := exclusive
  have count := rewritten.counts frame single
  by_cases same : id = moved
  · subst same
    obtain ⟨old, old_eq, inside, new_eq⟩ := rewritten.frames
    obtain rfl := Option.some.inj (frames_eq.symm.trans old_eq)
    refine ⟨_, new_eq, ?_, count⟩
    rw [List.getElem?_set]
    split
    · rename_i here
      subst here
      rw [rewritten.kept frames frame frames_eq frame_eq single]
    · exact frame_eq
  · exact ⟨frames, (rewritten.others id same).trans frames_eq, frame_eq, count⟩

theorem Rewritten.exclusive {before after : KVCacheManager} {id : SequenceId} {index : ℕ}
    {frame : PhysicalBlockId} (rewritten : Rewritten before after id index frame) :
    after.Exclusive id index frame := by
  obtain ⟨old, -, inside, new_eq⟩ := rewritten.frames
  exact ⟨_, new_eq, List.getElem?_set_self inside, rewritten.single⟩

theorem Exclusive.branched {before after : KVCacheManager} {id parentId childId : SequenceId}
    {index : ℕ} {frame : PhysicalBlockId} (flat : before.Flat)
    (exclusive : before.Exclusive id index frame) (different : id ≠ parentId)
    (branched : Branched before after parentId childId) : after.Exclusive id index frame := by
  obtain ⟨frames, frames_eq, frame_eq, single⟩ := exclusive
  obtain ⟨shared, parent_eq, -⟩ := branched.frames
  have unshared := flat.unshared different.symm frames_eq parent_eq
    (List.mem_of_getElem? frame_eq) single
  have other : id ≠ childId := by
    rintro rfl
    rw [branched.absent] at frames_eq
    simp at frames_eq
  exact ⟨frames, (branched.others id other).trans frames_eq, frame_eq,
    (branched.counts shared frame parent_eq unshared).trans single⟩

theorem Exclusive.overwritten {before after : KVCacheManager} {id : SequenceId} {index : ℕ}
    {frame other : PhysicalBlockId} {update : List UInt8 → List UInt8}
    (exclusive : before.Exclusive id index frame)
    (overwritten : Overwritten before after other update) : after.Exclusive id index frame := by
  obtain ⟨frames, frames_eq, frame_eq, single⟩ := exclusive
  exact ⟨frames, (overwritten.frames id).trans frames_eq, frame_eq,
    (overwritten.counts frame).trans single⟩

/-! ## Contents -/

theorem Extended.contents {before after : KVCacheManager} {id : SequenceId} {blocks : ℕ}
    (flat : before.Flat) (extended : Extended before after id blocks) {other : SequenceId}
    {frames : List PhysicalBlockId} (frames_eq : before.framesOf other = some frames) :
    ∃ frames', after.framesOf other = some frames' ∧ frames <+: frames' ∧
      frames.map before.frameData <+: frames'.map after.frameData := by
  have same_data : frames.map before.frameData = frames.map after.frameData :=
    List.map_congr_left fun frame member =>
      (extended.data frame (flat.refCount_pos frames_eq member)).symm
  by_cases same : other = id
  · subst same
    obtain ⟨old, new, old_eq, new_eq, -⟩ := extended.frames
    obtain rfl := Option.some.inj (frames_eq.symm.trans old_eq)
    refine ⟨_, new_eq, List.prefix_append _ _, ?_⟩
    rw [same_data, List.map_append]
    exact List.prefix_append _ _
  · exact ⟨frames, (extended.others other same).trans frames_eq, List.prefix_rfl,
      same_data ▸ List.prefix_rfl⟩

theorem Branched.contents {before after : KVCacheManager} {parentId childId : SequenceId}
    (flat : before.Flat) (branched : Branched before after parentId childId) {other : SequenceId}
    {frames : List PhysicalBlockId} (frames_eq : before.framesOf other = some frames) :
    after.framesOf other = some frames ∧
      frames.map after.frameData = frames.map before.frameData := by
  have different : other ≠ childId := by
    rintro rfl
    rw [branched.absent] at frames_eq
    simp at frames_eq
  exact ⟨(branched.others other different).trans frames_eq,
    List.map_congr_left fun frame member =>
      branched.data frame (flat.refCount_pos frames_eq member)⟩

/-- Overwriting an exclusive frame changes one block of its owner. -/
theorem Overwritten.contents {before after : KVCacheManager} {id : SequenceId} {index : ℕ}
    {frame : PhysicalBlockId} {update : List UInt8 → List UInt8} (flat : before.Flat)
    (exclusive : before.Exclusive id index frame)
    (overwritten : Overwritten before after frame update) {other : SequenceId}
    {frames : List PhysicalBlockId} (frames_eq : before.framesOf other = some frames) :
    frames.map after.frameData =
      if other = id then (frames.map before.frameData).modify index update
      else frames.map before.frameData := by
  obtain ⟨mine, mine_eq, frame_eq, single⟩ := exclusive
  have unchanged : ∀ different ∈ frames, different ≠ frame →
      after.frameData different = before.frameData different := fun different member apart =>
    overwritten.data different apart (flat.refCount_pos frames_eq member)
  split
  · rename_i same
    subst same
    obtain rfl := Option.some.inj (frames_eq.symm.trans mine_eq)
    refine List.ext_getElem? fun position => ?_
    rw [List.getElem?_modify, List.getElem?_map, List.getElem?_map]
    cases position_eq : frames[position]? with
    | none => rfl
    | some found =>
        simp only [Option.map_some, Option.map_eq_map, Option.some.injEq]
        split
        · rename_i here
          subst here
          obtain rfl := Option.some.inj (frame_eq.symm.trans position_eq)
          exact overwritten.written
        · rename_i elsewhere
          refine unchanged found (List.mem_of_getElem? position_eq) ?_
          rintro rfl
          exact elsewhere ((List.getElem?_inj (List.getElem?_eq_some_iff.mp frame_eq).1
            (flat.distinct other frames frames_eq)).mp (frame_eq.trans position_eq.symm))
  · rename_i different
    refine List.map_congr_left fun found member => unchanged found member ?_
    rintro rfl
    exact flat.unshared different mine_eq frames_eq (List.mem_of_getElem? frame_eq) single member

end KVCacheManager
end QwenVLPaged
