import QwenVLPaged.Conservation
import QwenVLPaged.LayoutOffsets
import QwenVLPaged.Library.Occurrence

/-!
# Logical memory

The bytes a sequence owns, table by table and block by block, no matter in which frame or swap
slot they are. Each call of the cache manager changes the logical memory of one sequence at most;
moving, sharing and swapping blocks change none.
-/

namespace QwenVLPaged

/-- Bytes found at a place. -/
def MemoryAllocator.bytesAt (allocator : MemoryAllocator) (place : Place) : List UInt8 :=
  (allocator.claimAt place).bytes

/-- Bytes of the blocks of a list of tables. -/
def blockBytesOf (allocator : MemoryAllocator) (tables : List BlockTable) :
    List (List (List UInt8)) :=
  tables.map fun table => table.entries.map fun entry => allocator.bytesAt entry.place

/-- Bytes of the frames of a prefix record, in the order of the record. -/
def recordBytesOf (allocator : MemoryAllocator) (record : PrefixRecord) : List (List UInt8) :=
  record.physicalIds.map fun frame => allocator.bytesAt (.frame frame)

/-- The block at an index of a table. -/
def blockAt (memory : List (List (List UInt8))) (table index : ℕ) : Option (List UInt8) :=
  memory[table]?.bind (·[index]?)

/-- All tables have the same number of blocks. -/
def Level (memory : List (List (List UInt8))) : Prop :=
  ∃ count, ∀ row ∈ memory, row.length = count

theorem flatten_blockBytesOf (allocator : MemoryAllocator) (tables : List BlockTable) :
    (blockBytesOf allocator tables).flatten = (placesOf tables).map allocator.bytesAt := by
  simp [blockBytesOf, placesOf, List.flatMap, List.map_flatten, Function.comp_def]

theorem lengths_blockBytesOf (allocator : MemoryAllocator) (tables : List BlockTable) :
    (blockBytesOf allocator tables).map List.length = tables.map (·.entries.length) := by
  simp [blockBytesOf, Function.comp_def]

theorem blockBytesOf_congr {before after : MemoryAllocator} {tables : List BlockTable}
    (same : ∀ place ∈ placesOf tables, after.claimAt place = before.claimAt place) :
    blockBytesOf after tables = blockBytesOf before tables := by
  apply List.map_congr_left
  intro table table_mem
  apply List.map_congr_left
  intro entry entry_mem
  exact congrArg Claim.bytes (same entry.place (List.mem_map_of_mem
    (List.mem_flatMap.mpr ⟨table, table_mem, entry_mem⟩)))

theorem recordBytesOf_congr {before after : MemoryAllocator} {record : PrefixRecord}
    (same : ∀ frame ∈ record.physicalIds,
      after.claimAt (.frame frame) = before.claimAt (.frame frame)) :
    recordBytesOf after record = recordBytesOf before record := by
  apply List.map_congr_left
  intro frame member
  exact congrArg Claim.bytes (same frame member)

/-- Two memories with the same blocks in the same order and level tables are the same. -/
theorem memory_eq_of_flatten {memory memory' : List (List (List UInt8))}
    (flat : memory.flatten = memory'.flatten) (count : memory.length = memory'.length)
    (level : Level memory) (level' : Level memory') : memory = memory' := by
  obtain ⟨width, rows⟩ := level
  obtain ⟨width', rows'⟩ := level'
  have replicated : memory.map List.length = List.replicate memory.length width :=
    List.eq_replicate_iff.mpr ⟨by simp, fun length member => by
      obtain ⟨row, row_mem, rfl⟩ := List.mem_map.mp member
      exact rows row row_mem⟩
  have replicated' : memory'.map List.length = List.replicate memory'.length width' :=
    List.eq_replicate_iff.mpr ⟨by simp, fun length member => by
      obtain ⟨row, row_mem, rfl⟩ := List.mem_map.mp member
      exact rows' row row_mem⟩
  refine List.eq_iff_flatten_eq.mpr ⟨flat, ?_⟩
  rw [replicated, replicated', count]
  rcases Nat.eq_zero_or_pos memory'.length with none_left | positive
  · simp [none_left]
  · have total := congrArg List.length flat
    rw [List.length_flatten, List.length_flatten, replicated, replicated', count,
      List.sum_replicate, List.sum_replicate, smul_eq_mul, smul_eq_mul] at total
    rw [Nat.eq_of_mul_eq_mul_left positive total]

namespace KVCacheManager

/-! ## Places of the others -/

theorem mem_placesWithout_of_other {manager : KVCacheManager} {id other : SequenceId}
    {state : SequenceState} (different : other ≠ id)
    (found : manager.sequences.lookup other = some state) {place : Place}
    (member : place ∈ placesOf state.tables) : place ∈ manager.placesWithout id := by
  obtain ⟨entry, entry_mem, rfl⟩ := List.mem_map.mp member
  refine List.mem_append_left _ (List.mem_map_of_mem (AList.mem_gather.mpr ⟨other, state, ?_,
    entry_mem⟩))
  rw [AList.lookup_erase_ne different]
  exact found

theorem mem_placesWithout_of_record {manager : KVCacheManager} {id : SequenceId} {key : String}
    {records : List PrefixRecord} {record : PrefixRecord}
    (found : manager.prefixIndex.lookup key = some records) (record_mem : record ∈ records)
    {frame : PhysicalBlockId} (member : frame ∈ record.physicalIds) :
    Place.frame frame ∈ manager.placesWithout id :=
  List.mem_append_right _ (List.mem_map_of_mem
    (mem_pinnedIds.mpr ⟨key, records, found, record, record_mem, member⟩))

theorem mem_places_of_mem_placesWithout {manager : KVCacheManager} {id : SequenceId}
    {place : Place} (member : place ∈ manager.placesWithout id) : place ∈ manager.places := by
  cases found : manager.sequences.lookup id with
  | none => rwa [placesWithout_of_absent found] at member
  | some state => exact (places_perm found).mem_iff.mpr (List.mem_append_right _ member)

/-! ## Effects on the logical memory -/

theorem Moved.blockBytesOf {before after : KVCacheManager} {id : SequenceId}
    {state : SequenceState} {tables : List BlockTable}
    (moved : Moved before after id state tables) :
    blockBytesOf after.allocator tables = blockBytesOf before.allocator state.tables := by
  obtain ⟨owned, places, bytes, booked⟩ := moved.booked
  have kept := booked.map_owned
  rw [places] at kept
  refine List.eq_iff_flatten_eq.mpr ⟨?_, ?_⟩
  · rw [flatten_blockBytesOf, flatten_blockBytesOf]
    refine Eq.trans ?_ bytes
    rw [← kept, List.map_map]
    rfl
  · rw [lengths_blockBytesOf, lengths_blockBytesOf, moved.lengths]

theorem Moved.steady {before after : KVCacheManager} {id : SequenceId} {state : SequenceState}
    {tables : List BlockTable} (moved : Moved before after id state tables) :
    ∀ place ∈ before.placesWithout id,
      after.allocator.claimAt place = before.allocator.claimAt place := by
  obtain ⟨owned, -, -, booked⟩ := moved.booked
  exact fun place member => booked.claimAt_kept member

/-- Growing keeps every old block. -/
theorem blockAt_extendAll {allocator : MemoryAllocator} {tables : List BlockTable}
    {added : List (List BlockTableEntry)} (lengths : added.length = tables.length)
    {table index : ℕ} {block : List UInt8}
    (found : blockAt (blockBytesOf allocator tables) table index = some block) :
    blockAt (blockBytesOf allocator (extendAll tables added)) table index = some block := by
  unfold blockAt blockBytesOf at found ⊢
  rw [List.getElem?_map] at found ⊢
  cases table_eq : tables[table]? with
  | none => simp [table_eq] at found
  | some source =>
      have inside := (List.getElem?_eq_some_iff.mp table_eq).1
      have added_eq := List.getElem?_eq_getElem (l := added) (i := table) (by omega)
      rw [table_eq] at found
      simp only [Option.map_some, Option.bind_some] at found
      have extended : (extendAll tables added)[table]? = some (source.extend added[table]) := by
        rw [extendAll, List.getElem?_zipWith, table_eq, added_eq]
      rw [extended]
      simp only [Option.map_some, Option.bind_some, BlockTable.extend, List.map_append]
      rw [List.getElem?_append_left (List.getElem?_eq_some_iff.mp found).1]
      exact found

/-- The entry at an index of a table. -/
def entryAt (tables : List BlockTable) (table index : ℕ) : Option BlockTableEntry :=
  tables[table]?.bind (·.entries[index]?)

theorem blockAt_blockBytesOf (allocator : MemoryAllocator) (tables : List BlockTable)
    (table index : ℕ) :
    blockAt (QwenVLPaged.blockBytesOf allocator tables) table index =
      (entryAt tables table index).map fun entry => allocator.bytesAt entry.place := by
  unfold blockAt entryAt QwenVLPaged.blockBytesOf
  rw [List.getElem?_map]
  cases tables[table]? with
  | none => rfl
  | some found => simp

theorem mem_placesOf_of_entryAt {tables : List BlockTable} {table index : ℕ}
    {entry : BlockTableEntry} (found : entryAt tables table index = some entry) :
    entry.place ∈ placesOf tables := by
  obtain ⟨source, source_eq, entry_eq⟩ := Option.bind_eq_some_iff.mp found
  exact List.mem_map_of_mem (List.mem_flatMap.mpr
    ⟨source, List.mem_of_getElem? source_eq, List.mem_of_getElem? entry_eq⟩)

/-- A place that occurs once is the place of one entry. -/
theorem entryAt_unique {tables : List BlockTable} {table index table' index' : ℕ}
    {entry entry' : BlockTableEntry} (single : (placesOf tables).count entry.place ≤ 1)
    (found : entryAt tables table index = some entry)
    (found' : entryAt tables table' index' = some entry') (same : entry'.place = entry.place) :
    table = table' ∧ index = index' := by
  obtain ⟨source, source_eq, entry_eq⟩ := Option.bind_eq_some_iff.mp found
  obtain ⟨source', source_eq', entry_eq'⟩ := Option.bind_eq_some_iff.mp found'
  have rows : placesOf tables =
      (tables.map fun table => table.entries.map BlockTableEntry.place).flatten := by
    simp [placesOf, List.flatMap, List.map_flatten, Function.comp_def]
  have at_row : (tables.map fun table => table.entries.map BlockTableEntry.place)[table]? =
      some (source.entries.map BlockTableEntry.place) := by
    rw [List.getElem?_map, source_eq, Option.map_some]
  have at_row' : (tables.map fun table => table.entries.map BlockTableEntry.place)[table']? =
      some (source'.entries.map BlockTableEntry.place) := by
    rw [List.getElem?_map, source_eq', Option.map_some]
  rw [rows] at single
  refine List.nested_position_unique single at_row ?_ at_row' ?_
  · rw [List.getElem?_map, entry_eq, Option.map_some]
  · rw [List.getElem?_map, entry_eq', Option.map_some, same]

theorem count_placesOf_le {manager : KVCacheManager} {id : SequenceId} {state : SequenceState}
    (found : manager.sequences.lookup id = some state) (place : Place) :
    (placesOf state.tables).count place ≤ manager.places.count place := by
  rw [(places_perm found).count_eq, List.count_append]
  exact Nat.le_add_right _ _

theorem Accounted.length_bytesAt {manager : KVCacheManager} (accounted : manager.Accounted)
    {place : Place} (member : place ∈ manager.places) :
    (manager.allocator.bytesAt place).length = manager.allocator.config.blockStrideFor := by
  have held := accounted.ledger.held (manager.allocator.claimAt place)
    (List.mem_map_of_mem member)
  cases place with
  | frame id => exact accounted.ledger.formed.frame_size id _ held
  | slot id => exact accounted.ledger.formed.slot_size id _ held

end KVCacheManager
end QwenVLPaged
