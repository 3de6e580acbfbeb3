import QwenVLPaged.PrivateArrays

/-!
# Logical memory isolation

The cache manager refines the private arrays: along every run, what a view of a live sequence
returns for an element that the sequence wrote or inherited is the value in its private array.
-/

namespace QwenVLPaged

namespace KVCacheManager

/-- What a call means for the arrays, read off its result. -/
def eventOf (manager : KVCacheManager) : CacheOp → ArrayEvent
  | .createSequence metadata =>
      if (manager.createSequence metadata).1 then .create metadata.sequenceId else .silent
  | .forkSequence parentId childMetadata =>
      if (manager.forkSequence parentId childMetadata).1 then
        .fork parentId childMetadata.sequenceId
      else
        .silent
  | .writeToken sequenceId token layer stores =>
      if (manager.writeToken sequenceId token layer stores).1.isSome then
        .write sequenceId token layer stores
      else
        .silent
  | .publishPrefix sequenceId key =>
      let after := (manager.publishPrefix sequenceId key).2
      -- A publication that joins an existing record takes no snapshot.
      if (after.recordsAt key).length ≤ (manager.recordsAt key).length then
        .silent
      else
        match after.sequences.lookup sequenceId with
        | none => .silent
        | some state => .publish sequenceId key state.prefixHash
  | .attachPrefix sequenceId key =>
      let after := (manager.attachPrefix sequenceId key).2
      match manager.sequences.lookup sequenceId, after.sequences.lookup sequenceId with
      | some state, some state' =>
          if state.textTable.entries.isEmpty && !state'.textTable.entries.isEmpty then
            .attach sequenceId key state'.prefixHash
          else
            .silent
      | _, _ => .silent
  | .releaseSequence sequenceId => .release [sequenceId]
  | .releaseRequest requestId => .release (manager.sequencesFor requestId)
  | .reserveTokens _ _ | .ensureTokenWritable _ _ _ | .swapOutSequence _ | .swapOutRequest _
  | .swapInSequence _ | .swapInRequest _ => .silent

/-- The cache manager and the arrays side by side. -/
def isolationStep (shape : BlockShape) (state : KVCacheManager × PrivateArrays) (op : CacheOp) :
    KVCacheManager × PrivateArrays :=
  (state.1.step op, state.2.apply shape (state.1.eventOf op))

/-! ## The simulation relation -/

/-- A sequence whose blocks hold its array. -/
structure SequenceHolds (allocator : MemoryAllocator) (tables : List BlockTable)
    (array : PrivateArray) : Prop where
  level : Level (blockBytesOf allocator tables)
  holds : Holds allocator.config.blockShape (blockBytesOf allocator tables) array

/-- A record whose frames, cut into level tables, hold its snapshot. -/
def RecordHolds (allocator : MemoryAllocator) (record : PrefixRecord) (array : PrivateArray) :
    Prop :=
  ∃ memory, memory.flatten = recordBytesOf allocator record ∧
    memory.length = allocator.config.tableCount ∧ Level memory ∧
    Holds allocator.config.blockShape memory array

/-- The simulation relation between the cache manager and the arrays. -/
structure Refines (manager : KVCacheManager) (arrays : PrivateArrays) : Prop where
  live : ∀ id, (arrays.arrays id).isSome = (manager.sequences.lookup id).isSome
  sequences : ∀ id state array, manager.sequences.lookup id = some state →
    arrays.arrays id = some array → SequenceHolds manager.allocator state.tables array
  records : ∀ key records, manager.prefixIndex.lookup key = some records → ∀ record ∈ records,
    RecordHolds manager.allocator record (arrays.snapshots key record.contentHash)

theorem refines_fresh (config : AllocatorConfig) (slab : ℕ → UInt8) (maxSlots : ℕ) :
    Refines (fresh config slab maxSlots) .empty := by
  refine ⟨?_, ?_, ?_⟩ <;> simp [fresh, create, PrivateArrays.empty]

/-- The old record behind a record, with the same frames and the same name. -/
def OldRecord (before : KVCacheManager) (key : String) (record : PrefixRecord) : Prop :=
  ∃ records old, before.prefixIndex.lookup key = some records ∧ old ∈ records ∧
    old.physicalIds = record.physicalIds ∧ old.contentHash = record.contentHash

theorem SequenceHolds.congr {before after : MemoryAllocator} {tables : List BlockTable}
    {array : PrivateArray} (holds : SequenceHolds before tables array)
    (config : after.config = before.config)
    (same : ∀ place ∈ placesOf tables, after.claimAt place = before.claimAt place) :
    SequenceHolds after tables array := by
  refine ⟨?_, ?_⟩
  · rw [blockBytesOf_congr same]
    exact holds.level
  · rw [blockBytesOf_congr same, config]
    exact holds.holds

/-- A call that touches one sequence: everybody else keeps places and bytes. -/
theorem Refines.update {before after : KVCacheManager} {arrays arrays' : PrivateArrays}
    (refines : Refines before arrays) (id : SequenceId)
    (config : after.allocator.config = before.allocator.config)
    (others : ∀ other, other ≠ id →
      after.sequences.lookup other = before.sequences.lookup other)
    (others' : ∀ other, other ≠ id → arrays'.arrays other = arrays.arrays other)
    (steady : ∀ place ∈ before.placesWithout id, place ∈ after.places →
      after.allocator.claimAt place = before.allocator.claimAt place)
    (live : (arrays'.arrays id).isSome = (after.sequences.lookup id).isSome)
    (this : ∀ state array, after.sequences.lookup id = some state →
      arrays'.arrays id = some array → SequenceHolds after.allocator state.tables array)
    (records : ∀ key records, after.prefixIndex.lookup key = some records →
      ∀ record ∈ records, (before.OldRecord key record ∧
        arrays'.snapshots key record.contentHash = arrays.snapshots key record.contentHash) ∨
        RecordHolds after.allocator record (arrays'.snapshots key record.contentHash)) :
    Refines after arrays' := by
  refine ⟨?_, ?_, ?_⟩
  · intro other
    by_cases same : other = id
    · rw [same]
      exact live
    · rw [others other same, others' other same]
      exact refines.live other
  · intro other state array found array_eq
    by_cases same : other = id
    · subst same
      exact this state array found array_eq
    · have now := found
      rw [others other same] at found
      rw [others' other same] at array_eq
      refine (refines.sequences other state array found array_eq).congr config ?_
      intro place member
      exact steady place (mem_placesWithout_of_other same found member)
        (mem_places_of_mem_tables now member)
  · intro key found found_eq record member
    rcases records key found found_eq record member with ⟨⟨olds, old, old_eq, old_mem, ids, hash⟩,
      snapshot⟩ | new
    · obtain ⟨memory, flat, count, level, holds⟩ := refines.records key olds old_eq old old_mem
      rw [snapshot, ← hash]
      refine ⟨memory, ?_, by rw [config]; exact count, level, by rw [config]; exact holds⟩
      rw [flat, recordBytesOf, recordBytesOf, ids]
      refine List.map_congr_left fun frame frame_mem => ?_
      refine congrArg Claim.bytes (steady _ ?_ ?_).symm
      · exact mem_placesWithout_of_record old_eq old_mem (ids ▸ frame_mem)
      · exact mem_places_of_record found_eq member frame_mem
    · exact new

theorem oldRecord_of_same {before after : KVCacheManager}
    (prefixIndex : after.prefixIndex = before.prefixIndex) {key : String}
    {records : List PrefixRecord} (found : after.prefixIndex.lookup key = some records)
    {record : PrefixRecord} (member : record ∈ records) : before.OldRecord key record :=
  ⟨records, record, prefixIndex ▸ found, member, rfl, rfl⟩

/-! ## One call -/

theorem Refines.moved {before after : KVCacheManager} {arrays : PrivateArrays} {id : SequenceId}
    {state : SequenceState} {tables : List BlockTable} (refines : Refines before arrays)
    (moved : Moved before after id state tables) : Refines after arrays := by
  obtain ⟨_, _, _, booked⟩ := moved.booked
  have here := AList.lookup_inserted_self moved.sequences
  refine refines.update id booked.config (AList.lookup_inserted_ne moved.sequences) (fun _ _ => rfl)
    (fun place member _ => moved.steady place member) ?_ ?_ ?_
  · rw [refines.live id, moved.found, here]
    rfl
  · intro state' array found array_eq
    obtain rfl := Option.some.inj (here.symm.trans found)
    obtain ⟨level, holds⟩ := refines.sequences id state array moved.found array_eq
    refine ⟨?_, ?_⟩
    · rw [moved.blockBytesOf]
      exact level
    · rw [moved.blockBytesOf, booked.config]
      exact holds
  · intro key records found record member
    exact Or.inl ⟨oldRecord_of_same moved.prefixIndex found member, rfl⟩

theorem Opened.steady {before after : KVCacheManager} {id : SequenceId} {state : SequenceState}
    (opened : Opened before after id state) :
    ∀ place ∈ before.places,
      after.allocator.claimAt place = before.allocator.claimAt place :=
  fun _ member => opened.booked.claimAt_kept member

/-- A new sequence with a given array. -/
theorem Refines.opened {before after : KVCacheManager} {arrays : PrivateArrays} {id : SequenceId}
    {state : SequenceState} (refines : Refines before arrays)
    (opened : Opened before after id state) {array : PrivateArray}
    (holds : SequenceHolds before.allocator state.tables array) :
    Refines after { arrays with arrays := Function.update arrays.arrays id (some array) } := by
  have here := AList.lookup_inserted_self opened.sequences
  refine refines.update id opened.booked.config (AList.lookup_inserted_ne opened.sequences)
    (fun other different => Function.update_of_ne different _ _) ?_ ?_ ?_ ?_
  · intro place member _
    exact opened.steady place (mem_places_of_mem_placesWithout member)
  · rw [here]
    simp
  · intro state' array' found array_eq
    obtain rfl := Option.some.inj (here.symm.trans found)
    simp only [Function.update_self, Option.some.injEq] at array_eq
    subst array_eq
    exact holds.congr opened.booked.config fun place member =>
      opened.steady place (opened.shared place member)
  · intro key records found record member
    exact Or.inl ⟨oldRecord_of_same opened.prefixIndex found member, rfl⟩

theorem sequenceHolds_empty (allocator : MemoryAllocator) {tables : List BlockTable}
    (empty : ∀ table ∈ tables, table.entries = []) :
    SequenceHolds allocator tables fun _ => none := by
  refine ⟨⟨0, ?_⟩, holds_empty _ _⟩
  intro row member
  obtain ⟨table, table_mem, rfl⟩ := List.mem_map.mp member
  simp [empty table table_mem]

theorem SequenceHolds.fork {allocator : MemoryAllocator} {tables : List BlockTable}
    {array : PrivateArray} (holds : SequenceHolds allocator tables array) (child : SequenceId) :
    SequenceHolds allocator (tables.map fun table => table.fork child) array := by
  have same : blockBytesOf allocator (tables.map fun table => table.fork child) =
      blockBytesOf allocator tables := by
    simp only [blockBytesOf, List.map_map]
    apply List.map_congr_left
    intro table _
    simp only [Function.comp_apply, BlockTable.fork, List.map_map]
    rfl
  exact ⟨same ▸ holds.level, same ▸ holds.holds⟩

theorem Grown.steady {before after : KVCacheManager} {id : SequenceId} {state : SequenceState}
    {blocks : ℕ} {added : List (List BlockTableEntry)} {complete : Bool}
    (grown : Grown before after id state blocks added complete) :
    after.allocator.config = before.allocator.config ∧ ∀ place ∈ before.places,
      after.allocator.claimAt place = before.allocator.claimAt place := by
  obtain ⟨fresh, -, booked⟩ := grown.booked
  exact ⟨booked.config, fun _ member => booked.claimAt_kept member⟩

theorem level_extendAll {allocator : MemoryAllocator} {tables : List BlockTable}
    {added : List (List BlockTableEntry)} {blocks : ℕ}
    (level : Level (blockBytesOf allocator tables))
    (full : ∀ entries ∈ added, entries.length = blocks) :
    Level (blockBytesOf allocator (extendAll tables added)) := by
  obtain ⟨count, rows⟩ := level
  refine ⟨count + blocks, ?_⟩
  intro row member
  obtain ⟨table, table_mem, rfl⟩ := List.mem_map.mp member
  obtain ⟨source, source_mem, entries, entries_mem, rfl⟩ := exists_of_mem_extendAll table_mem
  have old : source.entries.length = count := by
    simpa using rows _ (List.mem_map_of_mem source_mem)
  simp [BlockTable.extend, old, full entries entries_mem]

theorem Refines.grown {before after : KVCacheManager} {arrays : PrivateArrays} {id : SequenceId}
    {state : SequenceState} {blocks : ℕ} {added : List (List BlockTableEntry)}
    (refines : Refines before arrays) (grown : Grown before after id state blocks added true) :
    Refines after arrays := by
  obtain ⟨config, steady⟩ := grown.steady
  have here := AList.lookup_inserted_self grown.sequences
  refine refines.update id config (AList.lookup_inserted_ne grown.sequences) (fun _ _ => rfl)
    (fun place member _ => steady place (mem_places_of_mem_placesWithout member)) ?_ ?_ ?_
  · rw [refines.live id, grown.found, here]
    rfl
  · intro state' array found array_eq
    obtain rfl := Option.some.inj (here.symm.trans found)
    obtain ⟨level, holds⟩ := (refines.sequences id state array grown.found array_eq).congr config
      fun place member => steady place (mem_places_of_mem_tables grown.found member)
    exact ⟨level_extendAll level (grown.reserved.full rfl),
      holds.mono fun table index block => blockAt_extendAll grown.reserved.lengths⟩
  · intro key records found record member
    exact Or.inl ⟨oldRecord_of_same grown.prefixIndex found member, rfl⟩

/-- Elements stored into the block that was located. -/
theorem Refines.stored {before after : KVCacheManager} {arrays : PrivateArrays} {id : SequenceId}
    {state : SequenceState} {token layer : ℕ} {frame : PhysicalBlockId}
    {stores : List TokenStore} (addressable : before.allocator.config.Addressable)
    (accounted : before.Accounted) (refines : Refines before arrays)
    (found : before.sequences.lookup id = some state)
    (located : Located before state.tables layer
      (token / before.allocator.config.blockShape.tokensPerBlock) frame)
    (table_eq : writtenTable before.allocator.config.blockShape layer = layer)
    (stored : Stored before after frame fun data =>
      stores.foldl (storeToken before.allocator.config.blockShape token) data) :
    Refines after (arrays.apply before.allocator.config.blockShape
      (.write id token layer stores)) := by
  obtain ⟨table, entry, layer_eq, index_eq, place⟩ := located.entry
  have entry_at : entryAt state.tables layer
      (token / before.allocator.config.blockShape.tokensPerBlock) = some entry := by
    simp [entryAt, layer_eq, index_eq]
  have same_sequences (other : SequenceId) :
      after.sequences.lookup other = before.sequences.lookup other := by rw [stored.sequences]
  have owned := mem_placesOf_of_entryAt entry_at
  refine refines.update id stored.config (fun other _ => same_sequences other)
    (fun other different => Function.update_of_ne different _ _) ?_ ?_ ?_ ?_
  · intro place' member _
    refine stored.others place' (mem_places_of_mem_placesWithout member) ?_
    -- The located entry has the only reference, so nobody else owns its frame.
    rintro rfl
    have total := stored.single
    rw [(places_perm found).count_eq, List.count_append] at total
    have mine := List.count_pos_iff.mpr owned
    have theirs := List.count_pos_iff.mpr member
    rw [place] at mine
    omega
  · have live := refines.live id
    simp only [PrivateArrays.apply, Function.update_self, Option.isSome_map, same_sequences]
    exact live
  · intro state' array' found' array_eq
    rw [same_sequences] at found'
    obtain rfl := Option.some.inj (found.symm.trans found')
    simp only [PrivateArrays.apply, Function.update_self, Option.map_eq_some_iff] at array_eq
    obtain ⟨array, array_eq, rfl⟩ := array_eq
    obtain ⟨level, holds⟩ := refines.sequences id state array found array_eq
    have block_at := blockAt_blockBytesOf before.allocator state.tables layer
      (token / before.allocator.config.blockShape.tokensPerBlock)
    rw [entry_at, Option.map_some] at block_at
    have size := accounted.length_bytesAt (mem_places_of_mem_tables found owned)
    have written := holds.stores addressable (table_eq.symm ▸ block_at) size stores
    rw [table_eq] at written
    refine ⟨?_, ?_⟩
    · obtain ⟨count, rows⟩ := level
      refine ⟨count, ?_⟩
      intro row member
      obtain ⟨source, source_mem, rfl⟩ := List.mem_map.mp member
      simpa using rows _ (List.mem_map_of_mem source_mem)
    · rw [stored.config]
      refine written.mono ?_
      intro table' index' block block_eq
      rw [stored.blockAt found entry_at place]
      exact block_eq
  · intro key records records_eq record member
    exact Or.inl ⟨oldRecord_of_same stored.prefixIndex records_eq member, rfl⟩

theorem Refines.joined {before after : KVCacheManager} {arrays : PrivateArrays} {id : SequenceId}
    {state : SequenceState} {key : String} {front back : List PrefixRecord}
    {existing : PrefixRecord} (refines : Refines before arrays)
    (joined : Joined before after id state key front existing back) : Refines after arrays := by
  have here := AList.lookup_inserted_self joined.sequences
  have steady : ∀ place ∈ before.places,
      after.allocator.claimAt place = before.allocator.claimAt place :=
    fun _ member => joined.booked.claimAt_kept member
  refine refines.update id joined.booked.config (AList.lookup_inserted_ne joined.sequences)
    (fun _ _ => rfl)
    (fun place member _ => steady place (mem_places_of_mem_placesWithout member)) ?_ ?_ ?_
  · rw [refines.live id, joined.found, here]
    rfl
  · intro state' array found array_eq
    obtain rfl := Option.some.inj (here.symm.trans found)
    exact (refines.sequences id state array joined.found array_eq).congr joined.booked.config
      fun place member => steady place (mem_places_of_mem_tables joined.found member)
  · intro other records found record member
    refine Or.inl ⟨?_, rfl⟩
    rw [joined.prefixIndex] at found
    by_cases same : other = key
    · subst same
      rw [AList.lookup_insert, Option.some.injEq] at found
      subst found
      rcases List.mem_append.mp member with inside | inside
      · exact ⟨_, record, joined.records, by simp [inside], rfl, rfl⟩
      · rcases List.mem_cons.mp inside with rfl | inside
        · exact ⟨_, existing, joined.records, by simp, rfl, rfl⟩
        · exact ⟨_, record, joined.records, by simp [inside], rfl, rfl⟩
    · rw [AList.lookup_insert_ne same] at found
      exact ⟨records, record, found, member, rfl, rfl⟩

theorem Refines.published {before after : KVCacheManager} {arrays : PrivateArrays}
    {id : SequenceId} {state : SequenceState} {key : String} {record : PrefixRecord}
    (shape : BlockShape) (accounted : before.Accounted) (refines : Refines before arrays)
    (published : Published before after id state key record) :
    Refines after (arrays.apply shape (.publish id key record.contentHash)) := by
  have here := AList.lookup_inserted_self published.sequences
  have steady : ∀ place ∈ before.places,
      after.allocator.claimAt place = before.allocator.claimAt place :=
    fun _ member => published.booked.claimAt_kept member
  have mine : ∀ place ∈ placesOf state.tables,
      after.allocator.claimAt place = before.allocator.claimAt place :=
    fun place member => steady place (mem_places_of_mem_tables published.found member)
  obtain ⟨array, array_eq⟩ : ∃ array, arrays.arrays id = some array := by
    apply Option.isSome_iff_exists.mp
    rw [refines.live id, published.found]
    rfl
  have held := (refines.sequences id state array published.found array_eq).congr
    published.booked.config mine
  refine refines.update id published.booked.config (AList.lookup_inserted_ne published.sequences)
    (fun _ _ => rfl)
    (fun place member _ => steady place (mem_places_of_mem_placesWithout member)) ?_ ?_ ?_
  · have live := refines.live id
    rw [published.found] at live
    rw [here]
    exact live
  · intro state' array' found array_eq'
    obtain rfl := Option.some.inj (here.symm.trans found)
    obtain rfl := Option.some.inj (array_eq.symm.trans array_eq')
    exact held
  · intro other records found other_record member
    rw [published.prefixIndex] at found
    by_cases same : other = key
    · subst same
      rw [AList.lookup_insert, Option.some.injEq] at found
      subst found
      rcases List.mem_append.mp member with old | new
      · refine Or.inl ⟨?_, ?_⟩
        · unfold recordsAt at old
          cases lookup_eq : before.prefixIndex.lookup other with
          | none => simp [lookup_eq] at old
          | some olds =>
              exact ⟨olds, other_record, lookup_eq, by simpa [lookup_eq] using old, rfl, rfl⟩
        · have different := published.new other_record old
          simp [PrivateArrays.apply, different]
      · obtain rfl := List.mem_singleton.mp new
        refine Or.inr ⟨blockBytesOf after.allocator state.tables, ?_, ?_, held.level, ?_⟩
        · rw [flatten_blockBytesOf, published.frames, List.map_map]
          rfl
        · rw [published.booked.config, ← (accounted.tabled id state published.found).count]
          exact List.length_map _
        · simpa [PrivateArrays.apply, array_eq] using held.holds
    · rw [AList.lookup_insert_ne same] at found
      refine Or.inl ⟨⟨records, other_record, found, member, rfl, rfl⟩, ?_⟩
      simp [PrivateArrays.apply, same]

theorem blockBytesOf_extendAll_empty (allocator : MemoryAllocator) {tables : List BlockTable}
    {added : List (List BlockTableEntry)} (empty : ∀ table ∈ tables, table.entries = [])
    (lengths : added.length = tables.length) :
    blockBytesOf allocator (extendAll tables added) =
      added.map fun entries => entries.map fun entry => allocator.bytesAt entry.place := by
  induction tables generalizing added with
  | nil =>
      obtain rfl := List.length_eq_zero_iff.mp lengths
      rfl
  | cons table tables induction =>
      cases added with
      | nil => simp at lengths
      | cons entries added =>
          have tail := induction (fun other member => empty other (List.mem_cons_of_mem _ member))
            (show added.length = tables.length by simpa using lengths)
          rw [extendAll_cons, blockBytesOf, List.map_cons, ← blockBytesOf, tail]
          simp [BlockTable.extend, empty table List.mem_cons_self]

theorem Refines.attached {before after : KVCacheManager} {arrays : PrivateArrays}
    {id : SequenceId} {state : SequenceState} {key : String} {record : PrefixRecord}
    {added : List (List BlockTableEntry)} (shape : BlockShape) (refines : Refines before arrays)
    (attached : Attached before after id state key record added) :
    Refines after (arrays.apply shape (.attach id key record.contentHash)) := by
  have here := AList.lookup_inserted_self attached.sequences
  have steady : ∀ place ∈ before.places,
      after.allocator.claimAt place = before.allocator.claimAt place :=
    fun _ member => attached.booked.claimAt_kept member
  have config := attached.booked.config
  refine refines.update id config (AList.lookup_inserted_ne attached.sequences)
    (fun other different => Function.update_of_ne different _ _)
    (fun place member _ => steady place (mem_places_of_mem_placesWithout member)) ?_ ?_ ?_
  · rw [here]
    simp [PrivateArrays.apply]
  · intro state' array found array_eq
    obtain rfl := Option.some.inj (here.symm.trans found)
    simp only [PrivateArrays.apply, Function.update_self, Option.some.injEq] at array_eq
    subst array_eq
    obtain ⟨memory, flat, count, level, holds⟩ :=
      refines.records key _ attached.records record (by simp)
    have new_bytes := blockBytesOf_extendAll_empty after.allocator attached.empty
      attached.attached.lengths
    have new_level : Level (blockBytesOf after.allocator (extendAll state.tables added)) := by
      rw [new_bytes]
      refine ⟨record.physicalIds.length / state.tables.length, ?_⟩
      intro row member
      obtain ⟨entries, entries_mem, rfl⟩ := List.mem_map.mp member
      simpa using attached.attached.full entries entries_mem
    have new_flat : (blockBytesOf after.allocator (extendAll state.tables added)).flatten =
        recordBytesOf before.allocator record := by
      rw [new_bytes, ← List.map_flatten, recordBytesOf, ← attached.attached.physical, List.map_map]
      apply List.map_congr_left
      intro entry member
      have frame_mem : entry.physicalId ∈ record.physicalIds := by
        rw [← attached.attached.physical]
        exact List.mem_map_of_mem member
      rw [BlockTableEntry.place_of_resident (attached.attached.resident entry member)]
      exact congrArg Claim.bytes
        (steady _ (mem_places_of_record attached.records (by simp) frame_mem))
    have new_count : (blockBytesOf after.allocator (extendAll state.tables added)).length =
        memory.length := by
      rw [count, ← attached.tabled.count]
      exact List.length_map _
    have same := memory_eq_of_flatten (new_flat.trans flat.symm) new_count new_level level
    refine ⟨new_level, ?_⟩
    rw [same, config]
    exact holds
  · intro other records found other_record member
    refine Or.inl ⟨?_, rfl⟩
    rw [attached.prefixIndex] at found
    by_cases same : other = key
    · subst same
      rw [AList.lookup_insert, Option.some.injEq] at found
      subst found
      rw [List.mem_singleton.mp member]
      exact ⟨_, record, attached.records, by simp, rfl, rfl⟩
    · rw [AList.lookup_insert_ne same] at found
      exact ⟨records, other_record, found, member, rfl, rfl⟩

theorem UserDropped.oldRecord {before after : KVCacheManager} {key : String} {hash : UInt64}
    {freed : List PhysicalBlockId}
    (dropped : UserDropped before.prefixIndex after.prefixIndex key hash freed) {other : String}
    {records : List PrefixRecord} (found : after.prefixIndex.lookup other = some records)
    {record : PrefixRecord} (member : record ∈ records) : before.OldRecord other record := by
  cases dropped with
  | missing _ same => exact oldRecord_of_same same found member
  | @kept front back old _ old_eq _ _ _ same =>
      rw [same] at found
      by_cases this : other = key
      · subst this
        rw [AList.lookup_insert, Option.some.injEq] at found
        subst found
        rcases List.mem_append.mp member with inside | inside
        · exact ⟨_, record, old_eq, by simp [inside], rfl, rfl⟩
        · rcases List.mem_cons.mp inside with rfl | inside
          · exact ⟨_, old, old_eq, by simp, rfl, rfl⟩
          · exact ⟨_, record, old_eq, by simp [inside], rfl, rfl⟩
      · rw [AList.lookup_insert_ne this] at found
        exact ⟨records, record, found, member, rfl, rfl⟩
  | @last front back old _ old_eq _ _ _ same =>
      rw [same] at found
      by_cases this : other = key
      · subst this
        split at found
        · rw [AList.lookup_erase] at found
          simp at found
        · rw [AList.lookup_insert, Option.some.injEq] at found
          subst found
          refine ⟨_, record, old_eq, ?_, rfl, rfl⟩
          rcases List.mem_append.mp member with inside | inside <;> simp [inside]
      · refine ⟨records, record, ?_, member, rfl, rfl⟩
        split at found
        · rwa [AList.lookup_erase_ne this] at found
        · rwa [AList.lookup_insert_ne this] at found

theorem Refines.released {before after : KVCacheManager} {arrays : PrivateArrays}
    {id : SequenceId} {state : SequenceState} (shape : BlockShape)
    (refines : Refines before arrays) (released : Released before after id state) :
    Refines after (arrays.apply shape (.release [id])) := by
  have gone : after.sequences.lookup id = none := by
    rw [released.sequences, AList.lookup_erase]
  obtain ⟨freed, dropped⟩ := released.dropped
  refine refines.update id released.booked.config ?_ ?_
    (fun place _ member => released.booked.claimAt_kept member) ?_ ?_ ?_
  · intro other different
    rw [released.sequences, AList.lookup_erase_ne different]
  · intro other different
    simp [PrivateArrays.apply, different]
  · simp [PrivateArrays.apply, gone]
  · intro state' array found
    rw [gone] at found
    simp at found
  · intro key records found record member
    exact Or.inl ⟨dropped.oldRecord found member, rfl⟩

/-! ## Every call -/

/-- The frames of a reservation can be counted in 32 bits. -/
def FramesFit (manager : KVCacheManager) : CacheOp → Prop
  | .reserveTokens sequenceId tokenCount => ∀ state ∈ manager.sequences.lookup sequenceId,
      blocksNeeded tokenCount manager.tokensPerBlock * state.tables.length < 2 ^ 32
  | _ => True

instance (manager : KVCacheManager) : (op : CacheOp) → Decidable (manager.FramesFit op)
  | .reserveTokens sequenceId _ =>
      inferInstanceAs (Decidable (∀ state ∈ manager.sequences.lookup sequenceId, _))
  | .createSequence _ | .forkSequence _ _ | .ensureTokenWritable _ _ _ | .writeToken _ _ _ _
  | .swapOutSequence _ | .swapOutRequest _ | .swapInSequence _ | .swapInRequest _
  | .publishPrefix _ _ | .attachPrefix _ _ | .releaseSequence _ | .releaseRequest _ =>
      isTrue trivial

/-- A call within all 32-bit counts. -/
structure Unwrapped (manager : KVCacheManager) (op : CacheOp) : Prop extends
    Admissible manager op where
  frames_fit : manager.FramesFit op

/-- The invariant of the two machines side by side. -/
structure Isolated (config : AllocatorConfig) (state : KVCacheManager × PrivateArrays) :
    Prop where
  accounted : state.1.Accounted
  config : state.1.allocator.config = config
  refines : Refines state.1 state.2

theorem Isolated.moved {config : AllocatorConfig} {before after : KVCacheManager}
    {arrays : PrivateArrays} {id : SequenceId} {state : SequenceState} {tables : List BlockTable}
    (isolated : Isolated config (before, arrays)) (moved : Moved before after id state tables) :
    Isolated config (after, arrays) := by
  obtain ⟨_, _, _, booked⟩ := moved.booked
  exact ⟨moved.accounted isolated.accounted, booked.config.trans isolated.config,
    isolated.refines.moved moved⟩

theorem Isolated.swapOutSequence {config : AllocatorConfig} {manager : KVCacheManager}
    {arrays : PrivateArrays} (isolated : Isolated config (manager, arrays))
    (sequenceId : SequenceId) :
    Isolated config ((manager.swapOutSequence sequenceId).2, arrays) := by
  rcases swapOutSequence_cases isolated.accounted sequenceId with
    same | ⟨_, _, _, _, run_eq, moved⟩
  · rwa [same]
  · rw [run_eq]
    exact isolated.moved moved

theorem Isolated.swapInSequence {config : AllocatorConfig} {manager : KVCacheManager}
    {arrays : PrivateArrays} (isolated : Isolated config (manager, arrays))
    (sequenceId : SequenceId) :
    Isolated config ((manager.swapInSequence sequenceId).2, arrays) := by
  rcases swapInSequence_cases isolated.accounted sequenceId with
    ⟨_, same, -⟩ | ⟨_, _, _, _, run_eq, moved, -⟩
  · rwa [same]
  · rw [run_eq]
    exact isolated.moved moved

theorem Isolated.releaseSequence {config : AllocatorConfig} {manager : KVCacheManager}
    {arrays : PrivateArrays} (isolated : Isolated config (manager, arrays))
    (sequenceId : SequenceId) :
    Isolated config (manager.releaseSequence sequenceId,
      arrays.apply config.blockShape (.release [sequenceId])) := by
  rcases releaseSequence_cases isolated.accounted sequenceId with
    ⟨absent, same⟩ | ⟨state, released⟩
  · have unused : arrays.arrays sequenceId = none := by
      have live := isolated.refines.live sequenceId
      rw [absent] at live
      simpa using live
    have unchanged : arrays.apply config.blockShape (.release [sequenceId]) = arrays := by
      simp only [PrivateArrays.apply, List.mem_singleton]
      congr 1
      funext other
      split
      · rename_i this
        rw [this, unused]
      · rfl
    rwa [same, unchanged]
  · exact ⟨released.accounted isolated.accounted, released.booked.config.trans isolated.config,
      isolated.refines.released config.blockShape released⟩

theorem Isolated.releaseSequences {config : AllocatorConfig} {manager : KVCacheManager}
    {arrays : PrivateArrays} (isolated : Isolated config (manager, arrays))
    (sequenceIds : List SequenceId) :
    Isolated config (sequenceIds.foldl KVCacheManager.releaseSequence manager,
      arrays.apply config.blockShape (.release sequenceIds)) := by
  induction sequenceIds generalizing manager arrays with
  | nil => simpa [PrivateArrays.apply] using isolated
  | cons sequenceId sequenceIds induction =>
      have rest := induction (isolated.releaseSequence sequenceId)
      have joined : (arrays.apply config.blockShape (.release [sequenceId])).apply
          config.blockShape (.release sequenceIds) =
          arrays.apply config.blockShape (.release (sequenceId :: sequenceIds)) := by
        simp only [PrivateArrays.apply, List.mem_cons]
        congr 1
        funext other
        by_cases first : other = sequenceId <;> by_cases later : other ∈ sequenceIds <;>
          simp [first, later]
      rw [joined] at rest
      exact rest

theorem poolShape_eq {manager : KVCacheManager} (formed : manager.allocator.Formed)
    (nonempty : manager.allocator.config.maxBlocks ≠ 0) :
    manager.poolShape = manager.allocator.config.blockShape := by
  have zero := block_zero formed.sound
  rw [if_neg nonempty] at zero
  obtain ⟨block, found, shape⟩ := zero
  simp [poolShape, found, shape]

theorem Isolated.writeToken {config : AllocatorConfig} (addressable : config.Addressable)
    {manager : KVCacheManager} {arrays : PrivateArrays}
    (isolated : Isolated config (manager, arrays)) (sequenceId : SequenceId) (token layer : ℕ)
    (stores : List TokenStore) :
    Isolated config (isolationStep config.blockShape (manager, arrays)
      (.writeToken sequenceId token layer stores)) := by
  have accounted : manager.Accounted := isolated.accounted
  unfold isolationStep
  rcases writeToken_cases accounted sequenceId token layer stores with
    same | ⟨middle, after, state, tables, frame, run_eq, moved, located, stored⟩
  · simpa [step, eventOf, same, PrivateArrays.apply] using isolated
  · have between := isolated.moved moved
    have middle_config : middle.allocator.config = config := between.config
    have here := AList.lookup_inserted_self moved.sequences
    have owned := located.mem_places here
    -- A block was located, so the pool is not empty and the layer names a table.
    have nonempty : manager.allocator.config.maxBlocks ≠ 0 := by
      have inside : frame < middle.allocator.config.maxBlocks :=
        between.accounted.ledger.lt_maxBlocks (List.mem_map_of_mem owned) rfl
      rw [middle_config, ← isolated.config] at inside
      exact Nat.ne_of_gt (Nat.lt_of_le_of_lt (Nat.zero_le _) inside)
    have same_config : middle.allocator.config = manager.allocator.config :=
      middle_config.trans isolated.config.symm
    have shape_eq : manager.poolShape = middle.allocator.config.blockShape := by
      rw [poolShape_eq accounted.ledger.formed nonempty, same_config]
    have size_eq : manager.allocator.config.tokensPerBlock =
        middle.allocator.config.blockShape.tokensPerBlock := by
      rw [AllocatorConfig.tokensPerBlock, if_neg nonempty, same_config]
    have table_eq : writtenTable middle.allocator.config.blockShape layer = layer := by
      obtain ⟨table, entry, table_eq, -, -⟩ := located.entry
      have inside := (List.getElem?_eq_some_iff.mp table_eq).1
      have count := moved.tabled.count
      unfold writtenTable
      split
      · rfl
      · rename_i allLayers
        rw [same_config] at allLayers
        simp only [AllocatorConfig.tableCount, if_neg nonempty, if_neg allLayers] at count
        omega
    rw [size_eq] at located
    rw [shape_eq] at stored
    have written := between.refines.stored (middle_config ▸ addressable) between.accounted here
      located table_eq stored
    refine ⟨?_, ?_, ?_⟩
    · simpa [step, run_eq] using stored.accounted between.accounted
    · simpa [step, run_eq] using stored.config.trans middle_config
    · simpa [step, eventOf, run_eq, middle_config] using written

theorem Isolated.publishPrefix {config : AllocatorConfig} {manager : KVCacheManager}
    {arrays : PrivateArrays} (isolated : Isolated config (manager, arrays))
    (sequenceId : SequenceId) (key : String)
    (bounded : ∀ id, (manager.publishPrefix sequenceId key).2.references id < 2 ^ 32) :
    Isolated config (isolationStep config.blockShape (manager, arrays)
      (.publishPrefix sequenceId key)) := by
  have accounted : manager.Accounted := isolated.accounted
  unfold isolationStep
  rcases publishPrefix_cases accounted sequenceId key bounded with
    ⟨done, same⟩ | ⟨after, state, front, existing, back, run_eq, -, joined⟩ |
      ⟨after, state, record, run_eq, -, published⟩
  · simpa [step, eventOf, same, PrivateArrays.apply] using isolated
  · have silent : manager.eventOf (.publishPrefix sequenceId key) = .silent := by
      have count : (after.recordsAt key).length ≤ (manager.recordsAt key).length := by
        simp [recordsAt, joined.prefixIndex, joined.records]
      simp only [eventOf, run_eq, if_pos count]
    simp only [silent, step, run_eq, PrivateArrays.apply]
    exact ⟨joined.accounted accounted, joined.booked.config.trans isolated.config,
      isolated.refines.joined joined⟩
  · have event : manager.eventOf (.publishPrefix sequenceId key) =
        .publish sequenceId key record.contentHash := by
      have count : ¬ (after.recordsAt key).length ≤ (manager.recordsAt key).length := by
        simp [recordsAt, published.prefixIndex]
      simp only [eventOf, run_eq, if_neg count, AList.lookup_inserted_self published.sequences]
    simp only [event, step, run_eq]
    exact ⟨published.accounted accounted, published.booked.config.trans isolated.config,
      isolated.refines.published config.blockShape accounted published⟩

theorem Isolated.attachPrefix {config : AllocatorConfig} {manager : KVCacheManager}
    {arrays : PrivateArrays} (isolated : Isolated config (manager, arrays))
    (sequenceId : SequenceId) (key : String)
    (bounded : ∀ id, (manager.attachPrefix sequenceId key).2.references id < 2 ^ 32) :
    Isolated config (isolationStep config.blockShape (manager, arrays)
      (.attachPrefix sequenceId key)) := by
  have accounted : manager.Accounted := isolated.accounted
  unfold isolationStep
  rcases attachPrefix_cases accounted sequenceId key bounded with
    same | ⟨after, state, record, added, run_eq, attached⟩
  · have silent : manager.eventOf (.attachPrefix sequenceId key) = .silent := by
      simp only [eventOf, same]
      cases manager.sequences.lookup sequenceId with
      | none => rfl
      | some state => simp
    simpa [silent, step, same, PrivateArrays.apply] using isolated
  · have event : manager.eventOf (.attachPrefix sequenceId key) =
        .attach sequenceId key record.contentHash := by
      have before_empty : state.textTable.entries.isEmpty = true :=
        List.isEmpty_iff.mpr attached.text_empty
      have after_filled : ({ state with
          tables := extendAll state.tables added
          prefixKey := key
          prefixHash := record.contentHash } : SequenceState).textTable.entries.isEmpty = false :=
        List.isEmpty_eq_false_iff.mpr attached.text_nonempty
      simp only [eventOf, run_eq, attached.found, AList.lookup_inserted_self attached.sequences,
        before_empty, after_filled, Bool.not_false, Bool.and_self, if_true]
    simp only [event, step, run_eq]
    exact ⟨attached.accounted accounted, attached.booked.config.trans isolated.config,
      isolated.refines.attached config.blockShape attached⟩

/-- Every call keeps the two machines in step. -/
theorem isolated_step {config : AllocatorConfig} (addressable : config.Addressable)
    {state : KVCacheManager × PrivateArrays} {op : CacheOp} (isolated : Isolated config state)
    (unwrapped : state.1.Unwrapped op) :
    Isolated config (isolationStep config.blockShape state op) := by
  obtain ⟨manager, arrays⟩ := state
  have accounted : manager.Accounted := isolated.accounted
  cases op with
  | createSequence metadata =>
      unfold isolationStep
      rcases createSequence_cases accounted metadata with same | ⟨after, run_eq, opened, -⟩
      · simpa [step, eventOf, same, PrivateArrays.apply] using isolated
      · simp only [step, eventOf, run_eq, if_true, PrivateArrays.apply]
        exact ⟨opened.accounted accounted, opened.booked.config.trans isolated.config,
          isolated.refines.opened opened (sequenceHolds_empty _ (initialState_empty _ _))⟩
  | forkSequence parentId childMetadata =>
      unfold isolationStep
      rcases forkSequence_cases accounted parentId childMetadata unwrapped.referenced with
        same | ⟨after, parent, child, run_eq, found, tables, opened⟩
      · simpa [step, eventOf, same, PrivateArrays.apply] using isolated
      · obtain ⟨array, array_eq⟩ : ∃ array, arrays.arrays parentId = some array := by
          apply Option.isSome_iff_exists.mp
          have live := isolated.refines.live parentId
          rw [live]
          simp [found]
        simp only [step, eventOf, run_eq, if_true, PrivateArrays.apply, array_eq]
        refine ⟨opened.accounted accounted, opened.booked.config.trans isolated.config,
          isolated.refines.opened opened ?_⟩
        rw [tables]
        exact (isolated.refines.sequences parentId parent array found array_eq).fork _
  | reserveTokens sequenceId tokenCount =>
      unfold isolationStep
      rcases reserveTokens_cases accounted sequenceId tokenCount unwrapped.indexable with
        same | ⟨after, state, added, complete, run_eq, enough, grown⟩
      · simpa [step, eventOf, same, PrivateArrays.apply] using isolated
      · -- The frames were counted without wrapping, so every table grew in full.
        rw [wrap32_of_lt (unwrapped.frames_fit state grown.found)] at enough
        obtain rfl := grown.reserved.enough enough
        simp only [step, eventOf, run_eq, PrivateArrays.apply]
        exact ⟨grown.accounted accounted, grown.steady.1.trans isolated.config,
          isolated.refines.grown grown⟩
  | ensureTokenWritable sequenceId token layer =>
      unfold isolationStep
      rcases ensureTokenWritable_cases accounted sequenceId token layer with
        same | ⟨after, state, tables, frame, run_eq, moved, -⟩
      · simpa [step, eventOf, same, PrivateArrays.apply] using isolated
      · simp only [step, eventOf, run_eq, PrivateArrays.apply]
        exact isolated.moved moved
  | writeToken sequenceId token layer stores =>
      exact isolated.writeToken addressable sequenceId token layer stores
  | swapOutSequence sequenceId => exact isolated.swapOutSequence sequenceId
  | swapOutRequest requestId =>
      exact swapOutSequences_induction (motive := fun manager => Isolated config (manager, arrays))
        (fun _ id holds => holds.swapOutSequence id) isolated _
  | swapInSequence sequenceId => exact isolated.swapInSequence sequenceId
  | swapInRequest requestId =>
      exact swapInRequest_induction (motive := fun manager => Isolated config (manager, arrays))
        (fun _ id holds => holds.swapInSequence id) isolated requestId
  | publishPrefix sequenceId key => exact isolated.publishPrefix sequenceId key unwrapped.referenced
  | attachPrefix sequenceId key => exact isolated.attachPrefix sequenceId key unwrapped.referenced
  | releaseSequence sequenceId => exact isolated.releaseSequence sequenceId
  | releaseRequest requestId => exact isolated.releaseSequences (manager.sequencesFor requestId)

/-! ## Reading back -/

/-- The bytes that a view of a live sequence returns for a coordinate. -/
def readSlot (manager : KVCacheManager) (id : SequenceId) (cacheKind : CacheKind)
    (elementSize : ℕ) (coordinate : Coordinate) : Option (List UInt8) :=
  (manager.cacheView id cacheKind).bind fun view =>
    (view.slot elementSize coordinate.stream coordinate.layer coordinate.token
      coordinate.kvHead).map fun (frame, offset) =>
        readElement elementSize frame.data (offset + coordinate.dim)

theorem tableCount_pos (config : AllocatorConfig) : 0 < config.tableCount := by
  unfold AllocatorConfig.tableCount BlockShape.perLayerFrames
  split
  · exact Nat.one_pos
  · split
    · rename_i perLayer
      simp only [Bool.and_eq_true, decide_eq_true_eq] at perLayer
      omega
    · exact Nat.one_pos

/-- A slot that a live sequence resolves lies in the block of its coordinate. -/
theorem slot_blockAt {manager : KVCacheManager} (accounted : manager.Accounted) {id : SequenceId}
    {state : SequenceState} (found : manager.sequences.lookup id = some state)
    {cacheKind : CacheKind} {view : CacheView}
    (viewed : manager.cacheView id cacheKind = some view) {index layer : ℕ}
    {frame : PhysicalBlock} (resolved : view.blockBytes index layer = some frame) :
    blockAt (blockBytesOf manager.allocator state.tables) layer index = some frame.data ∧
      manager.allocator.config.maxBlocks ≠ 0 := by
  have tabled := accounted.tabled id state found
  simp only [cacheView, found, Option.map_some, Option.some.injEq] at viewed
  obtain ⟨table, physical, allocator, table_for, lookup_eq, allocator_eq, block_eq⟩ :=
    CacheView.blockBytes_eq_some resolved
  subst viewed
  simp only [Option.some.injEq] at allocator_eq
  subst allocator_eq
  have table_eq : state.tables[layer]? = some table := by
    simp only [CacheView.tableFor, Option.bind_some] at table_for
    cases lookup : state.tables[layer]? with
    | some other => simpa [lookup] using table_for
    | none =>
        simp only [lookup] at table_for
        split at table_for
        · simp at table_for
        · rename_i zero
          have outside := List.getElem?_eq_none_iff.mp lookup
          rw [tabled.count] at outside
          have positive := tableCount_pos manager.allocator.config
          omega
  have indexed := tabled.indexed table (List.mem_of_getElem? table_eq)
  simp only [BlockTable.lookup, indexed.entry_eq] at lookup_eq
  cases entry_eq : table.entries[index]? with
  | none => simp [entry_eq] at lookup_eq
  | some entry =>
      simp only [entry_eq] at lookup_eq
      split at lookup_eq
      · simp at lookup_eq
      · rename_i resident
        obtain rfl := Option.some.inj lookup_eq
        have unswapped : entry.swapSlot = none := by simpa using resident
        have place := BlockTableEntry.place_of_resident unswapped
        refine ⟨?_, ?_⟩
        · rw [blockAt_blockBytesOf, entryAt, table_eq, Option.bind_some, entry_eq, Option.map_some,
            place]
          simp [MemoryAllocator.bytesAt, MemoryAllocator.claimAt, MemoryAllocator.contents,
            MemoryAllocator.frameBytes, block_eq]
        · have inside := (List.getElem?_eq_some_iff.mp block_eq).1
          rw [accounted.ledger.formed.blocks_length] at inside
          exact Nat.ne_of_gt (Nat.lt_of_le_of_lt (Nat.zero_le _) inside)

theorem Refines.readSlot {manager : KVCacheManager} {arrays : PrivateArrays}
    (accounted : manager.Accounted) (refines : Refines manager arrays) {id : SequenceId}
    {cacheKind : CacheKind} {elementSize : ℕ} {coordinate : Coordinate} {read value : List UInt8}
    (resolved : manager.readSlot id cacheKind elementSize coordinate = some read)
    (written : (arrays.arrays id).bind (· coordinate) = some value) : read = value := by
  obtain ⟨view, viewed, mapped⟩ := Option.bind_eq_some_iff.mp resolved
  obtain ⟨⟨frame, offset⟩, slot_eq, rfl⟩ := Option.map_eq_some_iff.mp mapped
  obtain ⟨array, array_eq, value_eq⟩ := Option.bind_eq_some_iff.mp written
  obtain ⟨state, found⟩ : ∃ state, manager.sequences.lookup id = some state := by
    apply Option.isSome_iff_exists.mp
    rw [← refines.live id, array_eq]
    rfl
  obtain ⟨-, size_eq, offset_eq, block_eq⟩ := CacheView.slot_eq_some slot_eq
  obtain ⟨block_at, nonempty⟩ := slot_blockAt accounted found viewed block_eq
  have shape_eq := poolShape_eq accounted.ledger.formed nonempty
  have layout_eq : view.layout.shape = manager.allocator.config.blockShape := by
    simp only [cacheView, found, Option.map_some, Option.some.injEq] at viewed
    rw [← viewed]
    exact shape_eq
  obtain ⟨-, holds⟩ := refines.sequences id state array found array_eq
  obtain ⟨block, element, here, element_eq, read_eq⟩ := holds coordinate value value_eq
  rw [layout_eq] at size_eq offset_eq
  rw [CacheView.tableIndex, layout_eq] at block_at
  obtain rfl : frame.data = block := by
    have same := block_at.symm.trans here
    exact Option.some.inj same
  have offset_layout : (KVBlockLayout.mk manager.allocator.config.blockShape).elementOffset
      (if manager.allocator.config.blockShape.perLayerFrames then 0 else coordinate.layer)
      coordinate.stream (coordinate.token % manager.allocator.config.blockShape.tokensPerBlock)
      coordinate.kvHead = some offset := by
    rw [← offset_eq, ← layout_eq]
  unfold Coordinate.element at element_eq
  rw [offset_layout] at element_eq
  split at element_eq
  · obtain rfl := Option.some.inj element_eq
    rw [size_eq]
    exact read_eq
  · simp at element_eq

/-! ## Isolation along runs -/

/-- The cache manager and the private arrays after a run. -/
def isolationRun (config : AllocatorConfig) (slab : ℕ → UInt8) (maxSlots : ℕ)
    (ops : List CacheOp) : KVCacheManager × PrivateArrays :=
  Execution.run (isolationStep config.blockShape) (fresh config slab maxSlots, .empty) ops

theorem isolationRun_fst (config : AllocatorConfig) (slab : ℕ → UInt8) (maxSlots : ℕ)
    (ops : List CacheOp) :
    (isolationRun config slab maxSlots ops).1 = (fresh config slab maxSlots).run ops :=
  Execution.project_run (fun _ _ => rfl) _ _

theorem isolated_run {config : AllocatorConfig} (addressable : config.Addressable)
    (slab : ℕ → UInt8) (maxSlots : ℕ) {ops : List CacheOp}
    (unwrapped : Execution.Along step Unwrapped (fresh config slab maxSlots) ops) :
    Isolated config (isolationRun config slab maxSlots ops) := by
  have start : Isolated config (fresh config slab maxSlots, .empty) :=
    ⟨accounted_fresh config slab maxSlots, rfl, refines_fresh config slab maxSlots⟩
  have guarded : Execution.Along (isolationStep config.blockShape)
      (fun state op => state.1.Unwrapped op) (fresh config slab maxSlots, .empty) ops :=
    Execution.Along.of_project Prod.fst (fun _ _ => rfl) unwrapped
  exact Execution.Along.invariant (fun _ _ => isolated_step addressable) start guarded

/-- A pool with one layer of two in each frame. -/
def layeredConfig : AllocatorConfig := ⟨⟨2, 2, 1, 1, 1, 1⟩, 1, 8, eight_lt_word⟩

/-- A branch that overwrites what it inherited, and a sequence attached to the parent's prefix. -/
def branchingOps : List CacheOp :=
  [.createSequence ⟨1, 7⟩, .reserveTokens 1 3, .writeToken 1 0 1 [⟨.key, 1, 0, 0, [5]⟩],
    .forkSequence 1 ⟨2, 7⟩, .writeToken 2 0 1 [⟨.key, 1, 0, 0, [9]⟩], .publishPrefix 1 "p",
    .createSequence ⟨3, 8⟩, .attachPrefix 3 "p", .writeToken 1 0 1 [⟨.key, 1, 0, 0, [6]⟩],
    .swapOutSequence 2, .swapInSequence 2, .releaseSequence 1]

/-- A shape with `2 ^ 64 + 4` elements per frame, so that its frames get four bytes. -/
def overflowingConfig : AllocatorConfig :=
  ⟨⟨2147418113, 1, 2147549185, 2, 1, 0⟩, 1, 1, one_lt_word⟩

/-- Two elements of one sequence whose offsets agree modulo `2 ^ 64`. -/
def collidingOps : List CacheOp :=
  [.createSequence ⟨1, 7⟩, .reserveTokens 1 1, .writeToken 1 0 0 [⟨.key, 0, 1, 0, [1]⟩],
    .writeToken 1 2147418112 0 [⟨.value, 0, 2147549184, 0, [2]⟩]]

end KVCacheManager
end QwenVLPaged
