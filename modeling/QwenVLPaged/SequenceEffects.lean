import QwenVLPaged.Accounting

/-!
# What the calls on sequences do

A call that is refused returns the state it was given. For every other call a structure says how
the sequence table and the prefix index change and how the accounts are rebooked; the invariants
are derived from these structures and never look at the code again. This module covers creating,
forking, growing, swapping and writing.
-/

namespace QwenVLPaged

namespace KVCacheManager

/-! ## Shared frames -/

theorem placesOf_of_resident {tables : List BlockTable} (resident : anySwapped tables = false) :
    placesOf tables = (physicalIdsOf tables).map .frame := by
  rw [placesOf, physicalIdsOf, List.map_flatMap, List.map_flatMap]
  apply List.flatMap_congr
  intro table table_mem
  rw [List.map_map]
  apply List.map_congr_left
  intro entry entry_mem
  apply BlockTableEntry.place_of_resident
  have table_resident := List.any_eq_false.mp resident table table_mem
  have entry_resident := List.any_eq_false.mp (Bool.not_eq_true _ ▸ table_resident) entry entry_mem
  simpa using entry_resident

theorem physicalIdsOf_fork (tables : List BlockTable) (child : SequenceId) :
    physicalIdsOf (tables.map fun table => table.fork child) = physicalIdsOf tables := by
  simp [physicalIdsOf, List.flatMap_map, BlockTable.fork, Function.comp_def]

theorem placesOf_fork (tables : List BlockTable) (child : SequenceId) :
    placesOf (tables.map fun table => table.fork child) = placesOf tables := by
  rw [placesOf, placesOf, List.flatMap_map, List.map_flatMap, List.map_flatMap]
  apply List.flatMap_congr
  intro table _
  rw [BlockTable.fork, List.map_map]
  rfl

/-- Sharing frames that somebody already owns. -/
theorem rebooked_of_retainAll {before after : KVCacheManager} {ids : List PhysicalBlockId}
    (accounted : before.Accounted) (owned : ∀ id ∈ ids, Place.frame id ∈ before.places)
    (allocator : after.allocator = retainAll before.allocator ids)
    (places : after.places.Perm (ids.map .frame ++ before.places))
    (bounded : ∀ id, after.references id < 2 ^ 32) :
    Rebooked before after ((ids.map .frame).map before.allocator.claimAt) before.places := by
  obtain ⟨ledger, config⟩ := Ledger.retainAll ((ids.map .frame).map before.allocator.claimAt)
    accounted.ledger
    (by
      intro claim member
      obtain ⟨place, place_mem, rfl⟩ := List.mem_map.mp member
      obtain ⟨id, id_mem, rfl⟩ := List.mem_map.mp place_mem
      exact List.mem_map.mpr ⟨_, owned id id_mem, rfl⟩)
    (map_place_claimAt _ _)
    (by
      intro id
      have counted := bounded id
      rw [← count_places, places.count_eq] at counted
      rwa [List.map_append, map_place_claimAt, map_place_claimAt])
  refine ⟨?_, ?_, ?_⟩
  · rw [allocator]
    exact ledger
  · rw [map_place_claimAt]
    exact places
  · rw [allocator]
    exact config

/-! ## Creating and forking -/

/-- A new sequence, on frames that were already owned. -/
structure Opened (before after : KVCacheManager) (id : SequenceId) (state : SequenceState) :
    Prop where
  absent : before.sequences.lookup id = none
  sequences : after.sequences = before.sequences.insert id state
  prefixIndex : after.prefixIndex = before.prefixIndex
  unnamed : state.prefixKey = ""
  tabled : state.Tabled before.allocator.config id
  shared : ∀ place ∈ placesOf state.tables, place ∈ before.places
  booked : Rebooked before after ((placesOf state.tables).map before.allocator.claimAt)
    before.places

theorem Opened.accounted {before after : KVCacheManager} {id : SequenceId}
    {state : SequenceState} (opened : Opened before after id state)
    (accounted : before.Accounted) : after.Accounted :=
  accounted.insert opened.sequences opened.prefixIndex opened.tabled opened.booked

/-- The state of a sequence that was just created. -/
def initialState (tableCount : ℕ) (metadata : SequenceMetadata) : SequenceState where
  metadata := metadata
  tables := List.replicate tableCount (.create metadata.sequenceId)
  prefixKey := ""
  prefixHash := 0

theorem initialState_empty (tableCount : ℕ) (metadata : SequenceMetadata) :
    ∀ table ∈ (initialState tableCount metadata).tables, table.entries = [] := by
  intro table member
  rw [(List.mem_replicate.mp member).2]
  rfl

theorem placesOf_initialState (tableCount : ℕ) (metadata : SequenceMetadata) :
    placesOf (initialState tableCount metadata).tables = [] := by
  rw [placesOf, List.flatMap_eq_nil_iff.mpr (initialState_empty tableCount metadata)]
  rfl

theorem tabled_initialState (config : AllocatorConfig) (metadata : SequenceMetadata) :
    (initialState config.tableCount metadata).Tabled config metadata.sequenceId where
  owner := rfl
  count := List.length_replicate
  indexed table member := by
    rw [(List.mem_replicate.mp member).2]
    exact BlockTable.indexed_create _
  logicals table member entry entry_mem := by
    rw [initialState_empty _ _ table member] at entry_mem
    simp at entry_mem
  bounded table member := by
    rw [initialState_empty _ _ table member]
    simp
  front _ := initialState_empty _ _

theorem opened_initialState {before after : KVCacheManager} {metadata : SequenceMetadata}
    (accounted : before.Accounted)
    (absent : before.sequences.lookup metadata.sequenceId = none)
    (sequences : after.sequences = before.sequences.insert metadata.sequenceId
      (initialState before.allocator.config.tableCount metadata))
    (prefixIndex : after.prefixIndex = before.prefixIndex)
    (allocator : after.allocator = before.allocator) :
    Opened before after metadata.sequenceId
      (initialState before.allocator.config.tableCount metadata) := by
  refine ⟨absent, sequences, prefixIndex, rfl, tabled_initialState _ metadata, ?_, ?_, ?_, ?_⟩
  · simp [placesOf_initialState]
  · rw [placesOf_initialState, allocator]
    exact accounted.ledger
  · rw [places_insert before sequences prefixIndex, placesWithout_of_absent absent,
      map_place_claimAt]
  · rw [allocator]

theorem createSequence_cases {manager : KVCacheManager} (accounted : manager.Accounted)
    (metadata : SequenceMetadata) :
    manager.createSequence metadata = (false, manager) ∨
      ∃ after, manager.createSequence metadata = (true, after) ∧
        Opened manager after metadata.sequenceId
          (initialState manager.allocator.config.tableCount metadata) ∧
        after.allocator = manager.allocator := by
  unfold createSequence
  split
  case isTrue => exact Or.inl rfl
  case isFalse missing =>
    have absent : manager.sequences.lookup metadata.sequenceId = none := by simpa using missing
    rw [tableCount_eq accounted.ledger.formed.sound]
    refine Or.inr ⟨_, rfl, ?_, rfl⟩
    exact opened_initialState accounted absent rfl rfl rfl

theorem tabled_fork {config : AllocatorConfig} {parentId childId : SequenceId}
    {parent child : SequenceState} (tabled : parent.Tabled config parentId)
    (owner : child.metadata.sequenceId = childId)
    (tables : child.tables = parent.tables.map fun table => table.fork childId) :
    child.Tabled config childId := by
  have source_of : ∀ table ∈ child.tables, ∃ source ∈ parent.tables,
      table = source.fork childId := by
    intro table member
    rw [tables] at member
    obtain ⟨source, source_mem, rfl⟩ := List.mem_map.mp member
    exact ⟨source, source_mem, rfl⟩
  refine ⟨owner, by rw [tables, List.length_map, tabled.count], ?_, ?_, ?_, ?_⟩
  · intro table member
    obtain ⟨source, source_mem, rfl⟩ := source_of table member
    exact (tabled.indexed source source_mem).fork _
  · intro table member entry entry_mem
    obtain ⟨source, source_mem, rfl⟩ := source_of table member
    obtain ⟨old, old_mem, rfl⟩ := List.mem_map.mp entry_mem
    obtain ⟨index, kind, logical⟩ := tabled.logicals source source_mem old old_mem
    exact ⟨index, kind, by simp [logical, logicalAt]⟩
  · intro table member
    obtain ⟨source, source_mem, rfl⟩ := source_of table member
    simpa [BlockTable.fork] using tabled.bounded source source_mem
  · intro empty table member
    obtain ⟨source, source_mem, rfl⟩ := source_of table member
    have parent_empty : parent.textTable.entries = [] := by
      cases tables_eq : parent.tables with
      | nil => simp [SequenceState.textTable, tables_eq, BlockTable.create]
      | cons head tail =>
          simpa [SequenceState.textTable, tables, tables_eq, BlockTable.fork] using empty
    simp [BlockTable.fork, tabled.front parent_empty source source_mem]

theorem opened_fork {before after : KVCacheManager} {parentId childId : SequenceId}
    {parent child : SequenceState} (accounted : before.Accounted)
    (owner : child.metadata.sequenceId = childId)
    (found : before.sequences.lookup parentId = some parent)
    (resident : anySwapped parent.tables = false)
    (absent : before.sequences.lookup childId = none)
    (tables : child.tables = parent.tables.map fun table => table.fork childId)
    (unnamed : child.prefixKey = "")
    (sequences : after.sequences = before.sequences.insert childId child)
    (prefixIndex : after.prefixIndex = before.prefixIndex)
    (allocator : after.allocator = retainAll before.allocator (physicalIdsOf child.tables))
    (bounded : ∀ id, after.references id < 2 ^ 32) :
    Opened before after childId child := by
  have child_places : placesOf child.tables = placesOf parent.tables := by
    rw [tables, placesOf_fork]
  have places_eq : placesOf child.tables = (physicalIdsOf child.tables).map .frame := by
    rw [child_places, tables, physicalIdsOf_fork]
    exact placesOf_of_resident resident
  have shared : ∀ place ∈ placesOf child.tables, place ∈ before.places := by
    intro place member
    rw [child_places] at member
    exact mem_places_of_mem_tables found member
  refine ⟨absent, sequences, prefixIndex, unnamed,
    tabled_fork (accounted.tabled parentId parent found) owner tables, shared, ?_⟩
  rw [places_eq]
  refine rebooked_of_retainAll accounted ?_ allocator ?_ bounded
  · intro id member
    apply shared
    rw [places_eq]
    exact List.mem_map_of_mem member
  · rw [places_insert before sequences prefixIndex, placesWithout_of_absent absent, places_eq]

theorem forkSequence_cases {manager : KVCacheManager} (accounted : manager.Accounted)
    (parentId : SequenceId) (childMetadata : SequenceMetadata)
    (bounded : ∀ id, (manager.forkSequence parentId childMetadata).2.references id < 2 ^ 32) :
    manager.forkSequence parentId childMetadata = (false, manager) ∨
      ∃ after parent child, manager.forkSequence parentId childMetadata = (true, after) ∧
        manager.sequences.lookup parentId = some parent ∧
        child.tables = parent.tables.map (fun table => table.fork childMetadata.sequenceId) ∧
        Opened manager after childMetadata.sequenceId child := by
  unfold forkSequence at bounded ⊢
  cases found : manager.sequences.lookup parentId with
  | none => exact Or.inl rfl
  | some parent =>
      simp only [found] at bounded ⊢
      split
      case isTrue => exact Or.inl rfl
      case isFalse missing =>
        split
        case isTrue => exact Or.inl rfl
        case isFalse whole =>
          rw [if_neg missing, if_neg whole] at bounded
          refine Or.inr ⟨_, parent, ⟨childMetadata, _, "", 0⟩, rfl, rfl, rfl, ?_⟩
          exact opened_fork accounted rfl found (by simpa using whole) (by simpa using missing) rfl rfl
            rfl rfl rfl bounded

/-! ## Growing -/

/-- Tables of a live sequence with newly allocated blocks at their ends. -/
structure Grown (before after : KVCacheManager) (id : SequenceId) (state : SequenceState)
    (blocks : ℕ) (added : List (List BlockTableEntry)) (complete : Bool) : Prop where
  found : before.sequences.lookup id = some state
  sequences : after.sequences =
    before.sequences.insert id { state with tables := extendAll state.tables added }
  prefixIndex : after.prefixIndex = before.prefixIndex
  reserved : TablesReserved id before.allocator.config.tokensPerBlock blocks before.allocator
    after.allocator state.tables added complete
  tabled : ({ state with tables := extendAll state.tables added } : SequenceState).Tabled
    before.allocator.config id
  booked : ∃ fresh, fresh.map Claim.place = added.flatten.map BlockTableEntry.place ∧
    Rebooked before after fresh before.places

theorem Grown.accounted {before after : KVCacheManager} {id : SequenceId} {state : SequenceState}
    {blocks : ℕ} {added : List (List BlockTableEntry)} {complete : Bool}
    (grown : Grown before after id state blocks added complete) (accounted : before.Accounted) :
    after.Accounted := by
  obtain ⟨fresh, -, booked⟩ := grown.booked
  exact accounted.insert grown.sequences grown.prefixIndex grown.tabled booked

theorem tabled_extendAll {config : AllocatorConfig} {id : SequenceId} {state : SequenceState}
    {added : List (List BlockTableEntry)} (tabled : state.Tabled config id)
    (lengths : added.length = state.tables.length)
    (indexed : ∀ table ∈ extendAll state.tables added, table.Indexed)
    (logicals : ∀ entry ∈ added.flatten, ∃ index kind,
      entry.logical = logicalAt id kind config.tokensPerBlock index)
    (bounded : ∀ table ∈ state.tables, ∀ entries ∈ added,
      table.entries.length + entries.length ≤ 2 ^ 32)
    (first : ∀ entries others, added = entries :: others → entries = [] → added.flatten = []) :
    ({ state with tables := extendAll state.tables added } : SequenceState).Tabled config id := by
  refine ⟨tabled.owner, ?_, indexed, ?_, ?_, ?_⟩
  · simp [extendAll, lengths, tabled.count]
  · intro table member entry entry_mem
    obtain ⟨source, source_mem, entries, entries_mem, rfl⟩ := exists_of_mem_extendAll member
    rcases List.mem_append.mp entry_mem with old | new
    · exact tabled.logicals source source_mem entry old
    · exact logicals entry (List.mem_flatten.mpr ⟨entries, entries_mem, new⟩)
  · intro table member
    obtain ⟨source, source_mem, entries, entries_mem, rfl⟩ := exists_of_mem_extendAll member
    simpa [BlockTable.extend] using bounded source source_mem entries entries_mem
  · intro empty table member
    obtain ⟨source, source_mem, entries, entries_mem, rfl⟩ := exists_of_mem_extendAll member
    -- The first table holds both its old blocks and its share of the new ones.
    have both : state.textTable.entries = [] ∧ added.flatten = [] := by
      cases tables_eq : state.tables with
      | nil => simp [tables_eq] at source_mem
      | cons head tail =>
          cases added with
          | nil => simp [tables_eq] at lengths
          | cons front others =>
              simp only [SequenceState.textTable, tables_eq, extendAll_cons, List.headD_cons,
                BlockTable.extend, List.append_eq_nil_iff] at empty ⊢
              exact ⟨empty.1, first front others rfl empty.2⟩
    have nothing := List.flatten_eq_nil_iff.mp both.2 entries entries_mem
    simp [BlockTable.extend, nothing, tabled.front both.1 source source_mem]

theorem grown_of_reserved {before after : KVCacheManager} {id : SequenceId}
    {state : SequenceState} {blocks : ℕ} {added : List (List BlockTableEntry)} {complete : Bool}
    (accounted : before.Accounted) (found : before.sequences.lookup id = some state)
    (room : ∀ table ∈ state.tables,
      table.entries.length + min blocks before.allocator.freeList.length ≤ 2 ^ 32)
    (reserved : TablesReserved id before.allocator.config.tokensPerBlock blocks before.allocator
      after.allocator state.tables added complete)
    (sequences : after.sequences =
      before.sequences.insert id { state with tables := extendAll state.tables added })
    (prefixIndex : after.prefixIndex = before.prefixIndex) :
    Grown before after id state blocks added complete := by
  obtain ⟨fresh, places, ledger, config⟩ := reserved.reserved.ledger _ accounted.ledger
  refine ⟨found, sequences, prefixIndex, reserved, ?_, fresh, places, ledger, ?_, config⟩
  · refine tabled_extendAll (accounted.tabled id state found) reserved.lengths reserved.indexed
      reserved.logicals ?_ reserved.first
    intro table table_mem entries entries_mem
    exact (Nat.add_le_add_left (reserved.within entries entries_mem) _).trans
      (room table table_mem)
  · rw [places_insert before sequences prefixIndex, places]
    calc
      List.Perm _ (added.flatten.map BlockTableEntry.place ++ placesOf state.tables ++
          before.placesWithout id) := (placesOf_extendAll reserved.lengths).append_right _
      List.Perm _ (added.flatten.map BlockTableEntry.place ++ before.places) := by
        rw [List.append_assoc]
        exact (places_perm found).symm.append_left _

/-- The call appends at most this many blocks to each table. -/
def newBlocks (manager : KVCacheManager) (tokenCount : ℕ) : ℕ :=
  min (blocksNeeded tokenCount manager.tokensPerBlock) manager.allocator.freeList.length

/-- No table of the sequence grows past the last 32-bit logical index. -/
def RoomFor (manager : KVCacheManager) (sequenceId : SequenceId) (tokenCount : ℕ) : Prop :=
  ∀ state ∈ manager.sequences.lookup sequenceId, ∀ table ∈ state.tables,
    table.entries.length + manager.newBlocks tokenCount ≤ 2 ^ 32

/-- A reservation that passes the checks grows the tables, completely if the frames suffice. -/
theorem reserveTokens_grown {manager : KVCacheManager} (accounted : manager.Accounted)
    {sequenceId : SequenceId} {tokenCount : ℕ} (room : manager.RoomFor sequenceId tokenCount)
    {state : SequenceState} (found : manager.sequences.lookup sequenceId = some state)
    (blocky : manager.tokensPerBlock ≠ 0)
    (fits : wrap32 (blocksNeeded tokenCount manager.tokensPerBlock * state.tables.length) ≤
      manager.allocator.freeList.length) :
    ∃ after added complete,
      manager.reserveTokens sequenceId tokenCount = (complete, after) ∧
      Grown manager after sequenceId state (blocksNeeded tokenCount manager.tokensPerBlock)
        added complete := by
  have tabled := accounted.tabled sequenceId state found
  have room' := room state found
  obtain ⟨added, allocator, complete, run_eq, reserved⟩ := reserveTables_spec sequenceId
    manager.tokensPerBlock (blocksNeeded tokenCount manager.tokensPerBlock)
    manager.allocator state.tables tabled.indexed room'
  have accepted : manager.allocator.canAllocate
      (wrap32 (blocksNeeded tokenCount manager.tokensPerBlock * state.tables.length)) = true := by
    simpa [MemoryAllocator.canAllocate] using fits
  simp only [reserveTokens, found, if_neg blocky, accepted, Bool.not_true, Bool.false_eq_true,
    if_false, run_eq]
  rw [tokensPerBlock_eq accounted.ledger.formed.sound] at reserved ⊢
  refine ⟨_, added, complete, rfl, ?_⟩
  exact grown_of_reserved accounted found (fun table member =>
    tokensPerBlock_eq accounted.ledger.formed.sound ▸ room' table member) reserved rfl rfl

theorem reserveTokens_cases {manager : KVCacheManager} (accounted : manager.Accounted)
    (sequenceId : SequenceId) (tokenCount : ℕ) (room : manager.RoomFor sequenceId tokenCount) :
    manager.reserveTokens sequenceId tokenCount = (false, manager) ∨
      ∃ after state added complete,
        manager.reserveTokens sequenceId tokenCount = (complete, after) ∧
        wrap32 (blocksNeeded tokenCount manager.tokensPerBlock * state.tables.length) ≤
          manager.allocator.freeList.length ∧
        Grown manager after sequenceId state (blocksNeeded tokenCount manager.tokensPerBlock)
          added complete := by
  cases found : manager.sequences.lookup sequenceId with
  | none => exact Or.inl (by simp [reserveTokens, found])
  | some state =>
      by_cases flat : manager.tokensPerBlock = 0
      · exact Or.inl (by simp [reserveTokens, found, flat])
      by_cases fits : wrap32 (blocksNeeded tokenCount manager.tokensPerBlock *
          state.tables.length) ≤ manager.allocator.freeList.length
      · obtain ⟨after, added, complete, run_eq, grown⟩ :=
          reserveTokens_grown accounted room found flat fits
        exact Or.inr ⟨after, state, added, complete, run_eq, fits, grown⟩
      · exact Or.inl (by simp [reserveTokens, found, MemoryAllocator.canAllocate, fits])

/-! ## Moving blocks -/

/-- The blocks of a live sequence, possibly elsewhere but with the bytes they had. -/
structure Moved (before after : KVCacheManager) (id : SequenceId) (state : SequenceState)
    (tables : List BlockTable) : Prop where
  found : before.sequences.lookup id = some state
  sequences : after.sequences = before.sequences.insert id { state with tables }
  prefixIndex : after.prefixIndex = before.prefixIndex
  lengths : tables.map (·.entries.length) = state.tables.map (·.entries.length)
  tabled : ({ state with tables } : SequenceState).Tabled before.allocator.config id
  booked : ∃ owned, owned.map Claim.place = placesOf tables ∧
    owned.map Claim.bytes =
      (placesOf state.tables).map (fun place => (before.allocator.claimAt place).bytes) ∧
    Rebooked before after owned (before.placesWithout id)

theorem Moved.accounted {before after : KVCacheManager} {id : SequenceId} {state : SequenceState}
    {tables : List BlockTable} (moved : Moved before after id state tables)
    (accounted : before.Accounted) : after.Accounted := by
  obtain ⟨owned, -, -, booked⟩ := moved.booked
  exact accounted.insert moved.sequences moved.prefixIndex moved.tabled booked

theorem TablesRelocated.lengths {before after : MemoryAllocator} {tables tables' : List BlockTable}
    (relocated : TablesRelocated before after tables tables') :
    tables'.map (·.entries.length) = tables.map (·.entries.length) := by
  simpa [Function.comp_def] using congrArg (List.map fun owner => owner.2.2) relocated.owners

theorem tabled_relocated {config : AllocatorConfig} {id : SequenceId} {state : SequenceState}
    {tables : List BlockTable} {before after : MemoryAllocator} (tabled : state.Tabled config id)
    (relocated : TablesRelocated before after state.tables tables) :
    ({ state with tables } : SequenceState).Tabled config id := by
  have counts := relocated.lengths
  have length_eq : tables.length = state.tables.length := by
    simpa using congrArg List.length counts
  refine ⟨tabled.owner, length_eq.trans tabled.count, relocated.indexed, ?_, ?_, ?_⟩
  · intro table member entry entry_mem
    have logical_mem : entry.logical ∈ (tables.flatMap (·.entries)).map (·.logical) :=
      List.mem_map_of_mem (List.mem_flatMap.mpr ⟨table, member, entry_mem⟩)
    rw [relocated.blocks.logicals] at logical_mem
    obtain ⟨old, old_mem, same⟩ := List.mem_map.mp logical_mem
    obtain ⟨source, source_mem, old_mem⟩ := List.mem_flatMap.mp old_mem
    exact same ▸ tabled.logicals source source_mem old old_mem
  · intro table member
    have count_mem : table.entries.length ∈ tables.map (·.entries.length) :=
      List.mem_map_of_mem member
    rw [counts] at count_mem
    obtain ⟨source, source_mem, same⟩ := List.mem_map.mp count_mem
    exact same ▸ tabled.bounded source source_mem
  · intro empty table member
    have first_empty : state.textTable.entries = [] := by
      cases state_eq : state.tables with
      | nil => simp [SequenceState.textTable, state_eq, BlockTable.create]
      | cons head tail =>
          cases tables_eq : tables with
          | nil => simp [state_eq, tables_eq] at length_eq
          | cons head' tail' =>
              simp only [state_eq, tables_eq, List.map_cons, List.cons.injEq] at counts
              simp only [SequenceState.textTable, tables_eq, List.headD_cons] at empty
              simp only [SequenceState.textTable, state_eq, List.headD_cons]
              rw [empty] at counts
              exact List.length_eq_zero_iff.mp counts.1.symm
    have count_mem : table.entries.length ∈ tables.map (·.entries.length) :=
      List.mem_map_of_mem member
    rw [counts] at count_mem
    obtain ⟨source, source_mem, same⟩ := List.mem_map.mp count_mem
    rw [tabled.front first_empty source source_mem] at same
    exact List.length_eq_zero_iff.mp same.symm

theorem moved_of_relocated {before after : KVCacheManager} {id : SequenceId}
    {state : SequenceState} {tables : List BlockTable} (accounted : before.Accounted)
    (found : before.sequences.lookup id = some state)
    (relocated : TablesRelocated before.allocator after.allocator state.tables tables)
    (sequences : after.sequences = before.sequences.insert id { state with tables })
    (prefixIndex : after.prefixIndex = before.prefixIndex) :
    Moved before after id state tables := by
  obtain ⟨owned, places, bytes, ledger, config⟩ :=
    relocated.blocks.ledger _ _ (map_place_claimAt _ _) (accounted.split found)
  refine ⟨found, sequences, prefixIndex, relocated.lengths,
    tabled_relocated (accounted.tabled id state found) relocated, owned, places, ?_, ledger, ?_,
    config⟩
  · rw [bytes, List.map_map]
    rfl
  · rw [places_insert before sequences prefixIndex, places]
    exact List.Perm.refl _

theorem swapOutSequence_cases {manager : KVCacheManager} (accounted : manager.Accounted)
    (sequenceId : SequenceId) :
    manager.swapOutSequence sequenceId = (0, manager) ∨
      ∃ after state swapped tables, manager.swapOutSequence sequenceId = (swapped, after) ∧
        Moved manager after sequenceId state tables := by
  unfold swapOutSequence
  cases found : manager.sequences.lookup sequenceId with
  | none => exact Or.inl rfl
  | some state =>
      obtain ⟨swapped, allocator, tables, run_eq, relocated⟩ := swapOutTables_spec
        manager.allocator state.tables (accounted.tabled sequenceId state found).indexed
      simp only [run_eq]
      exact Or.inr ⟨_, state, _, tables, rfl,
        moved_of_relocated accounted found relocated rfl rfl⟩

/-- A successful restore of a live sequence leaves every block of it resident, unless it has
`2 ^ 32` of them. -/
theorem swapInSequence_cases {manager : KVCacheManager} (accounted : manager.Accounted)
    (sequenceId : SequenceId) :
    (∃ done, manager.swapInSequence sequenceId = (done, manager) ∧
      (done = true → ∃ state, manager.sequences.lookup sequenceId = some state ∧
        swappedBlocks state.tables = 0)) ∨
      ∃ after state restored tables, manager.swapInSequence sequenceId = (restored, after) ∧
        Moved manager after sequenceId state tables ∧
        (restored = true → ∀ table ∈ tables, ∀ entry ∈ table.entries, entry.swapSlot = none) := by
  unfold swapInSequence
  cases found : manager.sequences.lookup sequenceId with
  | none => exact Or.inl ⟨false, rfl, by simp⟩
  | some state =>
      simp only
      split
      case isTrue none_swapped => exact Or.inl ⟨true, rfl, fun _ => ⟨state, rfl, none_swapped⟩⟩
      case isFalse =>
        split
        case isTrue => exact Or.inl ⟨false, rfl, by simp⟩
        case isFalse =>
          obtain ⟨restored, allocator, tables, run_eq, relocated, resident⟩ := swapInTables_spec
            manager.allocator state.tables (accounted.tabled sequenceId state found).indexed
          simp only [run_eq]
          exact Or.inr ⟨_, state, restored, tables, rfl,
            moved_of_relocated accounted found relocated rfl rfl, resident⟩

/-! ## Copy on write -/

/-- Relocating one block of one table. -/
theorem tablesRelocated_set {before after : MemoryAllocator} {tables : List BlockTable}
    {layer index : ℕ} {table : BlockTable} {entry : BlockTableEntry}
    {update : BlockTableEntry → BlockTableEntry} (indexed : ∀ table ∈ tables, table.Indexed)
    (table_eq : tables[layer]? = some table) (found : table.entries[index]? = some entry)
    (logical : (update entry).logical = entry.logical)
    (exchange : ∀ bytes others, Ledger before (⟨entry.place, bytes⟩ :: others) →
      Ledger after (⟨(update entry).place, bytes⟩ :: others) ∧ after.config = before.config) :
    TablesRelocated before after tables
      (tables.set layer { table with entries := table.entries.modify index update }) := by
  obtain ⟨inside, rfl⟩ := List.getElem?_eq_some_iff.mp table_eq
  have one := relocated_modify found logical exchange
  have split : tables = tables.take layer ++ tables[layer] :: tables.drop (layer + 1) := by
    rw [List.getElem_cons_drop, List.take_append_drop]
  have set_eq (new : BlockTable) :
      tables.set layer new = tables.take layer ++ new :: tables.drop (layer + 1) := by
    rw [List.set_eq_take_append_cons_drop, if_pos inside]
  have back_indexed : ∀ table ∈ tables.drop (layer + 1), table.Indexed :=
    fun table member => indexed table (List.mem_of_mem_drop member)
  have rest := TablesRelocated.cons (indexed _ (List.getElem_mem inside)) one
    (TablesRelocated.refl after back_indexed)
  rw [set_eq]
  refine ⟨?_, ?_, ?_⟩
  · conv_rhs => rw [split]
    simp only [List.map_append, rest.owners]
  · intro table member
    rcases List.mem_append.mp member with front | back
    · exact indexed table (List.mem_of_mem_take front)
    · exact rest.indexed table back
  · have front := Relocated.refl before ((tables.take layer).flatMap (·.entries))
    have joined := front.append rest.blocks
    rwa [← List.flatMap_append, ← List.flatMap_append, ← split] at joined

/-- The block that `ensure_token_writable` returns: it is the block of the token, and the
sequence owns the only reference to its frame. -/
structure Located (after : KVCacheManager) (tables : List BlockTable) (layer index : ℕ)
    (frame : PhysicalBlockId) : Prop where
  entry : ∃ table entry, tables[layer]? = some table ∧ table.entries[index]? = some entry ∧
    entry.place = .frame frame
  single : after.allocator.refCount frame = 1

theorem Located.mem_places {manager : KVCacheManager} {id : SequenceId} {state : SequenceState}
    {layer index : ℕ} {frame : PhysicalBlockId}
    (located : Located manager state.tables layer index frame)
    (found : manager.sequences.lookup id = some state) : Place.frame frame ∈ manager.places := by
  obtain ⟨table, entry, table_eq, entry_eq, place⟩ := located.entry
  rw [← place]
  exact mem_places_of_mem_tables found (List.mem_map_of_mem (List.mem_flatMap.mpr
    ⟨table, List.mem_of_getElem? table_eq, List.mem_of_getElem? entry_eq⟩))

/-- The entry of a block that its sequence may write. -/
def writableAt (frame : PhysicalBlockId) (entry : BlockTableEntry) : BlockTableEntry :=
  { entry with physicalId := frame, writable := true }

/-- Tables with one block in another frame. -/
def exchangeBlock (tables : List BlockTable) (layer index : ℕ) (table : BlockTable)
    (frame : PhysicalBlockId) : List BlockTable :=
  tables.set layer { table with entries := table.entries.modify index (writableAt frame) }

/-- One block of one table in a frame that nobody else maps: its own frame, or a copy in a frame
that was free. -/
structure Exchanged (before after : KVCacheManager) (id : SequenceId) (state : SequenceState)
    (layer index : ℕ) (table : BlockTable) (entry : BlockTableEntry) (frame : PhysicalBlockId) :
    Prop where
  table_eq : state.tables[layer]? = some table
  entry_eq : table.entries[index]? = some entry
  resident : entry.swapSlot = none
  fresh : frame = entry.physicalId ∨
    1 < before.allocator.refCount entry.physicalId ∧ before.allocator.refCount frame = 0
  moved : Moved before after id state (exchangeBlock state.tables layer index table frame)
  located : Located after (exchangeBlock state.tables layer index table frame) layer index frame

theorem writable_of_exchange {before after : KVCacheManager} {id : SequenceId}
    {state : SequenceState} {layer index : ℕ} {table : BlockTable} {entry : BlockTableEntry}
    {frame : PhysicalBlockId} (accounted : before.Accounted)
    (found : before.sequences.lookup id = some state)
    (table_eq : state.tables[layer]? = some table)
    (entry_eq : table.entries[index]? = some entry) (resident : entry.swapSlot = none)
    (fresh : frame = entry.physicalId ∨
      1 < before.allocator.refCount entry.physicalId ∧ before.allocator.refCount frame = 0)
    (exchange : ∀ bytes others,
      Ledger before.allocator (⟨.frame entry.physicalId, bytes⟩ :: others) →
      Ledger after.allocator (⟨.frame frame, bytes⟩ :: others) ∧
        after.allocator.config = before.allocator.config ∧ after.allocator.refCount frame = 1)
    (sequences : after.sequences = before.sequences.insert id
      { state with tables := state.tables.set layer (table.modifyEntry index fun entry =>
        { entry with physicalId := frame, writable := true }) })
    (prefixIndex : after.prefixIndex = before.prefixIndex) :
    Exchanged before after id state layer index table entry frame := by
  have tabled := accounted.tabled id state found
  have table_mem := List.mem_of_getElem? table_eq
  have inside := (List.getElem?_eq_some_iff.mp table_eq).1
  have place_eq := BlockTableEntry.place_of_resident resident
  rw [(tabled.indexed table table_mem).modifyEntry_eq] at sequences
  refine ⟨table_eq, entry_eq, resident, fresh,
    moved_of_relocated accounted found ?_ sequences prefixIndex, ?_, ?_⟩
  · refine tablesRelocated_set tabled.indexed table_eq entry_eq rfl ?_
    intro bytes others ledger
    rw [place_eq] at ledger
    obtain ⟨ledger', config, -⟩ := exchange bytes others ledger
    rw [BlockTableEntry.place_of_resident (by exact resident)]
    exact ⟨ledger', config⟩
  · refine ⟨_, writableAt frame entry, List.getElem?_set_self inside, ?_,
      BlockTableEntry.place_of_resident (by exact resident)⟩
    simp [entry_eq]
  · have owned : Place.frame entry.physicalId ∈ before.places := by
      rw [← place_eq]
      exact mem_places_of_mem_tables found (List.mem_map_of_mem
        (List.mem_flatMap.mpr ⟨table, table_mem, List.mem_of_getElem? entry_eq⟩))
    obtain ⟨others, ledger⟩ := accounted.claim_first owned
    exact (exchange _ _ ledger).2.2

/-- A resident block is refused only for want of a free frame. -/
theorem ensureTokenWritable_exchanged {manager : KVCacheManager} (accounted : manager.Accounted)
    (sequenceId : SequenceId) (token layer : ℕ) :
    (manager.ensureTokenWritable sequenceId token layer = (none, manager) ∧
      ∀ state table entry, manager.sequences.lookup sequenceId = some state →
        state.tables[layer]? = some table →
        table.entries[token / manager.allocator.config.tokensPerBlock]? = some entry →
        entry.swapSlot = none → manager.allocator.config.tokensPerBlock ≠ 0 →
        manager.allocator.freeList = []) ∨
      ∃ after state table entry frame,
        manager.ensureTokenWritable sequenceId token layer = (some frame, after) ∧
        Exchanged manager after sequenceId state layer
          (token / manager.allocator.config.tokensPerBlock) table entry frame := by
  unfold ensureTokenWritable
  cases found : manager.sequences.lookup sequenceId with
  | none => exact Or.inl ⟨rfl, by simp⟩
  | some state =>
      have tabled := accounted.tabled sequenceId state found
      simp only
      cases table_eq : state.tables[layer]? with
      | none => exact Or.inl ⟨rfl, by rintro _ _ _ ⟨⟩ missing; simp [table_eq] at missing⟩
      | some table =>
          have table_mem := List.mem_of_getElem? table_eq
          have indexed := tabled.indexed table table_mem
          -- The only refusal of a resident block is a failed allocation.
          have refused (reason : ∀ entry, table.entries[token /
              manager.allocator.config.tokensPerBlock]? = some entry → entry.swapSlot = none →
              manager.allocator.config.tokensPerBlock ≠ 0 → manager.allocator.freeList = []) :
              ∀ state' table' entry, some state = some state' → state'.tables[layer]? = some table' →
                table'.entries[token / manager.allocator.config.tokensPerBlock]? = some entry →
                entry.swapSlot = none → manager.allocator.config.tokensPerBlock ≠ 0 →
                manager.allocator.freeList = [] := by
            rintro state' table' entry same table_eq'
            obtain rfl := Option.some.inj same
            obtain rfl := Option.some.inj (table_eq.symm.trans table_eq')
            exact reason entry
          simp only
          cases entries_eq : table.entries with
          | nil =>
              exact Or.inl ⟨rfl, refused (by simp [entries_eq])⟩
          | cons front others =>
              obtain ⟨_, _, front_logical⟩ := tabled.logicals table table_mem front
                (by rw [entries_eq]; exact List.mem_cons_self)
              have block_size : front.logical.tokenCount =
                  manager.allocator.config.tokensPerBlock := by rw [front_logical]; rfl
              simp only [block_size]
              split
              case isTrue flat =>
                exact Or.inl ⟨rfl, refused fun _ _ _ blocky => absurd flat blocky⟩
              case isFalse =>
                rw [indexed.entry_eq]
                cases entry_eq : table.entries[token / manager.allocator.config.tokensPerBlock]? with
                | none => exact Or.inl ⟨rfl, refused (by simp [entry_eq])⟩
                | some entry =>
                    simp only
                    split
                    case isTrue swapped =>
                      refine Or.inl ⟨rfl, refused ?_⟩
                      intro entry' entry_eq' resident
                      obtain rfl := Option.some.inj (entry_eq.symm.trans entry_eq')
                      simp [resident] at swapped
                    case isFalse swapped =>
                      have resident : entry.swapSlot = none := by simpa using swapped
                      have owned : Place.frame entry.physicalId ∈ manager.places := by
                        rw [← BlockTableEntry.place_of_resident resident]
                        exact mem_places_of_mem_tables found (List.mem_map_of_mem
                          (List.mem_flatMap.mpr ⟨table, table_mem, List.mem_of_getElem? entry_eq⟩))
                      have claimed : manager.allocator.claimAt (.frame entry.physicalId) ∈
                          manager.places.map manager.allocator.claimAt := List.mem_map_of_mem owned
                      cases info_eq : manager.allocator.info entry.physicalId with
                      | none =>
                          exact absurd (MemoryAllocator.refCount_eq_zero_of_none info_eq)
                            (accounted.ledger.count_pos claimed rfl).ne'
                      | some info =>
                          have count := MemoryAllocator.refCount_eq_of_info info_eq
                          simp only
                          split
                          case isTrue few =>
                            refine Or.inr ⟨_, state, table, entry, _, rfl, writable_of_exchange
                              accounted found table_eq entry_eq resident (Or.inl rfl) ?_ rfl rfl⟩
                            intro bytes others ledger
                            exact ⟨ledger, rfl, le_antisymm (count ▸ few)
                              (ledger.count_pos List.mem_cons_self rfl)⟩
                          case isFalse many =>
                            rcases taken_eq : manager.allocator.allocate with ⟨_ | copy, taken⟩
                            · obtain ⟨empty, rfl⟩ := MemoryAllocator.allocate_eq_none taken_eq
                              exact Or.inl ⟨rfl, refused fun _ _ _ _ => empty⟩
                            · obtain ⟨-, effect⟩ := accounted.ledger.formed.allocate taken_eq
                              have free := (accounted.ledger.formed.mem_free copy).mp
                                (by rw [effect.was_free]; exact List.mem_cons_self)
                              refine Or.inr ⟨_, state, table, entry, _, rfl,
                                writable_of_exchange accounted found table_eq entry_eq resident
                                  (Or.inr ⟨by omega, free.2⟩) ?_ rfl rfl⟩
                              intro bytes others ledger
                              exact Ledger.copyOnWrite ledger rfl taken_eq

theorem ensureTokenWritable_cases {manager : KVCacheManager} (accounted : manager.Accounted)
    (sequenceId : SequenceId) (token layer : ℕ) :
    manager.ensureTokenWritable sequenceId token layer = (none, manager) ∨
      ∃ after state tables frame,
        manager.ensureTokenWritable sequenceId token layer = (some frame, after) ∧
        Moved manager after sequenceId state tables ∧
        Located after tables layer (token / manager.allocator.config.tokensPerBlock) frame := by
  rcases ensureTokenWritable_exchanged accounted sequenceId token layer with
    ⟨refused, -⟩ | ⟨after, state, table, entry, frame, granted, exchanged⟩
  · exact Or.inl refused
  · exact Or.inr ⟨after, state, _, frame, granted, exchanged.moved, exchanged.located⟩

/-! ## Writing -/

/-- New bytes in a frame that is referenced once. -/
structure Stored (before after : KVCacheManager) (frame : PhysicalBlockId)
    (update : List UInt8 → List UInt8) : Prop where
  sequences : after.sequences = before.sequences
  prefixIndex : after.prefixIndex = before.prefixIndex
  config : after.allocator.config = before.allocator.config
  ledger : Ledger after.allocator (after.places.map after.allocator.claimAt)
  single : before.places.count (.frame frame) = 1
  others : ∀ place ∈ before.places, place ≠ .frame frame →
    after.allocator.claimAt place = before.allocator.claimAt place
  bytes : (after.allocator.claimAt (.frame frame)).bytes =
    update (before.allocator.claimAt (.frame frame)).bytes

theorem Stored.accounted {before after : KVCacheManager} {frame : PhysicalBlockId}
    {update : List UInt8 → List UInt8} (stored : Stored before after frame update)
    (accounted : before.Accounted) : after.Accounted := by
  refine ⟨stored.ledger, ?_, ?_⟩
  · rw [stored.sequences, stored.config]
    exact accounted.tabled
  · rw [stored.prefixIndex, stored.config]
    exact accounted.records

theorem stored_writeFrame {before after : KVCacheManager} {frame : PhysicalBlockId}
    {update : List UInt8 → List UInt8} (accounted : before.Accounted)
    (owned : Place.frame frame ∈ before.places) (single : before.allocator.refCount frame = 1)
    (length : ∀ data, (update data).length = data.length)
    (sequences : after.sequences = before.sequences)
    (prefixIndex : after.prefixIndex = before.prefixIndex)
    (allocator : after.allocator = before.allocator.writeFrame frame update) :
    Stored before after frame update := by
  have places : after.places = before.places := by
    simp [KVCacheManager.places, liveEntries, pinnedIds, sequences, prefixIndex]
  have front := List.perm_cons_erase owned
  have split := accounted.ledger.perm (front.map before.allocator.claimAt)
  obtain ⟨ledger, config⟩ := split.writeFrame rfl single (length _)
  rw [← allocator] at ledger config
  refine ⟨sequences, prefixIndex, config, ?_, ?_, ?_, ?_⟩
  · refine ledger.of_places ?_
    rw [places, List.map_cons, map_place_claimAt]
    exact front.symm
  · rw [count_places, ← single, accounted.ledger.refs frame, map_place_claimAt, count_places]
  · intro place member different
    have rest : before.allocator.claimAt place ∈
        (before.places.erase (.frame frame)).map before.allocator.claimAt :=
      List.mem_map_of_mem ((List.mem_erase_of_ne different).mpr member)
    exact ledger.claimAt_eq (List.mem_cons_of_mem _ rest)
  · exact congrArg Claim.bytes (ledger.claimAt_eq List.mem_cons_self)

theorem writeToken_cases {manager : KVCacheManager} (accounted : manager.Accounted)
    (sequenceId : SequenceId) (token layer : ℕ) (stores : List TokenStore) :
    manager.writeToken sequenceId token layer stores = (none, manager) ∨
      ∃ middle after state tables frame,
        manager.writeToken sequenceId token layer stores = (some frame, after) ∧
        Moved manager middle sequenceId state tables ∧
        Located middle tables layer (token / manager.allocator.config.tokensPerBlock) frame ∧
        Stored middle after frame (fun data => stores.foldl (storeToken manager.poolShape token) data) := by
  unfold writeToken
  rcases ensureTokenWritable_cases accounted sequenceId token layer with
    refused | ⟨middle, state, tables, frame, ensured, moved, located⟩
  · rw [refused]
    exact Or.inl rfl
  · rw [ensured]
    refine Or.inr ⟨middle, _, state, tables, frame, rfl, moved, located, ?_⟩
    have live : middle.sequences.lookup sequenceId = some { state with tables } := by
      rw [moved.sequences, AList.lookup_insert]
    exact stored_writeFrame (moved.accounted accounted) (located.mem_places live) located.single
      (fun data => storeTokens_length _ _ data stores) rfl rfl rfl

end KVCacheManager
end QwenVLPaged
