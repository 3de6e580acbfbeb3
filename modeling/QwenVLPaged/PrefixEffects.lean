import Mathlib.Data.List.TakeWhile
import QwenVLPaged.SequenceEffects

/-!
# What the calls on prefixes do

Publishing, attaching and releasing change the prefix index together with the sequences.
-/

namespace QwenVLPaged

namespace KVCacheManager

/-! ## Publishing -/

/-- A sequence that names a record already published with its contents. -/
structure Joined (before after : KVCacheManager) (id : SequenceId) (state : SequenceState)
    (key : String) (front : List PrefixRecord) (existing : PrefixRecord)
    (back : List PrefixRecord) : Prop where
  found : before.sequences.lookup id = some state
  nonempty : state.textTable.entries ≠ []
  keyed : key ≠ ""
  renamed : state.prefixKey ≠ key
  resident : anySwapped state.tables = false
  records : before.prefixIndex.lookup key = some (front ++ existing :: back)
  first : ∀ record ∈ front, record.contentHash ≠ existing.contentHash
  sequences : after.sequences = before.sequences.insert id
    { state with prefixKey := key, prefixHash := existing.contentHash }
  prefixIndex : after.prefixIndex = before.prefixIndex.insert key
    (front ++ { existing with users := wrap32 (existing.users + 1) } :: back)
  allocator : after.allocator = before.allocator
  booked : Rebooked before after [] before.places

/-- A sequence that publishes its resident blocks as a new record. -/
structure Published (before after : KVCacheManager) (id : SequenceId) (state : SequenceState)
    (key : String) (record : PrefixRecord) : Prop where
  found : before.sequences.lookup id = some state
  nonempty : state.textTable.entries ≠ []
  keyed : key ≠ ""
  renamed : state.prefixKey ≠ key
  resident : anySwapped state.tables = false
  frames : placesOf state.tables = record.physicalIds.map .frame
  users : record.users = 1
  new : ∀ other ∈ before.recordsAt key, other.contentHash ≠ record.contentHash
  sequences : after.sequences = before.sequences.insert id
    { state with prefixKey := key, prefixHash := record.contentHash }
  prefixIndex : after.prefixIndex =
    before.prefixIndex.insert key (before.recordsAt key ++ [record])
  bounded : record.physicalIds.length ≤ before.allocator.config.tableCount * 2 ^ 32
  booked : Rebooked before after ((placesOf state.tables).map before.allocator.claimAt)
    before.places

theorem tabled_named {config : AllocatorConfig} {id : SequenceId} {state : SequenceState}
    (tabled : state.Tabled config id) (key : String) (hash : UInt64) :
    ({ state with prefixKey := key, prefixHash := hash } : SequenceState).Tabled config id :=
  ⟨tabled.owner, tabled.count, tabled.indexed, tabled.logicals, tabled.bounded, tabled.front⟩

theorem records_split {records : List PrefixRecord} {hash : UInt64} {found : PrefixRecord}
    {back : List PrefixRecord}
    (search : records.dropWhile (fun record => record.contentHash != hash) = found :: back) :
    records = records.takeWhile (fun record => record.contentHash != hash) ++ found :: back ∧
      found.contentHash = hash ∧
      ∀ record ∈ records.takeWhile (fun record => record.contentHash != hash),
        record.contentHash ≠ hash := by
  refine ⟨?_, ?_, ?_⟩
  · rw [← search, List.takeWhile_append_dropWhile]
  · have stopped := List.head_dropWhile_not (fun record : PrefixRecord => record.contentHash != hash)
      (show _ ≠ [] by rw [search]; exact List.cons_ne_nil _ _)
    simpa [search] using stopped
  · intro record member
    simpa using List.mem_takeWhile_imp member

theorem records_missing {records : List PrefixRecord} {hash : UInt64}
    (search : records.dropWhile (fun record => record.contentHash != hash) = []) :
    ∀ record ∈ records, record.contentHash ≠ hash := by
  intro record member
  simpa using List.dropWhile_eq_nil_iff.mp search record member

theorem length_physicalIdsOf {tables : List BlockTable}
    (bounded : ∀ table ∈ tables, table.entries.length ≤ 2 ^ 32) :
    (physicalIdsOf tables).length ≤ tables.length * 2 ^ 32 := by
  rw [physicalIdsOf, List.length_flatMap]
  refine (List.sum_le_card_nsmul _ (2 ^ 32) ?_).trans (by simp)
  intro count member
  obtain ⟨table, table_mem, rfl⟩ := List.mem_map.mp member
  simpa using bounded table table_mem

theorem length_physicalIdsOf_le {config : AllocatorConfig} {id : SequenceId}
    {state : SequenceState} (tabled : state.Tabled config id) :
    (physicalIdsOf state.tables).length ≤ config.tableCount * 2 ^ 32 := by
  rw [← tabled.count]
  exact length_physicalIdsOf tabled.bounded

theorem joined_of_found {before after : KVCacheManager} {id : SequenceId} {state : SequenceState}
    {key : String} {front back : List PrefixRecord} {existing : PrefixRecord}
    (accounted : before.Accounted) (found : before.sequences.lookup id = some state)
    (nonempty : state.textTable.entries ≠ []) (keyed : key ≠ "") (renamed : state.prefixKey ≠ key)
    (resident : anySwapped state.tables = false)
    (records : before.prefixIndex.lookup key = some (front ++ existing :: back))
    (first : ∀ record ∈ front, record.contentHash ≠ existing.contentHash)
    (sequences : after.sequences = before.sequences.insert id
      { state with prefixKey := key, prefixHash := existing.contentHash })
    (prefixIndex : after.prefixIndex = before.prefixIndex.insert key
      (front ++ { existing with users := wrap32 (existing.users + 1) } :: back))
    (allocator : after.allocator = before.allocator) :
    Joined before after id state key front existing back := by
  refine ⟨found, nonempty, keyed, renamed, resident, records, first, sequences, prefixIndex,
    allocator, ?_, ?_, by rw [allocator]⟩
  · rw [allocator]
    exact accounted.ledger
  · have live : after.liveEntries.Perm ([] ++ before.liveEntries) :=
      liveEntries_perm_insert found sequences (List.Perm.refl _)
    have pinned : after.pinnedIds.Perm ([] ++ before.pinnedIds) := by
      rw [pinnedIds_insert prefixIndex]
      refine List.Perm.trans (List.Perm.of_eq ?_) (before.pinnedIds_perm key).symm
      simp [recordsAt, records]
    exact places_of_pinned_perm live pinned

theorem published_of_missing {before after : KVCacheManager} {id : SequenceId}
    {state : SequenceState} {key : String} {record : PrefixRecord} (accounted : before.Accounted)
    (found : before.sequences.lookup id = some state) (nonempty : state.textTable.entries ≠ [])
    (keyed : key ≠ "") (renamed : state.prefixKey ≠ key)
    (resident : anySwapped state.tables = false)
    (ids : record.physicalIds = physicalIdsOf state.tables) (users : record.users = 1)
    (new : ∀ other ∈ before.recordsAt key, other.contentHash ≠ record.contentHash)
    (sequences : after.sequences = before.sequences.insert id
      { state with prefixKey := key, prefixHash := record.contentHash })
    (prefixIndex : after.prefixIndex =
      before.prefixIndex.insert key (before.recordsAt key ++ [record]))
    (allocator : after.allocator = retainAll before.allocator record.physicalIds)
    (bounded : ∀ id, after.references id < 2 ^ 32) :
    Published before after id state key record := by
  have places_eq : placesOf state.tables = record.physicalIds.map .frame := by
    rw [ids]
    exact placesOf_of_resident resident
  refine ⟨found, nonempty, keyed, renamed, resident, places_eq, users, new, sequences,
    prefixIndex, ?_, ?_⟩
  · rw [ids]
    exact length_physicalIdsOf_le (accounted.tabled id state found)
  · rw [places_eq]
    refine rebooked_of_retainAll accounted ?_ allocator ?_ bounded
    · intro frame member
      apply mem_places_of_mem_tables found
      rw [places_eq]
      exact List.mem_map_of_mem member
    · have live : after.liveEntries.Perm ([] ++ before.liveEntries) :=
        liveEntries_perm_insert found sequences (List.Perm.refl _)
      have pinned : after.pinnedIds.Perm (record.physicalIds ++ before.pinnedIds) := by
        rw [pinnedIds_insert prefixIndex]
        simp only [List.flatMap_append, List.flatMap_cons, List.flatMap_nil, List.append_nil]
        refine (List.perm_append_comm.append_right _).trans ?_
        rw [List.append_assoc]
        exact (before.pinnedIds_perm key).symm.append_left _
      exact places_of_pinned_perm live pinned

theorem publishPrefix_cases {manager : KVCacheManager} (accounted : manager.Accounted)
    (sequenceId : SequenceId) (key : String)
    (bounded : ∀ id, (manager.publishPrefix sequenceId key).2.references id < 2 ^ 32) :
    (∃ done, manager.publishPrefix sequenceId key = (done, manager)) ∨
      (∃ after state front existing back,
        manager.publishPrefix sequenceId key = (true, after) ∧
        existing.contentHash = manager.contentHashOf state.tables ∧
        Joined manager after sequenceId state key front existing back) ∨
      ∃ after state record, manager.publishPrefix sequenceId key = (true, after) ∧
        record.contentHash = manager.contentHashOf state.tables ∧
        Published manager after sequenceId state key record := by
  unfold publishPrefix at bounded ⊢
  split
  case isTrue => exact Or.inl ⟨false, rfl⟩
  case isFalse keyed =>
    rw [if_neg keyed] at bounded
    cases found : manager.sequences.lookup sequenceId with
    | none => exact Or.inl ⟨false, rfl⟩
    | some state =>
        simp only [found] at bounded ⊢
        split
        case isTrue => exact Or.inl ⟨false, rfl⟩
        case isFalse nonempty =>
          rw [if_neg nonempty] at bounded
          split
          case isTrue => exact Or.inl ⟨true, rfl⟩
          case isFalse renamed =>
            rw [if_neg renamed] at bounded
            split
            case isTrue => exact Or.inl ⟨false, rfl⟩
            case isFalse sized =>
              rw [if_neg sized] at bounded
              split
              case isTrue => exact Or.inl ⟨false, rfl⟩
              case isFalse whole =>
                rw [if_neg whole] at bounded
                have entries : state.textTable.entries ≠ [] := by simpa using nonempty
                cases search : ((manager.prefixIndex.lookup key).getD []).dropWhile
                    (fun record => record.contentHash != manager.contentHashOf state.tables) with
                | cons existing back =>
                    obtain ⟨split_eq, hash_eq, front_ne⟩ := records_split search
                    rw [← hash_eq] at split_eq front_ne search ⊢
                    have records : manager.prefixIndex.lookup key =
                        some (((manager.prefixIndex.lookup key).getD []).takeWhile
                          (fun record => record.contentHash != existing.contentHash) ++
                            existing :: back) := by
                      rw [← split_eq]
                      cases index : manager.prefixIndex.lookup key with
                      | none => simp [index] at search
                      | some records => rfl
                    simp only
                    exact Or.inr (Or.inl ⟨_, state, _, existing, back, rfl, hash_eq,
                      joined_of_found accounted found entries keyed renamed (by simpa using whole)
                        records front_ne rfl rfl rfl⟩)
                | nil =>
                    simp only [search] at bounded ⊢
                    exact Or.inr (Or.inr ⟨_, state, ⟨_, _, 1, _⟩, rfl, rfl,
                      published_of_missing accounted found entries keyed renamed
                        (by simpa using whole) rfl rfl (records_missing search) rfl rfl rfl
                        bounded⟩)

theorem Joined.accounted {before after : KVCacheManager} {id : SequenceId} {state : SequenceState}
    {key : String} {front back : List PrefixRecord} {existing : PrefixRecord}
    (joined : Joined before after id state key front existing back)
    (accounted : before.Accounted) : after.Accounted := by
  refine accounted.insert_records joined.sequences joined.prefixIndex
    (tabled_named (accounted.tabled id state joined.found) _ _) ?_ joined.booked
  have old := accounted.records key _ joined.records
  intro record member
  rcases List.mem_append.mp member with inside | inside
  · exact old record (List.mem_append_left _ inside)
  · rcases List.mem_cons.mp inside with rfl | inside
    · exact old existing (by simp)
    · exact old record (by simp [inside])

theorem Published.accounted {before after : KVCacheManager} {id : SequenceId}
    {state : SequenceState} {key : String} {record : PrefixRecord}
    (published : Published before after id state key record)
    (accounted : before.Accounted) : after.Accounted := by
  refine accounted.insert_records published.sequences published.prefixIndex
    (tabled_named (accounted.tabled id state published.found) _ _) ?_ published.booked
  intro other member
  rcases List.mem_append.mp member with old | new
  · unfold recordsAt at old
    cases found : before.prefixIndex.lookup key with
    | none => simp [found] at old
    | some records => exact accounted.records key records found other (by simpa [found] using old)
  · rw [List.mem_singleton.mp new]
    exact published.bounded

/-! ## Attaching -/

/-- An empty sequence that maps the frames of the only record under a key. -/
structure Attached (before after : KVCacheManager) (id : SequenceId) (state : SequenceState)
    (key : String) (record : PrefixRecord) (added : List (List BlockTableEntry)) : Prop where
  found : before.sequences.lookup id = some state
  empty : ∀ table ∈ state.tables, table.entries = []
  keyed : key ≠ ""
  records : before.prefixIndex.lookup key = some [record]
  total : record.physicalIds.length =
    record.physicalIds.length / state.tables.length * state.tables.length
  attached : TablesAttached id before.allocator.config.tokensPerBlock
    (record.physicalIds.length / state.tables.length) record.physicalIds state.tables added
  filled : added.flatten ≠ []
  sequences : after.sequences = before.sequences.insert id
    { state with
      tables := extendAll state.tables added
      prefixKey := key
      prefixHash := record.contentHash }
  prefixIndex : after.prefixIndex = before.prefixIndex.insert key
    [{ record with users := wrap32 (record.users + 1) }]
  tabled : ({ state with tables := extendAll state.tables added } : SequenceState).Tabled
    before.allocator.config id
  booked : Rebooked before after
    ((record.physicalIds.map Place.frame).map before.allocator.claimAt) before.places

theorem Attached.accounted {before after : KVCacheManager} {id : SequenceId}
    {state : SequenceState} {key : String} {record : PrefixRecord}
    {added : List (List BlockTableEntry)}
    (attached : Attached before after id state key record added) (accounted : before.Accounted) :
    after.Accounted := by
  refine accounted.insert_records attached.sequences attached.prefixIndex
    (tabled_named attached.tabled _ _) ?_ attached.booked
  intro other member
  rw [List.mem_singleton.mp member]
  exact accounted.records key _ attached.records record (by simp)

theorem Attached.text_empty {before after : KVCacheManager} {id : SequenceId}
    {state : SequenceState} {key : String} {record : PrefixRecord}
    {added : List (List BlockTableEntry)}
    (attached : Attached before after id state key record added) :
    state.textTable.entries = [] := by
  cases tables_eq : state.tables with
  | nil => simp [SequenceState.textTable, tables_eq, BlockTable.create]
  | cons head tail =>
      simpa [SequenceState.textTable, tables_eq] using
        attached.empty head (by rw [tables_eq]; exact List.mem_cons_self)

theorem Attached.text_nonempty {before after : KVCacheManager} {id : SequenceId}
    {state : SequenceState} {key : String} {record : PrefixRecord}
    {added : List (List BlockTableEntry)}
    (attached : Attached before after id state key record added) :
    ({ state with tables := extendAll state.tables added } : SequenceState).textTable.entries ≠
      [] := by
  intro empty
  have all_empty := List.flatMap_eq_nil_iff.mpr (attached.tabled.front empty)
  have entries := entries_extendAll attached.attached.lengths
  rw [all_empty] at entries
  exact attached.filled (List.append_eq_nil_iff.mp entries.nil_eq.symm).1

theorem mem_places_of_record {manager : KVCacheManager} {key : String}
    {records : List PrefixRecord} {record : PrefixRecord}
    (found : manager.prefixIndex.lookup key = some records) (record_mem : record ∈ records)
    {frame : PhysicalBlockId} (member : frame ∈ record.physicalIds) :
    Place.frame frame ∈ manager.places :=
  List.mem_append_right _ (List.mem_map_of_mem
    (mem_pinnedIds.mpr ⟨key, records, found, record, record_mem, member⟩))

theorem attached_of_record {before after : KVCacheManager} {id : SequenceId}
    {state : SequenceState} {key : String} {record : PrefixRecord}
    {added : List (List BlockTableEntry)} (accounted : before.Accounted)
    (found : before.sequences.lookup id = some state)
    (empty : ∀ table ∈ state.tables, table.entries = []) (keyed : key ≠ "")
    (records : before.prefixIndex.lookup key = some [record])
    (nonempty : record.physicalIds ≠ [])
    (total : record.physicalIds.length =
      record.physicalIds.length / state.tables.length * state.tables.length)
    (room : record.physicalIds.length / state.tables.length ≤ 2 ^ 32)
    (attached : TablesAttached id before.allocator.config.tokensPerBlock
      (record.physicalIds.length / state.tables.length) record.physicalIds state.tables added)
    (sequences : after.sequences = before.sequences.insert id
      { state with
        tables := extendAll state.tables added
        prefixKey := key
        prefixHash := record.contentHash })
    (prefixIndex : after.prefixIndex = before.prefixIndex.insert key
      [{ record with users := wrap32 (record.users + 1) }])
    (allocator : after.allocator = retainAll before.allocator record.physicalIds)
    (bounded : ∀ id, after.references id < 2 ^ 32) :
    Attached before after id state key record added := by
  have filled : added.flatten ≠ [] := by
    intro nothing
    apply nonempty
    rw [← attached.physical, nothing]
    rfl
  refine ⟨found, empty, keyed, records, total, attached, filled, sequences, prefixIndex, ?_, ?_⟩
  · refine tabled_extendAll (accounted.tabled id state found) attached.lengths attached.indexed
      attached.logicals ?_ ?_
    · intro table table_mem entries entries_mem
      rw [empty table table_mem, attached.full entries entries_mem]
      simpa using room
    · rintro entries others equal rfl
      -- All tables get the same share, so an empty first share leaves nothing to attach.
      have share := attached.full [] (by rw [equal]; exact List.mem_cons_self)
      apply List.flatten_eq_nil_iff.mpr
      intro other other_mem
      exact List.length_eq_zero_iff.mp ((attached.full other other_mem).trans share.symm)
  · refine rebooked_of_retainAll accounted ?_ allocator ?_ bounded
    · intro frame member
      exact mem_places_of_record records (by simp) member
    · have live : after.liveEntries.Perm (added.flatten ++ before.liveEntries) := by
        refine liveEntries_perm_insert found sequences ?_
        have old : state.tables.flatMap (·.entries) = [] := List.flatMap_eq_nil_iff.mpr empty
        have new := entries_extendAll attached.lengths
        rw [old, List.append_nil] at new ⊢
        exact new
      have pinned : after.pinnedIds.Perm ([] ++ before.pinnedIds) := by
        rw [pinnedIds_insert prefixIndex]
        refine List.Perm.trans (List.Perm.of_eq ?_) (before.pinnedIds_perm key).symm
        simp [recordsAt, records]
      have frames : added.flatten.map BlockTableEntry.place = record.physicalIds.map .frame := by
        rw [← attached.physical, List.map_map]
        exact List.map_congr_left fun entry member =>
          BlockTableEntry.place_of_resident (attached.resident entry member)
      rw [← frames]
      exact places_of_pinned_perm live pinned

theorem attachPrefix_cases {manager : KVCacheManager} (accounted : manager.Accounted)
    (sequenceId : SequenceId) (key : String)
    (bounded : ∀ id, (manager.attachPrefix sequenceId key).2.references id < 2 ^ 32) :
    manager.attachPrefix sequenceId key = (0, manager) ∨
      ∃ after state record added,
        manager.attachPrefix sequenceId key = (record.tokenCount, after) ∧
        Attached manager after sequenceId state key record added := by
  unfold attachPrefix at bounded ⊢
  split
  case isTrue => exact Or.inl rfl
  case isFalse keyed =>
    rw [if_neg keyed] at bounded
    cases found : manager.sequences.lookup sequenceId with
    | none => exact Or.inl rfl
    | some state =>
        simp only [found] at bounded ⊢
        split
        case isTrue => exact Or.inl rfl
        case isFalse text_empty =>
          rw [if_neg text_empty] at bounded
          have tabled := accounted.tabled sequenceId state found
          have empty := tabled.front (by simpa using text_empty)
          split
          case h_2 => exact Or.inl rfl
          case h_1 record records =>
            simp only [records] at bounded
            split
            case isTrue => exact Or.inl rfl
            case isFalse usable =>
              rw [if_neg usable] at bounded
              simp only [Bool.or_eq_true, decide_eq_true_eq, not_or] at usable
              obtain ⟨⟨-, some_frame⟩, some_table⟩ := usable
              split
              case isTrue => exact Or.inl rfl
              case isFalse divides =>
                rw [if_neg divides] at bounded
                have total : record.physicalIds.length =
                    record.physicalIds.length / state.tables.length * state.tables.length := by
                  have exact_share := Nat.div_add_mod record.physicalIds.length state.tables.length
                  rw [not_not.mp divides, Nat.mul_comm] at exact_share
                  exact exact_share.symm
                have room : record.physicalIds.length / state.tables.length ≤ 2 ^ 32 := by
                  apply Nat.div_le_of_le_mul
                  rw [tabled.count]
                  exact accounted.records key _ records record (by simp)
                obtain ⟨added, run_eq, attached⟩ := attachTables_spec sequenceId
                  manager.tokensPerBlock (record.physicalIds.length / state.tables.length)
                  record.physicalIds manager.allocator state.tables empty total room
                rw [tokensPerBlock_eq accounted.ledger.formed.sound] at attached
                simp only [run_eq] at bounded ⊢
                exact Or.inr ⟨_, state, record, added, rfl,
                  attached_of_record accounted found empty keyed records (by simpa using some_frame)
                    total room attached rfl rfl rfl bounded⟩

/-! ## Releasing -/

/-- One user less for the record of a sequence; the record goes with its last user and its frames
are freed. -/
inductive UserDropped (before after : AList fun _ : String => List PrefixRecord) (key : String)
    (hash : UInt64) : List PhysicalBlockId → Prop
  | missing (unnamed : key = "" ∨
        ∀ record ∈ (before.lookup key).getD [], record.contentHash ≠ hash)
      (same : after = before) : UserDropped before after key hash []
  | kept {front back : List PrefixRecord} {record : PrefixRecord} (keyed : key ≠ "")
      (found : before.lookup key = some (front ++ record :: back))
      (first : ∀ other ∈ front, other.contentHash ≠ hash) (named : record.contentHash = hash)
      (more : 0 < record.users - 1)
      (same : after = before.insert key (front ++ { record with users := record.users - 1 } :: back)) :
      UserDropped before after key hash []
  | last {front back : List PrefixRecord} {record : PrefixRecord} (keyed : key ≠ "")
      (found : before.lookup key = some (front ++ record :: back))
      (first : ∀ other ∈ front, other.contentHash ≠ hash) (named : record.contentHash = hash)
      (none_left : record.users - 1 = 0)
      (same : after = if front ++ back = [] then before.erase key
        else before.insert key (front ++ back)) :
      UserDropped before after key hash record.physicalIds

theorem dropPrefixUser_cases (manager : KVCacheManager) (state : SequenceState) :
    ∃ freed, UserDropped manager.prefixIndex (manager.dropPrefixUser state).1.prefixIndex
        state.prefixKey state.prefixHash freed ∧
      (manager.dropPrefixUser state).1.allocator = releaseAll manager.allocator freed ∧
      (manager.dropPrefixUser state).1.sequences = manager.sequences ∧
      (manager.dropPrefixUser state).1.sequencesByRequest = manager.sequencesByRequest := by
  unfold dropPrefixUser
  split
  case isTrue unnamed => exact ⟨[], .missing (Or.inl unnamed) rfl, rfl, rfl, rfl⟩
  case isFalse keyed =>
    cases found : manager.prefixIndex.lookup state.prefixKey with
    | none => exact ⟨[], .missing (Or.inr (by simp [found])) rfl, rfl, rfl, rfl⟩
    | some records =>
        simp only
        cases search : records.dropWhile
            (fun record => record.contentHash != state.prefixHash) with
        | nil =>
            refine ⟨[], .missing (Or.inr ?_) rfl, rfl, rfl, rfl⟩
            rw [found]
            exact records_missing search
        | cons record back =>
            obtain ⟨split_eq, named, first⟩ := records_split search
            simp only
            rw [split_eq] at found
            split
            case isTrue more => exact ⟨[], .kept keyed found first named more rfl, rfl, rfl, rfl⟩
            case isFalse none_left =>
              have gone : record.users - 1 = 0 := Nat.eq_zero_of_not_pos none_left
              split
              case isTrue alone =>
                refine ⟨record.physicalIds, .last keyed found first named gone ?_, rfl, rfl, rfl⟩
                rw [if_pos (List.isEmpty_iff.mp alone)]
              case isFalse others =>
                refine ⟨record.physicalIds, .last keyed found first named gone ?_, rfl, rfl, rfl⟩
                rw [if_neg (fun nothing => others (List.isEmpty_iff.mpr nothing))]

theorem UserDropped.pinnedIds_perm {before after : KVCacheManager} {key : String} {hash : UInt64}
    {freed : List PhysicalBlockId}
    (dropped : UserDropped before.prefixIndex after.prefixIndex key hash freed) :
    before.pinnedIds.Perm (freed ++ after.pinnedIds) := by
  cases dropped with
  | missing _ same => simp [pinnedIds, same]
  | @kept front back record _ found _ _ _ same =>
      rw [pinnedIds_insert same]
      refine (before.pinnedIds_perm key).trans (List.Perm.of_eq ?_)
      simp [recordsAt, found]
  | @last front back record _ found _ _ _ same =>
      have rest : after.pinnedIds =
          (front ++ back).flatMap (·.physicalIds) ++ before.pinnedWithout key := by
        split at same
        · rename_i nothing
          rw [nothing]
          simp [pinnedIds, pinnedWithout, same]
        · exact pinnedIds_insert same
      rw [rest]
      refine (before.pinnedIds_perm key).trans ?_
      simp only [recordsAt, found, Option.getD_some, List.flatMap_append, List.flatMap_cons,
        List.append_assoc]
      exact List.perm_append_comm_assoc _ _ _

/-- A sequence that is gone with its blocks and its use of a prefix record. -/
structure Released (before after : KVCacheManager) (id : SequenceId) (state : SequenceState) :
    Prop where
  found : before.sequences.lookup id = some state
  sequences : after.sequences = before.sequences.erase id
  dropped : ∃ freed, UserDropped before.prefixIndex after.prefixIndex state.prefixKey
    state.prefixHash freed
  subset : ∀ place ∈ after.places, place ∈ before.places
  booked : Rebooked before after [] after.places

/-- What holds of the frames of every record still holds of them. -/
theorem UserDropped.records_all {before after : KVCacheManager} {key : String} {hash : UInt64}
    {freed : List PhysicalBlockId}
    (dropped : UserDropped before.prefixIndex after.prefixIndex key hash freed)
    (property : List PhysicalBlockId → Prop)
    (records : ∀ key records, before.prefixIndex.lookup key = some records →
      ∀ record ∈ records, property record.physicalIds) :
    ∀ key records, after.prefixIndex.lookup key = some records →
      ∀ record ∈ records, property record.physicalIds := by
  have inserted {new : List PrefixRecord}
      (old : ∀ record ∈ new, property record.physicalIds) :
      ∀ other found, (before.prefixIndex.insert key new).lookup other = some found →
        ∀ record ∈ found, property record.physicalIds := by
    intro other found member
    by_cases same : other = key
    · subst same
      rw [AList.lookup_insert] at member
      exact Option.some.inj member ▸ old
    · rw [AList.lookup_insert_ne same] at member
      exact records other found member
  cases dropped with
  | missing _ same =>
      rw [same]
      exact records
  | @kept front back record _ found _ _ _ same =>
      rw [same]
      refine inserted ?_
      intro other member
      have old := records key _ found
      rcases List.mem_append.mp member with inside | inside
      · exact old other (List.mem_append_left _ inside)
      · rcases List.mem_cons.mp inside with rfl | inside
        · exact old record (by simp)
        · exact old other (by simp [inside])
  | @last front back record _ found _ _ _ same =>
      rw [same]
      split
      · intro other found' member
        by_cases same_key : other = key
        · subst same_key
          rw [AList.lookup_erase] at member
          simp at member
        · rw [AList.lookup_erase_ne same_key] at member
          exact records other found' member
      · refine inserted ?_
        intro other member
        refine records key _ found other ?_
        rcases List.mem_append.mp member with inside | inside
        · exact List.mem_append_left _ inside
        · simp [inside]

theorem Released.accounted {before after : KVCacheManager} {id : SequenceId}
    {state : SequenceState} (released : Released before after id state)
    (accounted : before.Accounted) : after.Accounted := by
  obtain ⟨freed, dropped⟩ := released.dropped
  refine ⟨released.booked.ledger_places, ?_, ?_⟩
  · rw [released.booked.config, released.sequences]
    intro other found member
    by_cases same : other = id
    · subst same
      rw [AList.lookup_erase] at member
      simp at member
    · rw [AList.lookup_erase_ne same] at member
      exact accounted.tabled other found member
  · rw [released.booked.config]
    exact dropped.records_all (·.length ≤ _) accounted.records

theorem released_of_dropped {before after : KVCacheManager} {id : SequenceId}
    {state : SequenceState} {freed : List PhysicalBlockId} (accounted : before.Accounted)
    (found : before.sequences.lookup id = some state)
    (sequences : after.sequences = before.sequences.erase id)
    (dropped : UserDropped before.prefixIndex after.prefixIndex state.prefixKey state.prefixHash
      freed)
    (allocator : after.allocator = (state.tables.flatMap (·.entries)).foldl releaseEntry
      (releaseAll before.allocator freed)) : Released before after id state := by
  have live : before.liveEntries.Perm
      (state.tables.flatMap (·.entries) ++ after.liveEntries) := by
    rw [liveEntries, liveEntries, sequences]
    exact AList.gather_perm_of_lookup _ found
  have places : before.places.Perm
      (freed.map .frame ++ (placesOf state.tables ++ after.places)) := by
    have front := live.map BlockTableEntry.place
    have back := dropped.pinnedIds_perm.map Place.frame
    rw [List.map_append] at front back
    calc
      before.places.Perm ((placesOf state.tables ++
          after.liveEntries.map BlockTableEntry.place) ++
          (freed.map .frame ++ after.pinnedIds.map .frame)) := front.append back
      List.Perm _ (freed.map .frame ++ ((placesOf state.tables ++
          after.liveEntries.map BlockTableEntry.place) ++ after.pinnedIds.map .frame)) :=
        List.perm_append_comm_assoc _ _ _
      List.Perm _ (freed.map .frame ++ (placesOf state.tables ++ after.places)) := by
        rw [List.append_assoc]
        exact List.Perm.refl _
  have ledger := accounted.ledger.perm (places.map before.allocator.claimAt)
  rw [List.map_append, List.map_append] at ledger
  obtain ⟨unpinned, config⟩ := Ledger.releaseAll ledger (map_place_claimAt _ _)
  obtain ⟨final, config'⟩ := Ledger.releaseEntries unpinned (map_place_claimAt _ _)
  rw [← allocator] at final config'
  refine ⟨found, sequences, ⟨freed, dropped⟩, ?_, final, List.Perm.refl _, config'.trans config⟩
  intro place member
  exact places.mem_iff.mpr (List.mem_append_right _ (List.mem_append_right _ member))

theorem releaseSequence_cases {manager : KVCacheManager} (accounted : manager.Accounted)
    (sequenceId : SequenceId) :
    (manager.sequences.lookup sequenceId = none ∧
      manager.releaseSequence sequenceId = manager) ∨
      ∃ state, Released manager (manager.releaseSequence sequenceId) sequenceId state := by
  unfold releaseSequence
  cases found : manager.sequences.lookup sequenceId with
  | none => exact Or.inl ⟨rfl, rfl⟩
  | some state =>
      obtain ⟨freed, dropped, allocator, sequences, -⟩ := manager.dropPrefixUser_cases state
      exact Or.inr ⟨state, released_of_dropped accounted found (by simp [sequences])
        (by simpa using dropped) (by simp [allocator])⟩

end KVCacheManager
end QwenVLPaged
