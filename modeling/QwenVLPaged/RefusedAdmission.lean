import QwenVLPaged.BlockCounts
import QwenVLPaged.PoolInduction
import QwenVLPaged.RootSequences

/-!
# A refused admission leaves no trace

`try_admit` may have opened a sequence and attached a shared prefix before the reservation of the
rest of the prompt fails. Releasing the request then takes back every reference and the use of the
record, so that the cache is as it was.
-/

namespace QwenVLPaged

namespace MemoryAllocator

/-! ## States and counts -/

/-- The state that goes with a reference count, and the range of the count. -/
structure Labelled (info : PhysicalBlockInfo) : Prop where
  range : info.refCount < 2 ^ 32
  single : info.refCount = 1 → info.state = .active
  several : 2 ≤ info.refCount → info.state = .shared

/-- Every frame of the pool is labelled. -/
def Labels (allocator : MemoryAllocator) : Prop :=
  ∀ (id : PhysicalBlockId) (info : PhysicalBlockInfo), allocator.infos[id]? = some info →
    Labelled info

theorem labelled_zero (info : PhysicalBlockInfo) (zero : info.refCount = 0) : Labelled info := by
  refine ⟨?_, ?_, ?_⟩ <;> omega

theorem labels_set {allocator after : MemoryAllocator} (labels : allocator.Labels)
    {id : PhysicalBlockId} {info : PhysicalBlockInfo} (label : Labelled info)
    (infos : after.infos = allocator.infos.set id info) : after.Labels := by
  intro other found member
  rw [infos, List.getElem?_set] at member
  split at member
  · split at member
    · exact Option.some.inj member ▸ label
    · simp at member
  · exact labels other found member

theorem labels_of_infos {allocator after : MemoryAllocator} (labels : allocator.Labels)
    (infos : after.infos = allocator.infos) : after.Labels := by
  intro id info found
  exact labels id info (infos ▸ found)

theorem Labels.allocate {allocator : MemoryAllocator} (labels : allocator.Labels) :
    allocator.allocate.2.Labels := by
  unfold MemoryAllocator.allocate
  split
  · exact labels
  · intro other found member
    simp only [List.getElem?_modify, Option.map_eq_map, Option.map_eq_some_iff] at member
    obtain ⟨old, old_eq, rfl⟩ := member
    split
    · exact ⟨by norm_num, fun _ => rfl, by simp⟩
    · exact labels other old old_eq

theorem Labels.release {allocator : MemoryAllocator} (labels : allocator.Labels)
    (id : PhysicalBlockId) : (allocator.release id).Labels := by
  unfold MemoryAllocator.release
  split
  · exact labels
  · rename_i info found
    obtain ⟨range, single, several⟩ := labels id info found
    split
    · exact labels
    · split
      · exact labels_set labels (labelled_zero _ rfl) rfl
      · split
        · rename_i one
          exact labels_set labels ⟨by simp only; omega, fun _ => rfl, by simp only [one]; omega⟩ rfl
        · rename_i more
          refine labels_set labels ⟨by simp only; omega, ?_, ?_⟩ rfl
          · simp only
            omega
          · intro _
            exact several (by omega)

theorem Labels.retain {allocator : MemoryAllocator} (labels : allocator.Labels)
    (id : PhysicalBlockId) : (allocator.retain id).Labels := by
  unfold MemoryAllocator.retain
  split
  · exact labels
  · rename_i info found
    have range := (labels id info found).range
    split
    · exact labels
    · refine labels_set labels ⟨wrap32_lt _, ?_, fun _ => rfl⟩ rfl
      simp only [wrap32]
      omega

theorem Labels.swapOut {allocator : MemoryAllocator} (labels : allocator.Labels)
    (id : PhysicalBlockId) : (allocator.swapOut id).2.Labels := by
  unfold MemoryAllocator.swapOut
  repeat' split
  all_goals first
    | exact labels
    | exact labels_set labels (labelled_zero _ rfl) rfl

theorem Labels.swapIn {allocator : MemoryAllocator} (labels : allocator.Labels)
    (slot : SwapSlotId) : (allocator.swapIn slot).2.Labels := by
  have taken := labels.allocate
  unfold MemoryAllocator.swapIn
  split
  · exact labels
  · split
    · rename_i failed
      rwa [failed] at taken
    · rename_i success
      rw [success] at taken
      split
      · exact taken.release _
      · exact labels_of_infos taken rfl

/-- The labels are kept by every primitive, also past the last reference count. -/
theorem stable_labels : Stable Labels := by
  refine ⟨fun _ labels => labels.allocate, fun _ id labels => labels.release id,
    fun _ id labels => labels.retain id, ?_, fun _ _ _ labels => labels_of_infos labels rfl,
    fun _ id labels => labels.swapOut id, fun _ slot labels => labels.swapIn slot,
    fun _ _ labels => labels_of_infos labels rfl⟩
  intro allocator source destination labels
  unfold MemoryAllocator.copyBlock
  split
  · exact labels_of_infos labels rfl
  · exact labels

theorem labels_create (config : AllocatorConfig) (slab : ℕ → UInt8)
    (backend : Option HostSwapBackend) : (create config slab backend).Labels := by
  intro id info found
  simp only [create, List.getElem?_map, Option.map_eq_some_iff] at found
  obtain ⟨_, -, rfl⟩ := found
  exact labelled_zero _ rfl

/-! ## References that are taken and given back -/

/-- The record of a frame after one more reference for each occurrence in the list. -/
def retainedInfo (ids : List PhysicalBlockId) (id : PhysicalBlockId) (info : PhysicalBlockInfo) :
    PhysicalBlockInfo :=
  if id ∈ ids then { info with refCount := info.refCount + ids.count id, state := .shared }
  else info

/-- The record of a frame after one reference less for each occurrence in the list. -/
def releasedInfo (ids : List PhysicalBlockId) (id : PhysicalBlockId) (info : PhysicalBlockInfo) :
    PhysicalBlockInfo :=
  if id ∈ ids then
    { info with
      refCount := info.refCount - ids.count id
      state := if info.refCount - ids.count id = 1 then .active else info.state }
  else info

theorem retainAll_eq {allocator : MemoryAllocator} {ids : List PhysicalBlockId}
    (counted : ∀ id ∈ ids, 0 < allocator.refCount id ∧
      allocator.refCount id + ids.count id < 2 ^ 32) :
    KVCacheManager.retainAll allocator ids =
      { allocator with infos := allocator.infos.mapIdx (retainedInfo ids) } := by
  induction ids generalizing allocator with
  | nil =>
      have same : allocator.infos.mapIdx (retainedInfo []) = allocator.infos := by
        apply List.ext_getElem?
        intro other
        rw [List.getElem?_mapIdx]
        cases allocator.infos[other]? <;> simp [retainedInfo]
      simp [KVCacheManager.retainAll, same]
  | cons id ids induction =>
      obtain ⟨positive, small⟩ := counted id List.mem_cons_self
      obtain ⟨info, found⟩ : ∃ info, allocator.infos[id]? = some info := by
        rw [← Option.isSome_iff_exists]
        by_contra missing
        simp [MemoryAllocator.refCount, Option.not_isSome_iff_eq_none.mp missing] at positive
      have count := refCount_eq_of_info found
      rw [count] at positive small
      rw [List.count_cons_self] at small
      have retained : allocator.retain id =
          { allocator with
            infos := allocator.infos.set id
              { info with refCount := info.refCount + 1, state := .shared } } := by
        simp only [MemoryAllocator.retain, found, positive.ne', if_false]
        rw [wrap32_of_lt (by omega)]
      have inside : id < allocator.infos.length := (List.getElem?_eq_some_iff.mp found).1
      have infos : (allocator.retain id).infos = allocator.infos.set id
          { info with refCount := info.refCount + 1, state := .shared } := by rw [retained]
      have counts := refCount_set infos inside
      have rest := @induction (allocator.retain id) fun other member => by
        have bounds := counted other (List.mem_cons_of_mem _ member)
        rw [counts]
        by_cases same : other = id
        · subst same
          simp only [if_true]
          omega
        · rw [if_neg same]
          rw [List.count_cons_of_ne (Ne.symm same)] at bounds
          exact bounds
      rw [KVCacheManager.retainAll, List.foldl_cons, ← KVCacheManager.retainAll, rest, retained]
      congr 1
      apply List.ext_getElem?
      intro other
      simp only [List.getElem?_mapIdx, List.getElem?_set]
      by_cases same : id = other
      · subst same
        simp only [inside, if_true, found, Option.map_some, Option.some.injEq, retainedInfo,
          List.mem_cons_self, List.count_cons_self]
        split
        · simp only [PhysicalBlockInfo.mk.injEq, true_and, and_true]
          omega
        · rename_i absent
          simp [List.count_eq_zero.mpr absent]
      · have reversed : ¬ other = id := fun equal => same equal.symm
        rw [if_neg same]
        cases allocator.infos[other]? with
        | none => rfl
        | some kept =>
            simp only [Option.map_some, retainedInfo, List.mem_cons, reversed, false_or,
              List.count_cons_of_ne same]

theorem releaseAll_eq {allocator : MemoryAllocator} {ids : List PhysicalBlockId}
    (counted : ∀ id ∈ ids, ids.count id < allocator.refCount id) :
    KVCacheManager.releaseAll allocator ids =
      { allocator with infos := allocator.infos.mapIdx (releasedInfo ids) } := by
  induction ids generalizing allocator with
  | nil =>
      have same : allocator.infos.mapIdx (releasedInfo []) = allocator.infos := by
        apply List.ext_getElem?
        intro other
        rw [List.getElem?_mapIdx]
        cases allocator.infos[other]? <;> simp [releasedInfo]
      simp [KVCacheManager.releaseAll, same]
  | cons id ids induction =>
      have several := counted id List.mem_cons_self
      rw [List.count_cons_self] at several
      obtain ⟨info, found⟩ : ∃ info, allocator.infos[id]? = some info := by
        rw [← Option.isSome_iff_exists]
        by_contra missing
        simp [MemoryAllocator.refCount, Option.not_isSome_iff_eq_none.mp missing] at several
      have count := refCount_eq_of_info found
      rw [count] at several
      have released : allocator.release id =
          { allocator with
            infos := allocator.infos.set id
              { info with
                refCount := info.refCount - 1
                state := if info.refCount - 1 = 1 then .active else info.state } } := by
        simp only [MemoryAllocator.release, found]
        rw [if_neg (by omega), if_neg (by omega)]
        split <;> rfl
      have inside : id < allocator.infos.length := (List.getElem?_eq_some_iff.mp found).1
      have infos : (allocator.release id).infos = allocator.infos.set id
          { info with
            refCount := info.refCount - 1
            state := if info.refCount - 1 = 1 then .active else info.state } := by rw [released]
      have counts := refCount_set infos inside
      have rest := @induction (allocator.release id) fun other member => by
        have bounds := counted other (List.mem_cons_of_mem _ member)
        rw [counts]
        by_cases same : other = id
        · subst same
          simp only [if_true]
          omega
        · rw [if_neg same]
          rw [List.count_cons_of_ne (Ne.symm same)] at bounds
          exact bounds
      rw [KVCacheManager.releaseAll, List.foldl_cons, ← KVCacheManager.releaseAll, rest, released]
      congr 1
      apply List.ext_getElem?
      intro other
      simp only [List.getElem?_mapIdx, List.getElem?_set]
      by_cases same : id = other
      · subst same
        simp only [inside, if_true, found, Option.map_some, Option.some.injEq, releasedInfo,
          List.mem_cons_self, List.count_cons_self]
        split
        · have twice : info.refCount - 1 - ids.count id = info.refCount - (ids.count id + 1) := by
            omega
          have shared : info.refCount - 1 ≠ 1 := by
            rename_i again
            have := List.count_pos_iff.mpr again
            omega
          simp only [twice, shared, if_false]
        · rename_i absent
          simp [List.count_eq_zero.mpr absent]
      · have reversed : ¬ other = id := fun equal => same equal.symm
        rw [if_neg same]
        cases allocator.infos[other]? with
        | none => rfl
        | some kept =>
            simp only [Option.map_some, releasedInfo, List.mem_cons, reversed, false_or,
              List.count_cons_of_ne same]

/-- References that were taken on referenced frames and given back leave the pool as it was. -/
theorem releaseAll_retainAll {allocator : MemoryAllocator} (labels : allocator.Labels)
    {ids : List PhysicalBlockId} (counted : ∀ id ∈ ids, 0 < allocator.refCount id ∧
      allocator.refCount id + ids.count id < 2 ^ 32) :
    KVCacheManager.releaseAll (KVCacheManager.retainAll allocator ids) ids = allocator := by
  rw [retainAll_eq counted, releaseAll_eq]
  · have same : (allocator.infos.mapIdx (retainedInfo ids)).mapIdx (releasedInfo ids) =
        allocator.infos := by
      apply List.ext_getElem?
      intro id
      simp only [List.getElem?_mapIdx, Option.map_map]
      cases found : allocator.infos[id]? with
      | none => rfl
      | some info =>
          obtain ⟨-, single, several⟩ := labels id info found
          simp only [Option.map_some, Function.comp_apply, Option.some.injEq, retainedInfo,
            releasedInfo]
          by_cases member : id ∈ ids
          · have positive := (counted id member).1
            rw [refCount_eq_of_info found] at positive
            simp only [member, if_true, Nat.add_sub_cancel]
            by_cases one : info.refCount = 1
            · simp only [one, if_true, ← single one]
              rw [← one]
            · rw [if_neg one, ← several (by omega)]
          · simp only [member, if_false]
    simp only [same]
  · intro id member
    obtain ⟨positive, -⟩ := counted id member
    rw [MemoryAllocator.refCount] at positive ⊢
    cases found : allocator.infos[id]? with
    | none => simp [found] at positive
    | some info =>
        simp only [found, Option.map_some, Option.getD_some] at positive
        simp only [List.getElem?_mapIdx, found, Option.map_some, Option.getD_some, retainedInfo,
          member, if_true]
        omega

end MemoryAllocator

namespace KVCacheManager

/-! ## Taking a new sequence back -/

/-- The same pool, with its bytes, counts, states, generations and free list, and the same
sequences, request index and prefix records. -/
structure Unchanged (before after : KVCacheManager) : Prop where
  allocator : after.allocator = before.allocator
  sequences : ∀ id, after.sequences.lookup id = before.sequences.lookup id
  index : ∀ requestId, after.sequencesByRequest.lookup requestId =
    before.sequencesByRequest.lookup requestId
  records : ∀ key, after.prefixIndex.lookup key = before.prefixIndex.lookup key

theorem Unchanged.refl (manager : KVCacheManager) : Unchanged manager manager :=
  ⟨rfl, fun _ => rfl, fun _ => rfl, fun _ => rfl⟩

/-- A new sequence, alone under its request. -/
structure OpenedFor (before after : KVCacheManager) (metadata : SequenceMetadata)
    (state : SequenceState) : Prop where
  absent : before.sequences.lookup metadata.sequenceId = none
  idle : before.sequencesByRequest.lookup metadata.requestId = none
  sequences : after.sequences = before.sequences.insert metadata.sequenceId state
  index : after.sequencesByRequest =
    before.sequencesByRequest.insert metadata.requestId [metadata.sequenceId]
  metadata : state.metadata = metadata

theorem unindexSequence_last {manager : KVCacheManager} {owner : RequestId}
    {sequenceId : SequenceId}
    (listed : manager.sequencesByRequest.lookup owner = some [sequenceId]) :
    (manager.unindexSequence owner sequenceId).sequencesByRequest =
      manager.sequencesByRequest.erase owner := by
  simp [unindexSequence, listed]

/-- Releasing the request of a new sequence forgets it, once its records and frames are given
back. -/
theorem OpenedFor.release {before after : KVCacheManager} {metadata : SequenceMetadata}
    {state : SequenceState} (opened : OpenedFor before after metadata state)
    (records : ∀ key, (after.dropPrefixUser state).1.prefixIndex.lookup key =
      before.prefixIndex.lookup key)
    (allocator : (state.tables.flatMap (·.entries)).foldl releaseEntry
      (after.dropPrefixUser state).1.allocator = before.allocator) :
    Unchanged before (after.releaseRequest metadata.requestId) := by
  have listed : after.sequencesFor metadata.requestId = [metadata.sequenceId] := by
    rw [sequencesFor, opened.index, AList.lookup_insert]
    rfl
  have found := AList.lookup_inserted_self opened.sequences
  have index : (after.dropPrefixUser state).1.sequencesByRequest =
      before.sequencesByRequest.insert metadata.requestId [metadata.sequenceId] :=
    (sequencesByRequest_dropPrefixUser after state).trans opened.index
  have sequences := sequences_releaseSequence after metadata.sequenceId
  rw [releaseRequest_root listed]
  refine ⟨?_, fun id => ?_, fun requestId => ?_, fun key => ?_⟩
  · simp only [releaseSequence, found, unindexSequence_allocator]
    exact allocator
  · rw [sequences, opened.sequences]
    by_cases same : id = metadata.sequenceId
    · rw [same, AList.lookup_erase, opened.absent]
    · rw [AList.lookup_erase_ne same, AList.lookup_insert_ne same]
  · simp only [releaseSequence, found]
    rw [opened.metadata, unindexSequence_last (by rw [index, AList.lookup_insert]), index]
    by_cases same : requestId = metadata.requestId
    · rw [same, AList.lookup_erase, opened.idle]
    · rw [AList.lookup_erase_ne same, AList.lookup_insert_ne same]
  · simp only [releaseSequence, found, unindexSequence_prefixIndex]
    exact records key

theorem openedFor_createSequence {manager opened : KVCacheManager} {metadata : SequenceMetadata}
    (idle : manager.sequencesByRequest.lookup metadata.requestId = none)
    (created : manager.createSequence metadata = (true, opened)) :
    OpenedFor manager opened metadata (initialState manager.tableCount metadata) ∧
      opened.allocator = manager.allocator ∧ opened.prefixIndex = manager.prefixIndex := by
  unfold createSequence at created
  split at created
  · simp at created
  · rename_i missing
    obtain ⟨-, rfl⟩ := Prod.mk.inj created
    refine ⟨⟨by simpa using missing, idle, rfl, ?_, rfl⟩, rfl, rfl⟩
    simp only [indexSequence, idle]
    rfl

theorem Unchanged.of_created {manager opened : KVCacheManager} {metadata : SequenceMetadata}
    (idle : manager.sequencesByRequest.lookup metadata.requestId = none)
    (created : manager.createSequence metadata = (true, opened)) :
    Unchanged manager (opened.releaseRequest metadata.requestId) := by
  obtain ⟨fresh, allocator, records⟩ := openedFor_createSequence idle created
  have nothing := List.flatMap_eq_nil_iff.mpr (initialState_empty manager.tableCount metadata)
  refine fresh.release (fun key => ?_) ?_
  · simp [dropPrefixUser, initialState, records]
  · rw [nothing]
    simp [dropPrefixUser, initialState, allocator]

theorem foldl_releaseEntry_resident {entries : List BlockTableEntry}
    (resident : ∀ entry ∈ entries, entry.swapSlot = none) (allocator : MemoryAllocator) :
    entries.foldl releaseEntry allocator = releaseAll allocator (entries.map (·.physicalId)) := by
  induction entries generalizing allocator with
  | nil => rfl
  | cons entry entries induction =>
      have head : releaseEntry allocator entry = allocator.release entry.physicalId := by
        rw [releaseEntry, resident entry List.mem_cons_self]
      rw [List.foldl_cons, head, induction fun other member =>
        resident other (List.mem_cons_of_mem _ member)]
      rfl

theorem entries_extendAll_empty {tables : List BlockTable} {added : List (List BlockTableEntry)}
    (lengths : added.length = tables.length) (empty : ∀ table ∈ tables, table.entries = []) :
    (extendAll tables added).flatMap (·.entries) = added.flatten := by
  induction tables generalizing added with
  | nil => simp_all
  | cons table tables induction =>
      cases added with
      | nil => simp at lengths
      | cons entries added =>
          have rest := induction (by simpa using lengths)
            fun other member => empty other (List.mem_cons_of_mem _ member)
          simp [BlockTable.extend, empty table List.mem_cons_self, rest]

/-- The counters of a record that one more use and its end pass through. -/
structure RecordInRange (allocator : MemoryAllocator) (record : PrefixRecord) : Prop where
  blocks : record.physicalIds.length < 2 ^ 32
  used : 0 < record.users
  users : record.users + 1 < 2 ^ 32
  references : ∀ id ∈ record.physicalIds, 0 < allocator.refCount id ∧
    allocator.refCount id + record.physicalIds.count id < 2 ^ 32

theorem dropPrefixUser_single {manager : KVCacheManager} {state : SequenceState}
    {record : PrefixRecord} (keyed : state.prefixKey ≠ "")
    (single : manager.prefixIndex.lookup state.prefixKey = some [record])
    (named : record.contentHash = state.prefixHash) (more : 0 < record.users - 1) :
    (manager.dropPrefixUser state).1 =
      { manager with
        prefixIndex := manager.prefixIndex.insert state.prefixKey
          [{ record with users := record.users - 1 }] } := by
  simp [dropPrefixUser, keyed, single, named, more]

/-- A prefix attached to a new sequence: as many tables as before, and everything is taken back
with the request. -/
theorem attachPrefix_opened {manager opened : KVCacheManager} {metadata : SequenceMetadata}
    (labels : manager.allocator.Labels)
    (idle : manager.sequencesByRequest.lookup metadata.requestId = none)
    (created : manager.createSequence metadata = (true, opened)) (key : String)
    (inRange : ∀ record, manager.prefixIndex.lookup key = some [record] →
      RecordInRange manager.allocator record) :
    let joined := (opened.attachPrefix metadata.sequenceId key).2
    Unchanged manager (joined.releaseRequest metadata.requestId) ∧
      joined.allocator.blocks = manager.allocator.blocks ∧
      ∃ state, joined.sequences.lookup metadata.sequenceId = some state ∧
        state.tables.length = manager.tableCount := by
  have restored := Unchanged.of_created idle created
  obtain ⟨fresh, allocator, records⟩ := openedFor_createSequence idle created
  have found := AList.lookup_inserted_self fresh.sequences
  have empty := initialState_empty manager.tableCount metadata
  have width : (initialState manager.tableCount metadata).tables.length = manager.tableCount :=
    List.length_replicate
  have unattached : Unchanged manager (opened.releaseRequest metadata.requestId) ∧
      opened.allocator.blocks = manager.allocator.blocks ∧
      ∃ state, opened.sequences.lookup metadata.sequenceId = some state ∧
        state.tables.length = manager.tableCount :=
    ⟨restored, by rw [allocator], _, found, width⟩
  simp only [attachPrefix, found]
  split
  · exact unattached
  · rename_i keyed
    split
    · exact unattached
    · split
      · rename_i record single
        rw [records] at single
        have range := inRange record single
        split
        · exact unattached
        · split
          · exact unattached
          · rename_i divides
            have total : record.physicalIds.length =
                record.physicalIds.length / (initialState manager.tableCount metadata).tables.length *
                  (initialState manager.tableCount metadata).tables.length :=
              (Nat.div_mul_cancel (Nat.dvd_of_mod_eq_zero (not_not.mp divides))).symm
            have room : record.physicalIds.length /
                (initialState manager.tableCount metadata).tables.length ≤ 2 ^ 32 :=
              (Nat.div_le_self _ _).trans range.blocks.le
            obtain ⟨added, run_eq, attached⟩ := attachTables_spec metadata.sequenceId
              opened.tokensPerBlock _ record.physicalIds opened.allocator _ empty total room
            have entries := entries_extendAll_empty attached.lengths empty
            have users : wrap32 (record.users + 1) = record.users + 1 := wrap32_of_lt range.users
            have again : OpenedFor manager
                { opened with
                  allocator := retainAll opened.allocator record.physicalIds
                  sequences := opened.sequences.insert metadata.sequenceId
                    { initialState manager.tableCount metadata with
                      tables := extendAll (initialState manager.tableCount metadata).tables added
                      prefixKey := key
                      prefixHash := record.contentHash }
                  prefixIndex := opened.prefixIndex.insert key
                    [{ record with users := wrap32 (record.users + 1) }] } metadata
                { initialState manager.tableCount metadata with
                  tables := extendAll (initialState manager.tableCount metadata).tables added
                  prefixKey := key
                  prefixHash := record.contentHash } :=
              ⟨fresh.absent, fresh.idle, by rw [fresh.sequences, AList.insert_insert],
                fresh.index, rfl⟩
            simp only [run_eq]
            refine ⟨again.release (fun other => ?_) ?_, ?_, _, AList.lookup_insert _, ?_⟩
            · rw [dropPrefixUser_single keyed (AList.lookup_insert _) rfl (by simp [users, range.used])]
              simp only [users, Nat.add_sub_cancel, AList.insert_insert]
              by_cases same : other = key
              · rw [same, AList.lookup_insert, single]
              · rw [AList.lookup_insert_ne same, records]
            · rw [dropPrefixUser_single keyed (AList.lookup_insert _) rfl (by simp [users, range.used]),
                entries, foldl_releaseEntry_resident attached.resident, attached.physical, allocator]
              exact MemoryAllocator.releaseAll_retainAll labels range.references
            · rw [allocator, MemoryAllocator.retainAll_eq range.references]
            · simp [extendAll, attached.lengths, width]
      · exact unattached

theorem tokensPerBlock_of_blocks {before after : KVCacheManager}
    (blocks : after.allocator.blocks = before.allocator.blocks) :
    after.tokensPerBlock = before.tokensPerBlock := by
  simp only [tokensPerBlock, MemoryAllocator.block, blocks]

theorem ceilDiv_mono {few many size : ℕ} (le : few ≤ many) : ceilDiv few size ≤ ceilDiv many size :=
  Nat.div_le_div_right (by omega)

end KVCacheManager

namespace Scheduler

/-- No counter that the admission of a request passes through leaves 32 bits. -/
structure AdmissionInRange (cache : KVCacheManager) (candidate : Request) : Prop where
  prompt : candidate.promptTokens + cache.tokensPerBlock - 1 < 2 ^ 32
  blocks : ceilDiv candidate.promptTokens cache.tokensPerBlock * cache.tableCount < 2 ^ 32
  record : ∀ record, cache.prefixIndex.lookup candidate.prefixKey = some [record] →
    KVCacheManager.RecordInRange cache.allocator record

/-- Releasing the request after its prefix was attached, if it was, restores the cache. -/
theorem attachedRoot_restores {cache opened : KVCacheManager} {candidate : Request}
    (labels : cache.allocator.Labels)
    (idle : cache.sequencesByRequest.lookup candidate.requestId = none)
    (created : cache.createSequence candidate.metadata = (true, opened))
    (inRange : ∀ record, cache.prefixIndex.lookup candidate.prefixKey = some [record] →
      KVCacheManager.RecordInRange cache.allocator record) :
    let joined := (if 0 < cachedTokens opened candidate ∧
        cachedTokens opened candidate ≤ candidate.promptTokens then
          opened.attachPrefix candidate.rootSequenceId candidate.prefixKey
        else (0, opened)).2
    KVCacheManager.Unchanged cache (joined.releaseRequest candidate.requestId) ∧
      joined.allocator.blocks = cache.allocator.blocks ∧
      ∃ state, joined.sequences.lookup candidate.rootSequenceId = some state ∧
        state.tables.length = cache.tableCount := by
  intro joined
  have idle' : cache.sequencesByRequest.lookup candidate.metadata.requestId = none := idle
  obtain ⟨fresh, allocator, -⟩ := KVCacheManager.openedFor_createSequence idle' created
  by_cases usable : 0 < cachedTokens opened candidate ∧
      cachedTokens opened candidate ≤ candidate.promptTokens
  · simp only [joined, if_pos usable]
    exact KVCacheManager.attachPrefix_opened labels idle' created candidate.prefixKey inRange
  · simp only [joined, if_neg usable]
    exact ⟨KVCacheManager.Unchanged.of_created idle' created, by rw [allocator], _,
      AList.lookup_inserted_self fresh.sequences, List.length_replicate⟩

/-- A root that cannot be opened leaves the cache as it was. -/
theorem openRoot_refused {cache after : KVCacheManager} {candidate : Request}
    (labels : cache.allocator.Labels)
    (idle : cache.sequencesByRequest.lookup candidate.requestId = none)
    (inRange : AdmissionInRange cache candidate)
    (refused : openRoot cache candidate = (false, after)) :
    KVCacheManager.Unchanged cache after := by
  rcases created : cache.createSequence candidate.metadata with ⟨_ | _, opened⟩
  · have same : opened = cache := by
      simp only [KVCacheManager.createSequence] at created
      split at created
      · exact (Prod.mk.inj created).2.symm
      · simp at created
    simp only [openRoot, created, Prod.mk.injEq, true_and] at refused
    rw [← refused, same]
    exact .refl cache
  · simp only [openRoot, created] at refused
    have joins := attachedRoot_restores labels idle created inRange.record
    generalize (if 0 < cachedTokens opened candidate ∧
      cachedTokens opened candidate ≤ candidate.promptTokens then
        opened.attachPrefix candidate.rootSequenceId candidate.prefixKey
      else (0, opened)) = result at refused joins
    obtain ⟨attached, joined⟩ := result
    obtain ⟨restored, blocks, state, found, width⟩ := joins
    simp only at refused restored blocks found
    have block_size := KVCacheManager.tokensPerBlock_of_blocks blocks
    have small : KVCacheManager.blocksNeeded (candidate.promptTokens - attached)
        joined.tokensPerBlock * state.tables.length < 2 ^ 32 := by
      have prompt := inRange.prompt
      rw [block_size, width, KVCacheManager.blocksNeeded_of_lt (by omega)]
      exact (Nat.mul_le_mul_right _ (KVCacheManager.ceilDiv_mono (Nat.sub_le _ _))).trans_lt
        inRange.blocks
    by_cases rest : 0 < candidate.promptTokens - attached
    · rw [if_pos rest] at refused
      have unchanged := KVCacheManager.reserveTokens_refused found small
      rcases reserved : joined.reserveTokens candidate.rootSequenceId
        (candidate.promptTokens - attached) with ⟨_ | _, grown⟩
      · simp only [reserved] at refused unchanged
        rw [unchanged trivial] at refused
        rw [← (Prod.mk.inj refused).2]
        exact restored
      · have positive : candidate.promptTokens - attached ≠ 0 := rest.ne'
        simp [reserved, positive] at refused
    · rw [if_neg rest] at refused
      have nothing : ¬ (0 < candidate.promptTokens ∧ attached = 0 ∧
          candidate.promptTokens - attached = 0) := by omega
      simp [nothing] at refused


/-- A candidate that is refused without a watermark, and whose request has no sequence yet. -/
theorem tryAdmit_refused {scheduler after : Scheduler} {candidate : Request} {plan : BatchPlan}
    {admittedThisStep : ℕ} (labels : scheduler.cache.allocator.Labels)
    (watermark : scheduler.config.preemptionWatermarkBlocks = 0)
    (idle : scheduler.cache.sequencesByRequest.lookup candidate.requestId = none)
    (inRange : AdmissionInRange scheduler.cache candidate)
    (refused : scheduler.tryAdmit candidate plan admittedThisStep = (none, after)) :
    after = { scheduler with cache := after.cache } ∧
      KVCacheManager.Unchanged scheduler.cache after.cache := by
  have unchanged : scheduler = { scheduler with cache := scheduler.cache } ∧
      KVCacheManager.Unchanged scheduler.cache scheduler.cache := ⟨rfl, .refl _⟩
  simp only [tryAdmit, reclaimForAdmission, watermark, if_true] at refused
  split at refused
  · exact (Prod.mk.inj refused).2 ▸ unchanged
  · split at refused
    · exact (Prod.mk.inj refused).2 ▸ unchanged
    · split at refused
      · exact (Prod.mk.inj refused).2 ▸ unchanged
      · split at refused
        · rename_i cache opened
          rw [← (Prod.mk.inj refused).2]
          exact ⟨rfl, openRoot_refused labels idle inRange opened⟩
        · simp at refused

/-- In every reachable state without a watermark and at every point of its admission loop, a
refused candidate whose request has no sequence yet leaves the cache, the pool and the scheduler as
they were, as long as no counter leaves 32 bits. -/
theorem refused_admission_leaves_no_trace (config : SchedulerConfig) (pool : AllocatorConfig)
    (slab : ℕ → UInt8) (swapSlots : Option ℕ) (ops : List SchedulerOp) (before after : Scheduler)
    (plan : BatchPlan) (candidate : Request) (admittedThisStep : ℕ)
    (reached : AdmissionSteps ((create config (.overPool pool slab swapSlots)).run ops, .empty)
      (before, plan))
    (watermark : before.config.preemptionWatermarkBlocks = 0)
    (distinct : ∀ id state, before.cache.sequences.lookup id = some state →
      state.metadata.requestId ≠ candidate.requestId)
    (inRange : AdmissionInRange before.cache candidate)
    (refused : before.tryAdmit candidate plan admittedThisStep = (none, after)) :
    after = { before with cache := after.cache } ∧
      KVCacheManager.Unchanged before.cache after.cache := by
  have each (cache : KVCacheManager) (op : CacheOp)
      (holds : cache.allocator.Labels ∧ cache.Listed ∧ cache.Populated) :
      (cache.step op).allocator.Labels ∧ (cache.step op).Listed ∧ (cache.step op).Populated :=
    ⟨KVCacheManager.stable_step MemoryAllocator.stable_labels holds.1 op,
      KVCacheManager.listed_step holds.2.1 op, KVCacheManager.populated_step holds.2.2 op⟩
  have start : (KVCacheManager.overPool pool slab swapSlots).allocator.Labels ∧
      (KVCacheManager.overPool pool slab swapSlots).Listed ∧
      (KVCacheManager.overPool pool slab swapSlots).Populated :=
    ⟨MemoryAllocator.labels_create _ _ _, KVCacheManager.listed_create _,
      fun requestId ids found => by simp [KVCacheManager.overPool, KVCacheManager.create] at found⟩
  obtain ⟨labels, listed, populated⟩ : before.cache.allocator.Labels ∧ before.cache.Listed ∧
      before.cache.Populated := by
    have along (state : Scheduler × BatchPlan) (steps : AdmissionSteps
        ((create config (.overPool pool slab swapSlots)).run ops, .empty) state) :
        state.1.cache.allocator.Labels ∧ state.1.cache.Listed ∧ state.1.cache.Populated := by
      induction steps with
      | refl => exact cache_run each start ops
      | tail _ last induction => exact cache_action (fun cache op _ => each cache op) last induction
    exact along _ reached
  have idle : before.cache.sequencesFor candidate.requestId = [] := by
    apply List.eq_nil_iff_forall_not_mem.mpr
    intro id member
    obtain ⟨state, found, owner⟩ := (listed.members _ id).mp member
    exact distinct id state found owner
  exact tryAdmit_refused labels watermark (populated.lookup_none idle) inRange refused


/-- A prompt of five tokens, three of them published, over a pool with one free frame. -/
theorem refused_admission_leaves_no_trace_small :
    let before := (create plainConfig (.overPool fourFrames (fun _ => 0) none)).run
      [.cache (.createSequence ⟨9, 9⟩), .cache (.reserveTokens 9 3),
        .cache (.publishPrefix 9 "key"),
        .enqueue { Request.ofTokens 1 5 0 with prefixKey := "key" }]
    let candidate := { Request.ofTokens 1 5 0 with prefixKey := "key" }.enqueued
    (before.tryAdmit candidate .empty 0).1 = none ∧
      KVCacheManager.Unchanged before.cache (before.tryAdmit candidate .empty 0).2.cache := by
  intro before candidate
  have refused : (before.tryAdmit candidate .empty 0).1 = none := by decide +kernel
  have owners : ∀ entry ∈ before.cache.sequences.entries, entry.2.metadata.requestId ≠ 1 := by
    decide +kernel
  have records : ∀ records ∈ before.cache.prefixIndex.lookup "key", ∀ record ∈ records,
      record.physicalIds.length < 2 ^ 32 ∧ 0 < record.users ∧ record.users + 1 < 2 ^ 32 ∧
        ∀ id ∈ record.physicalIds, 0 < before.cache.allocator.refCount id ∧
          before.cache.allocator.refCount id + record.physicalIds.count id < 2 ^ 32 := by
    decide +kernel
  refine ⟨refused, (refused_admission_leaves_no_trace plainConfig fourFrames (fun _ => 0) none
    [.cache (.createSequence ⟨9, 9⟩), .cache (.reserveTokens 9 3),
      .cache (.publishPrefix 9 "key"),
      .enqueue { Request.ofTokens 1 5 0 with prefixKey := "key" }]
    before _ .empty candidate 0 .refl rfl ?_ ?_ (Prod.ext refused rfl)).2⟩
  · intro id state found
    exact owners ⟨id, state⟩ (AList.mem_lookup_iff.mp found)
  · refine ⟨by decide +kernel, by decide +kernel, fun record single => ?_⟩
    obtain ⟨blocks, used, users, references⟩ := records [record] single record (by simp)
    exact ⟨blocks, used, users, references⟩

/-! ## The last reference

A frame that already has `2 ^ 32 - 1` references loses them all to one refused admission: the count
wraps to zero when the prefix is attached, and a frame without references is not released. -/

/-- Sequence 1 fills the only frame and publishes it. -/
def publishing : List CacheOp :=
  [.createSequence ⟨1, 1⟩, .reserveTokens 1 1, .publishPrefix 1 "key"]

def published : KVCacheManager :=
  (KVCacheManager.overPool KVCacheManager.singleConfig (fun _ => 0) none).run publishing

/-- The published sequence has so many branches. -/
structure Branched (count : ℕ) (manager : KVCacheManager) : Prop where
  blocks : manager.allocator.blocks = published.allocator.blocks
  infos : manager.allocator.infos = [⟨0, .shared, count + 2, 0⟩]
  full : manager.allocator.freeList = []
  records : manager.prefixIndex = published.prefixIndex
  parent : manager.sequences.lookup 1 = published.sequences.lookup 1
  unused : ∀ id, id = 2 ∨ count + 3 ≤ id → manager.sequences.lookup id = none
  owner : ∀ id state, manager.sequences.lookup id = some state → state.metadata.requestId = 1
  idle : manager.sequencesByRequest.lookup 2 = none

theorem branched_published : Branched 0 published := by
  have ids : published.sequences.keys = [1] := by decide +kernel
  have owners : ∀ entry ∈ published.sequences.entries, entry.2.metadata.requestId = 1 := by
    decide +kernel
  refine ⟨rfl, by decide +kernel, by decide +kernel, rfl, rfl, fun id away => ?_,
    fun id state found => owners ⟨id, state⟩ (AList.mem_lookup_iff.mp found), by decide +kernel⟩
  rw [AList.lookup_eq_none, AList.mem_keys, ids, List.mem_singleton]
  omega

theorem published_sequence : ∃ parent, published.sequences.lookup 1 = some parent ∧
    KVCacheManager.anySwapped parent.tables = false ∧
    KVCacheManager.physicalIdsOf parent.tables = [0] := by
  have facts : (published.sequences.lookup 1).map (fun parent =>
      (KVCacheManager.anySwapped parent.tables, KVCacheManager.physicalIdsOf parent.tables)) =
      some (false, [0]) := by decide +kernel
  obtain ⟨parent, found, equal⟩ := Option.map_eq_some_iff.mp facts
  obtain ⟨resident, frames⟩ := Prod.mk.inj equal
  exact ⟨parent, found, resident, frames⟩

theorem physicalIdsOf_fork (tables : List BlockTable) (child : SequenceId) :
    KVCacheManager.physicalIdsOf (tables.map fun table => table.fork child) =
      KVCacheManager.physicalIdsOf tables := by
  simp [KVCacheManager.physicalIdsOf, List.flatMap_map, BlockTable.fork, Function.comp_def]

theorem Branched.fork {count : ℕ} {manager : KVCacheManager} (branched : Branched count manager)
    (small : count + 3 < 2 ^ 32) :
    Branched (count + 1) (manager.step (.forkSequence 1 ⟨count + 3, 1⟩)) := by
  obtain ⟨parent, found, resident, frames⟩ := published_sequence
  have absent := branched.unused (count + 3) (Or.inr le_rfl)
  have lookup := branched.parent.trans found
  have retained : KVCacheManager.retainAll manager.allocator (KVCacheManager.physicalIdsOf
      (parent.tables.map fun table => table.fork (count + 3))) =
      { manager.allocator with infos := [⟨0, .shared, count + 3, 0⟩] } := by
    rw [physicalIdsOf_fork, frames]
    simp [KVCacheManager.retainAll, MemoryAllocator.retain, branched.infos, wrap32_of_lt small]
  simp only [KVCacheManager.step, KVCacheManager.forkSequence, lookup, absent, resident,
    Option.isSome_none, Bool.false_eq_true, if_false, retained]
  refine ⟨branched.blocks, rfl, branched.full, branched.records, ?_, fun id away => ?_,
    fun id state member => ?_, (AList.lookup_insert_ne (by decide)).trans branched.idle⟩
  · have away : (1 : ℕ) ≠ count + 3 := by omega
    exact (AList.lookup_insert_ne away).trans branched.parent
  · exact (AList.lookup_insert_ne (by omega)).trans (branched.unused id (by omega))
  · by_cases same : id = count + 3
    · subst same
      rw [← Option.some.inj ((AList.lookup_insert _).symm.trans member)]
    · exact branched.owner id state ((AList.lookup_insert_ne same).symm.trans member)

/-- The calls that open so many branches. -/
def branches (count : ℕ) : List CacheOp :=
  (List.range count).map fun index => .forkSequence 1 ⟨index + 3, 1⟩

theorem branched_run {count : ℕ} (small : count + 2 < 2 ^ 32) :
    Branched count (published.run (branches count)) := by
  induction count with
  | zero => exact branched_published
  | succ count induction =>
      rw [branches, List.range_succ, List.map_append, KVCacheManager.run, Execution.run_append]
      exact (induction (by omega)).fork (by omega)


/-- A candidate with one token more than the published prefix. -/
def longerPrompt : Request := { Request.ofTokens 2 2 0 with prefixKey := "key" }.enqueued

theorem published_record : ∃ record, published.prefixIndex.lookup "key" = some [record] ∧
    record.tokenCount = 1 ∧ record.users = 1 ∧ record.physicalIds = [0] := by
  have facts : (published.prefixIndex.lookup "key").map (fun records =>
      records.map fun record => (record.tokenCount, record.users, record.physicalIds)) =
      some [(1, 1, [0])] := by decide +kernel
  obtain ⟨records, found, listed⟩ := Option.map_eq_some_iff.mp facts
  obtain ⟨record, rfl, equal⟩ := List.map_eq_singleton_iff.mp listed
  simp only [Prod.mk.injEq] at equal
  exact ⟨record, found, equal⟩

theorem Branched.tokensPerBlock {count : ℕ} {manager : KVCacheManager}
    (branched : Branched count manager) : manager.tokensPerBlock = 1 := by
  rw [KVCacheManager.tokensPerBlock_of_blocks branched.blocks]
  decide +kernel

theorem Branched.tableCount {count : ℕ} {manager : KVCacheManager}
    (branched : Branched count manager) : manager.tableCount = 1 := by
  have same : manager.tableCount = published.tableCount := by
    simp only [KVCacheManager.tableCount, KVCacheManager.poolShape, MemoryAllocator.block,
      branched.blocks]
    rfl
  rw [same]
  decide +kernel

/-- The root of the candidate with the published frame, whose count has wrapped. -/
def wrappedRoot (opened : KVCacheManager) (record : PrefixRecord) : KVCacheManager :=
  { opened with
    allocator := { opened.allocator with infos := [⟨0, .shared, 0, 0⟩] }
    sequences := opened.sequences.insert 2
      ⟨⟨2, 2⟩, [⟨2, .textKV, [⟨⟨2, 0, .textKV, 0, 1⟩, 0, false, none⟩]⟩], "key",
        record.contentHash⟩
    prefixIndex := opened.prefixIndex.insert "key" [{ record with users := 2 }] }

theorem Branched.attach {count : ℕ} {manager opened : KVCacheManager}
    (branched : Branched count manager) (wraps : wrap32 (count + 3) = 0)
    (created : manager.createSequence longerPrompt.metadata = (true, opened)) :
    cachedTokens opened longerPrompt = 1 ∧ opened.sequencesFor 2 = [2] ∧
      opened.allocator.freeList = [] ∧ opened.tokensPerBlock = 1 ∧
      ∃ record, opened.attachPrefix longerPrompt.rootSequenceId longerPrompt.prefixKey =
        (1, wrappedRoot opened record) := by
  obtain ⟨record, found, tokens, users, frames⟩ := published_record
  have idle : manager.sequencesByRequest.lookup longerPrompt.metadata.requestId = none :=
    branched.idle
  obtain ⟨fresh, allocator, records⟩ := KVCacheManager.openedFor_createSequence idle created
  have lookup : opened.prefixIndex.lookup "key" = some [record] := by
    rw [records, branched.records, found]
  have root : opened.sequences.lookup 2 =
      some (KVCacheManager.initialState manager.tableCount ⟨2, 2⟩) :=
    AList.lookup_inserted_self fresh.sequences
  have size : opened.tokensPerBlock = 1 := by
    rw [KVCacheManager.tokensPerBlock_of_blocks (congrArg _ allocator), branched.tokensPerBlock]
  refine ⟨?_, ?_, by rw [allocator, branched.full], size, record, ?_⟩
  · simp [cachedTokens, longerPrompt, Request.enqueued, KVCacheManager.prefixTokenCount, lookup,
      tokens]
  · rw [KVCacheManager.sequencesFor, fresh.index]
    rfl
  · simp only [longerPrompt, Request.enqueued, Request.ofTokens]
    simp [KVCacheManager.attachPrefix, root, KVCacheManager.initialState, branched.tableCount,
      SequenceState.textTable, lookup, size, frames, KVCacheManager.attachTables,
      KVCacheManager.attachBlocks, BlockTable.create, BlockTable.map, allocator,
      MemoryAllocator.retain, branched.infos, tokens, users, wrap32, wrappedRoot]
    exact ⟨wraps, rfl⟩

/-- The refused candidate takes the frame's references along when the count wraps. -/
theorem Branched.openRoot {count : ℕ} {manager : KVCacheManager}
    (branched : Branched count manager) (wraps : wrap32 (count + 3) = 0) :
    (Scheduler.openRoot manager longerPrompt).1 = false ∧
      (Scheduler.openRoot manager longerPrompt).2.allocator.infos = [⟨0, .shared, 0, 0⟩] := by
  rcases created : manager.createSequence longerPrompt.metadata with ⟨_ | _, opened⟩
  · have missing : manager.sequences.lookup longerPrompt.metadata.sequenceId = none :=
      branched.unused 2 (Or.inl rfl)
    simp [KVCacheManager.createSequence, missing] at created
  · obtain ⟨cached, listed, full, size, record, attached⟩ := branched.attach wraps created
    have refused : (wrappedRoot opened record).reserveTokens 2 1 =
        (false, wrappedRoot opened record) := by
      have root := AList.lookup_inserted_self
        (show (wrappedRoot opened record).sequences = opened.sequences.insert 2 _ from rfl)
      have again : (wrappedRoot opened record).tokensPerBlock = 1 := size
      have empty : (wrappedRoot opened record).allocator.freeList = [] := full
      simp [KVCacheManager.reserveTokens, root, again, KVCacheManager.blocksNeeded, wrap32,
        MemoryAllocator.canAllocate, empty]
    have released : ((wrappedRoot opened record).releaseRequest 2).allocator.infos =
        [⟨0, .shared, 0, 0⟩] := by
      have owner : (wrappedRoot opened record).sequencesFor 2 = [2] := listed
      rw [KVCacheManager.releaseRequest_root owner]
      simp [KVCacheManager.releaseSequence, wrappedRoot, KVCacheManager.dropPrefixUser,
        KVCacheManager.releaseEntry, MemoryAllocator.release]
    have prompt : longerPrompt.promptTokens = 2 := rfl
    have named : longerPrompt.requestId = 2 := rfl
    have rooted : longerPrompt.rootSequenceId = 2 := rfl
    simp only [rooted] at attached
    have result : Scheduler.openRoot manager longerPrompt =
        (false, (wrappedRoot opened record).releaseRequest 2) := by
      simp [Scheduler.openRoot, created, cached, prompt, named, rooted, attached, refused]
    rw [result]
    exact ⟨rfl, released⟩

theorem Branched.tryAdmit {count : ℕ} {scheduler : Scheduler}
    (branched : Branched count scheduler.cache) (wraps : wrap32 (count + 3) = 0)
    (config : scheduler.config = plainConfig) (held : scheduler.lifetimeHeld = 0) :
    (scheduler.tryAdmit longerPrompt .empty 0).1 = none ∧
      (scheduler.tryAdmit longerPrompt .empty 0).2.cache.allocator.infos =
        [⟨0, .shared, 0, 0⟩] := by
  have needed : lifetimeBlocksFor scheduler.cache longerPrompt = 1 := by
    have same := lifetimeBlocksFor_congr branched.records
      (by rw [MemoryAllocator.block, MemoryAllocator.block, branched.blocks]) longerPrompt
    rw [same]
    decide +kernel
  have total : scheduler.totalBlocks = 1 := congrArg List.length branched.infos
  obtain ⟨refused, infos⟩ := branched.openRoot wraps
  rcases opened : Scheduler.openRoot scheduler.cache longerPrompt with ⟨_ | _, cache⟩
  · rw [opened] at infos
    have result : scheduler.tryAdmit longerPrompt .empty 0 =
        (none, { scheduler with cache }) := by
      simp [Scheduler.tryAdmit, reclaimForAdmission, config, plainConfig, BatchPlan.empty, needed,
        total, held, wrap32, opened]
    rw [result]
    exact ⟨rfl, infos⟩
  · simp [opened] at refused

theorem run_cache (scheduler : Scheduler) (ops : List CacheOp) :
    scheduler.run (ops.map .cache) = { scheduler with cache := scheduler.cache.run ops } := by
  induction ops generalizing scheduler with
  | nil => rfl
  | cons op ops induction => exact induction (scheduler.step (.cache op))

/-- Counters in range are needed: here neither the prompt nor its blocks wrap, and yet a refused
candidate leaves the published frame without references. -/
theorem refused_admission_drops_references :
    ∃ ops, let before := (create plainConfig
        (.overPool KVCacheManager.singleConfig (fun _ => 0) none)).run ops
      longerPrompt ∈ before.pending ∧
        (∀ id state, before.cache.sequences.lookup id = some state →
          id ≠ longerPrompt.rootSequenceId ∧
            state.metadata.requestId ≠ longerPrompt.requestId) ∧
        (before.tryAdmit longerPrompt .empty 0).1 = none ∧
        ¬ KVCacheManager.Unchanged before.cache
          (before.tryAdmit longerPrompt .empty 0).2.cache := by
  have small : 2 ^ 32 - 3 + 2 < 2 ^ 32 := by norm_num
  have wraps : wrap32 (2 ^ 32 - 3 + 3) = 0 := by simp [wrap32]
  have branched := branched_run small
  generalize 2 ^ 32 - 3 = count at branched wraps small
  let before : Scheduler :=
    { (create plainConfig (.overPool KVCacheManager.singleConfig (fun _ => 0) none)).enqueue
        longerPrompt with
      cache := published.run (branches count) }
  have run_eq : (create plainConfig
      (.overPool KVCacheManager.singleConfig (fun _ => 0) none)).run
        (.enqueue longerPrompt :: (publishing ++ branches count).map .cache) = before := by
    rw [run, Execution.run_cons, ← run, run_cache, KVCacheManager.run, Execution.run_append]
    rfl
  refine ⟨.enqueue longerPrompt :: (publishing ++ branches count).map .cache, ?_⟩
  rw [run_eq]
  have shared : Branched count before.cache := branched
  obtain ⟨refused, infos⟩ := shared.tryAdmit wraps rfl rfl
  refine ⟨List.mem_singleton.mpr rfl, fun id state found => ⟨?_, ?_⟩, refused,
    fun unchanged => ?_⟩
  · rintro rfl
    have absent : before.cache.sequences.lookup longerPrompt.rootSequenceId = none :=
      branched.unused 2 (Or.inl rfl)
    simp [absent] at found
  · rw [branched.owner id state found]
    decide
  · rw [unchanged.allocator] at infos
    have counts := branched.infos.symm.trans infos
    simp at counts

end Scheduler
end QwenVLPaged
