import QwenVLPaged.CacheRun

/-!
# The request index

`sequences_by_request_` names, for every request, its live sequences, each of them once. The calls
that neither open nor release a sequence leave the index and the metadata of all sequences alone.
-/

namespace QwenVLPaged

namespace KVCacheManager

/-! ## Calls that change the index -/

theorem sequencesFor_indexSequence (manager : KVCacheManager) (owner requestId : RequestId)
    (sequenceId : SequenceId) :
    (manager.indexSequence owner sequenceId).sequencesFor requestId =
      if requestId = owner then manager.sequencesFor requestId ++ [sequenceId]
      else manager.sequencesFor requestId := by
  by_cases same : requestId = owner
  · subst same
    simp [sequencesFor, indexSequence]
  · simp [sequencesFor, indexSequence, same, AList.lookup_insert_ne same]

theorem sequencesFor_createSequence {cache after : KVCacheManager} {metadata : SequenceMetadata}
    (created : cache.createSequence metadata = (true, after)) (requestId : RequestId) :
    after.sequencesFor requestId =
      if requestId = metadata.requestId then
        cache.sequencesFor requestId ++ [metadata.sequenceId]
      else
        cache.sequencesFor requestId := by
  unfold createSequence at created
  split at created
  · simp at created
  · obtain ⟨-, rfl⟩ := Prod.mk.inj created
    rw [sequencesFor_indexSequence]
    rfl

theorem sequencesFor_unindexSequence (cache : KVCacheManager) (owner requestId : RequestId)
    (sequenceId : SequenceId) :
    (cache.unindexSequence owner sequenceId).sequencesFor requestId =
      if requestId = owner then (cache.sequencesFor requestId).filter fun id => id != sequenceId
      else cache.sequencesFor requestId := by
  unfold unindexSequence
  by_cases same : requestId = owner
  · subst same
    cases found : cache.sequencesByRequest.lookup requestId with
    | none => simp [sequencesFor, found]
    | some ids =>
        simp only [if_true]
        split
        · rename_i nothing
          simp [sequencesFor, found, List.isEmpty_iff.mp nothing]
        · simp [sequencesFor, found]
  · rw [if_neg same]
    split
    · rfl
    · simp only
      split
      · simp [sequencesFor, AList.lookup_erase_ne same]
      · simp [sequencesFor, AList.lookup_insert_ne same]

theorem sequencesByRequest_dropPrefixUser (cache : KVCacheManager) (state : SequenceState) :
    (cache.dropPrefixUser state).1.sequencesByRequest = cache.sequencesByRequest := by
  simp only [dropPrefixUser]
  repeat' split
  all_goals rfl

theorem sequencesFor_releaseSequence {cache : KVCacheManager} {sequenceId : SequenceId}
    {state : SequenceState} (found : cache.sequences.lookup sequenceId = some state)
    (requestId : RequestId) :
    (cache.releaseSequence sequenceId).sequencesFor requestId =
      if requestId = state.metadata.requestId then
        (cache.sequencesFor requestId).filter fun id => id != sequenceId
      else
        cache.sequencesFor requestId := by
  simp only [releaseSequence, found]
  change (unindexSequence { (cache.dropPrefixUser state).1 with allocator := _ }
    state.metadata.requestId sequenceId).sequencesFor requestId = _
  rw [sequencesFor_unindexSequence]
  simp only [sequencesFor, sequencesByRequest_dropPrefixUser]

/-! ## Calls that keep the index -/

/-- The same live sequences under the same names. -/
structure Unlisted (before after : KVCacheManager) : Prop where
  index : after.sequencesByRequest = before.sequencesByRequest
  metadata : ∀ id, (after.sequences.lookup id).map (·.metadata) =
    (before.sequences.lookup id).map (·.metadata)

theorem Unlisted.refl (manager : KVCacheManager) : Unlisted manager manager :=
  ⟨rfl, fun _ => rfl⟩

theorem Unlisted.trans {first second third : KVCacheManager} (left : Unlisted first second)
    (right : Unlisted second third) : Unlisted first third :=
  ⟨right.index.trans left.index, fun id => (right.metadata id).trans (left.metadata id)⟩

theorem Unlisted.of_insert {before after : KVCacheManager} {id : SequenceId}
    {state state' : SequenceState} (found : before.sequences.lookup id = some state)
    (index : after.sequencesByRequest = before.sequencesByRequest)
    (sequences : after.sequences = before.sequences.insert id state')
    (metadata : state'.metadata = state.metadata) : Unlisted before after := by
  refine ⟨index, fun other => ?_⟩
  rw [AList.lookup_inserted sequences]
  split
  · rename_i same
    rw [same, found, Option.map_some, Option.map_some, metadata]
  · rfl

theorem unlisted_reserveTokens (cache : KVCacheManager) (sequenceId : SequenceId)
    (tokenCount : ℕ) : Unlisted cache (cache.reserveTokens sequenceId tokenCount).2 := by
  unfold reserveTokens
  cases found : cache.sequences.lookup sequenceId with
  | none => exact Unlisted.refl cache
  | some state =>
      simp only
      repeat' split
      all_goals first
        | exact Unlisted.refl cache
        | exact Unlisted.of_insert found rfl rfl rfl

theorem unlisted_ensureTokenWritable (cache : KVCacheManager) (sequenceId : SequenceId)
    (token layer : ℕ) : Unlisted cache (cache.ensureTokenWritable sequenceId token layer).2 := by
  unfold ensureTokenWritable
  cases found : cache.sequences.lookup sequenceId with
  | none => exact Unlisted.refl cache
  | some state =>
      simp only
      repeat' split
      all_goals first
        | exact Unlisted.refl cache
        | exact Unlisted.of_insert found rfl rfl rfl
        | exact ⟨rfl, fun _ => rfl⟩

theorem unlisted_writeToken (cache : KVCacheManager) (sequenceId : SequenceId)
    (token layer : ℕ) (stores : List TokenStore) :
    Unlisted cache (cache.writeToken sequenceId token layer stores).2 := by
  have ensured := unlisted_ensureTokenWritable cache sequenceId token layer
  unfold writeToken
  split
  · rename_i run_eq
    rwa [run_eq] at ensured
  · rename_i run_eq
    rw [run_eq] at ensured
    exact ⟨ensured.index, ensured.metadata⟩

theorem unlisted_swapOutSequence (cache : KVCacheManager) (sequenceId : SequenceId) :
    Unlisted cache (cache.swapOutSequence sequenceId).2 := by
  unfold swapOutSequence
  cases found : cache.sequences.lookup sequenceId with
  | none => exact Unlisted.refl cache
  | some state => exact Unlisted.of_insert found rfl rfl rfl

theorem unlisted_swapInSequence (cache : KVCacheManager) (sequenceId : SequenceId) :
    Unlisted cache (cache.swapInSequence sequenceId).2 := by
  unfold swapInSequence
  cases found : cache.sequences.lookup sequenceId with
  | none => exact Unlisted.refl cache
  | some state =>
      simp only
      repeat' split
      all_goals first
        | exact Unlisted.refl cache
        | exact Unlisted.of_insert found rfl rfl rfl

theorem unlisted_publishPrefix (cache : KVCacheManager) (sequenceId : SequenceId)
    (key : String) : Unlisted cache (cache.publishPrefix sequenceId key).2 := by
  simp only [publishPrefix]
  split
  · exact Unlisted.refl cache
  · cases found : cache.sequences.lookup sequenceId with
    | none => exact Unlisted.refl cache
    | some state =>
        simp only
        repeat' split
        all_goals first
          | exact Unlisted.refl cache
          | exact Unlisted.of_insert found rfl rfl rfl

theorem unlisted_attachPrefix (cache : KVCacheManager) (sequenceId : SequenceId)
    (key : String) : Unlisted cache (cache.attachPrefix sequenceId key).2 := by
  simp only [attachPrefix]
  split
  · exact Unlisted.refl cache
  · cases found : cache.sequences.lookup sequenceId with
    | none => exact Unlisted.refl cache
    | some state =>
        simp only
        repeat' split
        all_goals first
          | exact Unlisted.refl cache
          | exact Unlisted.of_insert found rfl rfl rfl

/-! ## The invariant -/

/-- The index lists the live sequences of every request, each of them once. -/
structure Listed (manager : KVCacheManager) : Prop where
  members : ∀ requestId id, id ∈ manager.sequencesFor requestId ↔
    ∃ state, manager.sequences.lookup id = some state ∧ state.metadata.requestId = requestId
  once : ∀ requestId, (manager.sequencesFor requestId).Nodup

theorem Listed.unlisted {before after : KVCacheManager} (listed : before.Listed)
    (same : Unlisted before after) : after.Listed := by
  have lists (requestId : RequestId) :
      after.sequencesFor requestId = before.sequencesFor requestId := by
    simp [sequencesFor, same.index]
  refine ⟨fun requestId id => ?_, fun requestId => ?_⟩
  · have owners (manager : KVCacheManager) :
        (∃ state, manager.sequences.lookup id = some state ∧
          state.metadata.requestId = requestId) ↔
        ∃ metadata, (manager.sequences.lookup id).map (·.metadata) = some metadata ∧
          metadata.requestId = requestId := by
      simp
    rw [lists, listed.members, owners, owners, same.metadata]
  · rw [lists]
    exact listed.once requestId

/-- A new sequence is listed under its request. -/
theorem Listed.opened {before after : KVCacheManager} (listed : before.Listed)
    {id : SequenceId} {state : SequenceState} (absent : before.sequences.lookup id = none)
    (sequences : after.sequences = before.sequences.insert id state)
    (lists : ∀ requestId, after.sequencesFor requestId =
      if requestId = state.metadata.requestId then before.sequencesFor requestId ++ [id]
      else before.sequencesFor requestId) : after.Listed := by
  have unknown (requestId : RequestId) : id ∉ before.sequencesFor requestId := by
    intro member
    obtain ⟨state, found, -⟩ := (listed.members requestId id).mp member
    simp [absent] at found
  refine ⟨fun requestId other => ?_, fun requestId => ?_⟩
  · rw [lists, AList.lookup_inserted sequences]
    by_cases here : requestId = state.metadata.requestId <;> by_cases same : other = id
    · simp [here, same]
    · simp [here, same, listed.members]
    · have reversed : ¬ state.metadata.requestId = requestId := fun equal => here equal.symm
      simp [here, same, unknown, reversed]
    · simp [here, same, listed.members]
  · rw [lists]
    split
    · exact List.nodup_append.mpr ⟨listed.once requestId, List.nodup_singleton id, by
        intro other member last last_mem equal
        exact unknown requestId (equal.trans (List.mem_singleton.mp last_mem) ▸ member)⟩
    · exact listed.once requestId

theorem Listed.createSequence {manager : KVCacheManager} (listed : manager.Listed)
    (metadata : SequenceMetadata) : (manager.createSequence metadata).2.Listed := by
  unfold KVCacheManager.createSequence
  split
  · exact listed
  · rename_i missing
    refine listed.opened (by simpa using missing) rfl fun requestId => ?_
    rw [sequencesFor_indexSequence]
    rfl

theorem Listed.forkSequence {manager : KVCacheManager} (listed : manager.Listed)
    (parentId : SequenceId) (childMetadata : SequenceMetadata) :
    (manager.forkSequence parentId childMetadata).2.Listed := by
  unfold KVCacheManager.forkSequence
  repeat' split
  all_goals first
    | exact listed
    | skip
  rename_i missing _
  refine listed.opened (by simpa using missing) rfl fun requestId => ?_
  rw [sequencesFor_indexSequence]
  rfl

theorem Listed.releaseSequence {manager : KVCacheManager} (listed : manager.Listed)
    (sequenceId : SequenceId) : (manager.releaseSequence sequenceId).Listed := by
  cases found : manager.sequences.lookup sequenceId with
  | none =>
      rw [KVCacheManager.releaseSequence, found]
      exact listed
  | some state =>
      have sequences := sequences_releaseSequence manager sequenceId
      have lists := sequencesFor_releaseSequence found
      refine ⟨fun requestId id => ?_, fun requestId => ?_⟩
      · rw [lists, sequences]
        by_cases same : id = sequenceId
        · subst same
          by_cases here : requestId = state.metadata.requestId
          · simp [here]
          · have reversed : ¬ state.metadata.requestId = requestId := fun equal => here equal.symm
            simp [here, listed.members, found, reversed]
        · by_cases here : requestId = state.metadata.requestId
          · simp [here, same, listed.members, AList.lookup_erase_ne same]
          · simp [here, listed.members, AList.lookup_erase_ne same]
      · rw [lists]
        split
        · exact (listed.once requestId).filter _
        · exact listed.once requestId

theorem Listed.swapOutSequence {manager : KVCacheManager} (listed : manager.Listed)
    (sequenceId : SequenceId) : (manager.swapOutSequence sequenceId).2.Listed :=
  listed.unlisted (unlisted_swapOutSequence manager sequenceId)

theorem Listed.swapInSequence {manager : KVCacheManager} (listed : manager.Listed)
    (sequenceId : SequenceId) : (manager.swapInSequence sequenceId).2.Listed :=
  listed.unlisted (unlisted_swapInSequence manager sequenceId)

theorem listed_step {manager : KVCacheManager} (listed : manager.Listed) (op : CacheOp) :
    (manager.step op).Listed := by
  cases op with
  | createSequence metadata => exact listed.createSequence metadata
  | forkSequence parentId childMetadata => exact listed.forkSequence parentId childMetadata
  | reserveTokens sequenceId tokenCount => exact listed.unlisted (unlisted_reserveTokens _ _ _)
  | ensureTokenWritable sequenceId token layer =>
      exact listed.unlisted (unlisted_ensureTokenWritable _ _ _ _)
  | writeToken sequenceId token layer stores =>
      exact listed.unlisted (unlisted_writeToken _ _ _ _ _)
  | swapOutSequence sequenceId => exact listed.swapOutSequence sequenceId
  | swapOutRequest requestId =>
      exact swapOutSequences_induction (fun _ id holds => holds.swapOutSequence id) listed _
  | swapInSequence sequenceId => exact listed.swapInSequence sequenceId
  | swapInRequest requestId =>
      exact swapInRequest_induction (fun _ id holds => holds.swapInSequence id) listed requestId
  | publishPrefix sequenceId key => exact listed.unlisted (unlisted_publishPrefix _ _ _)
  | attachPrefix sequenceId key => exact listed.unlisted (unlisted_attachPrefix _ _ _)
  | releaseSequence sequenceId => exact listed.releaseSequence sequenceId
  | releaseRequest requestId =>
      exact releaseRequest_induction (fun _ id holds => holds.releaseSequence id) listed requestId

theorem listed_create (allocator : MemoryAllocator) : (create allocator).Listed :=
  ⟨by simp [create, sequencesFor], by simp [create, sequencesFor]⟩

theorem listed_run {manager : KVCacheManager} (listed : manager.Listed) (ops : List CacheOp) :
    (manager.run ops).Listed := by
  induction ops generalizing manager with
  | nil => exact listed
  | cons op ops induction => exact induction (listed_step listed op)

/-! ## The request index has no empty list -/

/-- Every request of the index has a sequence. -/
def Populated (manager : KVCacheManager) : Prop :=
  ∀ requestId ids, manager.sequencesByRequest.lookup requestId = some ids → ids ≠ []

theorem Populated.indexSequence {manager : KVCacheManager} (populated : manager.Populated)
    (owner : RequestId) (sequenceId : SequenceId) :
    (manager.indexSequence owner sequenceId).Populated := by
  intro requestId ids found
  by_cases same : requestId = owner
  · rw [same, KVCacheManager.indexSequence, AList.lookup_insert] at found
    simp [← Option.some.inj found]
  · rw [KVCacheManager.indexSequence, AList.lookup_insert_ne same] at found
    exact populated requestId ids found

theorem Populated.unindexSequence {manager : KVCacheManager} (populated : manager.Populated)
    (owner : RequestId) (sequenceId : SequenceId) :
    (manager.unindexSequence owner sequenceId).Populated := by
  unfold KVCacheManager.unindexSequence
  split
  · exact populated
  · intro requestId ids found
    simp only at found
    by_cases same : requestId = owner
    · split at found
      · rw [same, AList.lookup_erase] at found
        simp at found
      · rename_i some_kept
        rw [same, AList.lookup_insert] at found
        rw [← Option.some.inj found]
        simpa using some_kept
    · split at found
      · rw [AList.lookup_erase_ne same] at found
        exact populated requestId ids found
      · rw [AList.lookup_insert_ne same] at found
        exact populated requestId ids found

theorem Populated.of_index {manager after : KVCacheManager} (populated : manager.Populated)
    (index : after.sequencesByRequest = manager.sequencesByRequest) : after.Populated := by
  intro requestId ids found
  exact populated requestId ids (index ▸ found)

theorem Populated.releaseSequence {manager : KVCacheManager} (populated : manager.Populated)
    (sequenceId : SequenceId) : (manager.releaseSequence sequenceId).Populated := by
  unfold KVCacheManager.releaseSequence
  split
  · exact populated
  · rename_i state _
    have dropped : Populated { (manager.dropPrefixUser state).1 with
        allocator := (state.tables.flatMap (·.entries)).foldl releaseEntry
          (manager.dropPrefixUser state).1.allocator } :=
      populated.of_index (sequencesByRequest_dropPrefixUser manager state)
    exact (dropped.unindexSequence state.metadata.requestId sequenceId).of_index rfl

theorem populated_step {manager : KVCacheManager} (populated : manager.Populated)
    (op : CacheOp) : (manager.step op).Populated := by
  cases op with
  | createSequence metadata =>
      simp only [step, createSequence]
      split
      · exact populated
      · exact Populated.indexSequence (populated.of_index rfl) _ _
  | forkSequence parentId childMetadata =>
      simp only [step, forkSequence]
      repeat' split
      all_goals first
        | exact populated
        | exact Populated.indexSequence (populated.of_index rfl) _ _
  | reserveTokens sequenceId tokenCount =>
      exact populated.of_index (unlisted_reserveTokens _ _ _).index
  | ensureTokenWritable sequenceId token layer =>
      exact populated.of_index (unlisted_ensureTokenWritable _ _ _ _).index
  | writeToken sequenceId token layer stores =>
      exact populated.of_index (unlisted_writeToken _ _ _ _ _).index
  | swapOutSequence sequenceId =>
      exact populated.of_index (unlisted_swapOutSequence _ _).index
  | swapOutRequest requestId =>
      exact swapOutSequences_induction
        (fun _ id holds => holds.of_index (unlisted_swapOutSequence _ id).index) populated _
  | swapInSequence sequenceId => exact populated.of_index (unlisted_swapInSequence _ _).index
  | swapInRequest requestId =>
      exact swapInRequest_induction
        (fun _ id holds => holds.of_index (unlisted_swapInSequence _ id).index) populated requestId
  | publishPrefix sequenceId key => exact populated.of_index (unlisted_publishPrefix _ _ _).index
  | attachPrefix sequenceId key => exact populated.of_index (unlisted_attachPrefix _ _ _).index
  | releaseSequence sequenceId => exact populated.releaseSequence sequenceId
  | releaseRequest requestId =>
      exact releaseRequest_induction (fun _ id holds => holds.releaseSequence id) populated
        requestId

theorem Populated.lookup_none {manager : KVCacheManager} (populated : manager.Populated)
    {requestId : RequestId} (idle : manager.sequencesFor requestId = []) :
    manager.sequencesByRequest.lookup requestId = none := by
  cases found : manager.sequencesByRequest.lookup requestId with
  | none => rfl
  | some ids =>
      rw [sequencesFor, found] at idle
      exact absurd idle (populated requestId ids found)

end KVCacheManager
end QwenVLPaged
