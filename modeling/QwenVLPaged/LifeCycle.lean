import QwenVLPaged.RequestIdentity
import QwenVLPaged.RootSequences

/-!
# The life cycle of a request

A known request is pending, active or preempted, and the queue it is in decides everything else:
its state, whether it has preemption metadata, whether it owns a root sequence and whether that
sequence is resident.
-/

namespace QwenVLPaged
namespace Scheduler

open KVCacheManager (Rooted)

/-- The invariant behind the life cycle. -/
structure Managed (config : AllocatorConfig) (scheduler : Scheduler) : Prop where
  waiting : ∀ request ∈ scheduler.pending, request.state = .pending
  running : ∀ request ∈ scheduler.active, request.state = .prefill ∨ request.state = .decode
  parked : ∀ request ∈ scheduler.preempted, request.state = .preempted
  infos : ∀ requestId, (scheduler.preemptionInfo.lookup requestId).isSome ↔
    ∃ request ∈ scheduler.preempted, request.requestId = requestId
  rooted : Rooted config scheduler.owners scheduler.cache
  few : ∀ id state, scheduler.cache.sequences.lookup id = some state →
    state.blockCount ≤ config.maxBlocks
  resident : ∀ request ∈ scheduler.active, ∀ state,
    scheduler.cache.sequences.lookup request.rootSequenceId = some state → state.Resident

theorem managed_create (config : SchedulerConfig) (pool : AllocatorConfig) (slab : ℕ → UInt8)
    (swapSlots : Option ℕ) : Managed pool (create config (.overPool pool slab swapSlots)) := by
  refine ⟨by simp [create], by simp [create], by simp [create], by simp [create],
    KVCacheManager.rooted_overPool pool slab swapSlots, ?_, by simp [create]⟩
  simp [create, KVCacheManager.overPool, KVCacheManager.create]

theorem distinct_owners {scheduler : Scheduler} (distinct : Distinct scheduler.identities) :
    Distinct scheduler.owners :=
  distinct.subperm (List.sublist_append_right _ _).subperm

/-- Blocks of a sequence after its tables were replaced by tables of the same lengths. -/
theorem few_inserted {bound : ℕ} {before after : AList fun _ : SequenceId => SequenceState}
    {id : SequenceId} {state final : SequenceState}
    (few : ∀ id state, before.lookup id = some state → state.blockCount ≤ bound)
    (found : before.lookup id = some state) (inserted : after = before.insert id final)
    (lengths : final.tables.map (·.entries.length) = state.tables.map (·.entries.length)) :
    ∀ id state, after.lookup id = some state → state.blockCount ≤ bound := by
  intro other new new_found
  rw [AList.lookup_inserted inserted] at new_found
  split at new_found
  · rw [← Option.some.inj new_found, SequenceState.blockCount, lengths]
    exact few id state found
  · exact few other new new_found

/-! ## Preempting and resuming -/

/-- The other requests of a queue with a request have other roots. -/
theorem root_ne_of_found {queue : List Request} {requestId : RequestId} {request : Request}
    (distinct : Distinct (queue.map Request.metadata))
    (found : findRequest queue requestId = some request) :
    ∀ other ∈ eraseRequest queue requestId,
      other.requestId ≠ request.requestId ∧ other.rootSequenceId ≠ request.rootSequenceId := by
  intro other member
  have fresh := (distinct.perm ((perm_of_findRequest found).map Request.metadata)).fresh
  have inside := List.mem_map_of_mem (f := Request.metadata) member
  exact ⟨fresh.1 _ inside, fresh.2 _ inside⟩

theorem distinct_active {scheduler : Scheduler} (distinct : Distinct scheduler.owners) :
    Distinct (scheduler.active.map Request.metadata) :=
  distinct.subperm ((List.sublist_append_left _ _).map _).subperm

theorem distinct_preempted {scheduler : Scheduler} (distinct : Distinct scheduler.owners) :
    Distinct (scheduler.preempted.map Request.metadata) :=
  distinct.subperm ((List.sublist_append_right _ _).map _).subperm

/-- Active and preempted requests have different ids and roots. -/
theorem active_ne_preempted {scheduler : Scheduler} (distinct : Distinct scheduler.owners)
    {running parked : Request} (active : running ∈ scheduler.active)
    (preempted : parked ∈ scheduler.preempted) :
    running.requestId ≠ parked.requestId ∧ running.rootSequenceId ≠ parked.rootSequenceId := by
  obtain ⟨requests, roots⟩ := distinct
  simp only [owners, List.map_append] at requests roots
  refine ⟨fun same => ?_, fun same => ?_⟩
  · refine (List.nodup_append.mp requests).2.2 running.requestId ?_ parked.requestId ?_ same
    · exact List.mem_map_of_mem (List.mem_map_of_mem active)
    · exact List.mem_map_of_mem (List.mem_map_of_mem preempted)
  · refine (List.nodup_append.mp roots).2.2 running.rootSequenceId ?_ parked.rootSequenceId ?_ same
    · exact List.mem_map_of_mem (List.mem_map_of_mem active)
    · exact List.mem_map_of_mem (List.mem_map_of_mem preempted)

theorem managed_preempt {config : AllocatorConfig} {scheduler : Scheduler}
    (managed : Managed config scheduler) (distinct : Distinct scheduler.owners)
    (requestId : RequestId) (reason : String) :
    Managed config (scheduler.preempt requestId reason).2 := by
  have owners := scheduler.owners_preempt requestId reason
  unfold preempt at owners ⊢
  split
  · exact managed
  rename_i request found
  simp only [found] at owners
  obtain ⟨-, -, -, -, named, -⟩ := findRequest_split found
  have active := mem_of_findRequest found
  have member : request.metadata ∈ scheduler.owners :=
    List.mem_map_of_mem (List.mem_append_left _ active)
  obtain ⟨state, root, -⟩ := managed.rooted.rooted _ member
  obtain ⟨rooted, tables, sequences, lengths⟩ := managed.rooted.swapOut member root
  refine ⟨managed.waiting, ?_, ?_, ?_, rooted.perm owners.symm, ?_, ?_⟩
  · exact fun other inside => managed.running other (mem_eraseRequest inside)
  · intro other inside
    rcases List.mem_append.mp inside with old | new
    · exact managed.parked other old
    · rw [List.mem_singleton.mp new]
  · intro other
    by_cases same : other = request.requestId
    · subst same
      simp
    · simp only [AList.lookup_insert_ne same, managed.infos, List.mem_append,
        List.mem_singleton, or_and_right, exists_or, exists_eq_left]
      exact (or_iff_left (Ne.symm same)).symm
  · exact few_inserted managed.few root sequences lengths
  · intro other inside state' found'
    have different := (root_ne_of_found (distinct_active distinct) found other inside).2
    have same := AList.lookup_inserted_ne sequences _ different
    exact managed.resident other (mem_eraseRequest inside) state' (same.symm.trans found')

/-- Dropping a preempted request together with its metadata. -/
theorem infos_erased {config : AllocatorConfig} {scheduler : Scheduler}
    (managed : Managed config scheduler) (distinct : Distinct scheduler.owners)
    {requestId : RequestId} {request : Request}
    (found : findRequest scheduler.preempted requestId = some request) (other : RequestId) :
    ((scheduler.preemptionInfo.erase requestId).lookup other).isSome ↔
      ∃ parked ∈ eraseRequest scheduler.preempted requestId, parked.requestId = other := by
  obtain ⟨-, -, -, -, named, -⟩ := findRequest_split found
  by_cases same : other = requestId
  · subst same
    simp only [AList.lookup_erase, Option.isSome_none, Bool.false_eq_true, false_iff,
      not_exists, not_and]
    intro parked inside
    rw [← named]
    exact (root_ne_of_found (distinct_preempted distinct) found parked inside).1
  · rw [AList.lookup_erase_ne same, managed.infos]
    constructor
    · rintro ⟨parked, inside, rfl⟩
      refine ⟨parked, ?_, rfl⟩
      have split := (perm_of_findRequest found).mem_iff.mp inside
      refine (List.mem_cons.mp split).resolve_left fun equal => same ?_
      rw [equal, named]
    · rintro ⟨parked, inside, rfl⟩
      exact ⟨parked, mem_eraseRequest inside, rfl⟩

theorem managed_resume {config : AllocatorConfig} {scheduler : Scheduler}
    (managed : Managed config scheduler) (distinct : Distinct scheduler.owners)
    (requestId : RequestId) : Managed config (scheduler.resume requestId).2 := by
  have owners := scheduler.owners_resume requestId
  unfold resume at owners ⊢
  split
  · exact managed
  rename_i request found
  simp only [found] at owners
  obtain ⟨-, -, -, -, named, -⟩ := findRequest_split found
  have preempted := mem_of_findRequest found
  have member : request.metadata ∈ scheduler.owners :=
    List.mem_map_of_mem (List.mem_append_right _ preempted)
  obtain ⟨state, root, -⟩ := managed.rooted.rooted _ member
  have bounded := managed.few _ state root
  -- The restored root keeps its block count, and every other root its state.
  have restored {done : Bool} {cache : KVCacheManager}
      (result : scheduler.cache.swapInRequest request.requestId = (done, cache)) :
      Rooted config scheduler.owners cache ∧
        (∀ id state, cache.sequences.lookup id = some state →
          state.blockCount ≤ config.maxBlocks) ∧
        (∀ other ≠ request.rootSequenceId,
          cache.sequences.lookup other = scheduler.cache.sequences.lookup other) ∧
        (done = true → ∀ state,
          cache.sequences.lookup request.rootSequenceId = some state → state.Resident) := by
    obtain ⟨rooted, final, change, -, lengths, resident⟩ :=
      managed.rooted.swapIn member root result
    have small : state.blockCount < 2 ^ 32 := bounded.trans_lt config.maxBlocks_lt
    rcases change with ⟨same, rfl⟩ | inserted
    · refine ⟨rooted, same ▸ managed.few, fun other _ => by rw [same], ?_⟩
      intro finished state' found'
      rw [same] at found'
      obtain rfl := Option.some.inj (root.symm.trans found')
      exact resident small finished
    · refine ⟨rooted, few_inserted managed.few root inserted lengths,
        AList.lookup_inserted_ne inserted, ?_⟩
      intro finished state' found'
      rw [AList.lookup_inserted inserted] at found'
      obtain rfl := Option.some.inj ((if_pos rfl).symm.trans found')
      exact resident small finished
  split
  · rename_i cache refused
    obtain ⟨rooted, few, others, -⟩ := restored refused
    refine ⟨managed.waiting, managed.running, managed.parked, managed.infos, rooted, few, ?_⟩
    intro other inside state' found'
    rw [others _ (active_ne_preempted distinct inside preempted).2] at found'
    exact managed.resident other inside state' found'
  · rename_i cache swapped
    simp only [swapped] at owners
    obtain ⟨rooted, few, others, resident⟩ := restored swapped
    refine ⟨managed.waiting, ?_, ?_, ?_, rooted.perm owners.symm, few, ?_⟩
    · intro other inside
      rcases List.mem_append.mp inside with old | new
      · exact managed.running other old
      · rw [List.mem_singleton.mp new]
        simp only
        split
        · exact Or.inl rfl
        · exact Or.inr rfl
    · exact fun other inside => managed.parked other (mem_eraseRequest inside)
    · exact infos_erased managed distinct found
    · intro other inside state' found'
      rcases List.mem_append.mp inside with old | new
      · rw [others _ (active_ne_preempted distinct old preempted).2] at found'
        exact managed.resident other old state' found'
      · rw [List.mem_singleton.mp new] at found'
        exact resident rfl state' found'

/-! ## Cancelling -/

/-- A cancelled request that owned nothing leaves the cache alone. -/
theorem managed_cancel_waiting {config : AllocatorConfig} {scheduler : Scheduler}
    (managed : Managed config scheduler) (distinct : Distinct scheduler.identities)
    {requestId : RequestId} {request : Request}
    (found : findRequest scheduler.pending requestId = some request) :
    scheduler.cache.releaseRequest request.requestId = scheduler.cache ∧
      scheduler.preemptionInfo.erase requestId = scheduler.preemptionInfo := by
  obtain ⟨-, -, -, -, named, -⟩ := findRequest_split found
  have split := ((perm_of_findRequest found).map Request.metadata).append_right scheduler.owners
  have fresh := (distinct.perm split).fresh.1
  have idle : ∀ owner ∈ scheduler.owners, owner.requestId ≠ request.requestId :=
    fun owner member => fresh owner (List.mem_append_right _ member)
  refine ⟨KVCacheManager.releaseRequest_idle (managed.rooted.idle _ idle), ?_⟩
  refine AList.erase_of_lookup_none (Option.not_isSome_iff_eq_none.mp fun recorded => ?_)
  obtain ⟨parked, inside, same⟩ := (managed.infos requestId).mp recorded
  refine idle parked.metadata (List.mem_map_of_mem (List.mem_append_right _ inside)) ?_
  exact same.trans named.symm

/-- Releasing the root of a request leaves the other roots alone. -/
theorem released_root {config : AllocatorConfig} {cache : KVCacheManager} {request : Request}
    {owners : List SequenceMetadata}
    (rooted : Rooted config (request.metadata :: owners) cache)
    (distinct : Distinct (request.metadata :: owners)) :
    Rooted config owners (cache.releaseRequest request.requestId) ∧
      (∀ id state, (cache.releaseRequest request.requestId).sequences.lookup id = some state →
        cache.sequences.lookup id = some state) := by
  obtain ⟨released, erased⟩ := rooted.release distinct.fresh.1 distinct.fresh.2
  refine ⟨released, fun id state found => ?_⟩
  change (cache.releaseRequest request.metadata.requestId).sequences.lookup id = _ at found
  rw [erased] at found
  by_cases same : id = request.metadata.sequenceId
  · rw [same, AList.lookup_erase] at found
    simp at found
  · rwa [AList.lookup_erase_ne same] at found

theorem managed_cancel {config : AllocatorConfig} {scheduler : Scheduler}
    (managed : Managed config scheduler) (distinct : Distinct scheduler.identities)
    (requestId : RequestId) : Managed config (scheduler.cancel requestId) := by
  have owned := distinct_owners distinct
  simp only [cancel]
  split
  · rename_i request found
    obtain ⟨cache, info⟩ := managed_cancel_waiting managed distinct found
    rw [cache, info]
    exact ⟨fun other inside => managed.waiting other (mem_eraseRequest inside), managed.running,
      managed.parked, managed.infos, managed.rooted, managed.few, managed.resident⟩
  split
  · rename_i request found
    obtain ⟨-, -, -, -, named, -⟩ := findRequest_split found
    have split : scheduler.owners.Perm (request.metadata ::
        (eraseRequest scheduler.active requestId ++ scheduler.preempted).map
          Request.metadata) := by
      simpa [owners] using ((perm_of_findRequest found).map Request.metadata).append_right
        (scheduler.preempted.map Request.metadata)
    obtain ⟨rooted, kept⟩ := released_root (managed.rooted.perm split) (owned.perm split)
    have info : scheduler.preemptionInfo.erase requestId = scheduler.preemptionInfo := by
      refine AList.erase_of_lookup_none (Option.not_isSome_iff_eq_none.mp fun recorded => ?_)
      obtain ⟨parked, inside, same⟩ := (managed.infos requestId).mp recorded
      exact (active_ne_preempted owned (mem_of_findRequest found) inside).1
        (named.trans same.symm)
    rw [info]
    refine ⟨managed.waiting, fun other inside => managed.running other (mem_eraseRequest inside),
      managed.parked, managed.infos, rooted, fun id state member => ?_, ?_⟩
    · exact managed.few id state (kept id state member)
    · intro other inside state member
      exact managed.resident other (mem_eraseRequest inside) state (kept _ state member)
  split
  · rename_i request found
    obtain ⟨-, -, -, -, named, -⟩ := findRequest_split found
    have split : scheduler.owners.Perm (request.metadata ::
        (scheduler.active ++ eraseRequest scheduler.preempted requestId).map
          Request.metadata) := by
      have moved := ((perm_of_findRequest found).map Request.metadata).append_left
        (scheduler.active.map Request.metadata)
      simpa [owners] using moved.trans List.perm_middle
    obtain ⟨rooted, kept⟩ := released_root (managed.rooted.perm split) (owned.perm split)
    refine ⟨managed.waiting, managed.running,
      fun other inside => managed.parked other (mem_eraseRequest inside), ?_, rooted,
      fun id state member => managed.few id state (kept id state member), ?_⟩
    · exact infos_erased managed owned found
    · intro other inside state member
      exact managed.resident other inside state (kept _ state member)
  · exact managed

/-! ## Admitting -/

/-- A waiting request has a new id and a new root. -/
theorem waiting_fresh {scheduler : Scheduler} (distinct : Distinct scheduler.identities)
    {candidate : Request} (waiting : candidate ∈ scheduler.pending) :
    (∀ owner ∈ scheduler.owners, owner.requestId ≠ candidate.requestId) ∧
      ∀ owner ∈ scheduler.owners, owner.sequenceId ≠ candidate.rootSequenceId := by
  obtain ⟨position, found⟩ := List.getElem?_of_mem waiting
  obtain ⟨requests, roots⟩ := (distinct.perm (identities_waiting found)).fresh
  exact ⟨fun owner member => requests owner (List.mem_append_right _ member),
    fun owner member => roots owner (List.mem_append_right _ member)⟩

theorem managed_action {config : AllocatorConfig} {scheduler after : Scheduler}
    {plan planned : BatchPlan} (action : AdmissionStep (scheduler, plan) (after, planned))
    (managed : Managed config scheduler) (distinct : Distinct scheduler.identities) :
    Managed config after := by
  cases action with
  | @reclaim _ _ victim watermark older found =>
      exact managed_preempt managed (distinct_owners distinct) _ _
  | @refuse _ _ candidate cache waiting refused =>
      obtain ⟨newRequest, newRoot⟩ := waiting_fresh distinct waiting
      rcases managed.rooted.openRoot newRequest newRoot with
        ⟨final, result, rooted, lookups⟩ | ⟨final, state, result, -⟩
      · obtain rfl : final = cache := congrArg Prod.snd (result.symm.trans refused)
        refine ⟨managed.waiting, managed.running, managed.parked, managed.infos, rooted, ?_, ?_⟩
        · intro id state found
          rw [lookups] at found
          exact managed.few id state found
        · intro request member state found
          rw [lookups] at found
          exact managed.resident request member state found
      · simp [refused] at result
  | @accept _ _ position candidate cache waiting fits =>
      have member := List.mem_of_getElem? waiting
      obtain ⟨newRequest, newRoot⟩ := waiting_fresh distinct member
      rcases managed.rooted.openRoot newRequest newRoot with
        ⟨final, result, -⟩ | ⟨final, state, result, rooted, opened, lookups⟩
      · simp [fits.opened] at result
      · obtain rfl : final = cache := congrArg Prod.snd (result.symm.trans fits.opened)
        have owners := scheduler.owners_admitAt position candidate final
        refine ⟨?_, ?_, managed.parked, managed.infos, rooted.perm owners.symm, ?_, ?_⟩
        · intro request inside
          obtain ⟨earlier, old, skips, rfl⟩ := mem_skipBefore inside
          exact managed.waiting earlier old
        · intro request inside
          rcases List.mem_append.mp inside with old | new
          · exact managed.running request old
          · rw [List.mem_singleton.mp new]
            exact Or.inl rfl
        · intro id other found
          simp only [admitAt, lookups] at found
          split at found
          · exact Option.some.inj found ▸ opened.few
          · exact managed.few id other found
        · intro request inside other found
          simp only [admitAt, lookups] at found
          split at found
          · exact Option.some.inj found ▸ opened.resident
          · rename_i different
            rcases List.mem_append.mp inside with old | new
            · exact managed.resident request old other found
            · rw [List.mem_singleton.mp new] at different
              exact absurd rfl different

theorem managed_scheduleNext {config : AllocatorConfig} {scheduler : Scheduler}
    (managed : Managed config scheduler) (distinct : Distinct scheduler.identities) :
    Managed config scheduler.scheduleNext.2 :=
  (scheduleNext_induction
    (motive := fun after _ => Managed config after ∧ Distinct after.identities)
    (fun _ _ _ _ action holds => ⟨managed_action action holds.1 holds.2,
      holds.2.perm (identities_action action).symm⟩)
    ⟨managed, distinct⟩).1

/-! ## Runs -/

theorem running_complete {request : Request} (producedTokens : ℕ)
    (running : request.state = .prefill ∨ request.state = .decode) :
    (request.complete producedTokens).state = .prefill ∨
      (request.complete producedTokens).state = .decode := by
  unfold Request.complete
  repeat' split
  · exact Or.inr rfl
  · exact running
  · exact running

theorem managed_step {config : AllocatorConfig} {scheduler : Scheduler} {op : SchedulerOp}
    (managed : Managed config scheduler) (distinct : Distinct scheduler.identities)
    (own : OwnCall op) : Managed config (scheduler.step op) := by
  cases op with
  | enqueue request =>
      refine ⟨?_, managed.running, managed.parked, managed.infos, managed.rooted, managed.few,
        managed.resident⟩
      intro waiting member
      rcases List.mem_append.mp member with old | new
      · exact managed.waiting waiting old
      · rw [List.mem_singleton.mp new]
        rfl
  | scheduleNext => exact managed_scheduleNext managed distinct
  | completeStep requestId producedTokens =>
      have owners := scheduler.owners_completeStep requestId producedTokens
      refine ⟨managed.waiting, ?_, managed.parked, managed.infos, ?_, managed.few, ?_⟩
      · intro request member
        obtain ⟨earlier, inside, rfl | rfl⟩ := mem_completeStep member
        · exact managed.running _ inside
        · exact running_complete producedTokens (managed.running earlier inside)
      · rw [step, owners]
        exact managed.rooted
      · intro request member state found
        obtain ⟨earlier, inside, rfl | rfl⟩ := mem_completeStep member
        · exact managed.resident _ inside state found
        · have root := congrArg SequenceMetadata.sequenceId
            (metadata_complete earlier producedTokens)
          refine managed.resident earlier inside state ?_
          exact (congrArg (scheduler.cache.sequences.lookup ·) root).symm.trans found
  | preempt requestId reason => exact managed_preempt managed (distinct_owners distinct) _ _
  | resume requestId => exact managed_resume managed (distinct_owners distinct) _
  | cancel requestId => exact managed_cancel managed distinct _
  | cache op => exact own.elim

/-- The ids enqueued so far and not cancelled since. -/
def knownAfter (known : List RequestId) : SchedulerOp → List RequestId
  | .enqueue request => known ++ [request.requestId]
  | .cancel requestId => known.filter fun other => other != requestId
  | _ => known

/-- The known requests are the queued ones. -/
theorem known_step {scheduler : Scheduler} {op : SchedulerOp} {known : List RequestId}
    (distinct : Distinct (scheduler.identities ++ op.identities))
    (tracked : (scheduler.identities.map (·.requestId)).Perm known) :
    ((scheduler.step op).identities.map (·.requestId)).Perm (knownAfter known op) := by
  have unchanged {after : Scheduler} (same : after.identities.Perm scheduler.identities) :
      (after.identities.map (·.requestId)).Perm known := (same.map _).trans tracked
  cases op with
  | enqueue request =>
      have ids := (scheduler.identities_enqueue request).map (·.requestId)
      rw [List.map_append] at ids
      exact ids.trans (tracked.append_right _)
  | scheduleNext => exact unchanged scheduler.identities_scheduleNext
  | completeStep requestId producedTokens =>
      exact unchanged (List.Perm.of_eq (scheduler.identities_completeStep _ _))
  | preempt requestId reason => exact unchanged (scheduler.identities_preempt requestId reason)
  | resume requestId => exact unchanged (scheduler.identities_resume requestId)
  | cancel requestId =>
      refine List.Perm.trans ?_ (tracked.filter fun other => other != requestId)
      rcases scheduler.cancel_cases requestId with ⟨same, absent⟩ | ⟨request, rfl, split⟩
      · rw [step, same, List.filter_eq_self.mpr]
        intro other member
        obtain ⟨identity, inside, rfl⟩ := List.mem_map.mp member
        simpa using absent identity inside
      · have fresh := ((distinct.subperm (List.sublist_append_left _ _).subperm).perm split).fresh.1
        refine List.Perm.trans ?_ ((split.map (·.requestId)).filter _).symm
        rw [List.map_cons, List.filter_cons_of_neg (by simp [Request.metadata]),
          List.filter_eq_self.mpr]
        · exact .refl _
        · intro other member
          obtain ⟨identity, inside, rfl⟩ := List.mem_map.mp member
          simpa [Request.metadata] using fresh identity inside
  | cache op => exact unchanged (.refl _)

/-- The life cycle of the known requests. -/
structure LifeCycle (known : List RequestId) (scheduler : Scheduler) : Prop where
  /-- Every known request is in exactly one queue, and no other request is in any. -/
  queued : ∀ requestId,
    (scheduler.pending ++ scheduler.active ++ scheduler.preempted).countP
      (fun request => request.requestId == requestId) = if requestId ∈ known then 1 else 0
  waiting : ∀ request ∈ scheduler.pending, request.state = .pending
  running : ∀ request ∈ scheduler.active, request.state = .prefill ∨ request.state = .decode
  parked : ∀ request ∈ scheduler.preempted, request.state = .preempted
  infos : ∀ requestId, (scheduler.preemptionInfo.lookup requestId).isSome ↔
    ∃ request ∈ scheduler.preempted, request.requestId = requestId
  /-- A pending request owns no sequence. -/
  unowned : ∀ request ∈ scheduler.pending,
    scheduler.cache.sequencesFor request.requestId = [] ∧
      ∀ id state, scheduler.cache.sequences.lookup id = some state →
        state.metadata.requestId ≠ request.requestId
  /-- An active or preempted one owns its root. -/
  owned : ∀ request ∈ scheduler.active ++ scheduler.preempted,
    request.rootSequenceId ∈ scheduler.cache.sequencesFor request.requestId ∧
      scheduler.cache.contains request.rootSequenceId = true
  /-- No entry of a sequence of an active request carries a swap slot. -/
  resident : ∀ request ∈ scheduler.active,
    ∀ id ∈ scheduler.cache.sequencesFor request.requestId,
      ∀ state, scheduler.cache.sequences.lookup id = some state → state.Resident

theorem Managed.lifeCycle {config : AllocatorConfig} {scheduler : Scheduler}
    {known : List RequestId} (managed : Managed config scheduler)
    (distinct : Distinct scheduler.identities)
    (tracked : (scheduler.identities.map (·.requestId)).Perm known) :
    LifeCycle known scheduler := by
  refine ⟨?_, managed.waiting, managed.running, managed.parked, managed.infos, ?_, ?_, ?_⟩
  · intro requestId
    have ids : scheduler.identities.map (·.requestId) =
        (scheduler.pending ++ scheduler.active ++ scheduler.preempted).map (·.requestId) := by
      simp [identities, owners, Function.comp_def, Request.metadata]
    have counted := List.count_eq_countP (a := requestId)
      (l := scheduler.identities.map (·.requestId))
    rw [ids, List.countP_map] at counted
    have unique := tracked.nodup_iff.mp distinct.requests
    rw [show (fun request : Request => request.requestId == requestId) =
      (fun id => id == requestId) ∘ (·.requestId) from rfl, ← counted, ← ids, tracked.count_eq]
    split
    · rename_i member
      exact List.count_eq_one_of_mem unique member
    · rename_i absent
      exact List.count_eq_zero_of_not_mem absent
  · intro request member
    have fresh := (waiting_fresh distinct member).1
    refine ⟨managed.rooted.idle _ fresh, fun id state found => ?_⟩
    exact fresh _ (managed.rooted.live id state found)
  · intro request member
    have owner : request.metadata ∈ scheduler.owners := List.mem_map_of_mem member
    refine ⟨?_, ?_⟩
    · have listed := managed.rooted.listed _ owner
      change scheduler.cache.sequencesFor request.requestId = [request.rootSequenceId] at listed
      rw [listed]
      exact List.mem_singleton_self _
    · obtain ⟨state, found, -⟩ := managed.rooted.rooted _ owner
      change scheduler.cache.sequences.lookup request.rootSequenceId = some state at found
      rw [KVCacheManager.contains, found]
      rfl
  · intro request member id listed state found
    have owner : request.metadata ∈ scheduler.owners :=
      List.mem_map_of_mem (List.mem_append_left _ member)
    have single := managed.rooted.listed _ owner
    change scheduler.cache.sequencesFor request.requestId = [request.rootSequenceId] at single
    rw [single, List.mem_singleton] at listed
    exact managed.resident request member state (listed ▸ found)

theorem known_run {scheduler : Scheduler} {ops : List SchedulerOp} {known : List RequestId}
    (distinct : Distinct (scheduler.identities ++ enqueuedIdentities ops))
    (tracked : (scheduler.identities.map (·.requestId)).Perm known) :
    ((scheduler.run ops).identities.map (·.requestId)).Perm
      (Execution.run knownAfter known ops) := by
  induction ops generalizing scheduler known with
  | nil => exact tracked
  | cons op ops induction =>
      obtain ⟨now, later⟩ := distinct_step distinct
      exact induction later (known_step now tracked)

/-- Every run of scheduler calls over a fresh pool, with a host swap space or without one, keeps
the life cycle of the requests it knows. -/
theorem life_cycle (config : SchedulerConfig) (pool : AllocatorConfig) (slab : ℕ → UInt8)
    (swapSlots : Option ℕ) (ops : List SchedulerOp) (own : ∀ op ∈ ops, OwnCall op)
    (distinct : Distinct (enqueuedIdentities ops)) :
    LifeCycle (Execution.run knownAfter [] ops)
      ((create config (.overPool pool slab swapSlots)).run ops) := by
  have guarded : Execution.Along step (fun _ op => OwnCall op)
      (create config (.overPool pool slab swapSlots)) ops :=
    Execution.along_of_forall own
  obtain ⟨managed, unique⟩ := distinct_invariant
    (fun _ _ managed distinct own => managed_step managed distinct own)
    (managed_create config pool slab swapSlots) distinct guarded
  exact managed.lifeCycle unique (known_run distinct (.refl _))

/-- Two requests run, one is parked and a third waits. -/
def mixedOps : List SchedulerOp :=
  [.enqueue (.ofTokens 1 2 0), .enqueue (.ofTokens 2 1 0), .scheduleNext, .completeStep 2 1,
    .preempt 1 "caller", .resume 1, .preempt 1 "caller", .enqueue (.ofTokens 3 9 0),
    .scheduleNext, .cancel 2]

theorem life_cycle_mixed :
    Execution.run knownAfter [] mixedOps = [1, 3] ∧
      LifeCycle (Execution.run knownAfter [] mixedOps)
        ((create ⟨8, 8, 0, false, 0, by decide⟩
          (.overPool fourFrames (fun _ => 0) (some 4))).run mixedOps) := by
  refine ⟨by decide, life_cycle _ fourFrames _ (some 4) mixedOps ?_ ⟨by decide, by decide⟩⟩
  simp [mixedOps, OwnCall]

end Scheduler
end QwenVLPaged
