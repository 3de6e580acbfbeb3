import QwenVLPaged.SchedulerRun

/-!
# Identities of requests

Requests move between the three queues and change their counters on the way, but never their
request id or root sequence. The identities of all queued requests are a list that every
scheduler call permutes, extends by the request it enqueues or shortens by the one it cancels.
-/

namespace QwenVLPaged

/-- Pairwise distinct request ids and pairwise distinct root sequences. -/
structure Distinct (identities : List SequenceMetadata) : Prop where
  requests : (identities.map (·.requestId)).Nodup
  roots : (identities.map (·.sequenceId)).Nodup

theorem Distinct.subperm {identities identities' : List SequenceMetadata}
    (distinct : Distinct identities) (fewer : identities'.Subperm identities) :
    Distinct identities' := by
  obtain ⟨middle, same, inside⟩ := fewer
  exact ⟨(same.map _).nodup_iff.mp (distinct.requests.sublist (inside.map _)),
    (same.map _).nodup_iff.mp (distinct.roots.sublist (inside.map _))⟩

theorem Distinct.perm {identities identities' : List SequenceMetadata}
    (distinct : Distinct identities) (same : identities.Perm identities') :
    Distinct identities' :=
  distinct.subperm same.symm.subperm

/-- The first of distinct identities differs from all the others. -/
theorem Distinct.fresh {identity : SequenceMetadata} {identities : List SequenceMetadata}
    (distinct : Distinct (identity :: identities)) :
    (∀ other ∈ identities, other.requestId ≠ identity.requestId) ∧
      ∀ other ∈ identities, other.sequenceId ≠ identity.sequenceId := by
  have requests := (List.nodup_cons.mp distinct.requests).1
  have roots := (List.nodup_cons.mp distinct.roots).1
  refine ⟨fun other member same => requests ?_, fun other member same => roots ?_⟩
  · exact List.mem_map.mpr ⟨other, member, same⟩
  · exact List.mem_map.mpr ⟨other, member, same⟩

/-- A request found in a queue can be moved to its front. -/
theorem perm_of_findRequest {queue : List Request} {requestId : RequestId} {request : Request}
    (found : findRequest queue requestId = some request) :
    queue.Perm (request :: eraseRequest queue requestId) := by
  obtain ⟨front, back, queue_eq, erased, -⟩ := findRequest_split found
  rw [erased, queue_eq]
  exact List.perm_middle

@[simp]
theorem metadata_complete (request : Request) (producedTokens : ℕ) :
    (request.complete producedTokens).metadata = request.metadata := by
  unfold Request.complete
  repeat' split
  all_goals rfl

/-- The identity that a call brings in. -/
def SchedulerOp.identities : SchedulerOp → List SequenceMetadata
  | .enqueue request => [request.metadata]
  | _ => []

namespace Scheduler

/-- Identities of the requests that own cache. -/
def owners (scheduler : Scheduler) : List SequenceMetadata :=
  (scheduler.active ++ scheduler.preempted).map Request.metadata

/-- Identities of all queued requests. -/
def identities (scheduler : Scheduler) : List SequenceMetadata :=
  scheduler.pending.map Request.metadata ++ scheduler.owners

theorem owners_preempt (scheduler : Scheduler) (requestId : RequestId) (reason : String) :
    (scheduler.preempt requestId reason).2.owners.Perm scheduler.owners := by
  unfold preempt
  split
  · exact .refl _
  · rename_i request found
    have split := (perm_of_findRequest found).map Request.metadata
    simp only [owners, List.map_append, List.map_cons, List.map_nil] at split ⊢
    rw [← List.append_assoc]
    calc
      List.Perm _ (request.metadata :: ((eraseRequest scheduler.active requestId).map
          Request.metadata ++ scheduler.preempted.map Request.metadata)) :=
        List.perm_append_singleton _ _
      List.Perm _ _ := (split.append_right _).symm

theorem identities_preempt (scheduler : Scheduler) (requestId : RequestId) (reason : String) :
    (scheduler.preempt requestId reason).2.identities.Perm scheduler.identities := by
  unfold identities
  rw [(reclaimed_preempt scheduler requestId reason).pending]
  exact (scheduler.owners_preempt requestId reason).append_left _

theorem map_metadata_skipBefore (pending : List Request) (position : ℕ) :
    (skipBefore pending position).map Request.metadata = pending.map Request.metadata := by
  rw [skipBefore, List.map_append, List.map_map]
  calc
    _ = (pending.take position).map Request.metadata ++
        (pending.drop position).map Request.metadata := rfl
    _ = pending.map Request.metadata := by rw [← List.map_append, List.take_append_drop]

theorem perm_eraseIdx {α : Type*} {items : List α} {position : ℕ} {item : α}
    (found : items[position]? = some item) : items.Perm (item :: items.eraseIdx position) := by
  obtain ⟨inside, rfl⟩ := List.getElem?_eq_some_iff.mp found
  exact (List.getElem_cons_eraseIdx_perm inside).symm

/-- The waiting candidate can be moved in front of everybody else. -/
theorem identities_waiting {scheduler : Scheduler} {position : ℕ} {candidate : Request}
    (waiting : scheduler.pending[position]? = some candidate) :
    scheduler.identities.Perm (candidate.metadata ::
      ((scheduler.pending.map Request.metadata).eraseIdx position ++ scheduler.owners)) := by
  have found : (scheduler.pending.map Request.metadata)[position]? = some candidate.metadata := by
    simp [waiting]
  exact (perm_eraseIdx found).append_right _

theorem owners_admitAt (scheduler : Scheduler) (position : ℕ) (candidate : Request)
    (cache : KVCacheManager) :
    (scheduler.admitAt position candidate cache).owners.Perm
      (candidate.metadata :: scheduler.owners) := by
  simp only [owners, admitAt, List.map_append, List.map_cons, List.map_nil]
  rw [List.append_assoc]
  exact List.perm_middle

theorem identities_admitAt {scheduler : Scheduler} {position : ℕ} {candidate : Request}
    (cache : KVCacheManager) (waiting : scheduler.pending[position]? = some candidate) :
    (scheduler.admitAt position candidate cache).identities.Perm scheduler.identities := by
  have pending : (scheduler.admitAt position candidate cache).pending.map Request.metadata =
      (scheduler.pending.map Request.metadata).eraseIdx position := by
    simp only [admitAt]
    rw [← List.eraseIdx_map, map_metadata_skipBefore]
  calc
    List.Perm _ ((scheduler.pending.map Request.metadata).eraseIdx position ++
        candidate.metadata :: scheduler.owners) := by
      rw [identities, pending]
      exact (scheduler.owners_admitAt position candidate cache).append_left _
    List.Perm _ _ := List.perm_middle
    List.Perm _ _ := (identities_waiting waiting).symm

theorem identities_action {scheduler after : Scheduler} {plan planned : BatchPlan}
    (action : AdmissionStep (scheduler, plan) (after, planned)) :
    after.identities.Perm scheduler.identities := by
  cases action with
  | @reclaim _ _ victim watermark older found => exact scheduler.identities_preempt _ _
  | refuse waiting refused => exact .refl _
  | @accept _ _ position candidate cache waiting fits => exact identities_admitAt cache waiting

theorem identities_scheduleNext (scheduler : Scheduler) :
    scheduler.scheduleNext.2.identities.Perm scheduler.identities :=
  scheduleNext_induction (motive := fun after _ => after.identities.Perm scheduler.identities)
    (fun _ _ _ _ action same => (identities_action action).trans same) (.refl _)

theorem owners_completeStep (scheduler : Scheduler) (requestId : RequestId)
    (producedTokens : ℕ) :
    (scheduler.completeStep requestId producedTokens).owners = scheduler.owners := by
  have same : (scheduler.completeStep requestId producedTokens).active.map Request.metadata =
      scheduler.active.map Request.metadata := by
    unfold completeStep
    refine List.ext_getElem? fun position => ?_
    simp only [List.getElem?_map, List.getElem?_modify]
    cases scheduler.active[position]? with
    | none => rfl
    | some request => split <;> simp
  rw [owners, owners, List.map_append, List.map_append, same]
  rfl

theorem owners_resume (scheduler : Scheduler) (requestId : RequestId) :
    (scheduler.resume requestId).2.owners.Perm scheduler.owners := by
  unfold resume
  split
  · exact .refl _
  · rename_i request found
    split
    · exact .refl _
    · have split := (perm_of_findRequest found).map Request.metadata
      simp only [owners, List.map_append, List.map_cons, List.map_nil] at split ⊢
      rw [List.append_assoc]
      exact split.symm.append_left _

/-- The identity of a cancelled request, wherever it is queued. -/
theorem cancel_cases (scheduler : Scheduler) (requestId : RequestId) :
    (scheduler.cancel requestId = scheduler ∧
      ∀ identity ∈ scheduler.identities, identity.requestId ≠ requestId) ∨
    ∃ request : Request, request.requestId = requestId ∧
      scheduler.identities.Perm
        (request.metadata :: (scheduler.cancel requestId).identities) := by
  unfold cancel
  split
  · rename_i request found
    obtain ⟨-, -, -, -, named, -⟩ := findRequest_split found
    exact Or.inr ⟨request, named,
      ((perm_of_findRequest found).map Request.metadata).append_right _⟩
  · rename_i missing
    split
    · rename_i request found
      obtain ⟨-, -, -, -, named, -⟩ := findRequest_split found
      refine Or.inr ⟨request, named, ?_⟩
      have split := (perm_of_findRequest found).map Request.metadata
      simp only [identities, owners, List.map_append]
      exact ((split.append_right _).append_left _).trans List.perm_middle
    · rename_i inactive
      split
      · rename_i request found
        obtain ⟨-, -, -, -, named, -⟩ := findRequest_split found
        refine Or.inr ⟨request, named, ?_⟩
        have split := (perm_of_findRequest found).map Request.metadata
        simp only [identities, owners, List.map_append]
        rw [← List.append_assoc, ← List.append_assoc]
        exact (split.append_left _).trans List.perm_middle
      · rename_i absent
        refine Or.inl ⟨rfl, ?_⟩
        intro identity member
        simp only [identities, owners, List.map_append, List.mem_append, List.mem_map] at member
        rcases member with ⟨request, inside, rfl⟩ | ⟨request, inside, rfl⟩ |
          ⟨request, inside, rfl⟩
        · exact findRequest_none.mp missing request inside
        · exact findRequest_none.mp inactive request inside
        · exact findRequest_none.mp absent request inside

theorem identities_enqueue (scheduler : Scheduler) (request : Request) :
    (scheduler.enqueue request).identities.Perm
      (scheduler.identities ++ [request.metadata]) := by
  have entered : (scheduler.enqueue request).identities =
      scheduler.pending.map Request.metadata ++ ([request.metadata] ++ scheduler.owners) := by
    simp only [enqueue, identities, owners, List.map_append, List.append_assoc]
    rfl
  rw [entered, identities, List.append_assoc]
  exact List.perm_append_comm.append_left _

theorem identities_completeStep (scheduler : Scheduler) (requestId : RequestId)
    (producedTokens : ℕ) :
    (scheduler.completeStep requestId producedTokens).identities = scheduler.identities :=
  congrArg (scheduler.pending.map Request.metadata ++ ·)
    (scheduler.owners_completeStep requestId producedTokens)

theorem identities_resume (scheduler : Scheduler) (requestId : RequestId) :
    (scheduler.resume requestId).2.identities.Perm scheduler.identities := by
  unfold identities
  rw [(scheduler.pending_resume requestId).1]
  exact (scheduler.owners_resume requestId).append_left _

theorem identities_step (scheduler : Scheduler) (op : SchedulerOp) :
    (scheduler.step op).identities.Subperm (scheduler.identities ++ op.identities) := by
  have unchanged {after : Scheduler} (same : after.identities.Perm scheduler.identities) :
      after.identities.Subperm (scheduler.identities ++ []) := by
    rw [List.append_nil]
    exact same.subperm
  cases op with
  | enqueue request => exact (scheduler.identities_enqueue request).subperm
  | scheduleNext => exact unchanged scheduler.identities_scheduleNext
  | completeStep requestId producedTokens =>
      exact unchanged (List.Perm.of_eq (scheduler.identities_completeStep _ _))
  | preempt requestId reason => exact unchanged (scheduler.identities_preempt requestId reason)
  | resume requestId => exact unchanged (scheduler.identities_resume requestId)
  | cancel requestId =>
      rcases scheduler.cancel_cases requestId with ⟨same, -⟩ | ⟨request, -, split⟩
      · rw [step, same]
        exact unchanged (.refl _)
      · refine List.Subperm.trans ?_ (List.sublist_append_left _ _).subperm
        exact (List.sublist_cons_self _ _).subperm.trans split.symm.subperm
  | cache op => exact unchanged (.refl _)

/-! ## Runs -/

/-- Identities of the requests that a run enqueues. -/
def enqueuedIdentities (ops : List SchedulerOp) : List SequenceMetadata :=
  ops.flatMap SchedulerOp.identities

/-- With distinct requests to come, the requests queued after the next call are distinct from the
remaining ones. -/
theorem distinct_step {scheduler : Scheduler} {op : SchedulerOp} {ops : List SchedulerOp}
    (distinct : Distinct (scheduler.identities ++ enqueuedIdentities (op :: ops))) :
    Distinct (scheduler.identities ++ op.identities) ∧
      Distinct ((scheduler.step op).identities ++ enqueuedIdentities ops) := by
  have all : Distinct (scheduler.identities ++ op.identities ++ enqueuedIdentities ops) := by
    simpa [enqueuedIdentities] using distinct
  exact ⟨all.subperm (List.sublist_append_left _ _).subperm,
    all.subperm ((List.subperm_append_right _).mpr (scheduler.identities_step op))⟩

/-- An invariant kept by every guarded call while the queued requests are distinct holds after
every guarded run that enqueues distinct requests. -/
theorem distinct_invariant {guard : Scheduler → SchedulerOp → Prop}
    {invariant : Scheduler → Prop}
    (preserved : ∀ scheduler op, invariant scheduler → Distinct scheduler.identities →
      guard scheduler op → invariant (scheduler.step op))
    {scheduler : Scheduler} {ops : List SchedulerOp} (start : invariant scheduler)
    (distinct : Distinct (scheduler.identities ++ enqueuedIdentities ops))
    (guarded : Execution.Along step guard scheduler ops) :
    invariant (scheduler.run ops) ∧ Distinct (scheduler.run ops).identities := by
  induction ops generalizing scheduler with
  | nil =>
      have now : Distinct scheduler.identities := by
        simpa [enqueuedIdentities] using distinct
      exact ⟨start, now⟩
  | cons op ops induction =>
      obtain ⟨now, later⟩ := distinct_step distinct
      have old := now.subperm (List.sublist_append_left _ _).subperm
      exact induction (preserved scheduler op start old guarded.1) later guarded.2

end Scheduler
end QwenVLPaged
