import QwenVLPaged.SchedulerRun

/-!
# What a batch plan names

`scheduleNext` keeps victims away from the requests it has just admitted by counting the entries
of the plan from the back of the active queue. The count is right when every admission enters the
plan, which a request without prompt tokens does not.
-/

namespace QwenVLPaged
namespace Scheduler

/-- Every id of a plan is active. -/
def Named (plan : BatchPlan) (active : List Request) : Prop :=
  ∀ requestId, requestId ∈ plan.prefillRequests ∨ requestId ∈ plan.decodeRequests →
    requestId ∈ active.map (·.requestId)

/-! ## Filling the plan -/

theorem mem_schedulePrefillChunk {config : SchedulerConfig} {request : Request}
    {plan : BatchPlan} {requestId : RequestId}
    (member : requestId ∈ (schedulePrefillChunk config request plan).prefillRequests) :
    requestId ∈ plan.prefillRequests ∨ requestId = request.requestId := by
  simp only [schedulePrefillChunk] at member
  split at member
  · exact Or.inl member
  split at member
  · exact Or.inl member
  split at member
  · exact Or.inl member
  · simpa using member

@[simp]
theorem decodeRequests_schedulePrefillChunk (config : SchedulerConfig) (request : Request)
    (plan : BatchPlan) :
    (schedulePrefillChunk config request plan).decodeRequests = plan.decodeRequests := by
  simp only [schedulePrefillChunk]
  repeat' split
  all_goals rfl

/-- With prompt tokens left and budget left the chunk enters the plan. -/
theorem prefillRequests_schedulePrefillChunk {config : SchedulerConfig} {request : Request}
    {plan : BatchPlan} (remaining : 0 < request.remainingPrefillTokens)
    (budget : plan.scheduledTokens < config.maxBatchTokens) :
    (schedulePrefillChunk config request plan).prefillRequests =
      plan.prefillRequests ++ [request.requestId] := by
  have positive : min request.remainingPrefillTokens
      (config.maxBatchTokens - plan.scheduledTokens) ≠ 0 := by omega
  rw [schedulePrefillChunk, if_neg remaining.ne', if_neg (not_le.mpr budget)]
  simp only [if_neg positive]

theorem Named.prefillChunk {config : SchedulerConfig} {plan : BatchPlan} {active : List Request}
    (named : Named plan active) {request : Request} (member : request ∈ active) :
    Named (schedulePrefillChunk config request plan) active := by
  intro requestId planned
  rw [decodeRequests_schedulePrefillChunk] at planned
  rcases planned with prefill | decode
  · rcases mem_schedulePrefillChunk prefill with old | rfl
    · exact named requestId (Or.inl old)
    · exact List.mem_map.mpr ⟨request, member, rfl⟩
  · exact named requestId (Or.inr decode)

theorem Named.prefills (config : SchedulerConfig) {plan : BatchPlan} {active : List Request}
    (named : Named plan active) : Named (schedulePrefills config active plan) active := by
  unfold schedulePrefills
  refine List.foldlRecOn (motive := fun plan => Named plan active) active _ named ?_
  intro plan named request member
  split
  · exact named.prefillChunk member
  · exact named

theorem Named.decodes {config : SchedulerConfig} {plan : BatchPlan}
    {active requests : List Request} (named : Named plan active)
    (inside : ∀ request ∈ requests, request ∈ active) :
    Named (scheduleDecodeTokens config requests plan) active := by
  induction requests generalizing plan with
  | nil => exact named
  | cons request requests induction =>
      have rest : ∀ other ∈ requests, other ∈ active :=
        fun other member => inside other (List.mem_cons_of_mem _ member)
      rw [scheduleDecodeTokens]
      split
      · exact induction named rest
      · split
        · exact named
        · refine induction ?_ rest
          intro requestId planned
          simp only [List.mem_append, List.mem_singleton, ← or_assoc] at planned
          rcases planned with old | rfl
          · exact named requestId old
          · exact List.mem_map.mpr ⟨request, inside request List.mem_cons_self, rfl⟩

/-! ## Admitting -/

/-- The state of the admission loop: only admissions of this call are planned. They are the back
of the active queue when victims may be taken and every waiting request has prompt tokens. -/
structure Planned (scheduler : Scheduler) (plan : BatchPlan) : Prop where
  decodes : plan.decodeRequests = []
  prefills : ∀ requestId ∈ plan.prefillRequests,
    requestId ∈ scheduler.active.map (·.requestId)
  newest : scheduler.config.preemptionWatermarkBlocks = 0 ∨
    (∀ request ∈ scheduler.pending, 0 < request.remainingPrefillTokens) ∧
      plan.prefillRequests <:+ scheduler.active.map (·.requestId)

/-- Preempting a request that is older than the planned ones leaves these in place. -/
theorem suffix_preempt {scheduler : Scheduler} {planned : List RequestId} {victim : Request}
    (suffix : planned <:+ scheduler.active.map (·.requestId))
    (older : planned.length < scheduler.active.length)
    (newest : scheduler.active[scheduler.active.length - planned.length - 1]? = some victim)
    (reason : String) :
    planned <:+ (scheduler.preempt victim.requestId reason).2.active.map (·.requestId) := by
  unfold preempt
  split
  · exact suffix
  · rename_i request found
    obtain ⟨front, back, queue, erased, -, before⟩ := findRequest_split found
    simp only [erased, List.map_append]
    rw [queue] at suffix older newest
    -- The victim itself is not in front of the first request with its id.
    have behind : front.length ≤ (front ++ request :: back).length - planned.length - 1 := by
      by_contra inside
      rw [List.getElem?_append_left (by omega)] at newest
      exact before victim (List.mem_of_getElem? newest) rfl
    have short : planned.length ≤ (back.map (·.requestId)).length := by
      simp only [List.length_append, List.length_cons, List.length_map] at behind older ⊢
      omega
    have kept : back.map (·.requestId) <:+ (front ++ request :: back).map (·.requestId) := by
      rw [List.map_append, List.map_cons]
      exact (List.suffix_cons _ _).trans (List.suffix_append _ _)
    exact (List.suffix_of_suffix_length_le suffix kept short).trans (List.suffix_append _ _)

theorem planned_step {scheduler after : Scheduler} {plan planned : BatchPlan}
    (action : AdmissionStep (scheduler, plan) (after, planned))
    (valid : Planned scheduler plan) : Planned after planned := by
  obtain ⟨decodes, prefills, newest⟩ := valid
  cases action with
  | @reclaim _ _ victim watermark older found =>
      obtain ⟨positive, suffix⟩ := newest.resolve_left watermark
      have frame := reclaimed_preempt scheduler victim.requestId "cache pressure watermark"
      have suffix' := suffix_preempt suffix older found "cache pressure watermark"
      refine ⟨decodes, fun requestId member => suffix'.subset member, Or.inr ⟨?_, suffix'⟩⟩
      rwa [frame.pending]
  | refuse waiting refused => exact ⟨decodes, prefills, newest⟩
  | @accept _ _ position candidate cache waiting fits =>
      refine ⟨by simpa using decodes, ?_, ?_⟩
      · intro requestId member
        rw [admitAt, List.map_append, List.mem_append]
        rcases mem_schedulePrefillChunk member with old | rfl
        · exact Or.inl (prefills requestId old)
        · exact Or.inr (by simp)
      · refine newest.imp_right fun waiting_first => ?_
        obtain ⟨positive, suffix⟩ := waiting_first
        refine ⟨?_, ?_⟩
        · intro request member
          obtain ⟨earlier, inside, skips, rfl⟩ := mem_skipBefore member
          exact positive earlier inside
        · have remaining := positive candidate (List.mem_of_getElem? waiting)
          rw [prefillRequests_schedulePrefillChunk _ fits.budget]
          · simp only [admitAt, List.map_append, List.map_cons, List.map_nil]
            obtain ⟨front, equal⟩ := suffix
            exact ⟨front, by rw [← List.append_assoc, equal]⟩
          · rw [admittedRequest, if_neg remaining.ne']
            exact remaining

/-- A plan names active requests only, when nothing is preempted on the way or every waiting
request has prompt tokens. -/
theorem named_scheduleNext {scheduler : Scheduler}
    (safe : scheduler.config.preemptionWatermarkBlocks = 0 ∨
      ∀ request ∈ scheduler.pending, 0 < request.remainingPrefillTokens) :
    Named scheduler.scheduleNext.1 scheduler.scheduleNext.2.active := by
  have start : Planned scheduler .empty :=
    ⟨rfl, by simp [BatchPlan.empty], safe.imp_right fun positive =>
      ⟨positive, List.nil_suffix⟩⟩
  obtain ⟨decodes, prefills, -⟩ := scheduleNext_induction
    (fun _ _ _ _ action valid => planned_step action valid) start
  have admitted : Named scheduler.admitPending.2.1 scheduler.scheduleNext.2.active := by
    intro requestId planned
    rw [decodes] at planned
    exact prefills requestId (planned.resolve_right List.not_mem_nil)
  exact (admitted.prefills _).decodes fun request member => member

/-! ## Runs -/

/-- A plan names active requests only: in every run without automatic preemption, and in every run
in which no enqueued request has an empty prompt. -/
theorem planned_requests_active (config : SchedulerConfig) (cache : KVCacheManager)
    (ops : List SchedulerOp)
    (safe : config.preemptionWatermarkBlocks = 0 ∨
      ∀ request, .enqueue request ∈ ops → 0 < request.promptTokens) :
    let scheduler := (create config cache).run ops
    Named scheduler.scheduleNext.1 scheduler.scheduleNext.2.active := by
  refine named_scheduleNext ?_
  rw [config_run]
  refine safe.imp_right fun positive => ?_
  exact pending_run (fun _ _ holds => holds) (by simp [create]) positive

/-- The newest request is preempted to make room. -/
theorem planned_requests_active_preempting :
    ((create ⟨8, 8, 1, false, 0, by decide⟩ fourFrameCache).run
        [.enqueue (.ofTokens 1 3 0), .scheduleNext, .enqueue (.ofTokens 2 2 0)]
      ).scheduleNext.2.preempted.map (·.requestId) = [1] ∧
    Named ((create ⟨8, 8, 1, false, 0, by decide⟩ fourFrameCache).run
        [.enqueue (.ofTokens 1 3 0), .scheduleNext, .enqueue (.ofTokens 2 2 0)]
      ).scheduleNext.1
      ((create ⟨8, 8, 1, false, 0, by decide⟩ fourFrameCache).run
        [.enqueue (.ofTokens 1 3 0), .scheduleNext, .enqueue (.ofTokens 2 2 0)]
      ).scheduleNext.2.active := by
  refine ⟨by decide +kernel, planned_requests_active _ _ _ (Or.inr ?_)⟩
  intro request member
  simp only [List.mem_cons, List.not_mem_nil, or_false, reduceCtorEq, SchedulerOp.enqueue.injEq,
    false_or] at member
  rcases member with rfl | rfl <;> decide

/-- A request without prompt tokens is admitted between two others. -/
def emptyPromptOps : List SchedulerOp :=
  [.enqueue (.ofTokens 1 2 0), .enqueue (.ofTokens 2 0 1), .enqueue (.ofTokens 3 3 0)]

/-- It is admitted but not counted, so the first request is planned and then preempted to make
room for the third. -/
theorem planned_request_preempted :
    let after := ((create ⟨8, 8, 1, false, 0, by decide⟩ fourFrameCache).run
      emptyPromptOps).scheduleNext
    1 ∈ after.1.prefillRequests ∧ 1 ∉ after.2.active.map (·.requestId) ∧
      1 ∈ after.2.preempted.map (·.requestId) := by
  decide +kernel

end Scheduler
end QwenVLPaged
