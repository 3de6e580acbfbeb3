import QwenVLPaged.BatchPlanning
import QwenVLPaged.RequestIdentity

/-!
# The token budget of a batch plan

Fresh admissions, continuing prefills and decode steps draw on one budget. A plan spends it
without naming a request twice, and leaves some of it only when every schedulable active request
has its share.
-/

namespace QwenVLPaged

/-- Planned chunks with the requests they belong to. -/
def BatchPlan.chunks (plan : BatchPlan) : List (RequestId × ℕ) :=
  plan.prefillRequests.zip plan.prefillTokens

/-- A plan over some requests spends at most the budget, names nobody twice, and gives a request
at most the prompt tokens it has left. -/
structure BatchPlan.Budgeted (plan : BatchPlan) (budget : ℕ) (requests : List Request) :
    Prop where
  lengths : plan.prefillRequests.length = plan.prefillTokens.length
  names : (plan.prefillRequests ++ plan.decodeRequests).Nodup
  total : plan.scheduledTokens = plan.prefillTokens.sum + plan.decodeRequests.length
  within : plan.scheduledTokens ≤ budget
  chunks : ∀ requestId chunk, (requestId, chunk) ∈ plan.chunks → 0 < chunk ∧
    ∃ request ∈ requests, request.requestId = requestId ∧ request.state ≠ .decode ∧
      chunk ≤ request.remainingPrefillTokens

theorem BatchPlan.budgeted_empty (budget : ℕ) (requests : List Request) :
    BatchPlan.empty.Budgeted budget requests := by
  refine ⟨rfl, List.nodup_nil, rfl, Nat.zero_le _, ?_⟩
  simp [BatchPlan.chunks, BatchPlan.empty]

namespace BatchPlan.Budgeted

/-- Every planned prefill has its chunk. -/
theorem mem_chunks {plan : BatchPlan} {budget : ℕ} {requests : List Request}
    (budgeted : plan.Budgeted budget requests) {requestId : RequestId}
    (named : requestId ∈ plan.prefillRequests) : ∃ chunk, (requestId, chunk) ∈ plan.chunks := by
  obtain ⟨position, inside, rfl⟩ := List.mem_iff_getElem.mp named
  have inside' : position < plan.prefillTokens.length := budgeted.lengths ▸ inside
  refine ⟨plan.prefillTokens[position], List.mem_iff_getElem.mpr ⟨position, ?_, ?_⟩⟩
  · rw [BatchPlan.chunks, List.length_zip]
    exact lt_min inside inside'
  · simp [BatchPlan.chunks]

theorem owner {plan : BatchPlan} {budget : ℕ} {requests : List Request}
    (budgeted : plan.Budgeted budget requests) {requestId : RequestId}
    (named : requestId ∈ plan.prefillRequests) :
    ∃ request ∈ requests, request.requestId = requestId ∧ request.state ≠ .decode := by
  obtain ⟨chunk, member⟩ := budgeted.mem_chunks named
  obtain ⟨-, request, inside, same, state, -⟩ := budgeted.chunks requestId chunk member
  exact ⟨request, inside, same, state⟩

/-- A plan goes on to fit requests that have not made progress meanwhile. -/
theorem mono {plan : BatchPlan} {budget : ℕ} {requests requests' : List Request}
    (budgeted : plan.Budgeted budget requests)
    (kept : ∀ request ∈ requests, request.state ≠ .decode → ∃ request' ∈ requests',
      request'.requestId = request.requestId ∧ request'.state ≠ .decode ∧
        request'.remainingPrefillTokens = request.remainingPrefillTokens) :
    plan.Budgeted budget requests' := by
  refine ⟨budgeted.lengths, budgeted.names, budgeted.total, budgeted.within, ?_⟩
  intro requestId chunk member
  obtain ⟨positive, request, inside, same, state, few⟩ := budgeted.chunks requestId chunk member
  obtain ⟨request', inside', same', state', remaining⟩ := kept request inside state
  exact ⟨positive, request', inside', same'.trans same, state', remaining ▸ few⟩

/-- A chunk of a request that is not named yet fits the plan. -/
theorem prefillChunk {config : SchedulerConfig} {plan : BatchPlan} {requests : List Request}
    (budgeted : plan.Budgeted config.maxBatchTokens requests) {request : Request}
    (member : request ∈ requests) (state : request.state ≠ .decode)
    (fresh : request.requestId ∉ plan.prefillRequests ++ plan.decodeRequests) :
    (Scheduler.schedulePrefillChunk config request plan).Budgeted config.maxBatchTokens
      requests := by
  simp only [Scheduler.schedulePrefillChunk]
  split
  · exact budgeted
  split
  · exact budgeted
  split
  · exact budgeted
  rename_i spare positive
  refine ⟨?_, ?_, ?_, ?_, ?_⟩
  · simp [budgeted.lengths]
  · have moved := (List.nodup_cons.mpr ⟨fresh, budgeted.names⟩)
    rw [List.append_assoc, List.singleton_append]
    exact List.perm_middle.nodup_iff.mpr moved
  · have total := budgeted.total
    simp only [List.sum_append, List.sum_singleton]
    omega
  · simp only
    omega
  · intro requestId chunk inside
    rw [BatchPlan.chunks, List.zip_append budgeted.lengths, List.mem_append] at inside
    rcases inside with old | new
    · exact budgeted.chunks requestId chunk old
    · simp only [List.zip_cons_cons, List.zip_nil_right, List.mem_singleton, Prod.mk.injEq] at new
      obtain ⟨rfl, rfl⟩ := new
      exact ⟨Nat.pos_of_ne_zero positive, request, member, rfl, state, min_le_left _ _⟩

/-- A decode step of a request that is not named yet fits the plan. -/
theorem decodeToken {plan : BatchPlan} {budget : ℕ} {requests : List Request}
    (budgeted : plan.Budgeted budget requests) {requestId : RequestId}
    (fresh : requestId ∉ plan.prefillRequests ++ plan.decodeRequests)
    (spare : plan.scheduledTokens < budget) :
    BatchPlan.Budgeted
      { plan with
        decodeRequests := plan.decodeRequests ++ [requestId]
        scheduledTokens := plan.scheduledTokens + 1 } budget requests := by
  refine ⟨budgeted.lengths, ?_, ?_, spare, budgeted.chunks⟩
  · simp only
    rw [← List.append_assoc]
    exact List.nodup_append_comm.mp (by simpa using ⟨by simpa using fresh, budgeted.names⟩)
  · have total := budgeted.total
    simp only [List.length_append, List.length_singleton]
    omega

end BatchPlan.Budgeted

namespace Scheduler

/-- Ids of all queued requests. -/
def requestIds (scheduler : Scheduler) : List RequestId :=
  scheduler.identities.map (·.requestId)

/-- Requests that own cache. -/
def owning (scheduler : Scheduler) : List Request := scheduler.active ++ scheduler.preempted

theorem requestIds_eq (scheduler : Scheduler) :
    scheduler.requestIds =
      scheduler.pending.map (·.requestId) ++ scheduler.owning.map (·.requestId) := by
  simp [requestIds, identities, owners, owning, Request.metadata, Function.comp_def]

theorem nodup_owning {scheduler : Scheduler} (distinct : scheduler.requestIds.Nodup) :
    (scheduler.owning.map (·.requestId)).Nodup := by
  rw [requestIds_eq] at distinct
  exact distinct.of_append_right

theorem nodup_active {scheduler : Scheduler} (distinct : scheduler.requestIds.Nodup) :
    (scheduler.active.map (·.requestId)).Nodup := by
  have owning := nodup_owning distinct
  rw [Scheduler.owning, List.map_append] at owning
  exact owning.of_append_left

/-- A request that owns cache is known by its id. -/
theorem owning_unique {scheduler : Scheduler} (distinct : scheduler.requestIds.Nodup)
    {first second : Request} (left : first ∈ scheduler.owning) (right : second ∈ scheduler.owning)
    (same : first.requestId = second.requestId) : first = second :=
  List.inj_on_of_nodup_map (nodup_owning distinct) left right same

/-- Nobody waits under the id of a request that owns cache. -/
theorem waiting_not_owning {scheduler : Scheduler} (distinct : scheduler.requestIds.Nodup)
    {waiting request : Request} (pending : waiting ∈ scheduler.pending)
    (owning : request ∈ scheduler.owning) : waiting.requestId ≠ request.requestId := by
  intro same
  rw [requestIds_eq] at distinct
  refine List.disjoint_of_nodup_append distinct (List.mem_map_of_mem pending) ?_
  rw [same]
  exact List.mem_map_of_mem owning

/-! ## The admission loop -/

/-- The state of the admission loop: no decode step is planned, and the chunks are within the
budget. -/
structure Spending (scheduler : Scheduler) (plan : BatchPlan) : Prop where
  decodes : plan.decodeRequests = []
  budgeted : plan.Budgeted scheduler.config.maxBatchTokens scheduler.owning

theorem spending_action {scheduler after : Scheduler} {plan planned : BatchPlan}
    (action : AdmissionStep (scheduler, plan) (after, planned))
    (distinct : scheduler.requestIds.Nodup) (spending : Spending scheduler plan) :
    Spending after planned := by
  obtain ⟨decodes, budgeted⟩ := spending
  cases action with
  | @reclaim _ _ victim watermark older newest =>
      obtain same | ⟨request, cache, info, held, found, same⟩ :=
        scheduler.preempt_cases victim.requestId "cache pressure watermark"
      · rw [same]
        exact ⟨decodes, budgeted⟩
      · rw [same]
        refine ⟨decodes, budgeted.mono fun earlier member state => ?_⟩
        simp only [owning, List.mem_append] at member ⊢
        rcases member with running | parked
        · rcases List.mem_cons.mp ((perm_of_findRequest found).mem_iff.mp running) with rfl | kept
          · exact ⟨_, Or.inr (Or.inr List.mem_cons_self), rfl, by simp, rfl⟩
          · exact ⟨earlier, Or.inl kept, rfl, state, rfl⟩
        · exact ⟨earlier, Or.inr (Or.inl parked), rfl, state, rfl⟩
  | refuse waiting refused => exact ⟨decodes, budgeted⟩
  | @accept _ _ position candidate cache waiting fits =>
      have grown : plan.Budgeted scheduler.config.maxBatchTokens
          (scheduler.admitAt position candidate cache).owning := by
        refine budgeted.mono fun earlier member state => ⟨earlier, ?_, rfl, state, rfl⟩
        simp only [owning, admitAt, List.mem_append] at member ⊢
        tauto
      refine ⟨by simpa using decodes, grown.prefillChunk ?_ (by simp [admittedRequest]) ?_⟩
      · simp [owning, admitAt]
      · rw [decodes, List.append_nil]
        intro named
        obtain ⟨request, inside, same, -⟩ := budgeted.owner named
        exact waiting_not_owning distinct (List.mem_of_getElem? waiting) inside same.symm

theorem spending_scheduleNext {scheduler : Scheduler} (distinct : scheduler.requestIds.Nodup) :
    Spending scheduler.scheduleNext.2 scheduler.admitPending.2.1 := by
  have start : Spending scheduler .empty := ⟨rfl, BatchPlan.budgeted_empty _ _⟩
  have loop := scheduleNext_induction
    (motive := fun after plan => after.requestIds.Nodup ∧ Spending after plan)
    (fun _ _ _ _ action ⟨distinct, spending⟩ =>
      ⟨((identities_action action).map _).nodup_iff.mpr distinct,
        spending_action action distinct spending⟩)
    ⟨distinct, start⟩
  exact loop.2

/-! ## Filling up -/

theorem Spending.prefills {scheduler : Scheduler} {plan : BatchPlan}
    (spending : Spending scheduler plan) :
    Spending scheduler (schedulePrefills scheduler.config scheduler.active plan) := by
  unfold schedulePrefills
  refine List.foldlRecOn (motive := Spending scheduler) scheduler.active _ spending ?_
  intro plan spending request member
  split
  · rename_i continuing
    refine ⟨by simpa using spending.decodes, spending.budgeted.prefillChunk ?_ ?_ ?_⟩
    · exact List.mem_append_left _ member
    · simp [continuing.1]
    · rw [spending.decodes, List.append_nil]
      exact continuing.2
  · exact spending

theorem BatchPlan.Budgeted.decodes {config : SchedulerConfig} {requests queue : List Request}
    {plan : BatchPlan} (budgeted : plan.Budgeted config.maxBatchTokens requests)
    (distinct : (queue.map (·.requestId)).Nodup)
    (fresh : ∀ request ∈ queue, request.state = .decode →
      request.requestId ∉ plan.prefillRequests ++ plan.decodeRequests) :
    (scheduleDecodeTokens config queue plan).Budgeted config.maxBatchTokens requests := by
  induction queue generalizing plan with
  | nil => exact budgeted
  | cons request queue induction =>
      obtain ⟨first, later⟩ := List.nodup_cons.mp distinct
      rw [scheduleDecodeTokens]
      split
      · exact induction budgeted later fun other member =>
          fresh other (List.mem_cons_of_mem _ member)
      rename_i decoding
      split
      · exact budgeted
      rename_i spare
      have unnamed := fresh request List.mem_cons_self (not_not.mp decoding)
      refine induction (budgeted.decodeToken unnamed (not_le.mp spare)) later ?_
      intro other member state named
      rw [← List.append_assoc, List.mem_append, List.mem_singleton] at named
      rcases named with old | same
      · exact fresh other (List.mem_cons_of_mem _ member) state old
      · exact first (List.mem_map.mpr ⟨other, member, same⟩)

/-- Only requests in decode get a decode step. -/
theorem mem_scheduleDecodeTokens {config : SchedulerConfig} {queue : List Request}
    {plan : BatchPlan} {requestId : RequestId}
    (member : requestId ∈ (scheduleDecodeTokens config queue plan).decodeRequests) :
    requestId ∈ plan.decodeRequests ∨
      ∃ request ∈ queue, request.requestId = requestId ∧ request.state = .decode := by
  induction queue generalizing plan with
  | nil => exact Or.inl member
  | cons request queue induction =>
      rw [scheduleDecodeTokens] at member
      split at member
      · refine (induction member).imp_right ?_
        rintro ⟨other, inside, rest⟩
        exact ⟨other, List.mem_cons_of_mem _ inside, rest⟩
      split at member
      · exact Or.inl member
      · rename_i decoding _
        rcases induction member with planned | ⟨other, inside, rest⟩
        · rcases List.mem_append.mp planned with old | new
          · exact Or.inl old
          · exact Or.inr ⟨request, List.mem_cons_self, (List.mem_singleton.mp new).symm,
              not_not.mp decoding⟩
        · exact Or.inr ⟨other, List.mem_cons_of_mem _ inside, rest⟩

/-- The plan is filled up from the queue that the admission loop leaves. -/
theorem scheduleNext_plan (scheduler : Scheduler) :
    scheduler.scheduleNext.1 =
      scheduleDecodeTokens scheduler.scheduleNext.2.config scheduler.scheduleNext.2.active
        (schedulePrefills scheduler.scheduleNext.2.config scheduler.scheduleNext.2.active
          scheduler.admitPending.2.1) := rfl

/-- A plan is within the budget and names nobody twice. -/
theorem budgeted_scheduleNext {scheduler : Scheduler} (distinct : scheduler.requestIds.Nodup) :
    scheduler.scheduleNext.1.Budgeted scheduler.config.maxBatchTokens
      scheduler.scheduleNext.2.owning := by
  have distinct' : scheduler.scheduleNext.2.requestIds.Nodup :=
    (scheduler.identities_scheduleNext.map _).nodup_iff.mpr distinct
  have filled := (spending_scheduleNext distinct).prefills
  rw [← scheduler.config_scheduleNext, scheduleNext_plan]
  refine BatchPlan.Budgeted.decodes filled.budgeted (nodup_active distinct') ?_
  intro request member decoding named
  rw [filled.decodes, List.append_nil] at named
  obtain ⟨owner, inside, same, state⟩ := filled.budgeted.owner named
  have unique := owning_unique distinct' inside (List.mem_append_left _ member) same
  exact state (unique ▸ decoding)

theorem decoding_scheduleNext {scheduler : Scheduler} (distinct : scheduler.requestIds.Nodup)
    {requestId : RequestId} (planned : requestId ∈ scheduler.scheduleNext.1.decodeRequests) :
    ∃ request ∈ scheduler.scheduleNext.2.active, request.requestId = requestId ∧
      request.state = .decode := by
  rw [scheduleNext_plan] at planned
  rcases mem_scheduleDecodeTokens planned with early | decoding
  · rw [(spending_scheduleNext distinct).prefills.decodes] at early
    exact absurd early List.not_mem_nil
  · exact decoding

/-! ## Work conservation -/

theorem schedulePrefillChunk_grows (config : SchedulerConfig) (request : Request)
    (plan : BatchPlan) :
    plan.prefillRequests ⊆ (schedulePrefillChunk config request plan).prefillRequests ∧
      plan.scheduledTokens ≤ (schedulePrefillChunk config request plan).scheduledTokens := by
  simp only [schedulePrefillChunk]
  repeat' split
  all_goals exact ⟨by simp, by simp⟩

/-- With budget left over, every request in prefill has a chunk. -/
theorem schedulePrefills_serves (config : SchedulerConfig) (queue : List Request)
    (plan : BatchPlan) :
    plan.prefillRequests ⊆ (schedulePrefills config queue plan).prefillRequests ∧
      plan.scheduledTokens ≤ (schedulePrefills config queue plan).scheduledTokens ∧
      ((schedulePrefills config queue plan).scheduledTokens < config.maxBatchTokens →
        ∀ request ∈ queue, request.state = .prefill → 0 < request.remainingPrefillTokens →
          request.requestId ∈ (schedulePrefills config queue plan).prefillRequests) := by
  induction queue generalizing plan with
  | nil => exact ⟨List.Subset.refl _, le_rfl, by simp⟩
  | cons request queue induction =>
      let next := if request.state = .prefill ∧ request.requestId ∉ plan.prefillRequests then
        schedulePrefillChunk config request plan else plan
      have first : plan.prefillRequests ⊆ next.prefillRequests ∧
          plan.scheduledTokens ≤ next.scheduledTokens := by
        simp only [next]
        split
        · exact schedulePrefillChunk_grows config request plan
        · exact ⟨List.Subset.refl _, le_rfl⟩
      obtain ⟨names, spent, served⟩ := induction next
      refine ⟨List.Subset.trans first.1 names, first.2.trans spent, ?_⟩
      intro spare other member prefill remaining
      rcases List.mem_cons.mp member with rfl | later
      · refine names ?_
        by_cases named : other.requestId ∈ plan.prefillRequests
        · exact first.1 named
        · have budget : plan.scheduledTokens < config.maxBatchTokens :=
            (first.2.trans spent).trans_lt spare
          simp only [next, if_pos (And.intro prefill named),
            prefillRequests_schedulePrefillChunk remaining budget]
          simp
      · exact served spare other later prefill remaining

/-- With budget left over, every request in decode has its token. -/
theorem scheduleDecodeTokens_serves (config : SchedulerConfig) (queue : List Request)
    (plan : BatchPlan) :
    plan.prefillRequests = (scheduleDecodeTokens config queue plan).prefillRequests ∧
      plan.prefillTokens = (scheduleDecodeTokens config queue plan).prefillTokens ∧
      plan.decodeRequests ⊆ (scheduleDecodeTokens config queue plan).decodeRequests ∧
      plan.scheduledTokens ≤ (scheduleDecodeTokens config queue plan).scheduledTokens ∧
      ((scheduleDecodeTokens config queue plan).scheduledTokens < config.maxBatchTokens →
        ∀ request ∈ queue, request.state = .decode →
          request.requestId ∈ (scheduleDecodeTokens config queue plan).decodeRequests) := by
  induction queue generalizing plan with
  | nil => exact ⟨rfl, rfl, List.Subset.refl _, le_rfl, by simp⟩
  | cons request queue induction =>
      rw [scheduleDecodeTokens]
      split
      · rename_i other
        obtain ⟨same, tokens, names, spent, served⟩ := induction plan
        refine ⟨same, tokens, names, spent, fun spare candidate member decoding => ?_⟩
        rcases List.mem_cons.mp member with rfl | later
        · exact absurd decoding other
        · exact served spare candidate later decoding
      split
      · rename_i full
        refine ⟨rfl, rfl, List.Subset.refl _, le_rfl, fun spare => ?_⟩
        exact absurd full (not_le.mpr spare)
      · obtain ⟨same, tokens, names, spent, served⟩ := induction
          { plan with
            decodeRequests := plan.decodeRequests ++ [request.requestId]
            scheduledTokens := plan.scheduledTokens + 1 }
        refine ⟨same, tokens, List.Subset.trans (List.subset_append_left _ _) names,
          (Nat.le_succ _).trans spent, fun spare candidate member decoding => ?_⟩
        rcases List.mem_cons.mp member with rfl | later
        · exact names (by simp)
        · exact served spare candidate later decoding

/-- One of the two passes over the active queue picks the request up. -/
def Schedulable (request : Request) : Prop :=
  request.state = .prefill ∧ 0 < request.remainingPrefillTokens ∨ request.state = .decode

/-- With budget left over, a plan serves every schedulable active request. -/
theorem scheduleNext_serves {scheduler : Scheduler} {request : Request}
    (spare : scheduler.scheduleNext.1.scheduledTokens < scheduler.config.maxBatchTokens)
    (active : request ∈ scheduler.scheduleNext.2.active) (schedulable : Schedulable request) :
    request.requestId ∈ scheduler.scheduleNext.1.prefillRequests ∨
      request.requestId ∈ scheduler.scheduleNext.1.decodeRequests := by
  rw [← scheduler.config_scheduleNext, scheduleNext_plan] at spare
  rw [scheduleNext_plan]
  obtain ⟨same, -, -, spent, decoded⟩ := scheduleDecodeTokens_serves
    scheduler.scheduleNext.2.config scheduler.scheduleNext.2.active
    (schedulePrefills scheduler.scheduleNext.2.config scheduler.scheduleNext.2.active
      scheduler.admitPending.2.1)
  obtain ⟨-, -, prefilled⟩ := schedulePrefills_serves scheduler.scheduleNext.2.config
    scheduler.scheduleNext.2.active scheduler.admitPending.2.1
  rcases schedulable with ⟨prefill, remaining⟩ | decoding
  · refine Or.inl ?_
    rw [← same]
    exact prefilled (spent.trans_lt spare) request active prefill remaining
  · exact Or.inr (decoded spare request active decoding)

/-! ## Runs -/

/-- Every waiting request has prompt tokens left, and every active one can be scheduled. -/
structure Lively (scheduler : Scheduler) : Prop where
  waiting : ∀ request ∈ scheduler.pending, 0 < request.remainingPrefillTokens
  running : ∀ request ∈ scheduler.active, Schedulable request

theorem schedulable_complete {request : Request} (schedulable : Schedulable request)
    (producedTokens : ℕ) : Schedulable (request.complete producedTokens) := by
  unfold Request.complete
  split
  · rename_i prefill
    split
    · exact Or.inr rfl
    · exact Or.inl ⟨prefill, by simp only; omega⟩
  · exact schedulable

theorem lively_action {scheduler after : Scheduler} {plan planned : BatchPlan}
    (action : AdmissionStep (scheduler, plan) (after, planned)) (lively : Lively scheduler) :
    Lively after := by
  obtain ⟨waiting, running⟩ := lively
  cases action with
  | @reclaim _ _ victim watermark older newest =>
      obtain same | ⟨request, cache, info, held, found, same⟩ :=
        scheduler.preempt_cases victim.requestId "cache pressure watermark"
      · rw [same]
        exact ⟨waiting, running⟩
      · rw [same]
        exact ⟨waiting, fun request member => running request (mem_eraseRequest member)⟩
  | refuse _ refused => exact ⟨waiting, running⟩
  | @accept _ _ position candidate cache found fits =>
      have remaining := waiting candidate (List.mem_of_getElem? found)
      refine ⟨fun request member => ?_, fun request member => ?_⟩
      · obtain ⟨earlier, inside, skips, rfl⟩ := mem_skipBefore member
        exact waiting earlier inside
      · rcases List.mem_append.mp member with old | new
        · exact running request old
        · rw [List.mem_singleton.mp new]
          refine Or.inl ⟨rfl, ?_⟩
          simpa only [admittedRequest, if_neg remaining.ne'] using remaining

theorem lively_step {scheduler : Scheduler} {op : SchedulerOp} (lively : Lively scheduler)
    (prompted : ∀ request, op = .enqueue request → 0 < request.promptTokens) :
    Lively (scheduler.step op) := by
  obtain ⟨waiting, running⟩ := lively
  cases op with
  | enqueue request =>
      refine ⟨fun other member => ?_, running⟩
      rcases List.mem_append.mp member with old | new
      · exact waiting other old
      · rw [List.mem_singleton.mp new]
        exact prompted request rfl
  | scheduleNext =>
      exact scheduleNext_induction (motive := fun after _ => Lively after)
        (fun _ _ _ _ action => lively_action action) ⟨waiting, running⟩
  | completeStep requestId producedTokens =>
      refine ⟨waiting, fun request member => ?_⟩
      obtain ⟨earlier, inside, rfl | rfl⟩ := mem_completeStep member
      · exact running request inside
      · exact schedulable_complete (running earlier inside) producedTokens
  | preempt requestId reason =>
      obtain same | ⟨request, cache, info, held, found, same⟩ :=
        scheduler.preempt_cases requestId reason
      · rw [step, same]
        exact ⟨waiting, running⟩
      · rw [step, same]
        exact ⟨waiting, fun request member => running request (mem_eraseRequest member)⟩
  | resume requestId =>
      obtain ⟨cache, same⟩ | ⟨request, cache, state, found, restored, turned, same⟩ :=
        scheduler.resume_cases requestId
      · rw [step, same]
        exact ⟨waiting, running⟩
      · rw [step, same]
        refine ⟨waiting, fun other member => ?_⟩
        rcases List.mem_append.mp member with old | new
        · exact running other old
        · rw [List.mem_singleton.mp new, Schedulable, turned]
          split
          · exact Or.inl ⟨rfl, by assumption⟩
          · exact Or.inr rfl
  | cancel requestId =>
      exact ⟨fun request member => waiting request (mem_cancel.1 member),
        fun request member => running request (mem_cancel.2.1 member)⟩
  | cache op => exact ⟨waiting, running⟩

theorem lively_run (config : SchedulerConfig) (cache : KVCacheManager) {ops : List SchedulerOp}
    (prompted : ∀ request, .enqueue request ∈ ops → 0 < request.promptTokens) :
    Lively ((create config cache).run ops) := by
  refine (Execution.run_induction
    (motive := fun (scheduler : Scheduler) ops => Lively scheduler ∧
      ∀ request, .enqueue request ∈ ops → 0 < request.promptTokens) ?_
    ⟨⟨by simp [create], by simp [create]⟩, prompted⟩).1
  rintro scheduler op ops ⟨lively, prompted⟩
  refine ⟨lively_step lively ?_, fun request member => ?_⟩
  · rintro request rfl
    exact prompted request List.mem_cons_self
  · exact prompted request (List.mem_cons_of_mem _ member)

/-- A batch with budget left over serves every active request, in every run whose requests have
prompt tokens. -/
theorem work_conserving (config : SchedulerConfig) (cache : KVCacheManager)
    (ops : List SchedulerOp)
    (prompted : ∀ request, .enqueue request ∈ ops → 0 < request.promptTokens)
    (distinct : ((create config cache).run ops).requestIds.Nodup) :
    let scheduler := (create config cache).run ops
    scheduler.scheduleNext.1.scheduledTokens < config.maxBatchTokens →
      ∀ request ∈ scheduler.scheduleNext.2.active,
        (∃ chunk, 0 < chunk ∧ (request.requestId, chunk) ∈ scheduler.scheduleNext.1.chunks) ∨
          request.requestId ∈ scheduler.scheduleNext.1.decodeRequests := by
  intro scheduler spare request active
  have lively : Lively (scheduler.step .scheduleNext) :=
    lively_step (lively_run config cache prompted) (by simp)
  have budgeted := budgeted_scheduleNext distinct
  have same : scheduler.config = config := config_run (create config cache) ops
  rw [← same] at spare
  rcases scheduleNext_serves spare active (lively.running request active) with prefill | decoding
  · obtain ⟨chunk, member⟩ := budgeted.mem_chunks prefill
    exact Or.inl ⟨chunk, (budgeted.chunks _ chunk member).1, member⟩
  · exact Or.inr decoding

/-- One request decodes while another one is admitted. -/
def servedOps : List SchedulerOp :=
  [.enqueue (.ofTokens 1 2 1), .scheduleNext, .completeStep 1 2, .enqueue (.ofTokens 2 1 0)]

/-- Both are in the next plan. -/
theorem work_conserving_served :
    (((create plainConfig fourFrameCache).run servedOps).scheduleNext.2.active.map
        (·.requestId)) = [1, 2] ∧
      ∀ request ∈ ((create plainConfig fourFrameCache).run servedOps).scheduleNext.2.active,
        (∃ chunk, 0 < chunk ∧ (request.requestId, chunk) ∈
          ((create plainConfig fourFrameCache).run servedOps).scheduleNext.1.chunks) ∨
        request.requestId ∈
          ((create plainConfig fourFrameCache).run servedOps).scheduleNext.1.decodeRequests := by
  refine ⟨by decide +kernel, work_conserving plainConfig fourFrameCache servedOps ?_
    (by decide +kernel) (by decide +kernel)⟩
  intro request member
  simp only [servedOps, List.mem_cons, List.not_mem_nil, or_false, reduceCtorEq,
    SchedulerOp.enqueue.injEq, false_or] at member
  rcases member with rfl | rfl <;> decide

/-- A request without prompt tokens is admitted in prefill with nothing to prefill: the plan is
empty and so is every later one. -/
theorem empty_prompt_never_scheduled :
    let scheduler := (create plainConfig fourFrameCache).run [.enqueue (.ofTokens 1 0 1)]
    scheduler.requestIds = [1] ∧ scheduler.scheduleNext.1.scheduledTokens = 0 ∧
      scheduler.scheduleNext.2.active.map (·.requestId) = [1] ∧
      1 ∉ scheduler.scheduleNext.1.prefillRequests ∧
      1 ∉ scheduler.scheduleNext.1.decodeRequests ∧
      scheduler.scheduleNext.2.scheduleNext.1 = .empty := by
  decide +kernel

end Scheduler
end QwenVLPaged
