import QwenVLPaged.PlanBudget

/-!
# Conservation of prefill work

A driver answers every planned chunk with one `completeStep` before it asks for the next plan. The
prompt tokens of a request are then acknowledged exactly once, whatever is preempted and resumed
between the plan and the answer.
-/

namespace QwenVLPaged

/-- The scheduler and what its driver remembers: the planned chunks not answered yet, the planned
decode steps, and the prompt tokens acknowledged for each request while it was active. -/
structure Driver where
  scheduler : Scheduler
  owed : List (RequestId × ℕ)
  decoding : List RequestId
  acknowledged : RequestId → ℕ

namespace Driver

/-- A driver of a fresh scheduler. -/
def create (config : SchedulerConfig) (cache : KVCacheManager) : Driver :=
  ⟨.create config cache, [], [], fun _ => 0⟩

/-- The answer to a planned chunk counts while its request is active. -/
def answer (driver : Driver) (requestId : RequestId) (producedTokens : ℕ) : RequestId → ℕ :=
  if (requestId, producedTokens) ∈ driver.owed ∧
      (findRequest driver.scheduler.active requestId).isSome then
    Function.update driver.acknowledged requestId
      (driver.acknowledged requestId + producedTokens)
  else
    driver.acknowledged

/-- Execute one call and keep the books. -/
def step (driver : Driver) : SchedulerOp → Driver
  | .scheduleNext =>
      let (plan, scheduler) := driver.scheduler.scheduleNext
      { driver with scheduler, owed := plan.chunks, decoding := plan.decodeRequests }
  | .completeStep requestId producedTokens =>
      { driver with
        scheduler := driver.scheduler.completeStep requestId producedTokens
        owed := driver.owed.erase (requestId, producedTokens)
        acknowledged := driver.answer requestId producedTokens }
  | op => { driver with scheduler := driver.scheduler.step op }

/-- Execute a list of calls. -/
def run (driver : Driver) (ops : List SchedulerOp) : Driver := Execution.run step driver ops

/-- The next plan waits for all answers, and a step is completed only in answer to a planned chunk
or a planned decode step. -/
def Answering (driver : Driver) : SchedulerOp → Prop
  | .scheduleNext => driver.owed = []
  | .completeStep requestId producedTokens =>
      (requestId, producedTokens) ∈ driver.owed ∨ requestId ∈ driver.decoding
  | _ => True

instance (driver : Driver) : DecidablePred driver.Answering
  | .scheduleNext => inferInstanceAs (Decidable (driver.owed = []))
  | .completeStep requestId producedTokens =>
      inferInstanceAs (Decidable ((requestId, producedTokens) ∈ driver.owed ∨
        requestId ∈ driver.decoding))
  | .enqueue _ | .preempt _ _ | .resume _ | .cancel _ | .cache _ => .isTrue trivial

/-! ## The tally -/

/-- Acknowledged and remaining prompt tokens make up the prompt. -/
structure Tallied (acknowledged : RequestId → ℕ) (scheduler : Scheduler) : Prop where
  waiting : ∀ request ∈ scheduler.pending,
    request.remainingPrefillTokens = request.promptTokens ∧ acknowledged request.requestId = 0
  owning : ∀ request ∈ scheduler.owning,
    acknowledged request.requestId + request.remainingPrefillTokens = request.promptTokens
  decoded : ∀ request ∈ scheduler.active, request.state ≠ .prefill →
    request.remainingPrefillTokens = 0

theorem tallied_preempt {acknowledged : RequestId → ℕ} {scheduler : Scheduler}
    (tallied : Tallied acknowledged scheduler) (requestId : RequestId) (reason : String) :
    Tallied acknowledged (scheduler.preempt requestId reason).2 := by
  obtain ⟨waiting, owning, decoded⟩ := tallied
  obtain same | ⟨request, cache, info, held, found, same⟩ :=
    scheduler.preempt_cases requestId reason
  · rw [same]
    exact ⟨waiting, owning, decoded⟩
  · rw [same]
    refine ⟨waiting, fun other member => ?_, fun other member => ?_⟩
    · simp only [Scheduler.owning, List.mem_append, List.mem_singleton] at member
      rcases member with kept | parked | rfl
      · exact owning other (List.mem_append_left _ (Scheduler.mem_eraseRequest kept))
      · exact owning other (List.mem_append_right _ parked)
      · exact owning request (List.mem_append_left _ (mem_of_findRequest found))
    · exact decoded other (Scheduler.mem_eraseRequest member)

theorem tallied_action {acknowledged : RequestId → ℕ} {scheduler after : Scheduler}
    {plan planned : BatchPlan}
    (action : Scheduler.AdmissionStep (scheduler, plan) (after, planned))
    (tallied : Tallied acknowledged scheduler) : Tallied acknowledged after := by
  cases action with
  | reclaim watermark older newest => exact tallied_preempt tallied _ _
  | refuse waiting refused => exact ⟨tallied.waiting, tallied.owning, tallied.decoded⟩
  | @accept _ _ position candidate cache found fits =>
      obtain ⟨whole, unanswered⟩ := tallied.waiting candidate (List.mem_of_getElem? found)
      refine ⟨fun request member => ?_, fun request member => ?_, fun request member => ?_⟩
      · obtain ⟨earlier, inside, skips, rfl⟩ := Scheduler.mem_skipBefore member
        exact tallied.waiting earlier inside
      · simp only [Scheduler.owning, Scheduler.admitAt, List.mem_append,
          List.mem_singleton] at member
        rcases member with (old | rfl) | parked
        · exact tallied.owning request (List.mem_append_left _ old)
        · simp only [Scheduler.admittedRequest, unanswered, whole, ite_self, zero_add]
        · exact tallied.owning request (List.mem_append_right _ parked)
      · rcases List.mem_append.mp member with old | new
        · exact tallied.decoded request old
        · rw [List.mem_singleton.mp new]
          exact fun other => absurd rfl other

theorem tallied_scheduleNext {acknowledged : RequestId → ℕ} {scheduler : Scheduler}
    (tallied : Tallied acknowledged scheduler) :
    Tallied acknowledged scheduler.scheduleNext.2 :=
  Scheduler.scheduleNext_induction (motive := fun after _ => Tallied acknowledged after)
    (fun _ _ _ _ action => tallied_action action) tallied

theorem tallied_resume {acknowledged : RequestId → ℕ} {scheduler : Scheduler}
    (tallied : Tallied acknowledged scheduler) (requestId : RequestId) :
    Tallied acknowledged (scheduler.resume requestId).2 := by
  obtain ⟨waiting, owning, decoded⟩ := tallied
  obtain ⟨cache, same⟩ | ⟨request, cache, state, found, restored, turned, same⟩ :=
    scheduler.resume_cases requestId
  · rw [same]
    exact ⟨waiting, owning, decoded⟩
  · rw [same]
    refine ⟨waiting, fun other member => ?_, fun other member => ?_⟩
    · simp only [Scheduler.owning, List.mem_append, List.mem_singleton] at member
      rcases member with (old | rfl) | kept
      · exact owning other (List.mem_append_left _ old)
      · exact owning request (List.mem_append_right _ (mem_of_findRequest found))
      · exact owning other (List.mem_append_right _ (Scheduler.mem_eraseRequest kept))
    · rcases List.mem_append.mp member with old | new
      · exact decoded other old
      · rw [List.mem_singleton.mp new]
        intro state
        simp only [turned] at state ⊢
        split at state
        · exact absurd rfl state
        · omega

theorem tallied_cancel {acknowledged : RequestId → ℕ} {scheduler : Scheduler}
    (tallied : Tallied acknowledged scheduler) (requestId : RequestId) :
    Tallied acknowledged (scheduler.cancel requestId) := by
  refine ⟨fun request member => tallied.waiting request (Scheduler.mem_cancel.1 member),
    fun request member => tallied.owning request ?_,
    fun request member => tallied.decoded request (Scheduler.mem_cancel.2.1 member)⟩
  rcases List.mem_append.mp member with active | preempted
  · exact List.mem_append_left _ (Scheduler.mem_cancel.2.1 active)
  · exact List.mem_append_right _ (Scheduler.mem_cancel.2.2 preempted)

/-! ## The balance -/

/-- The books of the driver while `future` is still to be enqueued. -/
structure Balanced (driver : Driver) (future : List RequestId) : Prop where
  distinct : (driver.scheduler.requestIds ++ future).Nodup
  unborn : ∀ requestId ∈ future, driver.acknowledged requestId = 0
  tallied : Tallied driver.acknowledged driver.scheduler
  single : (driver.owed.map Prod.fst).Nodup
  owed : ∀ requestId chunk, (requestId, chunk) ∈ driver.owed →
    ∀ request ∈ driver.scheduler.owning, request.requestId = requestId →
      chunk ≤ request.remainingPrefillTokens
  decoding : ∀ requestId ∈ driver.decoding,
    ∀ request ∈ driver.scheduler.owning, request.requestId = requestId →
      request.remainingPrefillTokens = 0

/-- No request that owns cache makes progress. -/
def Idle (before after : Scheduler) : Prop :=
  ∀ request ∈ after.owning, ∃ earlier ∈ before.owning,
    earlier.requestId = request.requestId ∧
      earlier.remainingPrefillTokens = request.remainingPrefillTokens

theorem Balanced.idle {driver : Driver} {future future' : List RequestId} {after : Scheduler}
    (balanced : driver.Balanced future) (idle : Idle driver.scheduler after)
    (tallied : Tallied driver.acknowledged after)
    (distinct : (after.requestIds ++ future').Nodup) (later : future' ⊆ future) :
    Balanced { driver with scheduler := after } future' := by
  refine ⟨distinct, fun requestId member => balanced.unborn requestId (later member), tallied,
    balanced.single, ?_, ?_⟩
  · intro requestId chunk member request inside named
    obtain ⟨earlier, before, same, remaining⟩ := idle request inside
    exact remaining ▸ balanced.owed requestId chunk member earlier before (same.trans named)
  · intro requestId member request inside named
    obtain ⟨earlier, before, same, remaining⟩ := idle request inside
    exact remaining ▸ balanced.decoding requestId member earlier before (same.trans named)

theorem idle_of_subset {before after : Scheduler} (subset : after.owning ⊆ before.owning) :
    Idle before after :=
  fun request member => ⟨request, subset member, rfl, rfl⟩

theorem idle_preempt (scheduler : Scheduler) (requestId : RequestId) (reason : String) :
    Idle scheduler (scheduler.preempt requestId reason).2 := by
  obtain same | ⟨request, cache, info, held, found, same⟩ :=
    scheduler.preempt_cases requestId reason
  · rw [same]
    exact idle_of_subset (List.Subset.refl _)
  · rw [same]
    intro other member
    simp only [Scheduler.owning, List.mem_append, List.mem_singleton] at member
    rcases member with kept | parked | rfl
    · exact ⟨other, List.mem_append_left _ (Scheduler.mem_eraseRequest kept), rfl, rfl⟩
    · exact ⟨other, List.mem_append_right _ parked, rfl, rfl⟩
    · exact ⟨request, List.mem_append_left _ (mem_of_findRequest found), rfl, rfl⟩

theorem idle_resume (scheduler : Scheduler) (requestId : RequestId) :
    Idle scheduler (scheduler.resume requestId).2 := by
  obtain ⟨cache, same⟩ | ⟨request, cache, state, found, -, -, same⟩ :=
    scheduler.resume_cases requestId
  · rw [same]
    exact idle_of_subset (List.Subset.refl _)
  · rw [same]
    intro other member
    simp only [Scheduler.owning, List.mem_append, List.mem_singleton] at member
    rcases member with (old | rfl) | kept
    · exact ⟨other, List.mem_append_left _ old, rfl, rfl⟩
    · exact ⟨request, List.mem_append_right _ (mem_of_findRequest found), rfl, rfl⟩
    · exact ⟨other, List.mem_append_right _ (Scheduler.mem_eraseRequest kept), rfl, rfl⟩

theorem idle_cancel (scheduler : Scheduler) (requestId : RequestId) :
    Idle scheduler (scheduler.cancel requestId) := by
  refine idle_of_subset fun request member => ?_
  rcases List.mem_append.mp member with active | preempted
  · exact List.mem_append_left _ (Scheduler.mem_cancel.2.1 active)
  · exact List.mem_append_right _ (Scheduler.mem_cancel.2.2 preempted)

theorem balanced_scheduleNext {driver : Driver} {future : List RequestId}
    (balanced : driver.Balanced future)
    (distinct : (driver.scheduler.scheduleNext.2.requestIds ++ future).Nodup) :
    (driver.step .scheduleNext).Balanced future := by
  have now : driver.scheduler.requestIds.Nodup := balanced.distinct.of_append_left
  have after : driver.scheduler.scheduleNext.2.requestIds.Nodup := distinct.of_append_left
  have budgeted := Scheduler.budgeted_scheduleNext now
  have tallied := tallied_scheduleNext balanced.tallied
  refine ⟨distinct, balanced.unborn, tallied, ?_, ?_, ?_⟩
  · have names : driver.scheduler.scheduleNext.1.chunks.map Prod.fst =
        driver.scheduler.scheduleNext.1.prefillRequests :=
      List.map_fst_zip budgeted.lengths.le
    exact names ▸ budgeted.names.of_append_left
  · intro requestId chunk member request inside named
    obtain ⟨-, owner, owning, same, -, few⟩ := budgeted.chunks requestId chunk member
    rwa [Scheduler.owning_unique after inside owning (named.trans same.symm)]
  · intro requestId member request inside named
    obtain ⟨owner, active, same, decoding⟩ := Scheduler.decoding_scheduleNext now member
    rw [Scheduler.owning_unique after inside (List.mem_append_left _ active)
      (named.trans same.symm)]
    exact tallied.decoded owner active (by simp [decoding])

/-- Completing a step takes the produced tokens off the remaining ones. -/
theorem remaining_complete {request : Request}
    (decoded : request.state ≠ .prefill → request.remainingPrefillTokens = 0)
    (producedTokens : ℕ) :
    (request.complete producedTokens).remainingPrefillTokens =
      request.remainingPrefillTokens - producedTokens ∧
    (request.complete producedTokens).promptTokens = request.promptTokens ∧
    ((request.complete producedTokens).state ≠ .prefill →
      (request.complete producedTokens).remainingPrefillTokens = 0) := by
  unfold Request.complete
  split
  · rename_i prefill
    split
    · rename_i enough
      exact ⟨(Nat.sub_eq_zero_of_le enough).symm, rfl, fun _ => rfl⟩
    · exact ⟨rfl, rfl, fun state => absurd prefill state⟩
  · rename_i state
    refine ⟨?_, rfl, decoded⟩
    rw [decoded state, Nat.zero_sub]

/-- An answer balances the books of the request it is about. -/
theorem Balanced.answered {driver : Driver} {future : List RequestId}
    (balanced : driver.Balanced future) {requestId : RequestId} {producedTokens : ℕ}
    (answering : driver.Answering (.completeStep requestId producedTokens)) {request : Request}
    (found : findRequest driver.scheduler.active requestId = some request)
    (named : request.requestId = requestId) :
    driver.answer requestId producedTokens requestId +
      (request.remainingPrefillTokens - producedTokens) = request.promptTokens := by
  have owning : request ∈ driver.scheduler.owning :=
    List.mem_append_left _ (mem_of_findRequest found)
  have tally := balanced.tallied.owning request owning
  rw [named] at tally
  unfold answer
  split
  · rename_i counted
    have few := balanced.owed requestId producedTokens counted.1 request owning named
    rw [Function.update_self]
    omega
  · rename_i uncounted
    have unplanned : (requestId, producedTokens) ∉ driver.owed :=
      fun member => uncounted ⟨member, by simp [found]⟩
    have done := balanced.decoding requestId (answering.resolve_left unplanned) request owning
      named
    omega

theorem answer_other {driver : Driver} {requestId other : RequestId} (different : other ≠ requestId)
    (producedTokens : ℕ) :
    driver.answer requestId producedTokens other = driver.acknowledged other := by
  unfold answer
  split
  · exact Function.update_of_ne different _ _
  · rfl

/-- The other requests stay as they are. -/
theorem mem_owning_completed {scheduler : Scheduler} (distinct : scheduler.requestIds.Nodup)
    {request : Request} {front back : List Request}
    (queue : scheduler.active = front ++ request :: back) (completed : Request) :
    ∀ other ∈ Scheduler.owning { scheduler with active := front ++ completed :: back },
      other = completed ∨ other ∈ scheduler.owning ∧ other.requestId ≠ request.requestId := by
  intro other member
  have ids := Scheduler.nodup_owning distinct
  simp only [Scheduler.owning, queue, List.append_assoc, List.cons_append] at ids member ⊢
  rw [List.map_append, List.map_cons, List.perm_middle.nodup_iff, List.nodup_cons,
    ← List.map_append] at ids
  rcases List.mem_cons.mp (List.perm_middle.mem_iff.mp member) with rfl | elsewhere
  · exact Or.inl rfl
  · refine Or.inr ⟨List.perm_middle.mem_iff.mpr (List.mem_cons_of_mem _ elsewhere), ?_⟩
    intro same
    exact ids.1 (List.mem_map.mpr ⟨other, elsewhere, same⟩)

theorem tallied_answered {driver : Driver} {future : List RequestId}
    (balanced : driver.Balanced future) {requestId : RequestId} {producedTokens : ℕ}
    (answering : driver.Answering (.completeStep requestId producedTokens)) {request : Request}
    {front back : List Request}
    (found : findRequest driver.scheduler.active requestId = some request)
    (named : request.requestId = requestId)
    (queue : driver.scheduler.active = front ++ request :: back) :
    Tallied (driver.answer requestId producedTokens)
      { driver.scheduler with active := front ++ request.complete producedTokens :: back } := by
  have now : driver.scheduler.requestIds.Nodup := balanced.distinct.of_append_left
  have active : request ∈ driver.scheduler.active := mem_of_findRequest found
  obtain ⟨remaining, prompt, turned⟩ := remaining_complete
    (balanced.tallied.decoded request active) producedTokens
  have name : (request.complete producedTokens).requestId = requestId :=
    (congrArg SequenceMetadata.requestId (metadata_complete request producedTokens)).trans named
  have others := mem_owning_completed now queue (request.complete producedTokens)
  refine ⟨fun waiting member => ?_, fun other member => ?_, fun other member => ?_⟩
  · have different : waiting.requestId ≠ requestId :=
      named ▸ Scheduler.waiting_not_owning now member (List.mem_append_left _ active)
    rw [answer_other different]
    exact balanced.tallied.waiting waiting member
  · rcases others other member with rfl | ⟨inside, different⟩
    · rw [name, remaining, prompt]
      exact balanced.answered answering found named
    · rw [answer_other (named ▸ different)]
      exact balanced.tallied.owning other inside
  · have split := List.perm_middle.mem_iff.mp member
    rcases List.mem_cons.mp split with rfl | elsewhere
    · exact turned
    · refine balanced.tallied.decoded other ?_
      rw [queue]
      exact List.perm_middle.mem_iff.mpr (List.mem_cons_of_mem _ elsewhere)

/-- The answered chunk is struck off, and the books of everybody else stay. -/
theorem balanced_completeStep {driver : Driver} {future : List RequestId}
    (balanced : driver.Balanced future) {requestId : RequestId} {producedTokens : ℕ}
    (answering : driver.Answering (.completeStep requestId producedTokens)) :
    (driver.step (.completeStep requestId producedTokens)).Balanced future := by
  have owed_subset : driver.owed.erase (requestId, producedTokens) ⊆ driver.owed :=
    List.erase_subset
  have single : ((driver.owed.erase (requestId, producedTokens)).map Prod.fst).Nodup :=
    balanced.single.sublist (List.erase_sublist.map _)
  obtain ⟨missing, same⟩ | ⟨request, front, back, found, named, queue, same⟩ :=
    driver.scheduler.completeStep_cases requestId producedTokens
  · have uncounted : driver.answer requestId producedTokens = driver.acknowledged := by
      simp [answer, missing]
    simp only [step, same, uncounted]
    exact ⟨balanced.distinct, balanced.unborn, balanced.tallied, single,
      fun other chunk member => balanced.owed other chunk (owed_subset member),
      balanced.decoding⟩
  · have now : driver.scheduler.requestIds.Nodup := balanced.distinct.of_append_left
    have owning : request ∈ driver.scheduler.owning :=
      List.mem_append_left _ (mem_of_findRequest found)
    obtain ⟨remaining, -⟩ := remaining_complete
      (balanced.tallied.decoded request (mem_of_findRequest found)) producedTokens
    have others := mem_owning_completed now queue (request.complete producedTokens)
    have name : (request.complete producedTokens).requestId = requestId :=
      (congrArg SequenceMetadata.requestId (metadata_complete request producedTokens)).trans named
    have ids : (driver.scheduler.completeStep requestId producedTokens).requestIds =
        driver.scheduler.requestIds := by
      rw [Scheduler.requestIds, Scheduler.identities_completeStep, Scheduler.requestIds]
    rw [same] at ids
    simp only [step, same]
    refine ⟨ids ▸ balanced.distinct, ?_, tallied_answered balanced answering found named queue,
      single, ?_, ?_⟩
    · intro other member
      have different : other ≠ requestId := by
        rintro rfl
        refine List.disjoint_of_nodup_append balanced.distinct ?_ member
        rw [Scheduler.requestIds_eq, ← named]
        exact List.mem_append_right _ (List.mem_map_of_mem owning)
      exact (answer_other different _).trans (balanced.unborn other member)
    · intro other chunk member final inside final_named
      rcases others final inside with rfl | ⟨earlier, -⟩
      · have about : other = requestId := final_named.symm.trans name
        subst about
        by_cases planned : (other, producedTokens) ∈ driver.owed
        · -- The struck chunk was the only one of its request.
          obtain ⟨different, kept⟩ := (balanced.single.of_map _).mem_erase_iff.mp member
          exact absurd (List.inj_on_of_nodup_map balanced.single kept planned rfl) different
        · have done := balanced.decoding other (answering.resolve_left planned) request owning named
          have few := balanced.owed other chunk (owed_subset member) request owning named
          rw [remaining]
          omega
      · exact balanced.owed other chunk (owed_subset member) final earlier final_named
    · intro other member final inside final_named
      rcases others final inside with rfl | ⟨earlier, -⟩
      · rw [remaining, balanced.decoding other member request owning
          (named.trans (name.symm.trans final_named)), Nat.zero_sub]
      · exact balanced.decoding other member final earlier final_named

/-! ## Runs -/

/-- Ids of the requests that a run enqueues. -/
def enqueuedIds (ops : List SchedulerOp) : List RequestId :=
  (Scheduler.enqueuedIdentities ops).map (·.requestId)

theorem distinct_ids_step {scheduler : Scheduler} {op : SchedulerOp} {ops : List SchedulerOp}
    (distinct : (scheduler.requestIds ++ enqueuedIds (op :: ops)).Nodup) :
    ((scheduler.step op).requestIds ++ enqueuedIds ops).Nodup := by
  have entering : enqueuedIds (op :: ops) =
      op.identities.map (·.requestId) ++ enqueuedIds ops := by
    simp [enqueuedIds, Scheduler.enqueuedIdentities]
  rw [entering, ← List.append_assoc, Scheduler.requestIds, ← List.map_append] at distinct
  obtain ⟨middle, same, inside⟩ := (scheduler.identities_step op)
  exact ((same.map _).append_right _).nodup_iff.mp
    (distinct.sublist ((inside.map _).append_right _))

theorem balanced_step {driver : Driver} {op : SchedulerOp} {ops : List SchedulerOp}
    (balanced : driver.Balanced (enqueuedIds (op :: ops))) (answering : driver.Answering op) :
    (driver.step op).Balanced (enqueuedIds ops) := by
  have distinct := distinct_ids_step balanced.distinct
  cases op with
  | enqueue request =>
      refine balanced.idle (idle_of_subset (List.Subset.refl _)) ?_ distinct
        (List.subset_cons_self _ _)
      refine ⟨fun waiting member => ?_, balanced.tallied.owning, balanced.tallied.decoded⟩
      rcases List.mem_append.mp member with old | new
      · exact balanced.tallied.waiting waiting old
      · rw [List.mem_singleton.mp new]
        exact ⟨rfl, balanced.unborn request.requestId List.mem_cons_self⟩
  | scheduleNext => exact balanced_scheduleNext balanced distinct
  | completeStep requestId producedTokens => exact balanced_completeStep balanced answering
  | preempt requestId reason =>
      exact balanced.idle (idle_preempt _ _ _) (tallied_preempt balanced.tallied _ _) distinct
        (List.Subset.refl _)
  | resume requestId =>
      exact balanced.idle (idle_resume _ _) (tallied_resume balanced.tallied _) distinct
        (List.Subset.refl _)
  | cancel requestId =>
      exact balanced.idle (idle_cancel _ _) (tallied_cancel balanced.tallied _) distinct
        (List.Subset.refl _)
  | cache op =>
      exact balanced.idle (idle_of_subset (List.Subset.refl _))
        ⟨balanced.tallied.waiting, balanced.tallied.owning, balanced.tallied.decoded⟩ distinct
        (List.Subset.refl _)

theorem balanced_run (config : SchedulerConfig) (cache : KVCacheManager) {ops : List SchedulerOp}
    (distinct : (enqueuedIds ops).Nodup)
    (answering : Execution.Along step Answering (create config cache) ops) :
    ((create config cache).run ops).Balanced [] := by
  have start : (create config cache).Balanced (enqueuedIds ops) := by
    refine ⟨?_, fun _ _ => rfl, ⟨?_, ?_, ?_⟩, ?_, ?_, ?_⟩
    · simpa [create, Scheduler.create, Scheduler.requestIds_eq, Scheduler.owning] using distinct
    all_goals simp [create, Scheduler.create, Scheduler.owning]
  exact (Execution.run_induction
    (motive := fun (driver : Driver) ops => driver.Balanced (enqueuedIds ops) ∧
      Execution.Along step Answering driver ops)
    (fun _ _ _ holds => ⟨balanced_step holds.1 holds.2.1, holds.2.2⟩)
    ⟨start, answering⟩).1

/-- Plans stay within the token budget, and the chunks acknowledged for a request add up to its
prompt when it decodes. -/
theorem prefill_conserved (config : SchedulerConfig) (cache : KVCacheManager) :
    (∀ ops, ((Scheduler.create config cache).run ops).requestIds.Nodup →
      ((Scheduler.create config cache).run ops).scheduleNext.1.Budgeted config.maxBatchTokens
        ((Scheduler.create config cache).run ops).scheduleNext.2.owning) ∧
    ∀ ops, (enqueuedIds ops).Nodup →
      Execution.Along step Answering (create config cache) ops →
      ∀ request ∈ ((create config cache).run ops).scheduler.active, request.state = .decode →
        ((create config cache).run ops).acknowledged request.requestId =
          request.promptTokens := by
  refine ⟨fun ops distinct => ?_, fun ops distinct answering request active decoding => ?_⟩
  · have same := Scheduler.config_run (Scheduler.create config cache) ops
    have budgeted := Scheduler.budgeted_scheduleNext distinct
    rw [same] at budgeted
    exact budgeted
  · have balanced := balanced_run config cache distinct answering
    have tally := balanced.tallied.owning request (List.mem_append_left _ active)
    rw [balanced.tallied.decoded request active (by simp [decoding])] at tally
    exact tally

/-- A request is preempted between its first plan and the answer to it. -/
def interruptedOps : List SchedulerOp :=
  [.enqueue (.ofTokens 1 3 1), .scheduleNext, .preempt 1 "caller", .completeStep 1 2, .resume 1,
    .scheduleNext, .completeStep 1 2, .scheduleNext, .completeStep 1 1]

/-- The late answer does not count, and three tokens are acknowledged in all. -/
theorem prefill_conserved_interrupted :
    (∃ request ∈ ((create ⟨8, 2, 0, false, 0, by decide⟩ fourFrameCache).run
        interruptedOps).scheduler.active, request.state = .decode ∧
      ((create ⟨8, 2, 0, false, 0, by decide⟩ fourFrameCache).run
        interruptedOps).acknowledged request.requestId = 3) ∧
    ((Scheduler.create ⟨8, 2, 0, false, 0, by decide⟩ fourFrameCache).run
      interruptedOps).scheduleNext.1.Budgeted 2
      ((Scheduler.create ⟨8, 2, 0, false, 0, by decide⟩ fourFrameCache).run
        interruptedOps).scheduleNext.2.owning := by
  obtain ⟨budgeted, conserved⟩ :=
    prefill_conserved ⟨8, 2, 0, false, 0, by decide⟩ fourFrameCache
  have decodes : ∃ request ∈ ((create ⟨8, 2, 0, false, 0, by decide⟩ fourFrameCache).run
      interruptedOps).scheduler.active, request.state = .decode ∧ request.promptTokens = 3 := by
    decide +kernel
  obtain ⟨request, active, decoding, prompt⟩ := decodes
  exact ⟨⟨request, active, decoding, (conserved interruptedOps (by decide) (by decide +kernel)
    request active decoding).trans prompt⟩, budgeted interruptedOps (by decide +kernel)⟩

end Driver
end QwenVLPaged
