import QwenVLPaged.Library.Occurrence
import QwenVLPaged.ReplayQueues

/-!
# The books of a replay

The driver and the scheduler keep separate accounts of a request: the driver counts committed and
decoded tokens, the scheduler the prompt tokens that are left. A step of the replay is a run of the
`Driver` that answers every planned chunk, so the two accounts agree at the end of every step. The
counters of the replay count the finished and the admitted requests, and a replay that completes
has served every request in full.
-/

namespace QwenVLPaged

namespace PagedReplay

/-! ## The replay as a driver -/

/-- The books of the driver after the planned work that is listed as owed is still to be done. -/
def Owing (owed : List (RequestId × ℕ)) (decoding : List RequestId)
    (acknowledged : RequestId → ℕ) (scheduler : Scheduler) : Prop :=
  Driver.Balanced ⟨scheduler, owed, decoding, acknowledged⟩ []

theorem Owing.recache {owed : List (RequestId × ℕ)} {decoding : List RequestId}
    {acknowledged : RequestId → ℕ} {scheduler : Scheduler}
    (owing : Owing owed decoding acknowledged scheduler) (cache : KVCacheManager) :
    Owing owed decoding acknowledged { scheduler with cache } :=
  Driver.Balanced.idle owing (Driver.idle_of_subset (List.Subset.refl _))
    ⟨owing.tallied.waiting, owing.tallied.owning, owing.tallied.decoded⟩ owing.distinct
    (List.Subset.refl _)

/-- An answered chunk is acknowledged if its request is active. -/
theorem Owing.answer {owed : List (RequestId × ℕ)} {decoding : List RequestId}
    {acknowledged : RequestId → ℕ} {scheduler : Scheduler} {id : RequestId} {chunk : ℕ}
    (owing : Owing ((id, chunk) :: owed) decoding acknowledged scheduler)
    (active : id ∈ scheduler.active.map (·.requestId)) :
    Owing owed decoding (Function.update acknowledged id (acknowledged id + chunk))
      (scheduler.completeStep id chunk) := by
  have answered := Driver.balanced_completeStep owing (Or.inl List.mem_cons_self)
  have present : (findRequest scheduler.active id).isSome := by
    rw [Option.isSome_iff_ne_none]
    intro missing
    obtain ⟨request, inside, named⟩ := List.mem_map.mp active
    exact findRequest_none.mp missing request inside named
  simpa only [Owing, Driver.step, Driver.answer, List.erase_cons_head, List.mem_cons_self,
    present, and_self, if_true] using answered

/-- With all chunks answered the calls of a decode step acknowledge nothing more. -/
theorem Owing.decode {decoding : List RequestId} {acknowledged : RequestId → ℕ} {id : RequestId}
    {before after : PagedState} (runs : Runs (OfDecode id) before after)
    (planned : id ∈ decoding) (owing : Owing [] decoding acknowledged before.scheduler) :
    Owing [] decoding acknowledged after.scheduler := by
  refine runs.keeps (motive := Owing [] decoding acknowledged) ?_ owing
  intro scheduler op fits owing
  cases op with
  | completeStep other produced =>
      obtain rfl : other = id := fits
      have answering : Driver.Answering ⟨scheduler, [], decoding, acknowledged⟩
          (.completeStep other produced) := Or.inr planned
      have answered := Driver.balanced_completeStep owing answering
      simpa [Owing, Driver.step, Driver.answer, Scheduler.step] using answered
  | preempt other reason =>
      exact @Driver.balanced_step _ (.preempt other reason) [] owing trivial
  | cancel other => exact @Driver.balanced_step _ (.cancel other) [] owing trivial
  | cache op => exact owing.recache _
  | enqueue _ | scheduleNext | resume _ => exact fits.elim

/-! ## The two accounts -/

/-- The account of one request: `acknowledged` are the prompt tokens that the scheduler knows as
done. No token is decoded before the prompt is complete, and the last one finishes the request. -/
structure Account (acknowledged : ℕ) (entry : RequestProgress) : Prop where
  committed : entry.committed = wrap32 (acknowledged + entry.decoded)
  prompt : 0 < entry.decoded → acknowledged = entry.request.promptTokens
  ahead : entry.finished = false → entry.decoded < max 1 entry.request.decodeActual
  done : entry.finished = true → entry.decoded = max 1 entry.request.decodeActual
  greeted : entry.admitted = false → acknowledged = 0

/-- Every entry of the books has its account. -/
def Audited (acknowledged : RequestId → ℕ) (state : PagedState) : Prop :=
  ∀ id entry, state.progress.lookup id = some entry → Account (acknowledged id) entry

theorem Audited.update {acknowledged acknowledged' : RequestId → ℕ} {before after : PagedState}
    (audited : Audited acknowledged before) {id : RequestId} {new : RequestProgress}
    (found' : after.progress.lookup id = some new)
    (others : ∀ other, other ≠ id → after.progress.lookup other = before.progress.lookup other)
    (answered : ∀ other, other ≠ id → acknowledged' other = acknowledged other)
    (account : Account (acknowledged' id) new) : Audited acknowledged' after := by
  intro other entry inside
  by_cases about : other = id
  · subst about
    obtain rfl := Option.some.inj (found'.symm.trans inside)
    exact account
  · rw [answered other about]
    exact audited other entry ((others other about).symm.trans inside)

theorem wrap32_add_left (first second : ℕ) :
    wrap32 (wrap32 first + second) = wrap32 (first + second) := by
  simp only [wrap32, Nat.mod_add_mod]

/-- A planned chunk is committed by the driver and acknowledged by the scheduler. -/
theorem audited_prefillOne {requests : List TraceRequest} {config : ReplayConfig}
    {acknowledged : RequestId → ℕ} {owed : List (RequestId × ℕ)} {decoding : List RequestId}
    {state : PagedState} {id : RequestId} {chunk : ℕ} (listed : Listed requests config state)
    (audited : Audited acknowledged state)
    (owing : Owing ((id, chunk) :: owed) decoding acknowledged state.scheduler)
    (active : id ∈ state.scheduler.active.map (·.requestId)) :
    Audited (Function.update acknowledged id (acknowledged id + chunk))
        (prefillOne config id chunk state) ∧
      Owing owed decoding (Function.update acknowledged id (acknowledged id + chunk))
        (prefillOne config id chunk state).scheduler := by
  obtain ⟨request, inside, named⟩ := List.mem_map.mp active
  have owned : request ∈ state.scheduler.owning := List.mem_append_left _ inside
  have member : id ∈ state.scheduler.requestIds := by
    rw [Scheduler.requestIds_eq, ← named]
    exact List.mem_append_right _ (List.mem_map_of_mem owned)
  obtain ⟨old, found, unfinished, constants⟩ := listed.found member
  have prompt : request.promptTokens = old.request.promptTokens :=
    congrArg Request.promptTokens (constants request (List.mem_append_right _ owned) named)
  obtain ⟨books, -⟩ := books_prefillOne config chunk found
  obtain ⟨new, found', written⟩ := books.entry old found
  obtain ⟨cache, scheduler⟩ := scheduler_prefillOne config chunk found
  have account := audited id old found
  have tally := owing.tallied.owning request owned
  have few := owing.owed id chunk List.mem_cons_self request owned named
  rw [named] at tally
  dsimp only at few tally
  constructor
  · refine audited.update found' books.others
      (fun other different => Function.update_of_ne different _ _) ?_
    rw [Function.update_self]
    constructor
    case committed =>
      rw [written.committed, written.decoded, account.committed, wrap32_add_left,
        Nat.add_right_comm]
    case prompt =>
      intro started
      rw [written.decoded] at started
      have complete := account.prompt started
      rw [written.request]
      omega
    case ahead =>
      intro unfinished'
      rw [written.decoded, written.request]
      exact account.ahead (written.finished ▸ unfinished')
    case done =>
      intro done
      rw [written.finished, unfinished] at done
      exact Bool.noConfusion done
    case greeted =>
      intro strange
      rw [written.admitted] at strange
      exact Bool.noConfusion strange
  · rw [scheduler]
    exact (owing.answer active).recache cache

/-- A decode step commits a token of a complete prompt, or changes no account. -/
theorem audited_decodeOne {requests : List TraceRequest} {config : ReplayConfig}
    {plan : BatchPlan} {acknowledged : RequestId → ℕ} {state : PagedState} {id : RequestId}
    (listed : Listed requests config state) (audited : Audited acknowledged state)
    (owing : Owing [] plan.decodeRequests acknowledged state.scheduler)
    (planned : id ∈ plan.decodeRequests) (due : Due state.scheduler id) :
    Audited acknowledged (decodeOne config plan id state) := by
  rcases decodeOne_effect plan listed due.1 with ⟨books, -⟩ |
    ⟨old, new, found, unfinished, found', wrote, finished, others, -⟩
  · intro other entry inside
    rw [books.progress] at inside
    exact audited other entry inside
  obtain ⟨entry, inside, -, constants⟩ := listed.found due.1
  obtain rfl := Option.some.inj (found.symm.trans inside)
  -- A decode step is planned for a complete prompt only.
  have complete : acknowledged id = old.request.promptTokens := by
    obtain ⟨request, owned, named⟩ := due.owning
    have none_left := owing.decoding id planned request owned named
    have tally := owing.tallied.owning request owned
    have prompt : request.promptTokens = old.request.promptTokens :=
      congrArg Request.promptTokens (constants request (List.mem_append_right _ owned) named)
    rw [named] at tally
    dsimp only at none_left tally
    omega
  have account := audited id old found
  have ahead := account.ahead unfinished
  have counted : new.decoded = old.decoded + 1 := by
    have small := old.request.decodeActual_lt
    rw [wrote.decoded, wrap32_of_lt (by omega)]
  refine audited.update found' others (fun _ _ => rfl) ?_
  constructor
  case committed =>
    rw [wrote.committed, account.committed, wrap32_add_left, counted, Nat.add_assoc]
  case prompt => exact fun _ => complete.trans (congrArg _ wrote.request.symm)
  case ahead =>
    intro more
    rw [← Bool.not_eq_true, finished] at more
    rw [wrote.request]
    omega
  case done =>
    intro enough
    rw [finished] at enough
    rw [wrote.request]
    omega
  case greeted =>
    intro unmet
    exact account.greeted (wrote.admitted ▸ unmet)

/-! ## A step -/

theorem audited_prefillLoop {requests : List TraceRequest} {config : ReplayConfig}
    {acknowledged : RequestId → ℕ} {decoding : List RequestId} (owed : List (RequestId × ℕ))
    {state : PagedState} (listed : Listed requests config state)
    (audited : Audited acknowledged state)
    (owing : Owing owed decoding acknowledged state.scheduler)
    (active : ∀ id chunk, (id, chunk) ∈ owed → id ∈ state.scheduler.active.map (·.requestId)) :
    ∃ acknowledged', Audited acknowledged' (prefillLoop config owed state) ∧
      Owing [] decoding acknowledged' (prefillLoop config owed state).scheduler ∧
      Listed requests config (prefillLoop config owed state) ∧
      (prefillLoop config owed state).scheduler.owners = state.scheduler.owners ∧
      (prefillLoop config owed state).scheduler.pending = state.scheduler.pending := by
  induction owed generalizing acknowledged state with
  | nil => exact ⟨acknowledged, audited, owing, listed, rfl, rfl⟩
  | cons planned rest induction =>
      obtain ⟨id, chunk⟩ := planned
      obtain ⟨owners, pending, ids, -⟩ := queues_prefillOne config id chunk state
      obtain ⟨audited', owing'⟩ :=
        audited_prefillOne listed audited owing (active id chunk List.mem_cons_self)
      obtain ⟨final, audited'', owing'', listed', owners', pending'⟩ :=
        induction (listed_prefillOne listed id chunk) audited' owing'
          fun other chunk' member => by
            rw [ids]
            exact active other chunk' (List.mem_cons_of_mem _ member)
      exact ⟨final, audited'', owing'', listed', owners'.trans owners, pending'.trans pending⟩

theorem audited_decodeLoop {requests : List TraceRequest} {config : ReplayConfig}
    {plan : BatchPlan} {acknowledged : RequestId → ℕ} (ids : List RequestId)
    {state : PagedState} (listed : Listed requests config state)
    (audited : Audited acknowledged state)
    (owing : Owing [] plan.decodeRequests acknowledged state.scheduler) (single : ids.Nodup)
    (planned : ids ⊆ plan.decodeRequests) (due : ∀ id ∈ ids, Due state.scheduler id) :
    Audited acknowledged (decodeLoop config plan ids state) ∧
      Owing [] plan.decodeRequests acknowledged
        (decodeLoop config plan ids state).scheduler := by
  induction ids generalizing state with
  | nil => exact ⟨audited, owing⟩
  | cons id rest induction =>
      obtain ⟨fresh, single'⟩ := List.nodup_cons.mp single
      have runs := runs_decodeOne config plan id state
      have now := planned List.mem_cons_self
      have first := due id List.mem_cons_self
      refine induction (listed_decodeOne plan listed first.1)
        (audited_decodeOne listed audited owing now first) (owing.decode runs now) single'
        (fun other member => planned (List.mem_cons_of_mem _ member)) fun other member => ?_
      exact (due other (List.mem_cons_of_mem _ member)).decode runs listed.distinct
        fun same => fresh (same ▸ member)

theorem owing_settle {acknowledged : RequestId → ℕ} {decoding : List RequestId}
    {state : PagedState} (owing : Owing [] decoding acknowledged state.scheduler) :
    Owing [] decoding acknowledged (settle state).scheduler := by
  refine (runs_settle state).keeps (motive := Owing [] decoding acknowledged) ?_ owing
  intro scheduler op fits owing
  cases op with
  | resume id => exact @Driver.balanced_step _ (.resume id) [] owing trivial
  | enqueue _ | scheduleNext | completeStep _ _ | preempt _ _ | cancel _ | cache _ =>
      exact fits.elim

/-- Both accounts at the end of a step, with every planned chunk answered. -/
structure Balances (requests : List TraceRequest) (config : ReplayConfig)
    (acknowledged : RequestId → ℕ) (state : PagedState) : Prop where
  listed : Listed requests config state
  audited : Audited acknowledged state
  owing : ∃ decoding, Owing [] decoding acknowledged state.scheduler
  watermark : state.scheduler.config.preemptionWatermarkBlocks = config.preemptionWatermarkBlocks

/-- No plan names a request that is preempted while the plan is made. -/
def PlansSafely (requests : List TraceRequest) (config : ReplayConfig) : Prop :=
  config.preemptionWatermarkBlocks = 0 ∨ ∀ request ∈ requests, 0 < request.promptTokens

instance (requests : List TraceRequest) (config : ReplayConfig) :
    Decidable (PlansSafely requests config) :=
  inferInstanceAs (Decidable (_ ∨ _))

theorem config_of_runs {allowed : SchedulerOp → Prop} {before after : PagedState}
    (runs : Runs allowed before after) :
    after.scheduler.config = before.scheduler.config :=
  runs.keeps (motive := fun scheduler => scheduler.config = before.scheduler.config)
    (fun scheduler op _ same => (scheduler.config_step op).trans same) rfl

/-- A step answers the whole plan and leaves the accounts balanced. -/
theorem balances_oneStep {trace : Trace} {requests : List TraceRequest} {config : ReplayConfig}
    {acknowledged : RequestId → ℕ} {state : PagedState} (safe : PlansSafely requests config)
    (balances : Balances requests config acknowledged state) :
    ∃ acknowledged', Balances requests config acknowledged' (oneStep trace config state) := by
  obtain ⟨listed, audited, ⟨decoding, owing⟩, watermark⟩ := balances
  have planned : Owing state.scheduler.scheduleNext.1.chunks
      state.scheduler.scheduleNext.1.decodeRequests acknowledged
      state.scheduler.scheduleNext.2 :=
    @Driver.balanced_step _ .scheduleNext [] owing rfl
  have undisturbed : state.scheduler.config.preemptionWatermarkBlocks = 0 ∨
      ∀ request ∈ state.scheduler.pending, 0 < request.remainingPrefillTokens := by
    refine safe.imp (fun none_set => watermark.trans none_set) fun positive request waiting => ?_
    obtain ⟨traced, asked, constants⟩ :=
      listed.enlisted request (List.mem_append_left _ waiting)
    have prompt : request.promptTokens = traced.promptTokens :=
      congrArg Request.promptTokens constants
    rw [(owing.tallied.waiting request waiting).1, prompt]
    exact positive traced asked
  have named := Scheduler.named_scheduleNext undisturbed
  obtain ⟨acknowledged', filled, owing', listed', owners, pending⟩ := audited_prefillLoop
    state.scheduler.scheduleNext.1.chunks (listed_scheduleNext listed) audited planned
    fun id chunk member => named id (Or.inl (List.of_mem_zip member).1)
  obtain ⟨decoded, owing''⟩ := audited_decodeLoop state.scheduler.scheduleNext.1.decodeRequests
    listed' filled owing'
    (Scheduler.budgeted_scheduleNext listed.distinct).names.of_append_right
    (List.Subset.refl _) fun id member => due_planned listed.distinct owners pending member
  have keeps : StepKeeps trace requests config fun _ => True :=
    ⟨fun _ _ _ => trivial, fun _ _ _ _ _ _ => trivial, fun _ _ _ _ _ _ => trivial,
      fun _ _ _ => trivial, fun _ _ _ _ => trivial⟩
  refine ⟨acknowledged', (keeps.oneStep listed trivial).1, ?_, ⟨_, owing_settle owing''⟩, ?_⟩
  · intro id entry inside
    refine decoded id entry ?_
    rw [← (books_settle _).1]
    exact inside
  · rw [config_of_runs (runs_oneStep trace config state), watermark]

/-! ## Counted requests -/

/-- The request was admitted. -/
def isAdmitted (state : PagedState) (id : RequestId) : Bool :=
  ((state.progress.lookup id).map (·.admitted)).getD false

theorem isFinished_found {state : PagedState} {id : RequestId} {entry : RequestProgress}
    (found : state.progress.lookup id = some entry) : isFinished state id = entry.finished := by
  simp [isFinished, found]

theorem isAdmitted_found {state : PagedState} {id : RequestId} {entry : RequestProgress}
    (found : state.progress.lookup id = some entry) : isAdmitted state id = entry.admitted := by
  simp [isAdmitted, found]

theorem isAdmitted_congr {before after : PagedState} {id : RequestId}
    (same : after.progress.lookup id = before.progress.lookup id) :
    isAdmitted after id = isAdmitted before id := by
  rw [isAdmitted, isAdmitted, same]

/-- The counters say how many requests are finished and admitted, and the live requests are the
admitted ones, up to some that finished in this step. -/
structure Counts (requests : List TraceRequest) (state : PagedState) : Prop where
  completed : state.completed =
    requests.countP fun request => isFinished state request.requestId
  waiting : state.waiting + (requests.countP fun request => isAdmitted state request.requestId) =
    requests.length
  admissions : state.metrics.requestsAdmitted =
    wrap32 (requests.countP fun request => isAdmitted state request.requestId)
  single : state.live.Nodup
  live : ∀ id ∈ state.live, isAdmitted state id = true
  seen : ∀ id, isAdmitted state id = true → isFinished state id = true ∨ id ∈ state.live

/-- Nothing that is counted changed. -/
theorem Counts.still {requests : List TraceRequest} {before after : PagedState}
    (counts : Counts requests before)
    (finished : ∀ id, isFinished after id = isFinished before id)
    (admitted : ∀ id, isAdmitted after id = isAdmitted before id)
    (counters : ∃ preemptions resumes preemptedIds, countersOf after =
      { countersOf before with preemptions, resumes, preemptedIds })
    (live : after.live = before.live) : Counts requests after := by
  obtain ⟨_, _, _, counters⟩ := counters
  have completed : after.completed = before.completed := congrArg Counters.completed counters
  have waiting : after.waiting = before.waiting := congrArg Counters.waiting counters
  have admissions : after.metrics.requestsAdmitted = before.metrics.requestsAdmitted :=
    congrArg Counters.requestsAdmitted counters
  constructor
  · simpa only [completed, finished] using counts.completed
  · simpa only [waiting, admitted] using counts.waiting
  · simpa only [admissions, admitted] using counts.admissions
  · exact live ▸ counts.single
  · simpa only [live, admitted] using counts.live
  · simpa only [live, finished, admitted] using counts.seen

theorem counts_prefillOne {trace : Trace} {config : ReplayConfig} {state : PagedState}
    {id : RequestId} {chunk : ℕ} (distinct : (trace.requests.map (·.requestId)).Nodup)
    (listed : Listed trace.requests config state) (counts : Counts trace.requests state) :
    Counts trace.requests (prefillOne config id chunk state) := by
  rcases found : state.progress.lookup id with _ | old
  · simpa only [prefillOne, found] using counts
  obtain ⟨books, live⟩ := books_prefillOne config chunk found
  obtain ⟨new, found', written⟩ := books.entry old found
  have counted := counters_prefillOne config chunk found
  obtain ⟨asked, named⟩ := listed.traced id old found
  have present : id ∈ trace.requests.map (·.requestId) :=
    List.mem_map.mpr ⟨old.request, asked, named⟩
  have finished (other : RequestId) :
      isFinished (prefillOne config id chunk state) other = isFinished state other := by
    by_cases about : other = id
    · rw [about, isFinished_found found', isFinished_found found, written.finished]
    · exact isFinished_congr (books.others other about)
  have others (other : RequestId) (about : other ≠ id) :
      isAdmitted (prefillOne config id chunk state) other = isAdmitted state other :=
    isAdmitted_congr (books.others other about)
  have now : isAdmitted (prefillOne config id chunk state) id = true := by
    rw [isAdmitted_found found', written.admitted]
  by_cases admitted : old.admitted = true
  · -- The request is live already.
    rw [if_pos admitted] at counted live
    have same (other : RequestId) :
        isAdmitted (prefillOne config id chunk state) other = isAdmitted state other := by
      by_cases about : other = id
      · rw [about, now, isAdmitted_found found, admitted]
      · exact others other about
    exact counts.still finished same ⟨_, _, _, counted⟩ live
  · -- The request enters the live ones with its first chunk.
    rw [if_neg admitted] at counted live
    have before : isAdmitted state id = false := by
      rw [isAdmitted_found found]
      exact Bool.eq_false_of_not_eq_true admitted
    have one := List.countP_key_succ distinct present before now others
    have fresh : id ∉ state.live := fun inside => by
      rw [counts.live id inside] at before
      exact Bool.noConfusion before
    have completed : (prefillOne config id chunk state).completed = state.completed :=
      congrArg Counters.completed counted
    have waiting : (prefillOne config id chunk state).waiting = state.waiting - 1 :=
      congrArg Counters.waiting counted
    have admissions : (prefillOne config id chunk state).metrics.requestsAdmitted =
        wrap32 (state.metrics.requestsAdmitted + 1) :=
      congrArg Counters.requestsAdmitted counted
    constructor
    · simpa only [completed, finished] using counts.completed
    · have whole := counts.waiting
      have room : (trace.requests.countP fun request =>
          isAdmitted (prefillOne config id chunk state) request.requestId) ≤
            trace.requests.length := List.countP_le_length
      rw [waiting]
      omega
    · rw [admissions, one, counts.admissions, wrap32_add_left]
    · rw [live, List.nodup_append]
      refine ⟨counts.single, List.nodup_singleton _, fun other inside third single same => ?_⟩
      exact fresh (same.trans (List.mem_singleton.mp single) ▸ inside)
    · intro other inside
      rw [live] at inside
      rcases List.mem_append.mp inside with old_live | new_live
      · by_cases about : other = id
        · rw [about, now]
        · rw [others other about]
          exact counts.live other old_live
      · rw [List.mem_singleton.mp new_live, now]
    · intro other admitted_other
      rw [live, finished]
      by_cases about : other = id
      · exact Or.inr (List.mem_append_right _ (about ▸ List.mem_cons_self))
      · rw [others other about] at admitted_other
        exact (counts.seen other admitted_other).imp_right (List.mem_append_left _)

theorem counts_decodeOne {trace : Trace} {config : ReplayConfig} (plan : BatchPlan)
    {state : PagedState} {id : RequestId} (distinct : (trace.requests.map (·.requestId)).Nodup)
    (listed : Listed trace.requests config state) (due : Due state.scheduler id)
    (counts : Counts trace.requests state) :
    Counts trace.requests (decodeOne config plan id state) := by
  rcases decodeOne_effect plan listed due.1 with ⟨books, counted, -⟩ |
    ⟨old, new, found, unfinished, found', wrote, -, others, live, counted, -⟩
  · exact counts.still (fun _ => isFinished_congr (by rw [books.progress]))
      (fun _ => isAdmitted_congr (by rw [books.progress])) ⟨_, _, _, counted⟩ books.live
  obtain ⟨asked, named⟩ := listed.traced id old found
  have present : id ∈ trace.requests.map (·.requestId) :=
    List.mem_map.mpr ⟨old.request, asked, named⟩
  have admitted (other : RequestId) :
      isAdmitted (decodeOne config plan id state) other = isAdmitted state other := by
    by_cases about : other = id
    · rw [about, isAdmitted_found found', isAdmitted_found found, wrote.admitted]
    · exact isAdmitted_congr (others other about)
  have kept (other : RequestId) (about : other ≠ id) :
      isFinished (decodeOne config plan id state) other = isFinished state other :=
    isFinished_congr (others other about)
  have before : isFinished state id = false := by rw [isFinished_found found, unfinished]
  have grown (other : RequestId) (done : isFinished state other = true) :
      isFinished (decodeOne config plan id state) other = true := by
    have different : other ≠ id := by
      rintro rfl
      rw [before] at done
      exact Bool.noConfusion done
    rw [kept other different, done]
  have whole : (decodeOne config plan id state).completed =
      trace.requests.countP fun request =>
        isFinished (decodeOne config plan id state) request.requestId := by
    have completed : (decodeOne config plan id state).completed = _ :=
      congrArg Counters.completed counted
    rw [completed]
    cases done : new.finished with
    | true =>
        have now : isFinished (decodeOne config plan id state) id = true := by
          rw [isFinished_found found', done]
        rw [List.countP_key_succ distinct present before now kept]
        exact congrArg (· + 1) counts.completed
    | false =>
        have same (other : RequestId) :
            isFinished (decodeOne config plan id state) other = isFinished state other := by
          by_cases about : other = id
          · rw [about, isFinished_found found', done, before]
          · exact kept other about
        simp only [same]
        exact counts.completed
  have waiting : (decodeOne config plan id state).waiting = state.waiting := by
    refine (congrArg Counters.waiting counted).trans ?_
    split
    · rfl
    · rfl
  have admissions : (decodeOne config plan id state).metrics.requestsAdmitted =
      state.metrics.requestsAdmitted := by
    refine (congrArg Counters.requestsAdmitted counted).trans ?_
    split
    · rfl
    · rfl
  constructor
  · exact whole
  · simpa only [waiting, admitted] using counts.waiting
  · simpa only [admissions, admitted] using counts.admissions
  · exact live ▸ counts.single
  · simpa only [live, admitted] using counts.live
  · intro other admitted_other
    rw [admitted] at admitted_other
    rw [live]
    exact (counts.seen other admitted_other).imp_left (grown other)

/-- Parking and resuming at the end of a step move the counters of the ledger only. -/
theorem counters_settle (state : PagedState) : ∃ preemptions resumes preemptedIds,
    countersOf (settle state) = { countersOf state with preemptions, resumes, preemptedIds } := by
  have recorded (before : PagedState) (id : RequestId) : ∃ preemptions resumes preemptedIds,
      countersOf (recordParked before id) =
        { countersOf before with preemptions, resumes, preemptedIds } := by
    unfold recordParked
    split
    · exact ⟨_, _, _, rfl⟩
    · split
      · exact ⟨_, _, _, rfl⟩
      · split
        · exact ⟨_, _, _, rfl⟩
        · exact ⟨_, _, _, rfl⟩
  have resumed (before : PagedState) (id : RequestId) : ∃ preemptions resumes preemptedIds,
      countersOf (tryResume before id) =
        { countersOf before with preemptions, resumes, preemptedIds } := by
    simp only [tryResume]
    split
    · exact ⟨_, _, _, rfl⟩
    · split
      · exact ⟨_, _, _, rfl⟩
      · exact ⟨_, _, _, rfl⟩
  have folded {each : PagedState → RequestId → PagedState}
      (one : ∀ before id, ∃ preemptions resumes preemptedIds, countersOf (each before id) =
        { countersOf before with preemptions, resumes, preemptedIds })
      (ids : List RequestId) (before : PagedState) : ∃ preemptions resumes preemptedIds,
        countersOf (ids.foldl each before) =
          { countersOf before with preemptions, resumes, preemptedIds } := by
    induction ids generalizing before with
    | nil => exact ⟨_, _, _, rfl⟩
    | cons id rest induction =>
        obtain ⟨_, _, _, first⟩ := one before id
        obtain ⟨_, _, _, others⟩ := induction (each before id)
        exact ⟨_, _, _, others.trans (by rw [first])⟩
  obtain ⟨_, _, _, parks⟩ := folded recorded state.live state
  simp only [settle]
  split
  · exact ⟨_, _, _, parks⟩
  · obtain ⟨_, _, _, resumes⟩ := folded resumed (state.live.foldl recordParked state).live
      (state.live.foldl recordParked state)
    exact ⟨_, _, _, resumes.trans (by rw [parks])⟩

/-- Finished requests leave the live ones. -/
theorem counts_settle {requests : List TraceRequest} {state : PagedState}
    (counts : Counts requests state) : Counts requests (settle state) := by
  obtain ⟨progress, -, live⟩ := books_settle state
  obtain ⟨_, _, _, counters⟩ := counters_settle state
  have finished (id : RequestId) : isFinished (settle state) id = isFinished state id :=
    isFinished_congr (by rw [progress])
  have admitted (id : RequestId) : isAdmitted (settle state) id = isAdmitted state id :=
    isAdmitted_congr (by rw [progress])
  have completed : (settle state).completed = state.completed :=
    congrArg Counters.completed counters
  have waiting : (settle state).waiting = state.waiting := congrArg Counters.waiting counters
  have admissions : (settle state).metrics.requestsAdmitted = state.metrics.requestsAdmitted :=
    congrArg Counters.requestsAdmitted counters
  constructor
  · simpa only [completed, finished] using counts.completed
  · simpa only [waiting, admitted] using counts.waiting
  · simpa only [admissions, admitted] using counts.admissions
  · rw [live]
    exact counts.single.filter _
  · intro id inside
    rw [live] at inside
    rw [admitted]
    exact counts.live id (List.mem_filter.mp inside).1
  · intro id seen
    rw [admitted] at seen
    rw [finished, live]
    rcases counts.seen id seen with done | inside
    · exact Or.inl done
    · cases ended : isFinished state id with
      | true => exact Or.inl rfl
      | false => exact Or.inr (List.mem_filter.mpr ⟨inside, by simp [ended]⟩)

/-- The books of a replay that has not begun. -/
structure Unbegun (waiting : ℕ) (state : PagedState) : Prop where
  fresh : ∀ id entry, state.progress.lookup id = some entry →
    ∃ request, entry = freshProgress request
  waiting : state.waiting = waiting
  completed : state.completed = 0
  admissions : state.metrics.requestsAdmitted = 0
  live : state.live = []

theorem unbegun_initial (trace : Trace) (config : ReplayConfig) (slab : ℕ → UInt8) :
    Unbegun trace.requests.length (initial trace config slab) := by
  unfold initial
  refine List.foldlRecOn (motive := Unbegun trace.requests.length) trace.requests _
    ⟨by simp, rfl, rfl, rfl, rfl⟩ fun state unbegun request _ => ?_
  refine ⟨fun id entry found => ?_, unbegun.waiting, unbegun.completed, unbegun.admissions,
    unbegun.live⟩
  obtain ⟨rfl, rfl⟩ | ⟨-, old⟩ := AList.lookup_insert_cases found
  · exact ⟨request, rfl⟩
  · exact unbegun.fresh id entry old

theorem counts_initial (trace : Trace) (config : ReplayConfig) (slab : ℕ → UInt8) :
    Counts trace.requests (initial trace config slab) := by
  have unbegun := unbegun_initial trace config slab
  have nobody (id : RequestId) : isFinished (initial trace config slab) id = false ∧
      isAdmitted (initial trace config slab) id = false := by
    rcases found : (initial trace config slab).progress.lookup id with _ | entry
    · simp [isFinished, isAdmitted, found]
    · obtain ⟨request, rfl⟩ := unbegun.fresh id entry found
      rw [isFinished_found found, isAdmitted_found found]
      exact ⟨rfl, rfl⟩
  have none_done : (trace.requests.countP fun request =>
      isFinished (initial trace config slab) request.requestId) = 0 := by
    simp [nobody]
  have none_admitted : (trace.requests.countP fun request =>
      isAdmitted (initial trace config slab) request.requestId) = 0 := by
    simp [nobody]
  constructor
  · rw [none_done, unbegun.completed]
  · rw [none_admitted, unbegun.waiting, Nat.add_zero]
  · rw [none_admitted, unbegun.admissions]
    rfl
  · rw [unbegun.live]
    exact List.nodup_nil
  · intro id inside
    rw [unbegun.live] at inside
    exact absurd inside List.not_mem_nil
  · intro id seen
    rw [(nobody id).2] at seen
    exact Bool.noConfusion seen

theorem counts_keeps {trace : Trace} (config : ReplayConfig)
    (distinct : (trace.requests.map (·.requestId)).Nodup) :
    StepKeeps trace trace.requests config (Counts trace.requests) where
  plans _ _ counts := counts.still (fun _ => rfl) (fun _ => rfl) ⟨_, _, _, rfl⟩ rfl
  prefills _ _ _ listed _ counts := counts_prefillOne distinct listed counts
  decodes plan _ _ listed due counts := counts_decodeOne plan distinct listed due counts
  settles _ _ counts := counts_settle counts
  accounts plan state _ counts := counts.still (fun _ => rfl) (fun _ => rfl)
    ⟨_, _, _, counters_account trace config plan state⟩ rfl

theorem counts_reached {trace : Trace} {config : ReplayConfig} {slab : ℕ → UInt8}
    {guard : PagedState → Prop} {state : PagedState}
    (distinct : (trace.requests.map (·.requestId)).Nodup)
    (reached : Reached trace config slab guard state) :
    Listed trace.requests config state ∧ Counts trace.requests state :=
  reached_induction distinct reached (counts_initial trace config slab)
    (counts_keeps config distinct)

/-- Live requests are not finished at the end of a step. -/
theorem live_unfinished {trace : Trace} {config : ReplayConfig} {slab : ℕ → UInt8}
    {guard : PagedState → Prop} {state : PagedState}
    (reached : Reached trace config slab guard state) :
    ∀ id ∈ state.live, isFinished state id = false := by
  cases reached with
  | start =>
      rw [(unbegun_initial trace config slab).live]
      exact fun id inside => absurd inside List.not_mem_nil
  | @step state _ _ _ =>
      obtain ⟨progress, -, live⟩ := books_settle
        (decodeLoop config state.scheduler.scheduleNext.1
          state.scheduler.scheduleNext.1.decodeRequests
          (prefillLoop config state.scheduler.scheduleNext.1.chunks
            (call .scheduleNext (begin state))))
      intro id inside
      change id ∈ (settle _).live at inside
      change isFinished (settle _) id = false
      rw [live] at inside
      rw [isFinished, progress]
      simpa [isFinished] using (List.mem_filter.mp inside).2

/-- At the end of every step the driver has counted right: `completed` are the finished requests,
`waiting` the ones not admitted, and the live list holds the requests in between, each once. -/
theorem counters_exact (trace : Trace) (config : ReplayConfig) (slab : ℕ → UInt8)
    (distinct : (trace.requests.map (·.requestId)).Nodup) (state : PagedState)
    (reached : Reached trace config slab (fun _ => True) state) :
    state.completed = (trace.requests.countP fun request => isFinished state request.requestId) ∧
      state.waiting =
        (trace.requests.countP fun request => !isAdmitted state request.requestId) ∧
      state.metrics.requestsAdmitted =
        wrap32 (trace.requests.countP fun request => isAdmitted state request.requestId) ∧
      state.live.Nodup ∧
      ∀ id, id ∈ state.live ↔ isAdmitted state id = true ∧ isFinished state id = false := by
  obtain ⟨-, counts⟩ := counts_reached distinct reached
  have split := trace.requests.length_eq_countP_add_countP
    fun request => isAdmitted state request.requestId
  simp only [Bool.not_eq_true, Bool.decide_eq_false] at split
  have whole := counts.waiting
  refine ⟨counts.completed, by omega, counts.admissions, counts.single, fun id => ?_⟩
  constructor
  · exact fun inside => ⟨counts.live id inside, live_unfinished reached id inside⟩
  · rintro ⟨seen, unfinished⟩
    refine (counts.seen id seen).resolve_left fun done => ?_
    rw [unfinished] at done
    exact Bool.noConfusion done

/-- In the crowded replay both requests are admitted and parked, and none is finished. -/
theorem counters_exact_crowded :
    let state := final pairTrace (pairConfig 5) fun _ => 0
    (state.completed = 0 ∧ state.waiting = 0 ∧ state.live = [1, 2]) ∧
      state.completed =
        (pairTrace.requests.countP fun request => isFinished state request.requestId) :=
  ⟨by decide +kernel,
    (counters_exact pairTrace (pairConfig 5) (fun _ => 0) (by decide) _ (reached_final _ _ _)).1⟩

/-! ## Served requests -/

/-- The request got all of its tokens and left the scheduler. -/
structure ServedInFull (state : PagedState) (request : TraceRequest) (entry : RequestProgress) :
    Prop where
  finished : entry.finished = true
  decoded : entry.decoded = max 1 request.decodeActual
  committed : entry.committed = wrap32 (request.promptTokens + max 1 request.decodeActual)
  left : request.requestId ∉ state.scheduler.requestIds

/-- The request is queued once, and what was committed for it is the part of its prompt that the
scheduler takes as done, and the decoded tokens behind the whole prompt. -/
structure InService (state : PagedState) (request : TraceRequest) (entry : RequestProgress)
    (queued : Request) : Prop where
  finished : entry.finished = false
  decoded : entry.decoded < max 1 request.decodeActual
  member : queued ∈ state.scheduler.queued
  named : queued.requestId = request.requestId
  single : state.scheduler.requestIds.count request.requestId = 1
  remaining : queued.remainingPrefillTokens ≤ request.promptTokens
  committed : entry.committed =
    wrap32 (request.promptTokens - queued.remainingPrefillTokens + entry.decoded)
  prompt : 0 < entry.decoded → queued.remainingPrefillTokens = 0

theorem balances_initial (trace : Trace) (config : ReplayConfig) (slab : ℕ → UInt8)
    (distinct : (trace.requests.map (·.requestId)).Nodup) :
    Balances trace.requests config (fun _ => 0) (initial trace config slab) := by
  have base : Listed trace.requests config (initial trace config slab) ∧
      Owing [] [] (fun _ => 0) (initial trace config slab).scheduler ∧
      (initial trace config slab).scheduler.config.preemptionWatermarkBlocks =
        config.preemptionWatermarkBlocks := by
    refine initial_induction distinct (motive := fun _ state =>
      Owing [] [] (fun _ => 0) state.scheduler ∧
        state.scheduler.config.preemptionWatermarkBlocks = config.preemptionWatermarkBlocks)
      ⟨⟨List.nodup_nil, by simp, ⟨by simp [blank, freshScheduler, Scheduler.create],
        by simp [blank, freshScheduler, Scheduler.create, Scheduler.owning],
        by simp [blank, freshScheduler, Scheduler.create]⟩, List.nodup_nil, by simp, by simp⟩,
        rfl⟩ ?_
    rintro requests request state listed fresh ⟨owing, watermark⟩
    refine ⟨?_, watermark⟩
    have unqueued : request.requestId ∉ state.scheduler.requestIds := by
      intro member
      obtain ⟨entry, found, -, -⟩ := listed.found member
      obtain ⟨asked, named⟩ := listed.traced _ entry found
      exact fresh (List.mem_map.mpr ⟨entry.request, asked, named⟩)
    have coming : Driver.Balanced ⟨state.scheduler, [], [], fun _ => 0⟩
        (Driver.enqueuedIds [.enqueue (scheduledRequest config request)]) :=
      { owing with
        distinct := by
          rw [List.nodup_append]
          refine ⟨listed.distinct, List.nodup_singleton _, fun id inside other single same => ?_⟩
          have entering : other = request.requestId := List.mem_singleton.mp single
          rw [same, entering] at inside
          exact unqueued inside
        unborn := fun _ _ => rfl }
    exact Driver.balanced_step coming trivial
  refine ⟨base.1, ?_, ⟨[], base.2.1⟩, base.2.2⟩
  intro id entry found
  obtain ⟨request, rfl⟩ := (unbegun_initial trace config slab).fresh id entry found
  exact ⟨rfl, fun started => absurd started (lt_irrefl 0), fun _ => Nat.lt_of_lt_of_le Nat.one_pos
    (le_max_left _ _), fun done => Bool.noConfusion done, fun _ => rfl⟩

theorem balances_reached {trace : Trace} {config : ReplayConfig} {slab : ℕ → UInt8}
    {guard : PagedState → Prop} {state : PagedState}
    (distinct : (trace.requests.map (·.requestId)).Nodup)
    (safe : PlansSafely trace.requests config)
    (reached : Reached trace config slab guard state) :
    ∃ acknowledged, Balances trace.requests config acknowledged state := by
  induction reached with
  | start => exact ⟨_, balances_initial trace config slab distinct⟩
  | step _ _ _ induction =>
      obtain ⟨acknowledged, balances⟩ := induction
      exact balances_oneStep safe balances

/-- A finished request got all of its tokens and left the queues. -/
theorem served_of_finished {requests : List TraceRequest} {config : ReplayConfig}
    {acknowledged : RequestId → ℕ} {state : PagedState}
    (balances : Balances requests config acknowledged state) {id : RequestId}
    {entry : RequestProgress} (found : state.progress.lookup id = some entry)
    (ended : entry.finished = true) : ServedInFull state entry.request entry := by
  obtain ⟨listed, audited, -, -⟩ := balances
  have account := audited id entry found
  have decoded := account.done ended
  refine ⟨ended, decoded, ?_, ?_⟩
  · rw [account.committed, decoded, account.prompt (by omega)]
  · rw [(listed.traced id entry found).2, ← listed.unfinished id entry found, ended]
    exact Bool.noConfusion

/-- At the end of every step each request of the trace is served in full or still queued with
accounts that agree: no token of a prompt is committed twice or skipped, none is decoded early, and
no request is lost. -/
theorem requests_accounted (trace : Trace) (config : ReplayConfig) (slab : ℕ → UInt8)
    (distinct : (trace.requests.map (·.requestId)).Nodup)
    (safe : PlansSafely trace.requests config) (state : PagedState)
    (reached : Reached trace config slab (fun _ => True) state) :
    ∀ request ∈ trace.requests, ∃ entry,
      state.progress.lookup request.requestId = some entry ∧
        (ServedInFull state request entry ∨ ∃ queued, InService state request entry queued) := by
  intro request asked
  obtain ⟨acknowledged, balances⟩ := balances_reached distinct safe reached
  have listed := balances.listed
  obtain ⟨decoding, owing⟩ := balances.owing
  obtain ⟨entry, found, rfl⟩ := listed.entered request asked
  refine ⟨entry, found, ?_⟩
  have account := balances.audited _ entry found
  have waits := listed.unfinished _ entry found
  cases ended : entry.finished with
  | true => exact Or.inl (served_of_finished balances found ended)
  | false =>
      right
      have member := waits.mp ended
      obtain ⟨entry', found', -, constants⟩ := listed.found member
      obtain rfl := Option.some.inj (found.symm.trans found')
      rw [← Scheduler.queued_ids] at member
      obtain ⟨queued, inside, named⟩ := List.mem_map.mp member
      have prompt : queued.promptTokens = entry.request.promptTokens :=
        congrArg Request.promptTokens (constants queued inside named)
      have tally : acknowledged entry.request.requestId + queued.remainingPrefillTokens =
          entry.request.promptTokens := by
        rw [← named, ← prompt]
        rcases List.mem_append.mp inside with waiting | owned
        · obtain ⟨whole, none_done⟩ := owing.tallied.waiting queued waiting
          dsimp only at none_done
          omega
        · exact owing.tallied.owning queued owned
      refine ⟨queued, ended, account.ahead ended, inside, named, ?_, by omega, ?_, ?_⟩
      · exact List.count_eq_one_of_mem listed.distinct (waits.mp ended)
      · rw [account.committed, Nat.eq_sub_of_add_eq tally]
      · intro started
        have complete := account.prompt started
        omega

/-- Eight blocks of two tokens, without swap space. -/
def roomyConfig (maxSteps : ℕ) : ReplayConfig :=
  ⟨2, 8, 8, 64, 0, 0, true, 8, false, 16, maxSteps, two_lt_word, eight_lt_word, eight_lt_word⟩

/-- In a larger pool the same requests are both served. -/
theorem requests_accounted_pair :
    let state := final pairTrace (roomyConfig 12) fun _ => 0
    state.completed = 2 ∧ ∀ request ∈ pairTrace.requests, ∃ entry,
      state.progress.lookup request.requestId = some entry ∧
        (ServedInFull state request entry ∨ ∃ queued, InService state request entry queued) :=
  ⟨by decide +kernel, requests_accounted pairTrace (roomyConfig 12) (fun _ => 0) (by decide)
    (by decide) _ (reached_final _ _ _)⟩

/-! ## Completed replays -/

/-- What a completed replay leaves: empty queues, nobody live or parked, and every preemption
resumed. -/
structure Emptied (state : PagedState) : Prop where
  queued : state.scheduler.queued = []
  live : state.live = []
  parked : state.preemptedIds = []
  resumed : state.metrics.preemptions = state.metrics.resumes

/-- All requests are finished, so nothing is queued and nobody is live. -/
theorem emptied_of_finished {trace : Trace} {config : ReplayConfig} {slab : ℕ → UInt8}
    {state : PagedState} (distinct : (trace.requests.map (·.requestId)).Nodup)
    {guard : PagedState → Prop} (reached : Reached trace config slab guard state)
    (finished : ∀ request ∈ trace.requests, isFinished state request.requestId = true) :
    Emptied state := by
  obtain ⟨listed, counts⟩ := counts_reached distinct reached
  obtain ⟨ledgered, -⟩ := ledgered_reached reached
  have queued : state.scheduler.queued = [] := by
    rw [List.eq_nil_iff_forall_not_mem]
    intro request inside
    have member : request.requestId ∈ state.scheduler.requestIds := by
      rw [← Scheduler.queued_ids]
      exact List.mem_map_of_mem inside
    obtain ⟨entry, found, unfinished, -⟩ := listed.found member
    obtain ⟨asked, named⟩ := listed.traced _ entry found
    have done := finished entry.request asked
    rw [named, isFinished_found found, unfinished] at done
    exact Bool.noConfusion done
  have live : state.live = [] := by
    rw [List.eq_nil_iff_forall_not_mem]
    intro id inside
    have seen := counts.live id inside
    have unfinished := live_unfinished reached id inside
    rcases found : state.progress.lookup id with _ | entry
    · simp [isAdmitted, found] at seen
    · obtain ⟨asked, named⟩ := listed.traced id entry found
      have done := finished entry.request asked
      rw [named, unfinished] at done
      exact Bool.noConfusion done
  have parked : state.preemptedIds = [] := by
    rw [List.eq_nil_iff_forall_not_mem]
    intro id inside
    have member := (ledgered.standing id inside).1
    rw [live] at member
    exact List.not_mem_nil member
  refine ⟨queued, live, parked, ?_⟩
  rw [ledgered.balance, parked, List.length_nil, Nat.add_zero]

/-- The replay is complete if and only if all requests are finished. -/
theorem completed_iff_finished (trace : Trace) (config : ReplayConfig) (slab : ℕ → UInt8)
    (distinct : (trace.requests.map (·.requestId)).Nodup) :
    (runPaged trace config slab).completed = true ↔
      ∀ request ∈ trace.requests,
        isFinished (final trace config slab) request.requestId = true := by
  obtain ⟨-, counts⟩ := counts_reached distinct (reached_final trace config slab)
  rw [← List.countP_eq_length, ← counts.completed]
  exact decide_eq_true_iff

end PagedReplay

end QwenVLPaged
