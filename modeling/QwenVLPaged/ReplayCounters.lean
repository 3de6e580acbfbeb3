import QwenVLPaged.ReplayRun

/-!
# The counters of a replay

A replay counts how often it parked and resumed requests, how many requests were admitted and how
many are completed. The counters are checked against what they count: the requests that are parked,
and the books of the requests of the trace.
-/

namespace QwenVLPaged

namespace PagedReplay

/-- The counters that are compared with the books, and the parked requests. -/
structure Counters where
  waiting : ℕ
  completed : ℕ
  requestsAdmitted : ℕ
  preemptions : ℕ
  resumes : ℕ
  preemptedIds : List RequestId

def countersOf (state : PagedState) : Counters :=
  ⟨state.waiting, state.completed, state.metrics.requestsAdmitted, state.metrics.preemptions,
    state.metrics.resumes, state.preemptedIds⟩

theorem counters_foldl {α : Type*} {each : PagedState → α → PagedState}
    (one : ∀ state item, countersOf (each state item) = countersOf state) (items : List α)
    (state : PagedState) : countersOf (items.foldl each state) = countersOf state := by
  induction items generalizing state with
  | nil => rfl
  | cons item items induction => exact (induction _).trans (one state item)

theorem counters_touchPosition (tokensPerBlock : ℕ) (sequenceId : SequenceId) (position : ℕ)
    (state : PagedState) :
    countersOf (touchPosition tokensPerBlock sequenceId position state) = countersOf state := by
  unfold touchPosition
  split
  · rfl
  · dsimp only
    split <;> rfl

theorem counters_touchPrompts (tokensPerBlock : ℕ) (progress : RequestProgress) (chunk : ℕ)
    (state : PagedState) :
    countersOf ((List.range chunk).foldl (touchPrompt tokensPerBlock progress) state) =
      countersOf state := by
  refine counters_foldl (fun state offset => ?_) _ _
  simp only [touchPrompt]
  split
  · rfl
  · split
    · exact counters_touchPosition _ _ _ _
    · rfl

theorem counters_openBranches (id : RequestId) (count : ℕ) (state : PagedState) :
    countersOf (openBranches id count state) = countersOf state := by
  induction count generalizing state with
  | zero => rfl
  | succ count induction =>
      refine (induction _).trans ?_
      unfold openBranch
      split
      · rfl
      · dsimp only
        split <;> rfl

theorem counters_completePrompt (config : ReplayConfig) (id : RequestId) (request : TraceRequest)
    (state : PagedState) :
    countersOf (completePrompt config id request state) = countersOf state := by
  simp only [completePrompt]
  split
  · exact counters_openBranches _ _ _
  · exact counters_openBranches _ _ _

/-- The first chunk of a request counts its admission. -/
theorem counters_prefillOne (config : ReplayConfig) {id : RequestId} (chunk : ℕ)
    {state : PagedState} {old : RequestProgress} (found : state.progress.lookup id = some old) :
    countersOf (prefillOne config id chunk state) =
      if old.admitted then
        countersOf state
      else
        { countersOf state with
          waiting := state.waiting - 1
          requestsAdmitted := wrap32 (state.metrics.requestsAdmitted + 1) } := by
  have wrote : countersOf (writeChunk config id chunk
      (greeted config old state.scheduler.cache) (greet config id old state)) =
        countersOf (greet config id old state) := counters_touchPrompts _ _ _ _
  have welcomed : countersOf (greet config id old state) =
      if old.admitted then
        countersOf state
      else
        { countersOf state with
          waiting := state.waiting - 1
          requestsAdmitted := wrap32 (state.metrics.requestsAdmitted + 1) } := by
    unfold greet
    split <;> rfl
  rw [(prefillOne_eq config chunk found).2, ← welcomed, ← wrote]
  split
  · exact counters_completePrompt _ _ _ _
  · rfl

theorem counters_growAll (tokensPerBlock position : ℕ) (sequences : List SequenceId)
    (state : PagedState) :
    countersOf (growAll tokensPerBlock position sequences state).2 = countersOf state := by
  induction sequences generalizing state with
  | nil => rfl
  | cons sequenceId rest induction =>
      have one : countersOf (ensureCapacity tokensPerBlock sequenceId position state).2 =
          countersOf state := by
        unfold ensureCapacity
        split
        · rfl
        · split <;> rfl
      rw [growAll]
      split
      · rename_i failed
        rwa [failed] at one
      · rename_i grown
        rw [grown] at one
        exact (induction _).trans one

theorem counters_parkNewest (plan : BatchPlan) (freeBefore : ℕ) (ids : List RequestId)
    (state : PagedState) :
    countersOf (parkNewest plan freeBefore ids state).2 = countersOf state := by
  induction ids generalizing state with
  | nil => rfl
  | cons id older induction =>
      simp only [parkNewest]
      split
      · exact induction state
      · split
        · rfl
        · exact induction _

/-- The last token of a request counts its completion. -/
theorem counters_commitToken (config : ReplayConfig) (id : RequestId)
    (progress : RequestProgress) (state : PagedState) :
    countersOf (commitToken config id progress state) =
      if progress.request.decodeActual ≤ wrap32 (progress.decoded + 1) then
        { countersOf state with completed := state.completed + 1 }
      else
        countersOf state := by
  have touched : countersOf (progress.sequences.foldl
      (fun state sequenceId =>
        touchPosition config.tokensPerBlock sequenceId progress.committed state) state) =
        countersOf state :=
    counters_foldl (fun state sequenceId => counters_touchPosition _ _ _ state) _ _
  unfold commitToken
  generalize progress.sequences.foldl
    (fun state sequenceId =>
      touchPosition config.tokensPerBlock sequenceId progress.committed state) state =
    wrote at touched
  obtain ⟨waiting, completed, admitted, preemptions, resumes, ids⟩ := Counters.mk.inj touched
  dsimp only
  split
  · simp only [countersOf, finishRequest, setProgress, call, waiting, completed, admitted,
      preemptions, resumes, ids]
  · simp only [countersOf, setProgress, call, waiting, completed, admitted, preemptions, resumes,
      ids]

/-- A decode step leaves books and counters alone and takes nobody out of the queues, or it commits
a token of its request once the sequences were grown. -/
theorem decodeOne_cases (config : ReplayConfig) (plan : BatchPlan) {id : RequestId}
    {state : PagedState} {old : RequestProgress} (found : state.progress.lookup id = some old) :
    (SameBooks state (decodeOne config plan id state) ∧
      countersOf (decodeOne config plan id state) = countersOf state ∧
      Runs Staying state (decodeOne config plan id state)) ∨
    state.scheduler.preemptionInfo.lookup id = none ∧
      decodeOne config plan id state = commitToken config id old
        (growAll config.tokensPerBlock old.committed old.sequences state).2 := by
  have grew := books_growAll config.tokensPerBlock old.committed old.sequences state
  have counted := counters_growAll config.tokensPerBlock old.committed old.sequences state
  have runs : Runs Staying state
      (growAll config.tokensPerBlock old.committed old.sequences state).2 :=
    runs_growAll (fun _ _ => trivial) _ _ _ _
  by_cases parked : (state.scheduler.preemptionInfo.lookup id).isSome
  · simp only [decodeOne, found, parked, if_true]
    exact Or.inl ⟨.refl state, trivial, .refl _ _⟩
  · simp only [decodeOne, found, if_neg parked]
    generalize growAll config.tokensPerBlock old.committed old.sequences state = result
      at grew counted runs
    obtain ⟨_ | _, grown⟩ := result
    · left
      have books := books_parkNewest plan grown.scheduler.freeBlocks grown.live.reverse
        { grown with growthFailed := true }
      have counters := counters_parkNewest plan grown.scheduler.freeBlocks grown.live.reverse
        { grown with growthFailed := true }
      have parks : Runs Staying { grown with growthFailed := true }
          (parkNewest plan grown.scheduler.freeBlocks grown.live.reverse
            { grown with growthFailed := true }).2 :=
        runs_parkNewest (fun _ _ => trivial) _ _ _ _
      exact ⟨⟨books.progress.trans grew.progress, books.next.trans grew.next,
        books.live.trans grew.live⟩, counters.trans counted,
        runs.trans (((Runs.idle rfl rfl).trans parks).of_eq rfl rfl)⟩
    · exact Or.inr ⟨by simpa using parked, rfl⟩

/-! ## Parked requests -/

/-- The request is parked. -/
def Parked (scheduler : Scheduler) (id : RequestId) : Prop :=
  (scheduler.preemptionInfo.lookup id).isSome

theorem parked_preempt {scheduler : Scheduler} {id : RequestId} (parked : Parked scheduler id)
    (other : RequestId) (reason : String) :
    Parked (scheduler.preempt other reason).2 id := by
  unfold Scheduler.preempt
  split
  · exact parked
  · rename_i request _
    by_cases same : id = request.requestId
    · rw [Parked, same, AList.lookup_insert]
      rfl
    · rwa [Parked, AList.lookup_insert_ne same]

theorem parked_scheduleNext {scheduler : Scheduler} {id : RequestId}
    (parked : Parked scheduler id) : Parked scheduler.scheduleNext.2 id := by
  refine Scheduler.scheduleNext_induction (motive := fun after _ => Parked after id) ?_ parked
  intro scheduler plan after planned action parked
  cases action with
  | reclaim watermark older newest => exact parked_preempt parked _ _
  | refuse waiting refused => exact parked
  | accept waiting fits => exact parked

theorem parked_of_prefill {answered : RequestId} {before after : PagedState}
    (runs : Runs (OfPrefill answered) before after) {id : RequestId}
    (parked : Parked before.scheduler id) : Parked after.scheduler id := by
  refine runs.keeps (motive := fun scheduler => Parked scheduler id) ?_ parked
  intro scheduler op fits parked
  cases op with
  | completeStep _ _ => exact parked
  | cache _ => exact parked
  | enqueue _ | scheduleNext | preempt _ _ | resume _ | cancel _ => exact fits.elim

/-- Only cancelling a request ends its parking within the decode steps. -/
theorem parked_cancel {scheduler : Scheduler} {id other : RequestId}
    (parked : Parked scheduler id) (different : id ≠ other) :
    Parked (scheduler.cancel other) id := by
  have erased : ((scheduler.preemptionInfo.erase other).lookup id).isSome := by
    rwa [AList.lookup_erase_ne different]
  unfold Scheduler.cancel
  repeat' split
  · exact erased
  · exact erased
  · exact erased
  · exact parked

/-- A resume ends the parking of its request if it succeeds, and of no other. -/
theorem parked_resume (scheduler : Scheduler) (id other : RequestId) :
    Parked (scheduler.resume id).2 other ↔
      Parked scheduler other ∧ ((scheduler.resume id).1 = true → other ≠ id) := by
  have erased : ((scheduler.preemptionInfo.erase id).lookup other).isSome ↔
      Parked scheduler other ∧ other ≠ id := by
    by_cases same : other = id
    · rw [same, AList.lookup_erase]
      simp
    · simp [Parked, same, AList.lookup_erase_ne same]
  unfold Scheduler.resume
  split
  · simp
  · split
    · simp [Parked]
    · simpa [Parked] using erased

theorem decodeOne_parked (config : ReplayConfig) (plan : BatchPlan) {id : RequestId}
    {state : PagedState} (parked : Parked state.scheduler id) :
    decodeOne config plan id state = state := by
  unfold decodeOne
  split
  · rfl
  · exact if_pos parked

theorem parked_of_decode {answered : RequestId} {before after : PagedState}
    (runs : Runs (OfDecode answered) before after) {id : RequestId} (different : id ≠ answered)
    (parked : Parked before.scheduler id) : Parked after.scheduler id := by
  refine runs.keeps (motive := fun scheduler => Parked scheduler id) ?_ parked
  intro scheduler op fits parked
  cases op with
  | completeStep _ _ => exact parked
  | preempt other reason => exact parked_preempt parked other reason
  | cancel other => exact parked_cancel parked fun same => different (same.trans fits)
  | cache _ => exact parked
  | enqueue _ | scheduleNext | resume _ => exact fits.elim

/-- Every preemption that was counted was resumed or still stands, and the requests it stands for
are live, parked and not finished. -/
structure Ledgered (state : PagedState) : Prop where
  balance : state.metrics.preemptions = state.metrics.resumes + state.preemptedIds.length
  distinct : state.preemptedIds.Nodup
  standing : ∀ id ∈ state.preemptedIds,
    id ∈ state.live ∧ Parked state.scheduler id ∧ isFinished state id = false

/-- The ledger is left alone: other counters may differ, and what stands keeps standing. -/
theorem Ledgered.still {before after : PagedState} (ledgered : Ledgered before)
    (counters : ∃ waiting completed requestsAdmitted, countersOf after =
      { countersOf before with waiting, completed, requestsAdmitted })
    (stands : ∀ id, id ∈ before.live → Parked before.scheduler id →
      isFinished before id = false →
        id ∈ after.live ∧ Parked after.scheduler id ∧ isFinished after id = false) :
    Ledgered after := by
  obtain ⟨_, _, _, counters⟩ := counters
  have preemptions : after.metrics.preemptions = before.metrics.preemptions :=
    congrArg Counters.preemptions counters
  have resumes : after.metrics.resumes = before.metrics.resumes :=
    congrArg Counters.resumes counters
  have ids : after.preemptedIds = before.preemptedIds := congrArg Counters.preemptedIds counters
  constructor
  case balance => rw [preemptions, resumes, ids, ledgered.balance]
  case distinct => rw [ids]; exact ledgered.distinct
  case standing =>
    intro id member
    rw [ids] at member
    obtain ⟨live, parked, unfinished⟩ := ledgered.standing id member
    exact stands id live parked unfinished

theorem isFinished_congr {before after : PagedState} {id : RequestId}
    (same : after.progress.lookup id = before.progress.lookup id) :
    isFinished after id = isFinished before id := by
  rw [isFinished, isFinished, same]

theorem ledgered_prefillOne {config : ReplayConfig} {id : RequestId} {chunk : ℕ}
    {state : PagedState} (ledgered : Ledgered state) :
    Ledgered (prefillOne config id chunk state) := by
  rcases found : state.progress.lookup id with _ | old
  · simpa only [prefillOne, found] using ledgered
  · obtain ⟨books, live⟩ := books_prefillOne config chunk found
    have counted := counters_prefillOne config chunk found
    refine ledgered.still ?_ ?_
    · split at counted
      · exact ⟨_, _, _, counted⟩
      · exact ⟨_, _, _, counted⟩
    intro other inside parked unfinished
    refine ⟨?_, parked_of_prefill (runs_prefillOne config id chunk state) parked, ?_⟩
    · rw [live]
      split
      · exact inside
      · exact List.mem_append_left _ inside
    · by_cases answered : other = id
      · subst answered
        obtain ⟨new, found', written⟩ := books.entry old found
        simp only [isFinished, found', found, Option.map_some, Option.getD_some] at unfinished ⊢
        rw [written.finished, unfinished]
      · rw [isFinished_congr (books.others other answered), unfinished]

/-- A parked request is passed over, so whatever a decode step cancels was not parked. -/
theorem ledgered_decodeOne {config : ReplayConfig} {plan : BatchPlan} {id : RequestId}
    {state : PagedState} (ledgered : Ledgered state) :
    Ledgered (decodeOne config plan id state) := by
  by_cases standing : Parked state.scheduler id
  · rwa [decodeOne_parked config plan standing]
  rcases found : state.progress.lookup id with _ | old
  · simpa only [decodeOne, found] using ledgered
  obtain ⟨books, live⟩ := books_decodeOne config plan id state
  refine ledgered.still ?_ ?_
  · rcases decodeOne_cases config plan found with ⟨-, counted, -⟩ | ⟨-, committed⟩
    · exact ⟨_, _, _, counted⟩
    · have grew := counters_growAll config.tokensPerBlock old.committed old.sequences state
      rw [committed, counters_commitToken, grew]
      split
      · exact ⟨_, _, _, rfl⟩
      · exact ⟨_, _, _, rfl⟩
  · intro other inside parked unfinished
    have different : other ≠ id := fun answered => standing (answered ▸ parked)
    exact ⟨live ▸ inside,
      parked_of_decode (runs_decodeOne config plan id state) different parked,
      (isFinished_congr (books.others other different)).trans unfinished⟩

theorem ledgered_prefillLoop {config : ReplayConfig} (chunks : List (RequestId × ℕ))
    {state : PagedState} (ledgered : Ledgered state) :
    Ledgered (prefillLoop config chunks state) := by
  induction chunks generalizing state with
  | nil => exact ledgered
  | cons planned rest induction => exact induction (ledgered_prefillOne ledgered)

theorem ledgered_decodeLoop {config : ReplayConfig} {plan : BatchPlan} (ids : List RequestId)
    {state : PagedState} (ledgered : Ledgered state) :
    Ledgered (decodeLoop config plan ids state) := by
  induction ids generalizing state with
  | nil => exact ledgered
  | cons id rest induction => exact induction (ledgered_decodeOne ledgered)

/-- Recording a parked request counts it, and there is nothing to strike out otherwise. -/
theorem ledgered_recordParked {state : PagedState} {id : RequestId} (ledgered : Ledgered state)
    (inside : id ∈ state.live) :
    Ledgered (recordParked state id) ∧
      (∀ other ∈ state.preemptedIds, other ∈ (recordParked state id).preemptedIds) ∧
      (isFinished state id = false → Parked state.scheduler id →
        id ∈ (recordParked state id).preemptedIds) := by
  unfold recordParked
  split
  · rename_i done
    exact ⟨ledgered, fun _ member => member, fun unfinished => by simp [unfinished] at done⟩
  rename_i unfinished
  split
  · rename_i bare
    have untouched : state.preemptedIds.filter (fun other => other ≠ id) = state.preemptedIds := by
      refine List.filter_eq_self.mpr fun other member => decide_eq_true fun same => ?_
      have parked := (ledgered.standing other member).2.1
      rw [same, Parked, bare] at parked
      exact Bool.noConfusion parked
    rw [untouched]
    refine ⟨ledgered, fun _ member => member, fun _ parked => ?_⟩
    rw [Parked, bare] at parked
    exact Bool.noConfusion parked
  · rename_i info parked
    split
    · rename_i recorded
      exact ⟨ledgered, fun _ member => member, fun _ _ => recorded⟩
    · rename_i unrecorded
      refine ⟨⟨?_, List.nodup_cons.mpr ⟨unrecorded, ledgered.distinct⟩, ?_⟩,
        fun _ member => List.mem_cons_of_mem _ member, fun _ _ => List.mem_cons_self⟩
      · simp only [List.length_cons, ledgered.balance, Nat.add_assoc]
      · intro other member
        rcases List.mem_cons.mp member with rfl | old
        · exact ⟨inside, by rw [Parked, parked]; rfl, (Bool.not_eq_true _).mp unfinished⟩
        · exact ledgered.standing other old

/-- What recording leaves alone. -/
theorem recordParked_frame (state : PagedState) (id : RequestId) :
    (recordParked state id).scheduler = state.scheduler ∧
      (recordParked state id).progress = state.progress ∧
      (recordParked state id).live = state.live := by
  unfold recordParked
  split
  · exact ⟨rfl, rfl, rfl⟩
  · split
    · exact ⟨rfl, rfl, rfl⟩
    · split
      · exact ⟨rfl, rfl, rfl⟩
      · exact ⟨rfl, rfl, rfl⟩

/-- Live requests that are parked and not finished are on the record. -/
def Recorded (ids : List RequestId) (state : PagedState) : Prop :=
  ∀ id ∈ ids, isFinished state id = false → Parked state.scheduler id → id ∈ state.preemptedIds

theorem ledgered_recordAll (ids : List RequestId) {state : PagedState}
    (ledgered : Ledgered state) (inside : ∀ id ∈ ids, id ∈ state.live) :
    Ledgered (ids.foldl recordParked state) ∧
      (∀ other ∈ state.preemptedIds, other ∈ (ids.foldl recordParked state).preemptedIds) ∧
      Recorded ids (ids.foldl recordParked state) ∧
      (ids.foldl recordParked state).scheduler = state.scheduler ∧
      (ids.foldl recordParked state).progress = state.progress ∧
      (ids.foldl recordParked state).live = state.live := by
  induction ids generalizing state with
  | nil => exact ⟨ledgered, fun _ member => member, by simp [Recorded], rfl, rfl, rfl⟩
  | cons id rest induction =>
      obtain ⟨kept, older, recorded⟩ :=
        ledgered_recordParked ledgered (inside id List.mem_cons_self)
      obtain ⟨scheduler, progress, live⟩ := recordParked_frame state id
      obtain ⟨kept', older', recorded', scheduler', progress', live'⟩ := induction kept
        fun other member => by rw [live]; exact inside other (List.mem_cons_of_mem _ member)
      refine ⟨kept', fun other member => older' other (older other member), ?_,
        scheduler'.trans scheduler, progress'.trans progress, live'.trans live⟩
      intro other member unfinished parked
      rcases List.mem_cons.mp member with rfl | late
      · refine older' other (recorded ?_ ?_)
        · have same : state.progress.lookup other =
              (rest.foldl recordParked (recordParked state other)).progress.lookup other := by
            rw [progress', progress]
          rwa [isFinished_congr same]
        · rw [← scheduler, ← scheduler']
          exact parked
      · exact recorded' other late unfinished parked

/-- A resume that succeeds is counted and struck out. -/
theorem ledgered_tryResume {state : PagedState} {ids : List RequestId} (id : RequestId)
    (ledgered : Ledgered state) (recorded : Recorded ids state) :
    Ledgered (tryResume state id) ∧ Recorded ids (tryResume state id) ∧
      (tryResume state id).live = state.live := by
  simp only [tryResume]
  split
  · exact ⟨ledgered, recorded, rfl⟩
  rename_i standing
  have standing : id ∈ state.preemptedIds := not_not.mp standing
  have resumed (other : RequestId) : Parked (call (.resume id) state).scheduler other ↔
      Parked state.scheduler other ∧
        ((state.scheduler.resume id).1 = true → other ≠ id) := parked_resume _ _ _
  split
  · rename_i success
    refine ⟨⟨?_, ledgered.distinct.filter _, ?_⟩, ?_, rfl⟩
    · have one : (state.preemptedIds.filter fun other => decide (other ≠ id)).length + 1 =
          state.preemptedIds.length := by
        rw [← List.length_erase_add_one standing, ledgered.distinct.erase_eq_filter id]
        refine congrArg (fun kept : List RequestId => kept.length + 1)
          (List.filter_congr fun other _ => ?_)
        rw [decide_not]
        rfl
      have balance := ledgered.balance
      simp only [call] at one ⊢
      omega
    · intro other member
      obtain ⟨old, different⟩ := List.mem_filter.mp member
      obtain ⟨live, parked, unfinished⟩ := ledgered.standing other old
      exact ⟨live, (resumed other).mpr ⟨parked, fun _ => of_decide_eq_true different⟩, unfinished⟩
    · intro other member unfinished parked
      obtain ⟨parked, different⟩ := (resumed other).mp parked
      exact List.mem_filter.mpr ⟨recorded other member unfinished parked,
        decide_eq_true (different success)⟩
  · rename_i failure
    refine ⟨⟨ledgered.balance, ledgered.distinct, ?_⟩, ?_, rfl⟩
    · intro other member
      obtain ⟨live, parked, unfinished⟩ := ledgered.standing other member
      exact ⟨live, (resumed other).mpr ⟨parked, fun success => absurd success failure⟩, unfinished⟩
    · intro other member unfinished parked
      exact recorded other member unfinished ((resumed other).mp parked).1

theorem ledgered_resumeAll {ids : List RequestId} (queue : List RequestId) {state : PagedState}
    (ledgered : Ledgered state) (recorded : Recorded ids state) :
    Ledgered (queue.foldl tryResume state) ∧ Recorded ids (queue.foldl tryResume state) ∧
      (queue.foldl tryResume state).live = state.live := by
  induction queue generalizing state with
  | nil => exact ⟨ledgered, recorded, rfl⟩
  | cons id rest induction =>
      obtain ⟨kept, recorded', live⟩ := ledgered_tryResume id ledgered recorded
      obtain ⟨kept', recorded'', live'⟩ := induction kept recorded'
      exact ⟨kept', recorded'', live'.trans live⟩

/-- At the end of a step the record holds the live requests that are parked, and no other. -/
theorem ledgered_settle {state : PagedState} (ledgered : Ledgered state) :
    Ledgered (settle state) ∧ Recorded (settle state).live (settle state) := by
  obtain ⟨recordedAll, -, recorded, -, -, live⟩ :=
    ledgered_recordAll state.live ledgered fun _ member => member
  have whole : Ledgered
        (if (state.live.foldl recordParked state).growthFailed then
          state.live.foldl recordParked state
        else
          (state.live.foldl recordParked state).live.foldl tryResume
            (state.live.foldl recordParked state)) ∧
      Recorded state.live
        (if (state.live.foldl recordParked state).growthFailed then
          state.live.foldl recordParked state
        else
          (state.live.foldl recordParked state).live.foldl tryResume
            (state.live.foldl recordParked state)) ∧
      (if (state.live.foldl recordParked state).growthFailed then
          state.live.foldl recordParked state
        else
          (state.live.foldl recordParked state).live.foldl tryResume
            (state.live.foldl recordParked state)).live = state.live := by
    split
    · exact ⟨recordedAll, recorded, live⟩
    · obtain ⟨kept, recorded', live'⟩ := ledgered_resumeAll
        (state.live.foldl recordParked state).live recordedAll recorded
      exact ⟨kept, recorded', live'.trans live⟩
  simp only [settle]
  generalize (if (state.live.foldl recordParked state).growthFailed then
      state.live.foldl recordParked state
    else
      (state.live.foldl recordParked state).live.foldl tryResume
        (state.live.foldl recordParked state)) = resumed at whole
  obtain ⟨kept, recorded', live'⟩ := whole
  refine ⟨⟨kept.balance, kept.distinct, fun id member => ?_⟩, ?_⟩
  · obtain ⟨inside, parked, unfinished⟩ := kept.standing id member
    exact ⟨List.mem_filter.mpr ⟨inside, by simp [unfinished]⟩, parked, unfinished⟩
  · intro id member
    exact recorded' id (live' ▸ (List.mem_filter.mp member).1)

/-- Counting at the end of a step leaves the ledger alone. -/
theorem counters_account (trace : Trace) (config : ReplayConfig) (plan : BatchPlan)
    (state : PagedState) :
    countersOf (account trace config plan state) = countersOf state := by
  have measured (metrics : ReplayMetrics) (id : RequestId) :
      (measureRequest config state metrics id).requestsAdmitted = metrics.requestsAdmitted ∧
      (measureRequest config state metrics id).preemptions = metrics.preemptions ∧
      (measureRequest config state metrics id).resumes = metrics.resumes := by
    unfold measureRequest
    split
    · exact ⟨rfl, rfl, rfl⟩
    · split
      · exact ⟨rfl, rfl, rfl⟩
      · rename_i progress _
        exact List.foldlRecOn (motive := fun after : ReplayMetrics =>
            after.requestsAdmitted = metrics.requestsAdmitted ∧
              after.preemptions = metrics.preemptions ∧ after.resumes = metrics.resumes)
          progress.sequences _ ⟨rfl, rfl, rfl⟩ fun _ same _ _ => same
  have whole (start : ReplayMetrics) :
      (state.live.foldl (measureRequest config state) start).requestsAdmitted =
          start.requestsAdmitted ∧
        (state.live.foldl (measureRequest config state) start).preemptions = start.preemptions ∧
        (state.live.foldl (measureRequest config state) start).resumes = start.resumes := by
    refine List.foldlRecOn (motive := fun after : ReplayMetrics =>
      after.requestsAdmitted = start.requestsAdmitted ∧
        after.preemptions = start.preemptions ∧ after.resumes = start.resumes)
      state.live _ ⟨rfl, rfl, rfl⟩ fun metrics same id _ => ?_
    obtain ⟨admitted, preemptions, resumes⟩ := measured metrics id
    exact ⟨admitted.trans same.1, preemptions.trans same.2.1, resumes.trans same.2.2⟩
  simp only [account, countersOf]
  obtain ⟨admitted, preemptions, resumes⟩ := whole
    { state.metrics with
      headOfLineStallSteps :=
        if 0 < state.waiting ∧ plan.prefillRequests = [] then
          state.metrics.headOfLineStallSteps + 1
        else
          state.metrics.headOfLineStallSteps
      peakActiveRequests :=
        max state.metrics.peakActiveRequests (wrap32 plan.decodeRequests.length)
      peakBlocksInUse := max state.metrics.peakBlocksInUse
        (sub32 state.scheduler.cache.allocator.stats.totalBlocks
          state.scheduler.cache.allocator.stats.freeBlocks)
      peakBytesInUse := max state.metrics.peakBytesInUse
        (wrap64 (sub32 state.scheduler.cache.allocator.stats.totalBlocks
          state.scheduler.cache.allocator.stats.freeBlocks * (frameShape trace config).byteSize))
      reservedTokenSlots := state.metrics.reservedTokenSlots +
        sub32 state.scheduler.cache.allocator.stats.totalBlocks
          state.scheduler.cache.allocator.stats.freeBlocks * config.tokensPerBlock }
  rw [admitted, preemptions, resumes]

theorem ledgered_oneStep {trace : Trace} {config : ReplayConfig} {state : PagedState}
    (ledgered : Ledgered state) :
    Ledgered (oneStep trace config state) ∧
      Recorded (oneStep trace config state).live (oneStep trace config state) := by
  have planned : Ledgered (call .scheduleNext (begin state)) :=
    ledgered.still ⟨_, _, _, rfl⟩ fun id live parked unfinished =>
      ⟨live, parked_scheduleNext parked, unfinished⟩
  have filled : Ledgered (prefillLoop config state.scheduler.scheduleNext.1.chunks
      (call .scheduleNext (begin state))) := ledgered_prefillLoop _ planned
  have decoded : Ledgered (decodeLoop config state.scheduler.scheduleNext.1
      state.scheduler.scheduleNext.1.decodeRequests
      (prefillLoop config state.scheduler.scheduleNext.1.chunks
        (call .scheduleNext (begin state)))) := ledgered_decodeLoop _ filled
  obtain ⟨kept, recorded⟩ := ledgered_settle decoded
  have counted := counters_account trace config state.scheduler.scheduleNext.1
    (settle (decodeLoop config state.scheduler.scheduleNext.1
      state.scheduler.scheduleNext.1.decodeRequests
      (prefillLoop config state.scheduler.scheduleNext.1.chunks
        (call .scheduleNext (begin state)))))
  exact ⟨kept.still ⟨_, _, _, counted⟩ fun id live parked unfinished =>
    ⟨live, parked, unfinished⟩, recorded⟩

theorem ledgered_initial (trace : Trace) (config : ReplayConfig) (slab : ℕ → UInt8) :
    Ledgered (initial trace config slab) ∧ (initial trace config slab).live = [] := by
  unfold initial
  refine List.foldlRecOn (motive := fun state : PagedState => Ledgered state ∧ state.live = [])
    trace.requests _ ⟨⟨rfl, List.nodup_nil, by simp⟩, rfl⟩ ?_
  rintro state ⟨ledgered, idle⟩ request -
  exact ⟨ledgered.still ⟨_, _, _, rfl⟩ fun id live => by simp [idle] at live, idle⟩

theorem ledgered_reached {trace : Trace} {config : ReplayConfig} {slab : ℕ → UInt8}
    {guard : PagedState → Prop} {state : PagedState}
    (reached : Reached trace config slab guard state) :
    Ledgered state ∧ Recorded state.live state := by
  induction reached with
  | start =>
      obtain ⟨ledgered, idle⟩ := ledgered_initial trace config slab
      exact ⟨ledgered, by simp [Recorded, idle]⟩
  | step _ _ _ induction => exact ledgered_oneStep induction.1

/-- Two requests, of two samples and of one. -/
def pairTrace : Trace :=
  ⟨⟨1, 1, 1, 1⟩,
    [⟨1, 2, 2, 3, 2, "", two_lt_word, two_lt_word, three_lt_word, two_lt_word⟩,
      ⟨2, 2, 2, 2, 1, "", two_lt_word, two_lt_word, two_lt_word, one_lt_word⟩]⟩

/-- Four blocks of two tokens, and swap space for as many. -/
def pairConfig (maxSteps : ℕ) : ReplayConfig :=
  ⟨2, 4, 8, 64, 0, 4, true, 8, false, 16, maxSteps, two_lt_word, four_lt_word, eight_lt_word⟩

end PagedReplay

end QwenVLPaged
