import QwenVLPaged.PagedReplay

/-!
# Calls and reached states of a paged replay

Between two plans the driver only makes calls of the scheduler and of its cache. `Runs` says which
ones, so that what these calls keep is kept by the functions of the driver. `Reached` are the states
after the steps of a run, and the plans that the driver answers are described for any trace, also
for one that gives two requests the same id.
-/

namespace QwenVLPaged

namespace PagedReplay

/-! ## Calls -/

/-- The scheduler got from one state to the other by calls of the given kind. -/
def Runs (allowed : SchedulerOp → Prop) (before after : PagedState) : Prop :=
  ∃ ops, (∀ op ∈ ops, allowed op) ∧ after.scheduler = before.scheduler.run ops ∧
    after.calls = before.calls ++ ops

namespace Runs

/-- No call was made. -/
theorem idle {allowed : SchedulerOp → Prop} {before after : PagedState}
    (scheduler : after.scheduler = before.scheduler) (calls : after.calls = before.calls) :
    Runs allowed before after :=
  ⟨[], by simp, scheduler, by rw [calls, List.append_nil]⟩

theorem refl (allowed : SchedulerOp → Prop) (state : PagedState) : Runs allowed state state :=
  idle rfl rfl

theorem call {allowed : SchedulerOp → Prop} (op : SchedulerOp) (fits : allowed op)
    (state : PagedState) : Runs allowed state (call op state) :=
  ⟨[op], by simpa using fits, rfl, rfl⟩

theorem trans {allowed : SchedulerOp → Prop} {first second third : PagedState}
    (early : Runs allowed first second) (late : Runs allowed second third) :
    Runs allowed first third := by
  obtain ⟨ops, fits, scheduler, calls⟩ := early
  obtain ⟨ops', fits', scheduler', calls'⟩ := late
  refine ⟨ops ++ ops', ?_, ?_, ?_⟩
  · intro op member
    rcases List.mem_append.mp member with old | new
    · exact fits op old
    · exact fits' op new
  · rw [scheduler', scheduler, Scheduler.run, Scheduler.run, Scheduler.run, Execution.run_append]
  · rw [calls', calls, List.append_assoc]

/-- What is not read by a call does not matter. -/
theorem of_eq {allowed : SchedulerOp → Prop} {before middle after : PagedState}
    (runs : Runs allowed before middle) (scheduler : after.scheduler = middle.scheduler)
    (calls : after.calls = middle.calls) : Runs allowed before after :=
  runs.trans (idle scheduler calls)

theorem mono {allowed allowed' : SchedulerOp → Prop} {before after : PagedState}
    (runs : Runs allowed before after) (weaken : ∀ op, allowed op → allowed' op) :
    Runs allowed' before after := by
  obtain ⟨ops, fits, rest⟩ := runs
  exact ⟨ops, fun op member => weaken op (fits op member), rest⟩

/-- What every allowed call keeps. -/
theorem keeps {allowed : SchedulerOp → Prop} {before after : PagedState}
    (runs : Runs allowed before after) {motive : Scheduler → Prop}
    (each : ∀ scheduler op, allowed op → motive scheduler → motive (scheduler.step op))
    (start : motive before.scheduler) : motive after.scheduler := by
  obtain ⟨ops, fits, scheduler, -⟩ := runs
  rw [scheduler]
  exact (Execution.run_induction
    (motive := fun (scheduler : Scheduler) ops =>
      motive scheduler ∧ ∀ op ∈ ops, allowed op)
    (fun scheduler op ops holds =>
      ⟨each scheduler op (holds.2 op List.mem_cons_self) holds.1,
        fun other member => holds.2 other (List.mem_cons_of_mem _ member)⟩)
    ⟨start, fits⟩).1

theorem foldl {allowed : SchedulerOp → Prop} {α : Type*} {each : PagedState → α → PagedState}
    (one : ∀ state item, Runs allowed state (each state item)) (items : List α)
    (state : PagedState) : Runs allowed state (items.foldl each state) := by
  induction items generalizing state with
  | nil => exact refl _ _
  | cons item items induction => exact (one state item).trans (induction _)

end Runs

/-- Calls that answer a prefill chunk of the request. -/
def OfPrefill (id : RequestId) : SchedulerOp → Prop
  | .completeStep other _ => other = id
  | .cache (.ensureTokenWritable _ _ _) => True
  | .cache (.publishPrefix _ _) => True
  | .cache (.forkSequence _ _) => True
  | _ => False

/-- Calls that answer a decode step of the request. -/
def OfDecode (id : RequestId) : SchedulerOp → Prop
  | .completeStep other _ => other = id
  | .preempt _ _ => True
  | .cancel other => other = id
  | .cache (.ensureTokenWritable _ _ _) => True
  | .cache (.reserveTokens _ _) => True
  | _ => False

theorem prefill_answered (id : RequestId) (chunk : ℕ) : OfPrefill id (.completeStep id chunk) :=
  rfl

theorem decode_answered (id : RequestId) : OfDecode id (.completeStep id 1) := rfl

theorem decode_cancelled (id : RequestId) : OfDecode id (.cancel id) := rfl

/-- Calls of the cache manager. -/
def OfCache : SchedulerOp → Prop
  | .cache _ => True
  | _ => False

/-- Calls with which no request comes or goes. -/
def Staying : SchedulerOp → Prop
  | .enqueue _ => False
  | .cancel _ => False
  | _ => True

/-- Calls between two steps. -/
def OfSettling : SchedulerOp → Prop
  | .resume _ => True
  | _ => False

theorem runs_touchPosition {allowed : SchedulerOp → Prop}
    (touches : ∀ id position layer, allowed (.cache (.ensureTokenWritable id position layer)))
    (tokensPerBlock : ℕ) (sequenceId : SequenceId) (position : ℕ) (state : PagedState) :
    Runs allowed state (touchPosition tokensPerBlock sequenceId position state) := by
  unfold touchPosition
  split
  · exact .refl _ _
  · dsimp only
    split
    · exact (Runs.call _ (touches _ _ _) state).of_eq rfl rfl
    · exact Runs.call _ (touches _ _ _) state

theorem runs_openBranches {allowed : SchedulerOp → Prop}
    (forks : ∀ parent child, allowed (.cache (.forkSequence parent child))) (id : RequestId)
    (count : ℕ) (state : PagedState) : Runs allowed state (openBranches id count state) := by
  induction count generalizing state with
  | zero => exact .refl _ _
  | succ count induction =>
      refine Runs.trans ?_ (induction _)
      unfold openBranch
      split
      · exact .refl _ _
      · rename_i progress _
        have forked := Runs.call (.cache (.forkSequence progress.request.requestId
          ⟨state.nextForkSequence, progress.request.requestId⟩)) (forks _ _) state
        dsimp only
        split
        · exact forked.of_eq rfl rfl
        · exact forked.of_eq rfl rfl

theorem runs_touchPrompts {allowed : SchedulerOp → Prop}
    (touches : ∀ id position layer, allowed (.cache (.ensureTokenWritable id position layer)))
    (tokensPerBlock : ℕ) (progress : RequestProgress) (chunk : ℕ) (state : PagedState) :
    Runs allowed state ((List.range chunk).foldl (touchPrompt tokensPerBlock progress) state) := by
  refine Runs.foldl (fun state offset => ?_) _ _
  simp only [touchPrompt]
  split
  · exact .refl _ _
  · split
    · exact runs_touchPosition touches _ _ _ _
    · exact .refl _ _

theorem runs_completePrompt {allowed : SchedulerOp → Prop}
    (publishes : ∀ id key, allowed (.cache (.publishPrefix id key)))
    (forks : ∀ parent child, allowed (.cache (.forkSequence parent child)))
    (config : ReplayConfig) (id : RequestId) (request : TraceRequest) (state : PagedState) :
    Runs allowed state (completePrompt config id request state) := by
  simp only [completePrompt]
  split
  · exact (Runs.call _ (publishes _ _) _).trans (runs_openBranches forks _ _ _)
  · exact runs_openBranches forks _ _ _

/-- The request is live before its chunk is written. -/
def greet (config : ReplayConfig) (id : RequestId) (old : RequestProgress) (state : PagedState) :
    PagedState :=
  if old.admitted then state else welcome config id old state

/-- Progress of a request that is live. -/
def greeted (config : ReplayConfig) (old : RequestProgress) (cache : KVCacheManager) :
    RequestProgress :=
  if old.admitted then
    old
  else
    { old with
      admitted := true
      sequences := old.sequences ++ [old.request.requestId]
      sharedPromptTokens :=
        if 0 < queriedPrefix config old.request cache then queriedPrefix config old.request cache
        else old.sharedPromptTokens }

/-- Write a chunk of a prompt and report it. -/
def writeChunk (config : ReplayConfig) (id : RequestId) (chunk : ℕ) (progress : RequestProgress)
    (state : PagedState) : PagedState :=
  { call (.completeStep id chunk)
      (setProgress id { progress with committed := wrap32 (progress.committed + chunk) }
        ((List.range chunk).foldl (touchPrompt config.tokensPerBlock progress) state)) with
    progressMade := true }

/-- A prefill step greets the request, writes its chunk, and completes the prompt behind the last
chunk. -/
theorem prefillOne_eq (config : ReplayConfig) {id : RequestId} (chunk : ℕ) {state : PagedState}
    {old : RequestProgress} (found : state.progress.lookup id = some old) :
    let welcomed := greet config id old state
    let progress := greeted config old state.scheduler.cache
    let stepped := writeChunk config id chunk progress welcomed
    welcomed.progress.lookup id = some progress ∧
    prefillOne config id chunk state =
      if stepped.scheduler.stateOf id = some .decode then
        completePrompt config id progress.request stepped
      else
        stepped := by
  have present : (greet config id old state).progress.lookup id =
      some (greeted config old state.scheduler.cache) := by
    unfold greet greeted
    split
    · exact found
    · simp [welcome, setProgress]
  refine ⟨present, ?_⟩
  unfold greet at present ⊢
  simp only [prefillOne, found, present, writeChunk]
  rfl

theorem runs_greet (config : ReplayConfig) (id : RequestId) (old : RequestProgress)
    (state : PagedState) : Runs (OfPrefill id) state (greet config id old state) := by
  unfold greet
  split
  · exact .refl _ _
  · exact .idle rfl rfl

theorem runs_writeChunk (config : ReplayConfig) (id : RequestId) (chunk : ℕ)
    (progress : RequestProgress) (state : PagedState) :
    Runs (OfPrefill id) state (writeChunk config id chunk progress state) :=
  (runs_touchPrompts (fun _ _ _ => trivial) config.tokensPerBlock progress chunk state).trans
    ((Runs.idle rfl rfl).trans ((Runs.call _ (prefill_answered id chunk) _).of_eq rfl rfl))

theorem runs_prefillOne (config : ReplayConfig) (id : RequestId) (chunk : ℕ)
    (state : PagedState) : Runs (OfPrefill id) state (prefillOne config id chunk state) := by
  rcases found : state.progress.lookup id with _ | old
  · simp only [prefillOne, found]
    exact .refl _ _
  · have stepped := (runs_greet config id old state).trans
      (runs_writeChunk config id chunk (greeted config old state.scheduler.cache) _)
    rw [(prefillOne_eq config chunk found).2]
    split
    · exact stepped.trans
        (runs_completePrompt (fun _ _ => trivial) (fun _ _ => trivial) _ _ _ _)
    · exact stepped

/-- Answering chunks moves no request between the queues. -/
theorem owners_of_prefill {id : RequestId} {before after : PagedState}
    (runs : Runs (OfPrefill id) before after) :
    after.scheduler.owners = before.scheduler.owners := by
  refine runs.keeps (motive := fun scheduler => scheduler.owners = before.scheduler.owners) ?_ rfl
  intro scheduler op fits same
  cases op with
  | completeStep id produced => rw [Scheduler.step, Scheduler.owners_completeStep, same]
  | cache op => exact same
  | enqueue _ | scheduleNext | preempt _ _ | resume _ | cancel _ => exact fits.elim

theorem runs_ensureCapacity {allowed : SchedulerOp → Prop}
    (grows : ∀ id tokens, allowed (.cache (.reserveTokens id tokens))) (tokensPerBlock : ℕ)
    (sequenceId : SequenceId) (position : ℕ) (state : PagedState) :
    Runs allowed state (ensureCapacity tokensPerBlock sequenceId position state).2 := by
  unfold ensureCapacity
  split
  · exact .refl _ _
  · split
    · exact .refl _ _
    · exact .call _ (grows _ _) _

theorem runs_growAll {allowed : SchedulerOp → Prop}
    (grows : ∀ id tokens, allowed (.cache (.reserveTokens id tokens)))
    (tokensPerBlock position : ℕ) (sequences : List SequenceId) (state : PagedState) :
    Runs allowed state (growAll tokensPerBlock position sequences state).2 := by
  induction sequences generalizing state with
  | nil => exact .refl _ _
  | cons sequenceId rest induction =>
      have one := runs_ensureCapacity grows tokensPerBlock sequenceId position state
      rw [growAll]
      split
      · rename_i failed
        rwa [failed] at one
      · rename_i grown
        rw [grown] at one
        exact one.trans (induction _)

theorem runs_parkNewest {allowed : SchedulerOp → Prop}
    (parks : ∀ id reason, allowed (.preempt id reason)) (plan : BatchPlan) (freeBefore : ℕ)
    (ids : List RequestId) (state : PagedState) :
    Runs allowed state (parkNewest plan freeBefore ids state).2 := by
  induction ids generalizing state with
  | nil => exact .refl _ _
  | cons id older induction =>
      simp only [parkNewest]
      split
      · exact induction state
      · split
        · exact .call _ (parks _ _) _
        · exact (Runs.call _ (parks _ _) _).trans (induction _)

theorem runs_commitToken (config : ReplayConfig) (id : RequestId) (progress : RequestProgress)
    (state : PagedState) : Runs (OfDecode id) state (commitToken config id progress state) := by
  have touched : Runs (OfDecode id) state (progress.sequences.foldl
      (fun state sequenceId =>
        touchPosition config.tokensPerBlock sequenceId progress.committed state) state) :=
    Runs.foldl (fun state sequenceId =>
      runs_touchPosition (fun _ _ _ => trivial) _ sequenceId _ state) _ _
  have stepped := touched.trans ((Runs.idle rfl rfl).trans
    (Runs.call _ (decode_answered id)
      (setProgress id
        { progress with
          committed := wrap32 (progress.committed + 1)
          decoded := wrap32 (progress.decoded + 1) }
        (progress.sequences.foldl
          (fun state sequenceId =>
            touchPosition config.tokensPerBlock sequenceId progress.committed state) state))))
  simp only [commitToken]
  split
  · exact (stepped.of_eq rfl rfl).trans
      ((Runs.call _ (decode_cancelled id) _).of_eq rfl rfl)
  · exact stepped.of_eq rfl rfl

theorem runs_decodeOne (config : ReplayConfig) (plan : BatchPlan) (id : RequestId)
    (state : PagedState) : Runs (OfDecode id) state (decodeOne config plan id state) := by
  unfold decodeOne
  split
  · exact .refl _ _
  · rename_i progress _
    have grew : Runs (OfDecode id) state
        (growAll config.tokensPerBlock progress.committed progress.sequences state).2 :=
      runs_growAll (fun _ _ => trivial) _ _ _ _
    split
    · exact .refl _ _
    · split
      · rename_i grown
        rw [grown] at grew
        exact grew.trans (runs_commitToken _ _ _ _)
      · rename_i failed result
        rw [result] at grew
        have parked : Runs (OfDecode id) { failed with growthFailed := true }
            (parkNewest plan failed.scheduler.freeBlocks failed.live.reverse
              { failed with growthFailed := true }).2 :=
          runs_parkNewest (fun _ _ => trivial) _ _ _ _
        exact grew.trans (((Runs.idle rfl rfl).trans parked).of_eq rfl rfl)

theorem runs_settle (state : PagedState) : Runs OfSettling state (settle state) := by
  have recorded : Runs OfSettling state (state.live.foldl recordParked state) := by
    refine Runs.foldl (fun state id => ?_) _ _
    unfold recordParked
    split
    · exact .refl _ _
    · split
      · exact .idle rfl rfl
      · split
        · exact .refl _ _
        · exact .idle rfl rfl
  have resumed (state : PagedState) :
      Runs OfSettling state (state.live.foldl tryResume state) := by
    refine Runs.foldl (fun state id => ?_) _ _
    simp only [tryResume]
    split
    · exact .refl _ _
    · split
      · exact (Runs.call (.resume id) trivial state).of_eq rfl rfl
      · exact (Runs.call (.resume id) trivial state).of_eq rfl rfl
  simp only [settle]
  split
  · exact recorded.of_eq rfl rfl
  · exact (recorded.trans (resumed _)).of_eq rfl rfl

/-- Calls with which no request comes in. -/
def Driving (op : SchedulerOp) : Prop := ∀ request, op ≠ .enqueue request

theorem driving_of_prefill {id : RequestId} (op : SchedulerOp) (fits : OfPrefill id op) :
    Driving op := by
  rintro request rfl
  exact fits.elim

theorem driving_of_decode {id : RequestId} (op : SchedulerOp) (fits : OfDecode id op) :
    Driving op := by
  rintro request rfl
  exact fits.elim

theorem driving_of_settling (op : SchedulerOp) (fits : OfSettling op) : Driving op := by
  rintro request rfl
  exact fits.elim

theorem runs_prefillLoop (config : ReplayConfig) (chunks : List (RequestId × ℕ))
    (state : PagedState) : Runs Driving state (prefillLoop config chunks state) := by
  induction chunks generalizing state with
  | nil => exact .refl _ _
  | cons planned rest induction =>
      exact ((runs_prefillOne config planned.1 planned.2 state).mono driving_of_prefill).trans
        (induction _)

theorem runs_decodeLoop (config : ReplayConfig) (plan : BatchPlan) (ids : List RequestId)
    (state : PagedState) : Runs Driving state (decodeLoop config plan ids state) := by
  induction ids generalizing state with
  | nil => exact .refl _ _
  | cons id rest induction =>
      exact ((runs_decodeOne config plan id state).mono driving_of_decode).trans (induction _)

/-- A step of the replay is a run of scheduler calls. -/
theorem runs_oneStep (trace : Trace) (config : ReplayConfig) (state : PagedState) :
    Runs Driving state (oneStep trace config state) := by
  have planned : Runs Driving state (call .scheduleNext (begin state)) :=
    (Runs.idle rfl rfl).trans (.call _ (fun _ => nofun) (begin state))
  exact (((planned.trans (runs_prefillLoop config _ _)).trans (runs_decodeLoop config _ _ _)).trans
    ((runs_settle _).mono driving_of_settling)).of_eq rfl rfl

/-! ## Bookkeeping -/

/-- Bookkeeping of all requests. -/
abbrev Progress := AList fun _ : RequestId => RequestProgress

/-- Tokens committed for a request. -/
def committedOf (progress : Progress) (id : RequestId) : ℕ :=
  ((progress.lookup id).map (·.committed)).getD 0

/-- The request has produced its tokens. -/
def Finished (progress : Progress) (id : RequestId) : Prop :=
  ∃ entry, progress.lookup id = some entry ∧ entry.finished = true

theorem committedOf_found {progress : Progress} {id : RequestId} {entry : RequestProgress}
    (found : progress.lookup id = some entry) : committedOf progress id = entry.committed := by
  simp [committedOf, found]

theorem finished_found {progress : Progress} {id : RequestId} {entry : RequestProgress}
    (found : progress.lookup id = some entry) :
    Finished progress id ↔ entry.finished = true := by
  simp [Finished, found]

theorem committedOf_insert_self (progress : Progress) (id : RequestId)
    (entry : RequestProgress) : committedOf (progress.insert id entry) id = entry.committed := by
  simp [committedOf]

theorem committedOf_insert_ne (progress : Progress) {id other : RequestId}
    (entry : RequestProgress) (different : other ≠ id) :
    committedOf (progress.insert id entry) other = committedOf progress other := by
  rw [committedOf, committedOf, AList.lookup_insert_ne different]

theorem finished_insert_ne (progress : Progress) {id other : RequestId}
    (entry : RequestProgress) (different : other ≠ id) :
    Finished (progress.insert id entry) other ↔ Finished progress other := by
  rw [Finished, Finished, AList.lookup_insert_ne different]

/-- The bookkeeping of the requests is left alone. -/
structure SameBooks (before after : PagedState) : Prop where
  progress : after.progress = before.progress
  next : after.nextForkSequence = before.nextForkSequence
  live : after.live = before.live

theorem SameBooks.refl (state : PagedState) : SameBooks state state := ⟨rfl, rfl, rfl⟩

theorem SameBooks.trans {first second third : PagedState} (early : SameBooks first second)
    (late : SameBooks second third) : SameBooks first third :=
  ⟨late.progress.trans early.progress, late.next.trans early.next, late.live.trans early.live⟩

theorem books_touchPosition (tokensPerBlock : ℕ) (sequenceId : SequenceId) (position : ℕ)
    (state : PagedState) :
    SameBooks state (touchPosition tokensPerBlock sequenceId position state) := by
  unfold touchPosition
  split
  · exact .refl state
  · dsimp only
    split
    · exact ⟨rfl, rfl, rfl⟩
    · exact ⟨rfl, rfl, rfl⟩

theorem SameBooks.foldl {α : Type*} {each : PagedState → α → PagedState}
    (one : ∀ state item, SameBooks state (each state item)) (items : List α) (state : PagedState) :
    SameBooks state (items.foldl each state) := by
  induction items generalizing state with
  | nil => exact .refl state
  | cons item items induction => exact (one state item).trans (induction _)

theorem books_touchPrompts (tokensPerBlock : ℕ) (progress : RequestProgress) (chunk : ℕ)
    (state : PagedState) :
    SameBooks state ((List.range chunk).foldl (touchPrompt tokensPerBlock progress) state) := by
  refine SameBooks.foldl (fun state offset => ?_) _ _
  simp only [touchPrompt]
  split
  · exact .refl state
  · split
    · exact books_touchPosition _ _ _ _
    · exact .refl state

/-- Only the books of one request changed, and they are related as given. -/
structure BooksOf (id : RequestId) (related : RequestProgress → RequestProgress → Prop)
    (before after : PagedState) : Prop where
  others : ∀ other, other ≠ id → after.progress.lookup other = before.progress.lookup other
  entry : ∀ old, before.progress.lookup id = some old → ∃ new,
    after.progress.lookup id = some new ∧ related old new

theorem BooksOf.trans {id : RequestId} {first second third : PagedState}
    {related related' related'' : RequestProgress → RequestProgress → Prop}
    (early : BooksOf id related first second) (late : BooksOf id related' second third)
    (compose : ∀ old middle new, related old middle → related' middle new → related'' old new) :
    BooksOf id related'' first third where
  others other different := (late.others other different).trans (early.others other different)
  entry old found := by
    obtain ⟨middle, found', before⟩ := early.entry old found
    obtain ⟨new, found'', after⟩ := late.entry middle found'
    exact ⟨new, found'', compose old middle new before after⟩

theorem BooksOf.insert {id : RequestId} {related : RequestProgress → RequestProgress → Prop}
    {before after : PagedState} {old new : RequestProgress}
    (found : before.progress.lookup id = some old)
    (progress : after.progress = before.progress.insert id new) (holds : related old new) :
    BooksOf id related before after where
  others other different := by rw [progress, AList.lookup_insert_ne different]
  entry known inside := by
    obtain rfl := Option.some.inj (found.symm.trans inside)
    exact ⟨new, by rw [progress, AList.lookup_insert], holds⟩

theorem SameBooks.of_same {id : RequestId} {related : RequestProgress → RequestProgress → Prop}
    {before after : PagedState} (books : SameBooks before after)
    (reflexive : ∀ entry, related entry entry) : BooksOf id related before after where
  others other _ := by rw [books.progress]
  entry old found := ⟨old, by rw [books.progress, found], reflexive old⟩

/-- Opening branches adds sequences to one request. -/
def Branched (old new : RequestProgress) : Prop :=
  ∃ sequences, new = { old with sequences }

theorem books_openBranches (id : RequestId) (count : ℕ) (state : PagedState) :
    BooksOf id Branched state (openBranches id count state) ∧
      (openBranches id count state).live = state.live := by
  induction count generalizing state with
  | zero => exact ⟨(SameBooks.refl state).of_same fun entry => ⟨entry.sequences, rfl⟩, rfl⟩
  | succ count induction =>
      obtain ⟨rest, live⟩ := induction (openBranch id state)
      have one : BooksOf id Branched state (openBranch id state) ∧
          (openBranch id state).live = state.live := by
        unfold openBranch
        split
        · exact ⟨(SameBooks.refl state).of_same fun entry => ⟨entry.sequences, rfl⟩, rfl⟩
        · rename_i progress found
          dsimp only
          split
          · exact ⟨.insert found rfl ⟨_, rfl⟩, rfl⟩
          · exact ⟨⟨fun _ _ => rfl, fun old inside => ⟨old, inside, old.sequences, rfl⟩⟩, rfl⟩
      refine ⟨one.1.trans rest ?_, live.trans one.2⟩
      rintro old middle new ⟨early, rfl⟩ ⟨late, rfl⟩
      exact ⟨late, rfl⟩

theorem books_completePrompt (config : ReplayConfig) (id : RequestId) (request : TraceRequest)
    (state : PagedState) :
    BooksOf id Branched state (completePrompt config id request state) ∧
      (completePrompt config id request state).live = state.live := by
  simp only [completePrompt]
  split
  · obtain ⟨books, live⟩ := books_openBranches id (request.numParallelSamples - 1)
      (call (.cache (.publishPrefix request.requestId request.prefixKey)) state)
    exact ⟨⟨books.others, books.entry⟩, live⟩
  · exact books_openBranches id _ state

/-- What a chunk does to the books of its request. -/
structure ChunkWritten (chunk : ℕ) (old new : RequestProgress) : Prop where
  request : new.request = old.request
  finished : new.finished = old.finished
  committed : new.committed = wrap32 (old.committed + chunk)
  decoded : new.decoded = old.decoded
  admitted : new.admitted = true

theorem books_prefillOne (config : ReplayConfig) {id : RequestId} (chunk : ℕ) {state : PagedState}
    {old : RequestProgress} (found : state.progress.lookup id = some old) :
    BooksOf id (ChunkWritten chunk) state (prefillOne config id chunk state) ∧
      (prefillOne config id chunk state).live =
        if old.admitted then state.live else state.live ++ [id] := by
  obtain ⟨present, run_eq⟩ := prefillOne_eq config chunk found
  have wrote := books_touchPrompts config.tokensPerBlock
    (greeted config old state.scheduler.cache) chunk (greet config id old state)
  have stepped : BooksOf id (ChunkWritten chunk) state
        (writeChunk config id chunk (greeted config old state.scheduler.cache)
          (greet config id old state)) ∧
      (writeChunk config id chunk (greeted config old state.scheduler.cache)
          (greet config id old state)).live =
        if old.admitted then state.live else state.live ++ [id] := by
    refine ⟨⟨fun other different => ?_, fun known inside => ?_⟩, ?_⟩
    · refine (AList.lookup_insert_ne different).trans ?_
      rw [wrote.progress]
      unfold greet
      split
      · rfl
      · exact AList.lookup_insert_ne different
    · obtain rfl := Option.some.inj (found.symm.trans inside)
      refine ⟨_, AList.lookup_insert _, ?_⟩
      unfold greeted
      split
      · rename_i admitted
        exact ⟨rfl, rfl, rfl, rfl, admitted⟩
      · exact ⟨rfl, rfl, rfl, rfl, rfl⟩
    · refine wrote.live.trans ?_
      unfold greet
      split <;> rfl
  rw [run_eq]
  split
  · obtain ⟨branched, live⟩ := books_completePrompt config id
      (greeted config old state.scheduler.cache).request
      (writeChunk config id chunk (greeted config old state.scheduler.cache)
        (greet config id old state))
    refine ⟨stepped.1.trans branched ?_, live.trans stepped.2⟩
    rintro first second third written ⟨sequences, rfl⟩
    exact ⟨written.request, written.finished, written.committed, written.decoded,
      written.admitted⟩
  · exact stepped

theorem books_ensureCapacity (tokensPerBlock : ℕ) (sequenceId : SequenceId) (position : ℕ)
    (state : PagedState) :
    SameBooks state (ensureCapacity tokensPerBlock sequenceId position state).2 := by
  unfold ensureCapacity
  split
  · exact .refl state
  · split
    · exact .refl state
    · exact ⟨rfl, rfl, rfl⟩

theorem books_growAll (tokensPerBlock position : ℕ) (sequences : List SequenceId)
    (state : PagedState) :
    SameBooks state (growAll tokensPerBlock position sequences state).2 := by
  induction sequences generalizing state with
  | nil => exact .refl state
  | cons sequenceId rest induction =>
      have one := books_ensureCapacity tokensPerBlock sequenceId position state
      rw [growAll]
      split
      · rename_i failed
        rwa [failed] at one
      · rename_i grown
        rw [grown] at one
        exact one.trans (induction _)

theorem books_parkNewest (plan : BatchPlan) (freeBefore : ℕ) (ids : List RequestId)
    (state : PagedState) : SameBooks state (parkNewest plan freeBefore ids state).2 := by
  induction ids generalizing state with
  | nil => exact .refl state
  | cons id older induction =>
      have called : SameBooks state (call (.preempt id "decode growth failed") state) :=
        ⟨rfl, rfl, rfl⟩
      simp only [parkNewest]
      split
      · exact induction state
      · split
        · exact called
        · exact called.trans (induction _)

/-- What a committed token does to the books of its request. -/
structure TokenWritten (old new : RequestProgress) : Prop where
  request : new.request = old.request
  committed : new.committed = wrap32 (old.committed + 1)
  decoded : new.decoded = wrap32 (old.decoded + 1)
  admitted : new.admitted = old.admitted
  finished : new.finished = (old.finished || decide (old.request.decodeActual ≤ new.decoded))

theorem books_commitToken (config : ReplayConfig) {id : RequestId} {state : PagedState}
    {progress : RequestProgress} (found : state.progress.lookup id = some progress) :
    BooksOf id TokenWritten state (commitToken config id progress state) ∧
      (commitToken config id progress state).live = state.live := by
  have touched : SameBooks state (progress.sequences.foldl
      (fun state sequenceId =>
        touchPosition config.tokensPerBlock sequenceId progress.committed state) state) :=
    SameBooks.foldl (fun state sequenceId => books_touchPosition _ _ _ state) _ _
  unfold commitToken
  generalize progress.sequences.foldl
    (fun state sequenceId =>
      touchPosition config.tokensPerBlock sequenceId progress.committed state) state =
    wrote at touched
  dsimp only
  split
  · rename_i enough
    refine ⟨⟨fun other different => ?_, fun known inside => ?_⟩, touched.live⟩
    · refine (AList.lookup_insert_ne different).trans ((AList.lookup_insert_ne different).trans ?_)
      rw [touched.progress]
    · obtain rfl := Option.some.inj (found.symm.trans inside)
      exact ⟨_, AList.lookup_insert _, rfl, rfl, rfl, rfl, by simp [enough]⟩
  · rename_i few
    refine ⟨⟨fun other different => ?_, fun known inside => ?_⟩, touched.live⟩
    · refine (AList.lookup_insert_ne different).trans ?_
      rw [touched.progress]
    · obtain rfl := Option.some.inj (found.symm.trans inside)
      exact ⟨_, AList.lookup_insert _, rfl, rfl, rfl, rfl, by simp [few]⟩

/-- A decode step commits one token of its request or leaves the books alone. -/
theorem books_decodeOne (config : ReplayConfig) (plan : BatchPlan) (id : RequestId)
    (state : PagedState) :
    BooksOf id (fun old new => new = old ∨ TokenWritten old new) state
        (decodeOne config plan id state) ∧
      (decodeOne config plan id state).live = state.live := by
  have idle {after : PagedState} (books : SameBooks state after) :
      BooksOf id (fun old new => new = old ∨ TokenWritten old new) state after ∧
        after.live = state.live :=
    ⟨books.of_same fun _ => Or.inl rfl, books.live⟩
  unfold decodeOne
  split
  · exact idle (.refl state)
  · rename_i progress found
    have grew := books_growAll config.tokensPerBlock progress.committed progress.sequences state
    split
    · exact idle (.refl state)
    · split
      · rename_i grown run_eq
        rw [run_eq] at grew
        have found' : grown.progress.lookup id = some progress := by rw [grew.progress, found]
        obtain ⟨books, live⟩ := books_commitToken config found'
        refine ⟨⟨fun other different => ?_, fun old inside => ?_⟩, live.trans grew.live⟩
        · rw [books.others other different, grew.progress]
        · obtain ⟨new, found', wrote⟩ := books.entry old (by rw [grew.progress, inside])
          exact ⟨new, found', Or.inr wrote⟩
      · rename_i failed run_eq
        rw [run_eq] at grew
        have parked := books_parkNewest plan failed.scheduler.freeBlocks failed.live.reverse
          { failed with growthFailed := true }
        exact idle ⟨parked.progress.trans grew.progress, parked.next.trans grew.next,
          parked.live.trans grew.live⟩

theorem books_settle (state : PagedState) :
    (settle state).progress = state.progress ∧
      (settle state).nextForkSequence = state.nextForkSequence ∧
      (settle state).live = state.live.filter fun id => !isFinished state id := by
  have recorded : SameBooks state (state.live.foldl recordParked state) := by
    refine SameBooks.foldl (fun state id => ?_) _ _
    unfold recordParked
    split
    · exact .refl state
    · split
      · exact ⟨rfl, rfl, rfl⟩
      · split
        · exact .refl state
        · exact ⟨rfl, rfl, rfl⟩
  have resumed (state : PagedState) : SameBooks state (state.live.foldl tryResume state) := by
    refine SameBooks.foldl (fun state id => ?_) _ _
    simp only [tryResume]
    split
    · exact .refl state
    · split
      · exact ⟨rfl, rfl, rfl⟩
      · exact ⟨rfl, rfl, rfl⟩
  have whole : SameBooks state
      (if (state.live.foldl recordParked state).growthFailed then
        state.live.foldl recordParked state
      else
        (state.live.foldl recordParked state).live.foldl tryResume
          (state.live.foldl recordParked state)) := by
    split
    · exact recorded
    · exact recorded.trans (resumed _)
  refine ⟨whole.progress, whole.next, ?_⟩
  simp only [settle]
  rw [whole.live]
  refine List.filter_congr fun id _ => ?_
  rw [isFinished, isFinished, whole.progress]

/-! ## Reached states -/

/-- The loop of the run goes on. The step bound is left out: it only ends a run earlier. -/
def Continues (trace : Trace) (state : PagedState) : Prop :=
  state.completed < trace.requests.length ∧ state.noProgressSteps < 2

/-- States after the steps of a run whose steps all start in states that meet the guard. -/
inductive Reached (trace : Trace) (config : ReplayConfig) (slab : ℕ → UInt8)
    (guard : PagedState → Prop) : PagedState → Prop
  | start : Reached trace config slab guard (initial trace config slab)
  | step {state : PagedState} (reached : Reached trace config slab guard state)
      (going : Continues trace state) (guarded : guard state) :
      Reached trace config slab guard (oneStep trace config state)

theorem reached_stepLoop {trace : Trace} {config : ReplayConfig} {slab : ℕ → UInt8} (fuel : ℕ)
    {state : PagedState} (reached : Reached trace config slab (fun _ => True) state)
    (moving : state.noProgressSteps < 2) :
    Reached trace config slab (fun _ => True) (stepLoop trace config fuel state) := by
  induction fuel generalizing state with
  | zero => exact reached
  | succ fuel induction =>
      simp only [stepLoop]
      split
      · rename_i open_requests
        have next := Reached.step reached ⟨open_requests, moving⟩ trivial
        split
        · exact next
        · exact induction next (by omega)
      · exact reached

theorem noProgressSteps_initial (trace : Trace) (config : ReplayConfig) (slab : ℕ → UInt8) :
    (initial trace config slab).noProgressSteps = 0 := by
  unfold initial
  exact List.foldlRecOn (motive := fun state : PagedState => state.noProgressSteps = 0) trace.requests _ rfl
    fun _ idle _ _ => idle

/-- The state in which a run ends is reached. -/
theorem reached_final (trace : Trace) (config : ReplayConfig) (slab : ℕ → UInt8) :
    Reached trace config slab (fun _ => True) (final trace config slab) :=
  reached_stepLoop _ .start (by rw [noProgressSteps_initial]; decide)

end PagedReplay

/-! ## Plans -/

namespace Scheduler

/-- The plan holds no decode step yet, and its chunks are nonempty parts of requests that own
cache. -/
structure Chunked (scheduler : Scheduler) (plan : BatchPlan) : Prop where
  lengths : plan.prefillRequests.length = plan.prefillTokens.length
  chunks : ∀ id chunk, (id, chunk) ∈ plan.chunks →
    0 < chunk ∧ id ∈ scheduler.owners.map (·.requestId)
  decodes : plan.decodeRequests = []

theorem Chunked.prefillChunk {scheduler : Scheduler} {plan : BatchPlan}
    (chunked : Chunked scheduler plan) (config : SchedulerConfig) {request : Request}
    (owned : request.requestId ∈ scheduler.owners.map (·.requestId)) :
    Chunked scheduler (schedulePrefillChunk config request plan) := by
  simp only [schedulePrefillChunk]
  split
  · exact chunked
  split
  · exact chunked
  split
  · exact chunked
  rename_i spare positive
  refine ⟨by simp [chunked.lengths], ?_, chunked.decodes⟩
  intro id chunk inside
  rw [BatchPlan.chunks, List.zip_append chunked.lengths, List.mem_append] at inside
  rcases inside with old | new
  · exact chunked.chunks id chunk old
  · simp only [List.zip_cons_cons, List.zip_nil_right, List.mem_singleton, Prod.mk.injEq] at new
    obtain ⟨rfl, rfl⟩ := new
    exact ⟨Nat.pos_of_ne_zero positive, owned⟩

theorem Chunked.mono {scheduler after : Scheduler} {plan : BatchPlan}
    (chunked : Chunked scheduler plan)
    (kept : ∀ identity ∈ scheduler.owners, identity ∈ after.owners) : Chunked after plan := by
  refine ⟨chunked.lengths, fun id chunk inside => ?_, chunked.decodes⟩
  obtain ⟨positive, owned⟩ := chunked.chunks id chunk inside
  obtain ⟨identity, member, named⟩ := List.mem_map.mp owned
  exact ⟨positive, List.mem_map.mpr ⟨identity, kept identity member, named⟩⟩

theorem chunked_action {scheduler after : Scheduler} {plan planned : BatchPlan}
    (action : AdmissionStep (scheduler, plan) (after, planned))
    (chunked : Chunked scheduler plan) : Chunked after planned := by
  cases action with
  | @reclaim _ _ victim watermark older newest =>
      exact chunked.mono fun identity => (owners_preempt _ _ _).mem_iff.mpr
  | refuse waiting refused => exact chunked.mono fun _ member => member
  | @accept _ _ position candidate cache found fits =>
      have owners := scheduler.owners_admitAt position candidate cache
      refine (chunked.mono fun identity member =>
        owners.mem_iff.mpr (List.mem_cons_of_mem _ member)).prefillChunk _ ?_
      exact List.mem_map.mpr ⟨candidate.metadata, owners.mem_iff.mpr List.mem_cons_self, rfl⟩

theorem chunked_admitPending (scheduler : Scheduler) :
    Chunked scheduler.scheduleNext.2 scheduler.admitPending.2.1 :=
  scheduleNext_induction (motive := Chunked) (fun _ _ _ _ => chunked_action)
    ⟨rfl, by simp [BatchPlan.chunks, BatchPlan.empty], rfl⟩

/-- The chunks of a plan, also where requests share an id. -/
theorem chunked_scheduleNext (scheduler : Scheduler) {id : RequestId} {chunk : ℕ}
    (planned : (id, chunk) ∈ scheduler.scheduleNext.1.chunks) :
    0 < chunk ∧ id ∈ scheduler.scheduleNext.2.owners.map (·.requestId) := by
  have filled : Chunked scheduler.scheduleNext.2
      (schedulePrefills scheduler.scheduleNext.2.config scheduler.scheduleNext.2.active
        scheduler.admitPending.2.1) := by
    unfold schedulePrefills
    refine List.foldlRecOn (motive := Chunked scheduler.scheduleNext.2) _ _
      scheduler.chunked_admitPending ?_
    intro plan chunked request member
    split
    · refine chunked.prefillChunk _ (List.mem_map.mpr ⟨request.metadata, ?_, rfl⟩)
      exact List.mem_map_of_mem (List.mem_append_left _ member)
    · exact chunked
  rw [scheduleNext_plan, BatchPlan.chunks, ← (scheduleDecodeTokens_serves _ _ _).1,
    ← (scheduleDecodeTokens_serves _ _ _).2.1] at planned
  exact filled.chunks id chunk planned

/-- A planned decode step is one of an active request in that state. -/
theorem decoding_planned (scheduler : Scheduler) {id : RequestId}
    (planned : id ∈ scheduler.scheduleNext.1.decodeRequests) :
    ∃ request ∈ scheduler.scheduleNext.2.active, request.requestId = id ∧
      request.state = .decode := by
  have bare : (schedulePrefills scheduler.scheduleNext.2.config scheduler.scheduleNext.2.active
      scheduler.admitPending.2.1).decodeRequests = [] := by
    unfold schedulePrefills
    refine List.foldlRecOn (motive := fun plan : BatchPlan => plan.decodeRequests = []) _ _
      scheduler.chunked_admitPending.decodes ?_
    intro plan same request _
    split
    · rw [decodeRequests_schedulePrefillChunk, same]
    · exact same
  rw [scheduleNext_plan] at planned
  rcases mem_scheduleDecodeTokens planned with early | decoding
  · rw [bare] at early
    exact absurd early List.not_mem_nil
  · exact decoding

end Scheduler

end QwenVLPaged
