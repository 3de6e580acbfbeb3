import QwenVLPaged.PlanBudget
import QwenVLPaged.SchedulerCache
import QwenVLPaged.TraceReplay

/-!
# The paged replay

`run_paged` enqueues a whole trace and drives the scheduler until every request has produced its
tokens. The driver owns what the scheduler does not do: it writes the prompt, publishes prefixes,
opens the sampling branches, grows the sequences of a decoding request, parks a request when the
pool is exhausted and resumes it later. The slab is not initialised, so its bytes are a parameter.
-/

namespace QwenVLPaged

/-- Bookkeeping of the driver for one request. -/
structure RequestProgress where
  request : TraceRequest
  sequences : List SequenceId
  committed : ℕ
  decoded : ℕ
  sharedPromptTokens : ℕ
  admitted : Bool
  finished : Bool
  deriving DecidableEq

/-- The variables of the run. Requests are looked up by their id, so the index of the source and
the progress it points to are one map. `calls` records the calls made so far and is read by no
definition of the run. -/
structure PagedState where
  scheduler : Scheduler
  progress : AList fun _ : RequestId => RequestProgress
  nextForkSequence : SequenceId
  waiting : ℕ
  completed : ℕ
  /-- Admitted and unfinished requests, in admission order. -/
  live : List RequestId
  /-- Requests that were parked as of the previous step. -/
  preemptedIds : List RequestId
  noProgressSteps : ℕ
  progressMade : Bool
  growthFailed : Bool
  metrics : ReplayMetrics
  calls : List SchedulerOp

namespace Scheduler

/-- The state of a queued request. -/
def stateOf (scheduler : Scheduler) (requestId : RequestId) : Option RequestState :=
  (findRequest (scheduler.pending ++ scheduler.active ++ scheduler.preempted) requestId).map
    (·.state)

end Scheduler

namespace PagedReplay

/-! ## Set-up -/

def poolConfig (trace : Trace) (config : ReplayConfig) : AllocatorConfig :=
  ⟨frameShape trace config, kDefaultBlockAlignmentBytes, config.maxBlocks, config.maxBlocks_lt⟩

def schedulerConfig (config : ReplayConfig) : SchedulerConfig :=
  ⟨config.maxActiveRequests, config.maxBatchTokens, config.preemptionWatermarkBlocks,
    config.sizeAwareAdmission, config.admissionSkipLimit, config.admissionSkipLimit_lt⟩

/-- A swap backend is installed if it has slots. -/
def swapSlots (config : ReplayConfig) : Option ℕ :=
  if 0 < config.swapSlots then some config.swapSlots else none

/-- The scheduler over the empty pool. -/
def freshScheduler (trace : Trace) (config : ReplayConfig) (slab : ℕ → UInt8) : Scheduler :=
  .create (schedulerConfig config) (.overPool (poolConfig trace config) slab (swapSlots config))

/-- The request that is enqueued for a request of the trace. -/
def scheduledRequest (config : ReplayConfig) (request : TraceRequest) : Request where
  requestId := request.requestId
  rootSequenceId := request.requestId
  promptTokens := request.promptTokens
  sampling := ⟨request.numParallelSamples, request.decodeBudget⟩
  prefixKey := if config.prefixCaching then request.prefixKey else ""
  state := .pending
  remainingPrefillTokens := 0
  admissionSkips := 0
  lifetimeBlocks := 0

/-- Make a call of the scheduler or of its cache. -/
def call (op : SchedulerOp) (state : PagedState) : PagedState :=
  { state with scheduler := state.scheduler.step op, calls := state.calls ++ [op] }

def freshProgress (request : TraceRequest) : RequestProgress :=
  ⟨request, [], 0, 0, 0, false, false⟩

/-- Register and enqueue one request. -/
def enroll (config : ReplayConfig) (state : PagedState) (request : TraceRequest) : PagedState :=
  let metrics := state.metrics
  call (.enqueue (scheduledRequest config request))
    { state with
      progress := state.progress.insert request.requestId (freshProgress request)
      nextForkSequence := max state.nextForkSequence (request.requestId + 1)
      metrics :=
        { metrics with
          requestsNeverAdmissible :=
            if config.maxBlocks <
                ceilDiv32 (wrap32 (request.promptTokens + request.decodeBudget))
                  config.tokensPerBlock then
              wrap32 (metrics.requestsNeverAdmissible + 1)
            else
              metrics.requestsNeverAdmissible } }

/-- The state before the first step. -/
def initial (trace : Trace) (config : ReplayConfig) (slab : ℕ → UInt8) : PagedState :=
  trace.requests.foldl (enroll config)
    { scheduler := freshScheduler trace config slab
      progress := ∅
      nextForkSequence := 1
      waiting := trace.requests.length
      completed := 0
      live := []
      preemptedIds := []
      noProgressSteps := 0
      progressMade := false
      growthFailed := false
      metrics := .start "paged"
      calls := [] }

/-! ## Sequences -/

/-- Make the block that holds a position writable, counting copies. -/
def touchPosition (tokensPerBlock : ℕ) (sequenceId : SequenceId) (position : ℕ)
    (state : PagedState) : PagedState :=
  match state.scheduler.cache.sequences.lookup sequenceId with
  | none => state
  | some sequence =>
      let before := sequence.textTable.lookup (position / tokensPerBlock)
      let after := (state.scheduler.cache.ensureTokenWritable sequenceId position 0).1
      let touched := call (.cache (.ensureTokenWritable sequenceId position 0)) state
      if before.isSome ∧ after.isSome ∧ before ≠ after then
        { touched with
          metrics := { touched.metrics with cowEvents := touched.metrics.cowEvents + 1 } }
      else
        touched

/-- Grow a sequence by one block when the position falls past its table. -/
def ensureCapacity (tokensPerBlock : ℕ) (sequenceId : SequenceId) (position : ℕ)
    (state : PagedState) : Bool × PagedState :=
  match state.scheduler.cache.sequences.lookup sequenceId with
  | none => (false, state)
  | some sequence =>
      if position / tokensPerBlock < sequence.textTable.size then
        (true, state)
      else
        ((state.scheduler.cache.reserveTokens sequenceId 1).1,
          call (.cache (.reserveTokens sequenceId 1)) state)

/-- Token slots that the blocks of a sequence back. -/
def reservedSlots (cache : KVCacheManager) (tokensPerBlock : ℕ) (sequenceId : SequenceId) : ℕ :=
  match cache.sequences.lookup sequenceId with
  | none => 0
  | some sequence => wrap32 (wrap32 sequence.textTable.size * tokensPerBlock)

/-! ## Prefill -/

/-- Update the progress of a request. -/
def setProgress (id : RequestId) (progress : RequestProgress) (state : PagedState) :
    PagedState :=
  { state with progress := state.progress.insert id progress }

/-- Prompt tokens that the index covers when the driver asks after admission. -/
def queriedPrefix (config : ReplayConfig) (request : TraceRequest) (cache : KVCacheManager) : ℕ :=
  if config.prefixCaching ∧ request.prefixKey ≠ "" then
    cache.prefixTokenCount request.prefixKey
  else
    0

/-- The first chunk of a request: it becomes live, and a published prefix counts as a hit. -/
def welcome (config : ReplayConfig) (id : RequestId) (progress : RequestProgress)
    (state : PagedState) : PagedState :=
  let cached := queriedPrefix config progress.request state.scheduler.cache
  let metrics := state.metrics
  let welcomed :=
    { state with
      waiting := state.waiting - 1
      live := state.live ++ [id]
      metrics :=
        { metrics with
          requestsAdmitted := wrap32 (metrics.requestsAdmitted + 1)
          prefixHits := if 0 < cached then metrics.prefixHits + 1 else metrics.prefixHits
          prefixBlocksSaved := metrics.prefixBlocksSaved + cached / config.tokensPerBlock } }
  setProgress id
    { progress with
      admitted := true
      sequences := progress.sequences ++ [progress.request.requestId]
      sharedPromptTokens := if 0 < cached then cached else progress.sharedPromptTokens }
    welcomed

/-- Touch one block of the prompt at its first position, unless a prefix covers it. -/
def touchPrompt (tokensPerBlock : ℕ) (progress : RequestProgress) (state : PagedState)
    (offset : ℕ) : PagedState :=
  let position := wrap32 (progress.committed + offset)
  if position < progress.sharedPromptTokens then
    state
  else if position % tokensPerBlock = 0 then
    touchPosition tokensPerBlock progress.request.requestId position state
  else
    state

/-- Open one more sampling branch of a request. -/
def openBranch (id : RequestId) (state : PagedState) : PagedState :=
  match state.progress.lookup id with
  | none => state
  | some progress =>
      let child : SequenceMetadata := ⟨state.nextForkSequence, progress.request.requestId⟩
      let forked := (state.scheduler.cache.forkSequence progress.request.requestId child).1
      let called :=
        { call (.cache (.forkSequence progress.request.requestId child)) state with
          nextForkSequence := state.nextForkSequence + 1 }
      if forked then
        { setProgress id
            { progress with sequences := progress.sequences ++ [child.sequenceId] } called with
          metrics := { called.metrics with forks := called.metrics.forks + 1 } }
      else
        called

/-- Open the sampling branches beyond the root. -/
def openBranches (id : RequestId) : ℕ → PagedState → PagedState
  | 0, state => state
  | remaining + 1, state => openBranches id remaining (openBranch id state)

/-- The prompt is complete: its prefix is published and the branches are opened. -/
def completePrompt (config : ReplayConfig) (id : RequestId) (request : TraceRequest)
    (state : PagedState) : PagedState :=
  let published :=
    if config.prefixCaching ∧ request.prefixKey ≠ "" then
      call (.cache (.publishPrefix request.requestId request.prefixKey)) state
    else
      state
  openBranches id (request.numParallelSamples - 1) published

/-- Execute one planned chunk of a prompt. -/
def prefillOne (config : ReplayConfig) (id : RequestId) (chunk : ℕ) (state : PagedState) :
    PagedState :=
  match state.progress.lookup id with
  | none => state
  | some old =>
      let welcomed := if old.admitted then state else welcome config id old state
      match welcomed.progress.lookup id with
      | none => welcomed
      | some progress =>
          let touched :=
            (List.range chunk).foldl (touchPrompt config.tokensPerBlock progress) welcomed
          let advanced := setProgress id
            { progress with committed := wrap32 (progress.committed + chunk) } touched
          let stepped : PagedState :=
            { call (.completeStep id chunk) advanced with progressMade := true }
          if stepped.scheduler.stateOf id = some .decode then
            completePrompt config id progress.request stepped
          else
            stepped

def prefillLoop (config : ReplayConfig) : List (RequestId × ℕ) → PagedState → PagedState
  | [], state => state
  | (id, chunk) :: rest, state => prefillLoop config rest (prefillOne config id chunk state)

/-! ## Decode -/

/-- Grow the sequences of a request in turn, stopping at the first failure. -/
def growAll (tokensPerBlock position : ℕ) : List SequenceId → PagedState → Bool × PagedState
  | [], state => (true, state)
  | sequenceId :: rest, state =>
      match ensureCapacity tokensPerBlock sequenceId position state with
      | (false, after) => (false, after)
      | (true, after) => growAll tokensPerBlock position rest after

/-- Park the newest live request of the plan that can be parked. The flag says whether frames came
back. -/
def parkNewest (plan : BatchPlan) (freeBefore : ℕ) : List RequestId → PagedState → Bool × PagedState
  | [], state => (false, state)
  | id :: older, state =>
      if ((state.progress.lookup id).map (·.finished)).getD false = true ∨
          (id ∉ plan.prefillRequests ∧ id ∉ plan.decodeRequests) then
        parkNewest plan freeBefore older state
      else
        let parked := (state.scheduler.preempt id "decode growth failed").1
        let after := call (.preempt id "decode growth failed") state
        if parked then
          (decide (freeBefore < after.scheduler.freeBlocks), after)
        else
          parkNewest plan freeBefore older after

/-- Reclaim frames for a decode step that could not grow. -/
def reclaimForDecode (plan : BatchPlan) (state : PagedState) : Bool × PagedState :=
  parkNewest plan state.scheduler.freeBlocks state.live.reverse state

/-- The request has produced its tokens. -/
def finishRequest (id : RequestId) (progress : RequestProgress) (state : PagedState) :
    PagedState :=
  setProgress id { progress with finished := true, sequences := [] }
    { call (.cancel id) state with completed := state.completed + 1 }

/-- Write one decoded token of a grown request. -/
def commitToken (config : ReplayConfig) (id : RequestId) (progress : RequestProgress)
    (state : PagedState) : PagedState :=
  let touched := progress.sequences.foldl
    (fun state sequenceId =>
      touchPosition config.tokensPerBlock sequenceId progress.committed state)
    state
  let advanced :=
    { progress with
      committed := wrap32 (progress.committed + 1)
      decoded := wrap32 (progress.decoded + 1) }
  let metrics := touched.metrics
  let stepped :=
    { call (.completeStep id 1) (setProgress id advanced touched) with
      progressMade := true
      metrics :=
        { metrics with tokensDecoded := metrics.tokensDecoded + progress.sequences.length } }
  if progress.request.decodeActual ≤ advanced.decoded then
    finishRequest id advanced stepped
  else
    stepped

/-- Execute one planned decode step. -/
def decodeOne (config : ReplayConfig) (plan : BatchPlan) (id : RequestId) (state : PagedState) :
    PagedState :=
  match state.progress.lookup id with
  | none => state
  | some progress =>
      if (state.scheduler.preemptionInfo.lookup id).isSome then
        state
      else
        match growAll config.tokensPerBlock progress.committed progress.sequences state with
        | (true, grown) => commitToken config id progress grown
        | (false, failed) =>
            let (reclaimed, after) := reclaimForDecode plan { failed with growthFailed := true }
            { after with progressMade := after.progressMade || reclaimed }

def decodeLoop (config : ReplayConfig) (plan : BatchPlan) :
    List RequestId → PagedState → PagedState
  | [], state => state
  | id :: rest, state => decodeLoop config plan rest (decodeOne config plan id state)

/-! ## Parking and resuming -/

def isFinished (state : PagedState) (id : RequestId) : Bool :=
  ((state.progress.lookup id).map (·.finished)).getD false

/-- Count the requests that were parked since the previous step. -/
def recordParked (state : PagedState) (id : RequestId) : PagedState :=
  if isFinished state id then
    state
  else
    match state.scheduler.preemptionInfo.lookup id with
    | none => { state with preemptedIds := state.preemptedIds.filter fun other => other ≠ id }
    | some info =>
        if id ∈ state.preemptedIds then
          state
        else
          let metrics := state.metrics
          { state with
            preemptedIds := id :: state.preemptedIds
            metrics :=
              { metrics with
                preemptions := metrics.preemptions + 1
                swappedBlocksOut := metrics.swappedBlocksOut + info.swappedBlocks } }

/-- Try to resume a parked request. -/
def tryResume (state : PagedState) (id : RequestId) : PagedState :=
  if id ∉ state.preemptedIds then
    state
  else
    let resumed := (state.scheduler.resume id).1
    let after := call (.resume id) state
    let metrics := after.metrics
    if resumed then
      { after with
        preemptedIds := after.preemptedIds.filter fun other => other ≠ id
        metrics := { metrics with resumes := metrics.resumes + 1 } }
    else
      { after with metrics := { metrics with failedResumes := metrics.failedResumes + 1 } }

/-- Record the parked requests, resume what fits unless growth failed, and drop finished ones. -/
def settle (state : PagedState) : PagedState :=
  let recorded := state.live.foldl recordParked state
  let resumed :=
    if recorded.growthFailed then recorded else recorded.live.foldl tryResume recorded
  { resumed with live := resumed.live.filter fun id => !isFinished resumed id }

/-! ## Counters -/

/-- Tail slack and committed tokens of one sequence. -/
def measure (config : ReplayConfig) (cache : KVCacheManager) (committed : ℕ)
    (metrics : ReplayMetrics) (sequenceId : SequenceId) : ReplayMetrics :=
  let reserved := reservedSlots cache config.tokensPerBlock sequenceId
  { metrics with
    committedTokens := metrics.committedTokens + committed
    maxPartialBlockSlack :=
      if committed < reserved then max metrics.maxPartialBlockSlack (reserved - committed)
      else metrics.maxPartialBlockSlack }

/-- Slack and committed tokens of the sequences of a live request that is not parked. -/
def measureRequest (config : ReplayConfig) (state : PagedState) (metrics : ReplayMetrics)
    (id : RequestId) : ReplayMetrics :=
  if id ∈ state.preemptedIds then
    metrics
  else
    match state.progress.lookup id with
    | none => metrics
    | some progress =>
        progress.sequences.foldl
          (measure config state.scheduler.cache progress.committed) metrics

/-- The counters at the end of a step. -/
def account (trace : Trace) (config : ReplayConfig) (plan : BatchPlan) (state : PagedState) :
    PagedState :=
  let stats := state.scheduler.cache.allocator.stats
  let blocksInUse := sub32 stats.totalBlocks stats.freeBlocks
  let bytes := wrap64 (blocksInUse * (frameShape trace config).byteSize)
  let metrics := state.metrics
  let counted :=
    { metrics with
      headOfLineStallSteps :=
        if 0 < state.waiting ∧ plan.prefillRequests = [] then metrics.headOfLineStallSteps + 1
        else metrics.headOfLineStallSteps
      peakActiveRequests := max metrics.peakActiveRequests (wrap32 plan.decodeRequests.length)
      peakBlocksInUse := max metrics.peakBlocksInUse blocksInUse
      peakBytesInUse := max metrics.peakBytesInUse bytes
      reservedTokenSlots := metrics.reservedTokenSlots + blocksInUse * config.tokensPerBlock }
  { state with
    metrics := state.live.foldl (measureRequest config state) counted
    noProgressSteps := if state.progressMade then 0 else state.noProgressSteps + 1 }

/-! ## The run -/

/-- The flags at the start of a step. -/
def begin (state : PagedState) : PagedState :=
  { state with
    progressMade := false
    growthFailed := false
    metrics := { state.metrics with steps := state.metrics.steps + 1 } }

/-- One step of the run. -/
def oneStep (trace : Trace) (config : ReplayConfig) (state : PagedState) : PagedState :=
  let plan := state.scheduler.scheduleNext.1
  let planned := call .scheduleNext (begin state)
  let filled := prefillLoop config plan.chunks planned
  let decoded := decodeLoop config plan plan.decodeRequests filled
  account trace config plan (settle decoded)

/-- At most `fuel` more steps; the second step in a row without progress is the last one. The step
counter starts at zero, so `maxSteps` is enough fuel. -/
def stepLoop (trace : Trace) (config : ReplayConfig) : ℕ → PagedState → PagedState
  | 0, state => state
  | fuel + 1, state =>
      if state.completed < trace.requests.length then
        let after := oneStep trace config state
        if 2 ≤ after.noProgressSteps then after else stepLoop trace config fuel after
      else
        state

/-- The last state of a run. -/
def final (trace : Trace) (config : ReplayConfig) (slab : ℕ → UInt8) : PagedState :=
  stepLoop trace config config.maxSteps (initial trace config slab)

end PagedReplay

open PagedReplay in
/-- Replay a trace through the paged cache. -/
def runPaged (trace : Trace) (config : ReplayConfig) (slab : ℕ → UInt8) : ReplayMetrics :=
  let last := final trace config slab
  let stats := last.scheduler.cache.allocator.stats
  { last.metrics with
    requestsCompleted := wrap32 last.completed
    completed := decide (last.completed = trace.requests.length)
    leakFree := decide (stats.freeBlocks = stats.totalBlocks ∧ stats.activeBlocks = 0 ∧
      stats.sharedBlocks = 0 ∧ stats.swappedBlocks = 0) }

end QwenVLPaged
