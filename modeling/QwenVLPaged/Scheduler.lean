import QwenVLPaged.KVCacheManager

/-!
# The continuous batcher

Requests wait in a pending queue, run in an active queue and are parked in a preempted queue while
their cache is swapped out. The scheduler owns no memory: it calls the cache manager and reads the
counters of its allocator. All block and token counts are 32-bit values.
-/

namespace QwenVLPaged

/-- Lifecycle state of an inference request. -/
inductive RequestState
  | pending
  | prefill
  | decode
  | preempted
  | finished
  | cancelled
  deriving DecidableEq

/-- Sampling metadata of a request. -/
structure SamplingConfig where
  numParallelSamples : ℕ
  maxDecodeTokens : ℕ
  deriving DecidableEq

/-- Inference request tracked by the batcher. -/
structure Request where
  requestId : RequestId
  rootSequenceId : SequenceId
  promptTokens : ℕ
  sampling : SamplingConfig
  /-- Content identity of the shareable prompt prefix, empty if none. -/
  prefixKey : String
  state : RequestState
  /-- Prompt tokens not yet scheduled as prefill work. -/
  remainingPrefillTokens : ℕ
  /-- Admissions that went past this request while it waited. -/
  admissionSkips : ℕ
  /-- Pool blocks reserved against prompt plus decode. -/
  lifetimeBlocks : ℕ
  deriving DecidableEq

/-- A request with the source's default members, rooted at the sequence of the same number. -/
def Request.ofTokens (requestId : RequestId) (promptTokens maxDecodeTokens : ℕ) : Request where
  requestId
  rootSequenceId := requestId
  promptTokens
  sampling := ⟨1, maxDecodeTokens⟩
  prefixKey := ""
  state := .pending
  remainingPrefillTokens := 0
  admissionSkips := 0
  lifetimeBlocks := 0

/-- A request as `enqueue` stores it. -/
def Request.enqueued (request : Request) : Request :=
  { request with
    state := .pending
    remainingPrefillTokens := request.promptTokens
    admissionSkips := 0
    lifetimeBlocks := 0 }

/-- Sequence metadata under which a request is admitted. -/
def Request.metadata (request : Request) : SequenceMetadata :=
  ⟨request.rootSequenceId, request.requestId⟩

/-- Tuning knobs. The skip limit is a 32-bit value. -/
structure SchedulerConfig where
  maxActiveRequests : ℕ
  maxBatchTokens : ℕ
  preemptionWatermarkBlocks : ℕ
  sizeAwareAdmission : Bool
  admissionSkipLimit : ℕ
  admissionSkipLimit_lt : admissionSkipLimit < 2 ^ 32

/-- Why a request was preempted and how much cache that reclaimed. -/
structure PreemptionInfo where
  reason : String
  swappedBlocks : ℕ
  deriving DecidableEq

/-- One executable batching step. -/
structure BatchPlan where
  prefillRequests : List RequestId
  prefillTokens : List ℕ
  decodeRequests : List RequestId
  scheduledTokens : ℕ
  deriving DecidableEq

def BatchPlan.empty : BatchPlan := ⟨[], [], [], 0⟩

/-- The scheduler together with the cache manager it points to. -/
structure Scheduler where
  config : SchedulerConfig
  cache : KVCacheManager
  pending : List Request
  active : List Request
  preempted : List Request
  preemptionInfo : AList fun _ : RequestId => PreemptionInfo
  lifetimeHeld : ℕ

/-- The first request of a queue with the given id. -/
def findRequest (queue : List Request) (requestId : RequestId) : Option Request :=
  queue.find? fun request => request.requestId == requestId

/-- The queue without the request that `findRequest` finds. -/
def eraseRequest (queue : List Request) (requestId : RequestId) : List Request :=
  queue.eraseP fun request => request.requestId == requestId

/-- Progress of one request after execution. -/
def Request.complete (request : Request) (producedTokens : ℕ) : Request :=
  if request.state = .prefill then
    if request.remainingPrefillTokens ≤ producedTokens then
      { request with remainingPrefillTokens := 0, state := .decode }
    else
      { request with
        remainingPrefillTokens := request.remainingPrefillTokens - producedTokens }
  else
    request

namespace Scheduler

/-- A scheduler over an existing cache manager. -/
def create (config : SchedulerConfig) (cache : KVCacheManager) : Scheduler :=
  ⟨config, cache, [], [], [], ∅, 0⟩

def totalBlocks (scheduler : Scheduler) : ℕ := scheduler.cache.allocator.stats.totalBlocks

def freeBlocks (scheduler : Scheduler) : ℕ := scheduler.cache.allocator.stats.freeBlocks

/-- Enqueue a new request for future admission. -/
def enqueue (scheduler : Scheduler) (request : Request) : Scheduler :=
  { scheduler with pending := scheduler.pending ++ [request.enqueued] }

/-! ## Block counts -/

/-- Physical frames that a number of tokens occupies. -/
def blocksForTokens (cache : KVCacheManager) (tokenCount : ℕ) : ℕ :=
  match cache.allocator.block 0 with
  | none => 0
  | some block =>
      let tokensPerBlock := block.shape.tokensPerBlock
      if tokensPerBlock = 0 then
        0
      else
        let tokenBlocks := wrap32 (tokenCount + tokensPerBlock - 1) / tokensPerBlock
        let tables := if block.shape.perLayerFrames then block.shape.numLayers else 1
        wrap32 (tokenBlocks * tables)

/-- Prompt tokens that a published prefix covers. -/
def cachedTokens (cache : KVCacheManager) (request : Request) : ℕ :=
  if request.prefixKey = "" then 0 else cache.prefixTokenCount request.prefixKey

/-- Blocks reserved against prompt plus decode, minus a published prefix. -/
def lifetimeBlocksFor (cache : KVCacheManager) (request : Request) : ℕ :=
  let cached := cachedTokens cache request
  let usable := if cached ≤ request.promptTokens then cached else 0
  let unique := request.promptTokens - usable
  blocksForTokens cache (wrap32 (unique + request.sampling.maxDecodeTokens))

/-! ## Preempting and resuming -/

/-- The counter after a reservation is given back. -/
def heldWithout (held lifetimeBlocks : ℕ) : ℕ :=
  if 0 < lifetimeBlocks ∧ lifetimeBlocks ≤ held then held - lifetimeBlocks else held

/-- Preempt a request: swap out its sequences and park it. -/
def preempt (scheduler : Scheduler) (requestId : RequestId) (reason : String) :
    Bool × Scheduler :=
  match findRequest scheduler.active requestId with
  | none => (false, scheduler)
  | some request =>
      let (swappedBlocks, cache) := scheduler.cache.swapOutRequest request.requestId
      (true,
        { scheduler with
          cache
          active := eraseRequest scheduler.active requestId
          preempted := scheduler.preempted ++ [{ request with state := .preempted }]
          preemptionInfo :=
            scheduler.preemptionInfo.insert request.requestId ⟨reason, swappedBlocks⟩
          lifetimeHeld := heldWithout scheduler.lifetimeHeld request.lifetimeBlocks })

/-- Resume a preempted request once its cache is swapped back in. -/
def resume (scheduler : Scheduler) (requestId : RequestId) : Bool × Scheduler :=
  match findRequest scheduler.preempted requestId with
  | none => (false, scheduler)
  | some request =>
      match scheduler.cache.swapInRequest request.requestId with
      | (false, cache) => (false, { scheduler with cache })
      | (true, cache) =>
          let state := if 0 < request.remainingPrefillTokens then .prefill else .decode
          (true,
            { scheduler with
              cache
              preempted := eraseRequest scheduler.preempted requestId
              preemptionInfo := scheduler.preemptionInfo.erase requestId
              active := scheduler.active ++ [{ request with state }]
              lifetimeHeld := wrap32 (scheduler.lifetimeHeld + request.lifetimeBlocks) })

/-- Cancel a request in the queue that holds it and release its cache. -/
def cancel (scheduler : Scheduler) (requestId : RequestId) : Scheduler :=
  let finish (request : Request) : Scheduler :=
    { scheduler with
      cache := scheduler.cache.releaseRequest request.requestId
      preemptionInfo := scheduler.preemptionInfo.erase requestId
      lifetimeHeld := heldWithout scheduler.lifetimeHeld request.lifetimeBlocks }
  match findRequest scheduler.pending requestId with
  | some request =>
      { finish request with pending := eraseRequest scheduler.pending requestId }
  | none =>
      match findRequest scheduler.active requestId with
      | some request =>
          { finish request with active := eraseRequest scheduler.active requestId }
      | none =>
          match findRequest scheduler.preempted requestId with
          | some request =>
              { finish request with preempted := eraseRequest scheduler.preempted requestId }
          | none => scheduler

/-- Mark progress of an active request. -/
def completeStep (scheduler : Scheduler) (requestId : RequestId) (producedTokens : ℕ) :
    Scheduler :=
  let position := scheduler.active.findIdx fun request => request.requestId == requestId
  { scheduler with
    active := scheduler.active.modify position fun request => request.complete producedTokens }

/-! ## Admission -/

/-- Preempt the newest active request that this call did not admit, until `required` blocks are
free and the reservation fits. Every round shortens the active queue, which bounds the fuel. -/
def reclaimLoop (needed required total admittedThisStep : ℕ) : ℕ → Scheduler → Scheduler
  | 0, scheduler => scheduler
  | fuel + 1, scheduler =>
      if admittedThisStep < scheduler.active.length ∧
          (scheduler.freeBlocks < required ∨
            total < wrap32 (scheduler.lifetimeHeld + needed)) then
        match scheduler.active[scheduler.active.length - admittedThisStep - 1]? with
        | none => scheduler
        | some victim =>
            match scheduler.preempt victim.requestId "cache pressure watermark" with
            | (false, same) => same
            | (true, after) =>
                if after.freeBlocks ≤ scheduler.freeBlocks then
                  after
                else
                  reclaimLoop needed required total admittedThisStep fuel after
      else
        scheduler

/-- Preempt active requests until prompt plus decode plus reserve fits. -/
def reclaimForAdmission (scheduler : Scheduler) (promptTokens decodeTokens : ℕ)
    (admittedThisStep : ℕ) : Scheduler :=
  if scheduler.config.preemptionWatermarkBlocks = 0 then
    scheduler
  else
    let needed := blocksForTokens scheduler.cache (wrap32 (promptTokens + decodeTokens))
    if needed = 0 ∨ scheduler.totalBlocks < needed then
      scheduler
    else
      let required :=
        min (wrap32 (needed + scheduler.config.preemptionWatermarkBlocks)) scheduler.totalBlocks
      reclaimLoop needed required scheduler.totalBlocks admittedThisStep scheduler.active.length
        scheduler

/-- Open the root sequence of a candidate, attach its prefix and reserve the rest of its prompt.
A refused candidate is released again. -/
def openRoot (cache : KVCacheManager) (candidate : Request) : Bool × KVCacheManager :=
  match cache.createSequence candidate.metadata with
  | (false, same) => (false, same)
  | (true, opened) =>
      let cached := cachedTokens opened candidate
      let (attached, joined) :=
        if 0 < cached ∧ cached ≤ candidate.promptTokens then
          opened.attachPrefix candidate.rootSequenceId candidate.prefixKey
        else
          (0, opened)
      let stillNeed := candidate.promptTokens - attached
      let (reserved, grown) :=
        if 0 < stillNeed then
          joined.reserveTokens candidate.rootSequenceId stillNeed
        else
          (true, joined)
      if !reserved then
        (false, grown.releaseRequest candidate.requestId)
      else if 0 < candidate.promptTokens ∧ attached = 0 ∧ stillNeed = 0 then
        (false, grown.releaseRequest candidate.requestId)
      else
        (true, grown)

/-- Schedule the next prefill chunk of a request. The sum stays within the batch budget. -/
def schedulePrefillChunk (config : SchedulerConfig) (request : Request) (plan : BatchPlan) :
    BatchPlan :=
  if request.remainingPrefillTokens = 0 then
    plan
  else if config.maxBatchTokens ≤ plan.scheduledTokens then
    plan
  else
    let chunk :=
      min request.remainingPrefillTokens (config.maxBatchTokens - plan.scheduledTokens)
    if chunk = 0 then
      plan
    else
      { plan with
        prefillRequests := plan.prefillRequests ++ [request.requestId]
        prefillTokens := plan.prefillTokens ++ [chunk]
        scheduledTokens := plan.scheduledTokens + chunk }

/-- An admitted candidate: its reservation is recorded and its prefill starts. -/
def admittedRequest (candidate : Request) (needed : ℕ) : Request :=
  { candidate with
    lifetimeBlocks := needed
    state := .prefill
    remainingPrefillTokens :=
      if candidate.remainingPrefillTokens = 0 then candidate.promptTokens
      else candidate.remainingPrefillTokens }

/-- Try to admit a candidate into a plan. The caller moves it to the active queue. -/
def tryAdmit (scheduler : Scheduler) (candidate : Request) (plan : BatchPlan)
    (admittedThisStep : ℕ) : Option (Request × BatchPlan) × Scheduler :=
  if scheduler.config.maxBatchTokens ≤ plan.scheduledTokens then
    (none, scheduler)
  else
    let needed := lifetimeBlocksFor scheduler.cache candidate
    if scheduler.totalBlocks < needed then
      (none, scheduler)
    else
      let reclaimed := scheduler.reclaimForAdmission candidate.promptTokens
        candidate.sampling.maxDecodeTokens admittedThisStep
      if reclaimed.totalBlocks < wrap32 (reclaimed.lifetimeHeld + needed) then
        (none, reclaimed)
      else
        match openRoot reclaimed.cache candidate with
        | (false, cache) => (none, { reclaimed with cache })
        | (true, cache) =>
            let admitted := admittedRequest candidate needed
            (some (admitted, schedulePrefillChunk scheduler.config admitted plan),
              { reclaimed with
                cache
                lifetimeHeld := wrap32 (reclaimed.lifetimeHeld + needed) })

/-- Try the waiting requests in order. The position of the first admitted one is returned. -/
def admitScan (plan : BatchPlan) :
    Scheduler → List Request → Option (ℕ × Request × BatchPlan) × Scheduler
  | scheduler, [] => (none, scheduler)
  | scheduler, candidate :: rest =>
      match scheduler.tryAdmit candidate plan plan.prefillRequests.length with
      | (some (admitted, planned), after) => (some (0, admitted, planned), after)
      | (none, after) =>
          match admitScan plan after rest with
          | (some (position, admitted, planned), final) =>
              (some (position + 1, admitted, planned), final)
          | (none, final) => (none, final)

/-- Count one more skip for the requests in front of a position. -/
def skipBefore (pending : List Request) (position : ℕ) : List Request :=
  (pending.take position).map (fun request =>
    { request with admissionSkips := wrap32 (request.admissionSkips + 1) }) ++
    pending.drop position

/-- Only the head of the queue may be admitted. -/
def mustTakeHead (config : SchedulerConfig) (front : Request) : Bool :=
  !config.sizeAwareAdmission || decide (config.admissionSkipLimit ≤ front.admissionSkips)

/-- One round of the admission loop; `none` ends it. The pending position of the admitted request
is returned beside the plan. -/
def admitRound (scheduler : Scheduler) (plan : BatchPlan) :
    Option (ℕ × BatchPlan) × Scheduler :=
  match scheduler.pending with
  | [] => (none, scheduler)
  | front :: rest =>
      if scheduler.config.maxActiveRequests ≤ scheduler.active.length then
        (none, scheduler)
      else if mustTakeHead scheduler.config front then
        match scheduler.tryAdmit front plan plan.prefillRequests.length with
        | (none, after) => (none, after)
        | (some (admitted, planned), after) =>
            (some (0, planned),
              { after with pending := rest, active := after.active ++ [admitted] })
      else
        match admitScan plan scheduler scheduler.pending with
        | (none, after) => (none, after)
        | (some (position, admitted, planned), after) =>
            (some (position, planned),
              { after with
                pending := (skipBefore scheduler.pending position).eraseIdx position
                active := after.active ++ [admitted] })

/-- Admit waiting requests until a round admits none. Every round shortens the pending queue,
which bounds the fuel. The admitted positions are collected beside the plan. -/
def admitFromPending : ℕ → Scheduler → BatchPlan → List ℕ × BatchPlan × Scheduler
  | 0, scheduler, plan => ([], plan, scheduler)
  | fuel + 1, scheduler, plan =>
      match scheduler.admitRound plan with
      | (none, after) => ([], plan, after)
      | (some (position, planned), after) =>
          let (positions, final) := admitFromPending fuel after planned
          (position :: positions, final)

/-- Prefill chunks of the active requests that the plan does not name yet. -/
def schedulePrefills (config : SchedulerConfig) (active : List Request) (plan : BatchPlan) :
    BatchPlan :=
  active.foldl
    (fun plan request =>
      if request.state = .prefill ∧ request.requestId ∉ plan.prefillRequests then
        schedulePrefillChunk config request plan
      else
        plan)
    plan

/-- Decode tokens of the active requests while the budget lasts. -/
def scheduleDecodeTokens (config : SchedulerConfig) : List Request → BatchPlan → BatchPlan
  | [], plan => plan
  | request :: rest, plan =>
      if request.state ≠ .decode then
        scheduleDecodeTokens config rest plan
      else if config.maxBatchTokens ≤ plan.scheduledTokens then
        plan
      else
        scheduleDecodeTokens config rest
          { plan with
            decodeRequests := plan.decodeRequests ++ [request.requestId]
            scheduledTokens := plan.scheduledTokens + 1 }

/-- Admit what fits, starting from an empty plan. -/
def admitPending (scheduler : Scheduler) : List ℕ × BatchPlan × Scheduler :=
  admitFromPending scheduler.pending.length scheduler .empty

/-- Build the next batch plan and update request states. -/
def scheduleNext (scheduler : Scheduler) : BatchPlan × Scheduler :=
  let (_, plan, after) := scheduler.admitPending
  (scheduleDecodeTokens after.config after.active
    (schedulePrefills after.config after.active plan), after)

end Scheduler
end QwenVLPaged
