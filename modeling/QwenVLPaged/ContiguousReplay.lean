import QwenVLPaged.Library.Bitmap
import QwenVLPaged.TraceReplay

/-!
# The contiguous baseline

`run_contiguous` serves a trace with one contiguous run of blocks per request, placed by first fit
and held until the request stops. The loops of the source are kept apart, one function for each
iteration, so that a point of the run is a place in the loops together with the variables there.
-/

namespace QwenVLPaged

/-- One contiguous run that serves a request. -/
structure Reservation where
  index : ℕ
  startBlock : ℕ
  blockCount : ℕ
  committed : ℕ
  decoded : ℕ
  deriving DecidableEq

/-- The variables of the run. -/
structure ContiguousState where
  used : List Bool
  blocksInUse : ℕ
  active : List Reservation
  nextPending : ℕ
  completed : ℕ
  progressMade : Bool
  admittedBefore : ℕ
  metrics : ReplayMetrics
  deriving DecidableEq

namespace ContiguousReplay

/-! ## Sizes -/

/-- Tokens that the run of a request has to cover. -/
def reservedTokens (config : ReplayConfig) (request : TraceRequest) : ℕ :=
  min config.baselineMaxContext (wrap32 (request.promptTokens + request.decodeBudget))

def requestBlocks (config : ReplayConfig) (request : TraceRequest) : ℕ :=
  ceilDiv32 (reservedTokens config request) config.tokensPerBlock

/-- The request fits the context bound and an empty pool. -/
def servable (config : ReplayConfig) (request : TraceRequest) : Bool :=
  !(decide (config.baselineMaxContext < wrap32 (request.promptTokens + request.decodeBudget)) ||
    decide (config.maxBlocks < requestBlocks config request))

/-- The state before the first step. -/
def initial (trace : Trace) (config : ReplayConfig) : ContiguousState where
  used := List.replicate config.maxBlocks false
  blocksInUse := 0
  active := []
  nextPending := 0
  completed := 0
  progressMade := false
  admittedBefore := 0
  metrics :=
    { ReplayMetrics.start "contiguous" with
      requestsNeverAdmissible :=
        wrap32 (trace.requests.countP fun request => !servable config request) }

/-! ## One step -/

/-- The step counter and the flags at the start of a step. -/
def begin (state : ContiguousState) : ContiguousState :=
  { state with
    progressMade := false
    admittedBefore := state.nextPending
    metrics := { state.metrics with steps := state.metrics.steps + 1 } }

/-- A request that cannot be served is skipped. -/
def skip (state : ContiguousState) : ContiguousState :=
  { state with
    nextPending := state.nextPending + 1
    completed := state.completed + 1
    progressMade := true }

/-- No run was found: it is a fragmentation failure if enough blocks are free. -/
def refuse (config : ReplayConfig) (needed : ℕ) (state : ContiguousState) : ContiguousState :=
  if needed ≤ sub32 config.maxBlocks state.blocksInUse then
    { state with
      metrics :=
        { state.metrics with
          fragmentationFailures := state.metrics.fragmentationFailures + 1 } }
  else
    state

/-- Take the run and start the request. -/
def place (request : TraceRequest) (needed start : ℕ) (state : ContiguousState) :
    ContiguousState :=
  { state with
    used := Bitmap.mark true state.used start needed
    blocksInUse := wrap32 (state.blocksInUse + needed)
    active := state.active ++ [⟨state.nextPending, start, needed, request.promptTokens, 0⟩]
    nextPending := state.nextPending + 1
    progressMade := true
    metrics :=
      { state.metrics with requestsAdmitted := wrap32 (state.metrics.requestsAdmitted + 1) } }

/-- One iteration of the admission loop for the next request; `false` leaves the loop. -/
def tryPlace (config : ReplayConfig) (request : TraceRequest) (state : ContiguousState) :
    Bool × ContiguousState :=
  if !servable config request then
    (true, skip state)
  else
    match Bitmap.search (requestBlocks config request) state.used with
    | none => (false, refuse config (requestBlocks config request) state)
    | some start => (true, place request (requestBlocks config request) start state)

/-- Admit requests in order, the list being those from `nextPending` on. -/
def admitLoop (config : ReplayConfig) : List TraceRequest → ContiguousState → ContiguousState
  | [], state => state
  | request :: rest, state =>
      if state.active.length < config.maxActiveRequests then
        match tryPlace config request state with
        | (true, after) => admitLoop config rest after
        | (false, after) => after
      else
        state

/-- Overwrite a position with the last element and drop that. -/
def swapRemove {α : Type} (items : List α) (position : ℕ) : List α :=
  match items.getLast? with
  | none => items
  | some last => (items.set position last).dropLast

/-- Give the run of a finished request back. -/
def finish (reservation : Reservation) (position : ℕ) (state : ContiguousState) :
    ContiguousState :=
  { state with
    used := Bitmap.mark false state.used reservation.startBlock reservation.blockCount
    blocksInUse := sub32 state.blocksInUse reservation.blockCount
    active := swapRemove state.active position
    completed := state.completed + 1 }

/-- One more token for a reservation. -/
def advance (reservation : Reservation) : Reservation :=
  { reservation with
    committed := wrap32 (reservation.committed + 1)
    decoded := wrap32 (reservation.decoded + 1) }

/-- One iteration of the decode loop at a position; the next position is returned. -/
def decodeOne (trace : Trace) (position : ℕ) (state : ContiguousState) : ℕ × ContiguousState :=
  match state.active[position]? with
  | none => (position, state)
  | some old =>
      let reservation := advance old
      let after :=
        { state with
          active := state.active.set position reservation
          progressMade := true
          metrics := { state.metrics with tokensDecoded := state.metrics.tokensDecoded + 1 } }
      match trace.requests[reservation.index]? with
      | none => (position + 1, after)
      | some request =>
          if request.decodeActual ≤ reservation.decoded then
            (position, finish reservation position after)
          else
            (position + 1, after)

/-- Decode once for each of the `remaining` reservations from a position on. -/
def decodeLoop (trace : Trace) : ℕ → ℕ → ContiguousState → ContiguousState
  | 0, _, state => state
  | remaining + 1, position, state =>
      let (next, after) := decodeOne trace position state
      decodeLoop trace remaining next after

/-- The largest slack of the active reservations, in token slots. -/
def slack (config : ReplayConfig) (active : List Reservation) (bound : ℕ) : ℕ :=
  active.foldl
    (fun bound reservation =>
      let reserved := wrap32 (reservation.blockCount * config.tokensPerBlock)
      if reservation.committed < reserved then max bound (reserved - reservation.committed)
      else bound)
    bound

/-- The counters at the end of a step. -/
def account (trace : Trace) (config : ReplayConfig) (state : ContiguousState) : ContiguousState :=
  let metrics := state.metrics
  let bytes := wrap64 (state.blocksInUse * (frameShape trace config).byteSize)
  { state with
    metrics :=
      { metrics with
        headOfLineStallSteps :=
          if state.nextPending < trace.requests.length ∧
              state.admittedBefore = state.nextPending then
            metrics.headOfLineStallSteps + 1
          else
            metrics.headOfLineStallSteps
        peakActiveRequests := max metrics.peakActiveRequests (wrap32 state.active.length)
        peakBlocksInUse := max metrics.peakBlocksInUse state.blocksInUse
        peakBytesInUse := max metrics.peakBytesInUse bytes
        reservedTokenSlots :=
          metrics.reservedTokenSlots + state.blocksInUse * config.tokensPerBlock
        committedTokens := metrics.committedTokens + (state.active.map (·.committed)).sum
        maxPartialBlockSlack := slack config state.active metrics.maxPartialBlockSlack } }

/-- One step of the run, up to its counters. -/
def oneStep (trace : Trace) (config : ReplayConfig) (state : ContiguousState) : ContiguousState :=
  let admitted := admitLoop config (trace.requests.drop state.nextPending) (begin state)
  account trace config (decodeLoop trace admitted.active.length 0 admitted)

/-- At most `fuel` more steps; a step without progress is the last one. The step counter starts at
zero, so `maxSteps` is enough fuel. -/
def stepLoop (trace : Trace) (config : ReplayConfig) : ℕ → ContiguousState → ContiguousState
  | 0, state => state
  | fuel + 1, state =>
      if state.completed < trace.requests.length then
        let after := oneStep trace config state
        if after.progressMade then stepLoop trace config fuel after else after
      else
        state

end ContiguousReplay

open ContiguousReplay in
/-- Replay a trace through a contiguous worst-case-reservation allocator. -/
def runContiguous (trace : Trace) (config : ReplayConfig) : ReplayMetrics :=
  let final := stepLoop trace config config.maxSteps (initial trace config)
  { final.metrics with
    requestsCompleted := wrap32 final.completed
    completed := decide (final.completed = trace.requests.length)
    leakFree := decide (final.blocksInUse = 0) }

end QwenVLPaged
