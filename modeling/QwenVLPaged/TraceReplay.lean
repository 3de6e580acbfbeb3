import QwenVLPaged.Block

/-!
# Traces and replay configurations

What a replay reads and reports. All fields of requests and configurations are 32-bit values
except the step bound; counters of 64 bits are natural numbers. Timestamps, image grids and
positional metadata are carried along unread and are left out.
-/

namespace QwenVLPaged

/-- Model geometry recorded in a trace. -/
structure TraceHeader where
  numLayers : ℕ
  numKvHeads : ℕ
  headDim : ℕ
  bytesPerElement : ℕ
  deriving DecidableEq

/-- One replayable inference request. -/
structure TraceRequest where
  requestId : RequestId
  promptTokens : ℕ
  /-- What a reservation must cover. -/
  decodeBudget : ℕ
  /-- Tokens actually produced before stopping. -/
  decodeActual : ℕ
  numParallelSamples : ℕ
  prefixKey : String
  promptTokens_lt : promptTokens < 2 ^ 32
  decodeBudget_lt : decodeBudget < 2 ^ 32
  decodeActual_lt : decodeActual < 2 ^ 32
  numParallelSamples_lt : numParallelSamples < 2 ^ 32
  deriving DecidableEq

structure Trace where
  header : TraceHeader
  requests : List TraceRequest
  deriving DecidableEq

/-- Pool sizing and policy for one replay run. -/
structure ReplayConfig where
  tokensPerBlock : ℕ
  maxBlocks : ℕ
  maxActiveRequests : ℕ
  maxBatchTokens : ℕ
  preemptionWatermarkBlocks : ℕ
  swapSlots : ℕ
  sizeAwareAdmission : Bool
  admissionSkipLimit : ℕ
  prefixCaching : Bool
  baselineMaxContext : ℕ
  maxSteps : ℕ
  tokensPerBlock_lt : tokensPerBlock < 2 ^ 32
  maxBlocks_lt : maxBlocks < 2 ^ 32
  admissionSkipLimit_lt : admissionSkipLimit < 2 ^ 32
  deriving DecidableEq

/-- Outcome of one replay run. The 64-bit counters are natural numbers. -/
structure ReplayMetrics where
  mode : String
  steps : ℕ
  requestsCompleted : ℕ
  requestsAdmitted : ℕ
  tokensDecoded : ℕ
  peakBlocksInUse : ℕ
  peakBytesInUse : ℕ
  peakActiveRequests : ℕ
  reservedTokenSlots : ℕ
  committedTokens : ℕ
  preemptions : ℕ
  resumes : ℕ
  failedResumes : ℕ
  swappedBlocksOut : ℕ
  forks : ℕ
  cowEvents : ℕ
  prefixHits : ℕ
  prefixBlocksSaved : ℕ
  headOfLineStallSteps : ℕ
  fragmentationFailures : ℕ
  requestsNeverAdmissible : ℕ
  maxPartialBlockSlack : ℕ
  completed : Bool
  leakFree : Bool
  deriving DecidableEq

/-- All counters at zero. -/
def ReplayMetrics.start (mode : String) : ReplayMetrics where
  mode := mode
  steps := 0
  requestsCompleted := 0
  requestsAdmitted := 0
  tokensDecoded := 0
  peakBlocksInUse := 0
  peakBytesInUse := 0
  peakActiveRequests := 0
  reservedTokenSlots := 0
  committedTokens := 0
  preemptions := 0
  resumes := 0
  failedResumes := 0
  swappedBlocksOut := 0
  forks := 0
  cowEvents := 0
  prefixHits := 0
  prefixBlocksSaved := 0
  headOfLineStallSteps := 0
  fragmentationFailures := 0
  requestsNeverAdmissible := 0
  maxPartialBlockSlack := 0
  completed := false
  leakFree := false

/-- Division rounded up, in 32-bit arithmetic. -/
def ceilDiv32 (value divisor : ℕ) : ℕ :=
  if divisor = 0 then 0 else wrap32 (value + divisor - 1) / divisor

theorem ceilDiv32_of_lt {value divisor : ℕ} (positive : 0 < divisor)
    (small : value + divisor - 1 < 2 ^ 32) : ceilDiv32 value divisor = ceilDiv value divisor := by
  rw [ceilDiv32, if_neg positive.ne', wrap32_of_lt small, ceilDiv]

theorem ceilDiv32_of_wraps {value divisor : ℕ} (value_lt : value < 2 ^ 32)
    (divisor_lt : divisor < 2 ^ 32) (wraps : 2 ^ 32 ≤ value + divisor - 1) :
    ceilDiv32 value divisor = 0 := by
  rw [ceilDiv32]
  split
  · rfl
  · apply Nat.div_eq_of_lt
    simp only [wrap32]
    omega

/-- Difference of two 32-bit values. -/
def sub32 (value other : ℕ) : ℕ := wrap32 (value + 2 ^ 32 - other)

theorem sub32_of_le {value other : ℕ} (small : value < 2 ^ 32) (le : other ≤ value) :
    sub32 value other = value - other := by
  simp only [sub32, wrap32]
  omega

/-- The shape of the frames that a replay uses. -/
def frameShape (trace : Trace) (config : ReplayConfig) : BlockShape :=
  ⟨config.tokensPerBlock, trace.header.numLayers, trace.header.numKvHeads, trace.header.headDim,
    trace.header.bytesPerElement, 0⟩

end QwenVLPaged
