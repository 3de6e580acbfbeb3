import QwenVLPaged.Block
import QwenVLPaged.Library.Loops
import QwenVLPaged.Library.Softmax
import Mathlib.Data.Nat.Log

/-!
# Decode attention on the device

The Triton kernels of `paged_attention_decode.py`. A program is one call of a kernel body; a launch
runs the programs of its grid one after the other in some order, each storing into its own cells. A
tile is a function of its offsets, a pointer an index into a flat buffer, and a masked load reads
nothing where its mask is off. Besides the running softmax a program records the block-table entries
and the tokens that it loads.
-/

namespace QwenVLPaged

/-- Tensors, strides and sizes that a decode launch is given. -/
structure DecodeTensors (K : Type) where
  kvPool : ℤ → K
  blockTable : ℕ → ℤ
  contextLens : ℕ → ℕ
  query : ℕ → K
  numSeqs : ℕ
  numQueryHeads : ℕ
  numKvHeads : ℕ
  headDim : ℕ
  maxBlocksPerSeq : ℕ
  elementsPerBlock : ℕ
  layer : ℕ
  layerStride : ℕ
  streamStride : ℕ
  tokenStride : ℕ
  headStride : ℕ
  tokensPerBlock : ℕ
  scale : K

/-- What a program carries around its block loop. -/
structure BlockLoop (K : Type) where
  sums : PartialSoftmax K ℕ
  entries : List ℕ
  tokens : List ℕ

namespace DecodeTensors

/-- Query heads that read one kv head. -/
def groupSize {K : Type} (tensors : DecodeTensors K) : ℕ :=
  tensors.numQueryHeads / tensors.numKvHeads

/-- Row of one sequence and query head. -/
def row {K : Type} (tensors : DecodeTensors K) (seq head : ℕ) : ℕ :=
  seq * tensors.numQueryHeads + head

def numLogicalBlocks {K : Type} (tensors : DecodeTensors K) (seq : ℕ) : ℕ :=
  ceilDiv (tensors.contextLens seq) tensors.tokensPerBlock

/-! ## The block loop -/

/-- Tokens of the context in one logical block. -/
def tokensHere {K : Type} (tensors : DecodeTensors K) (seq logicalBlock : ℕ) : ℤ :=
  min (max ((tensors.contextLens seq : ℤ) - logicalBlock * tensors.tokensPerBlock) 0)
    tensors.tokensPerBlock

/-- `token_mask`: the offset holds a token of the context. -/
def tokenMask {K : Type} (tensors : DecodeTensors K) (seq logicalBlock offset : ℕ) : Bool :=
  decide ((offset : ℤ) < tensors.tokensHere seq logicalBlock)

/-- Frame of one logical block, loaded only for active blocks. -/
def physicalId {K : Type} (tensors : DecodeTensors K) (seq logicalBlock : ℕ) : ℤ :=
  if logicalBlock < tensors.numLogicalBlocks seq then
    tensors.blockTable (seq * tensors.maxBlocksPerSeq + logicalBlock)
  else 0

/-- Address of one key element in the pool. -/
def addr {K : Type} (tensors : DecodeTensors K) (seq head logicalBlock offset dim : ℕ) : ℤ :=
  let kvHeadBase := tensors.layer * tensors.layerStride +
    head / tensors.groupSize * tensors.headStride
  let blockBase : ℤ := tensors.physicalId seq logicalBlock * tensors.elementsPerBlock + kvHeadBase
  blockBase + offset * tensors.tokenStride + dim

def keys {K : Type} [Zero K] (tensors : DecodeTensors K)
    (seq head logicalBlock offset dim : ℕ) : K :=
  if tensors.tokenMask seq logicalBlock offset then
    tensors.kvPool (tensors.addr seq head logicalBlock offset dim)
  else 0

def values {K : Type} [Zero K] (tensors : DecodeTensors K)
    (seq head logicalBlock offset dim : ℕ) : K :=
  if tensors.tokenMask seq logicalBlock offset then
    tensors.kvPool (tensors.addr seq head logicalBlock offset dim + tensors.streamStride)
  else 0

/-- Query vector of one row. -/
def queryAt {K : Type} (tensors : DecodeTensors K) (seq head dim : ℕ) : K :=
  tensors.query (tensors.row seq head * tensors.headDim + dim)

/-- Scores of one block, minus infinity where the mask is off. -/
def scores {K : Type} [Field K] (tensors : DecodeTensors K)
    (seq head logicalBlock offset : ℕ) : WithBot K :=
  if tensors.tokenMask seq logicalBlock offset then
    (((List.range tensors.headDim).map fun dim =>
      tensors.keys seq head logicalBlock offset dim * tensors.queryAt seq head dim).sum *
        tensors.scale : K)
  else ⊥

/-- One round of the block loop, for one sequence and query head. -/
def blockStep {K : Type} [Field K] [LinearOrder K] (exp : Exponential K)
    (tensors : DecodeTensors K) (seq head : ℕ) (state : BlockLoop K) (logicalBlock : ℕ) :
    BlockLoop K :=
  let offsets := List.range tensors.tokensPerBlock
  let scores := tensors.scores seq head logicalBlock
  let blockMax := offsets.foldl (fun top offset => max top (scores offset)) ⊥
  let newMax := max state.sums.top blockMax
  let alpha := if state.sums.top = ⊥ then 0 else exp.gap state.sums.top newMax
  let weights (offset : ℕ) :=
    if tensors.tokenMask seq logicalBlock offset then exp.gap (scores offset) newMax else 0
  { sums :=
      { top := newMax
        sum := state.sums.sum * alpha + (offsets.map weights).sum
        acc := fun dim => state.sums.acc dim * alpha + (offsets.map fun offset =>
          weights offset * tensors.values seq head logicalBlock offset dim).sum }
    entries := state.entries ++
      if logicalBlock < tensors.numLogicalBlocks seq then [logicalBlock] else []
    tokens := state.tokens ++ (offsets.filter (tensors.tokenMask seq logicalBlock)).map fun offset =>
      logicalBlock * tensors.tokensPerBlock + offset }

/-- The block loop over consecutive logical blocks. -/
def blockLoop {K : Type} [Field K] [LinearOrder K] (exp : Exponential K)
    (tensors : DecodeTensors K) (seq head first count : ℕ) : BlockLoop K :=
  (List.range count).foldl (fun state offset =>
    tensors.blockStep exp seq head state (first + offset)) ⟨.empty K ℕ, [], []⟩

/-! ## The single-program kernel -/

/-- Output vector of the single-program kernel. -/
def decodeRow {K : Type} [Field K] [LinearOrder K] (exp : Exponential K)
    (tensors : DecodeTensors K) (seq head dim : ℕ) : K :=
  let sums := (tensors.blockLoop exp seq head 0 tensors.maxBlocksPerSeq).sums
  sums.acc dim / sums.sum

/-- Store one row of the output. -/
def storeOut {K : Type} (tensors : DecodeTensors K) (value : ℕ → ℕ → ℕ → K) (out : ℕ → K)
    (program : ℕ × ℕ) : ℕ → K :=
  let (head, seq) := program
  Loops.storeRow out (tensors.row seq head * tensors.headDim) tensors.headDim (value seq head)

/-- `_paged_attention_decode_kernel`, for one query head and sequence. -/
def decodeKernel {K : Type} [Field K] [LinearOrder K] (exp : Exponential K)
    (tensors : DecodeTensors K) : (ℕ → K) → ℕ × ℕ → ℕ → K :=
  tensors.storeOut (tensors.decodeRow exp)

/-- Programs of one query head and sequence. -/
def grid {K : Type} (tensors : DecodeTensors K) : List (ℕ × ℕ) :=
  (List.range tensors.numQueryHeads).product (List.range tensors.numSeqs)

/-- `paged_attention_decode_triton`, with the programs running in the given order. -/
def pagedAttentionDecodeTriton {K : Type} [Field K] [LinearOrder K] (exp : Exponential K)
    (tensors : DecodeTensors K) (order : List (ℕ × ℕ)) (out : ℕ → K) : Option (ℕ → K) :=
  if tensors.numQueryHeads % tensors.numKvHeads ≠ 0 then
    none
  else
    some (order.foldl (tensors.decodeKernel exp) out)

/-! ## The split kernels -/

/-- Buffers between the two launches of a split decode. -/
structure Partials (K : Type) where
  out : ℕ → K
  max : ℕ → WithBot K
  sum : ℕ → K

/-- Slot of one partition of a row. -/
def slot {K : Type} (tensors : DecodeTensors K) (numPartitions seq head partitionIdx : ℕ) : ℕ :=
  tensors.row seq head * numPartitions + partitionIdx

/-- `_paged_attention_partial_kernel`, for one query head, sequence and partition. -/
def partialKernel {K : Type} [Field K] [LinearOrder K] (exp : Exponential K)
    (tensors : DecodeTensors K) (numPartitions partitionBlocks : ℕ) (partials : Partials K)
    (program : ℕ × ℕ × ℕ) : Partials K :=
  let (head, seq, partitionIdx) := program
  let sums := (tensors.blockLoop exp seq head (partitionIdx * partitionBlocks)
    partitionBlocks).sums
  let slot := tensors.slot numPartitions seq head partitionIdx
  { out := Loops.storeRow partials.out (slot * tensors.headDim) tensors.headDim sums.acc
    max := Function.update partials.max slot sums.top
    sum := Function.update partials.sum slot sums.sum }

/-- Output vector of the reduce kernel. -/
def reduceRow {K : Type} [Field K] [LinearOrder K] (exp : Exponential K)
    (tensors : DecodeTensors K) (numPartitions maxPartitions : ℕ) (partials : Partials K)
    (seq head dim : ℕ) : K :=
  let offsets := List.range maxPartitions
  let mask (offset : ℕ) := decide (offset < numPartitions)
  let slots (offset : ℕ) := tensors.row seq head * numPartitions + offset
  let partialMax (offset : ℕ) := if mask offset then partials.max (slots offset) else ⊥
  let partialSum (offset : ℕ) := if mask offset then partials.sum (slots offset) else 0
  let globalMax := offsets.foldl (fun top offset => max top (partialMax offset)) ⊥
  let rescale (offset : ℕ) :=
    if partialMax offset = ⊥ then 0 else exp.gap (partialMax offset) globalMax
  let partialOut (offset : ℕ) :=
    if mask offset then partials.out (slots offset * tensors.headDim + dim) else 0
  (offsets.map fun offset => partialOut offset * rescale offset).sum /
    (offsets.map fun offset => partialSum offset * rescale offset).sum

/-- `_paged_attention_reduce_kernel`, for one query head and sequence. -/
def reduceKernel {K : Type} [Field K] [LinearOrder K] (exp : Exponential K)
    (tensors : DecodeTensors K) (numPartitions maxPartitions : ℕ) (partials : Partials K) :
    (ℕ → K) → ℕ × ℕ → ℕ → K :=
  tensors.storeOut (tensors.reduceRow exp numPartitions maxPartitions partials)

/-- `MAX_PARTITIONS`. -/
def maxPartitions : ℕ := 32

/-- `TARGET_PROGRAMS`. -/
def targetPrograms : ℕ := 512

/-- `choose_num_partitions`. -/
def chooseNumPartitions (numSeqs numQueryHeads maxLogicalBlocks : ℕ) : ℕ :=
  let wanted := ceilDiv targetPrograms (numSeqs * numQueryHeads)
  max 1 (min (min wanted maxPartitions) maxLogicalBlocks)

/-- The least power of two that is not smaller. -/
def nextPowerOfTwo (count : ℕ) : ℕ := 2 ^ Nat.clog 2 count

/-- Blocks of one partition of a split into at most `numPartitions` parts. -/
def partitionBlocks {K : Type} (tensors : DecodeTensors K) (numPartitions : ℕ) : ℕ :=
  ceilDiv tensors.maxBlocksPerSeq numPartitions

/-- Partitions of that size that the block table needs. -/
def partitionCount {K : Type} (tensors : DecodeTensors K) (numPartitions : ℕ) : ℕ :=
  ceilDiv tensors.maxBlocksPerSeq (tensors.partitionBlocks numPartitions)

/-- Programs of one query head, sequence and partition. -/
def partialGrid {K : Type} (tensors : DecodeTensors K) (numPartitions : ℕ) :
    List (ℕ × ℕ × ℕ) :=
  (List.range tensors.numQueryHeads).product
    ((List.range tensors.numSeqs).product (List.range numPartitions))

/-- The order in which the programs of a split decode happen to run. -/
structure LaunchOrder where
  partials : List (ℕ × ℕ × ℕ)
  reduce : List (ℕ × ℕ)

/-- The partial launch followed by the reduce launch, over buffers with arbitrary contents. -/
def splitDecode {K : Type} [Field K] [LinearOrder K] (exp : Exponential K)
    (tensors : DecodeTensors K) (numPartitions : ℕ) (order : LaunchOrder) (scratch : Partials K)
    (out : ℕ → K) : ℕ → K :=
  let partitionBlocks := tensors.partitionBlocks numPartitions
  let numPartitions := tensors.partitionCount numPartitions
  let partials := order.partials.foldl
    (tensors.partialKernel exp numPartitions partitionBlocks) scratch
  order.reduce.foldl
    (tensors.reduceKernel exp numPartitions (nextPowerOfTwo numPartitions) partials) out

/-- `paged_attention_decode_partitioned`; a failed assertion is `none`. -/
def pagedAttentionDecodePartitioned {K : Type} [Field K] [LinearOrder K] (exp : Exponential K)
    (tensors : DecodeTensors K) (numPartitions : Option ℕ) (order : LaunchOrder)
    (scratch : Partials K) (out : ℕ → K) : Option (ℕ → K) :=
  if tensors.numQueryHeads % tensors.numKvHeads ≠ 0 then
    none
  else
    let numPartitions := numPartitions.getD (chooseNumPartitions tensors.numSeqs
      tensors.numQueryHeads tensors.maxBlocksPerSeq)
    if numPartitions < 1 ∨ maxPartitions < numPartitions then
      none
    else if numPartitions = 1 then
      tensors.pagedAttentionDecodeTriton exp order.reduce out
    else
      some (tensors.splitDecode exp numPartitions order scratch out)

end DecodeTensors
end QwenVLPaged
