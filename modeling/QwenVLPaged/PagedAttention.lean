import QwenVLPaged.CacheView
import QwenVLPaged.Library.Loops
import QwenVLPaged.Library.Softmax

/-!
# Decode attention on the CPU

The four kernels of `PagedAttention.h`: the reference walks the page table token by token, the
blocked one resolves each logical block once, and the optimised one serves all query heads of a kv
head together, with two softmax passes or one. Arithmetic is that of an ordered field `K` with an
exponential, and minus infinity is `⊥`. Refused calls return `none`.

Local vectors are functions from indices, a flattened vector being a function of both of its
indices; `query` and `out` keep the source's flat indices.
-/

namespace QwenVLPaged

/-- An element type `T` of the cache, with its conversions from bytes and from and to `float`. -/
structure ElementType (T K : Type) where
  size : ℕ
  load : List UInt8 → T
  toFloat : T → K
  ofFloat : K → T

/-- One element behind a pointer into a frame, as a `float`. -/
def ElementType.read {T K : Type} (element : ElementType T K) (pointer : PhysicalBlock × ℕ)
    (dim : ℕ) : K :=
  element.toFloat (element.load (readElement element.size pointer.1.data (pointer.2 + dim)))

/-- Per-call parameters. -/
structure PagedAttentionParams (K : Type) where
  layer : ℕ
  numQueryHeads : ℕ
  contextLen : ℕ
  scale : K

namespace PagedAttention

/-! ## Checks -/

/-- The arguments are consistent with the cache shape. -/
def consistent {K : Type} (view : CacheView) (size : ℕ) (params : PagedAttentionParams K) :
    Bool :=
  let shape := view.layout.shape
  view.valid && size == shape.bytesPerElement && params.contextLen != 0 &&
    decide (params.layer < shape.numLayers) && params.numQueryHeads != 0 &&
    params.numQueryHeads % shape.numKvHeads == 0

/-- Query heads that read one kv head. -/
def groupSize {K : Type} (view : CacheView) (params : PagedAttentionParams K) : ℕ :=
  params.numQueryHeads / view.layout.shape.numKvHeads

/-- Head vector of one token, read through the page table. -/
def vectorAt {T K : Type} [Zero K] (element : ElementType T K) (view : CacheView)
    (stream : KVStream) (layer token kvHead : ℕ) (dim : ℕ) : K :=
  match view.slot element.size stream layer token kvHead with
  | some pointer => element.read pointer dim
  | none => 0

/-- Query vector of one head. -/
def queryHead {T K : Type} (element : ElementType T K) (view : CacheView) (query : ℕ → T)
    (head dim : ℕ) : K :=
  element.toFloat (query (head * view.layout.shape.headDim + dim))

/-! ## Vector loops -/

/-- Scalar dot product. -/
def dot {K : Type} [Field K] (headDim : ℕ) (query key : ℕ → K) : K :=
  (List.range headDim).foldl (fun sum dim => sum + query dim * key dim) 0

/-- Scalar `accumulator += weight * value`. -/
def axpy {K : Type} [Field K] (headDim : ℕ) (accumulator value : ℕ → K) (weight : K) : ℕ → K :=
  (List.range headDim).foldl (fun accumulator dim =>
    Function.update accumulator dim (accumulator dim + weight * value dim)) accumulator

/-- Lanes of one vector register. -/
def lanes : ℕ := 16

/-- Dimensions held by the register of one step. -/
def register (step : ℕ) : List ℕ := List.range' (step * lanes) lanes

/-- The vector path applies. -/
def vectorised (avx : Bool) (headDim : ℕ) : Bool := avx && headDim % lanes == 0

/-- Dot product, with one partial sum per lane on the vector path. -/
def dotHead {K : Type} [Field K] (avx : Bool) (headDim : ℕ) (query key : ℕ → K) : K :=
  if vectorised avx headDim then
    let partials := (List.range (headDim / lanes)).foldl (fun (partials : ℕ → K) step lane =>
      query (step * lanes + lane) * key (step * lanes + lane) + partials lane) fun _ => 0
    ((List.range lanes).map partials).sum
  else
    dot headDim query key

/-- Weighted accumulation, register by register on the vector path. -/
def axpyHead {K : Type} [Field K] (avx : Bool) (headDim : ℕ) (accumulator value : ℕ → K)
    (weight : K) : ℕ → K :=
  if vectorised avx headDim then
    (List.range (headDim / lanes)).foldl (fun accumulator step =>
      (register step).foldl (fun accumulator dim =>
        Function.update accumulator dim (weight * value dim + accumulator dim)) accumulator)
      accumulator
  else
    axpy headDim accumulator value weight

/-- Rescaling, register by register on the vector path. -/
def scaleHead {K : Type} [Field K] (avx : Bool) (headDim : ℕ) (accumulator : ℕ → K)
    (scale : K) : ℕ → K :=
  if vectorised avx headDim then
    (List.range (headDim / lanes)).foldl (fun accumulator step =>
      (register step).foldl (fun accumulator dim =>
        Function.update accumulator dim (accumulator dim * scale)) accumulator) accumulator
  else
    (List.range headDim).foldl (fun accumulator dim =>
      Function.update accumulator dim (accumulator dim * scale)) accumulator

/-! ## Softmax steps -/

/-- First pass: keep the score of a token and raise the maximum. -/
def scoreStep {K : Type} [LinearOrder K] (state : (ℕ → K) × WithBot K) (token : ℕ) (score : K) :
    (ℕ → K) × WithBot K :=
  (Function.update state.1 token score, max state.2 score)

/-- Second pass: add the weight of a token and its weighted value. -/
def valueStep {K : Type} [Field K] [LinearOrder K] (exp : Exponential K) (avx : Bool)
    (headDim : ℕ) (pass : (ℕ → K) × WithBot K) (state : K × (ℕ → K)) (token : ℕ)
    (value : ℕ → K) : K × (ℕ → K) :=
  let weight := exp.gap (pass.1 token) pass.2
  (state.1 + weight, axpyHead avx headDim state.2 value weight)

/-- Single pass: rescale by the growth of the maximum, then add the token. -/
def onlineStep {K : Type} [Field K] [LinearOrder K] (exp : Exponential K) (avx : Bool)
    (headDim : ℕ) (score : K) (value : ℕ → K) (state : PartialSoftmax K ℕ) :
    PartialSoftmax K ℕ :=
  let newMax := max state.top score
  let rescale := exp.gap state.top newMax
  let weight := exp.gap score newMax
  let scaled :=
    if state.top ≠ newMax ∧ state.sum ≠ 0 then scaleHead avx headDim state.acc rescale
    else state.acc
  { top := newMax
    sum := state.sum * rescale + weight
    acc := axpyHead avx headDim scaled value weight }

/-! ## The reference kernel -/

/-- Every key and value vector of the context resolves. -/
def resolved {K : Type} (view : CacheView) (size : ℕ) (params : PagedAttentionParams K) : Bool :=
  (List.range view.layout.shape.numKvHeads).all fun kvHead =>
    (List.range params.contextLen).all fun token =>
      (view.slot size .key params.layer token kvHead).isSome &&
        (view.slot size .value params.layer token kvHead).isSome

/-- One query head of the reference: the scores, and the output row. -/
def decodeHead {T K : Type} [Field K] [LinearOrder K] (exp : Exponential K)
    (element : ElementType T K) (view : CacheView) (query : ℕ → T)
    (params : PagedAttentionParams K) (scores : ℕ → K) (head : ℕ) : (ℕ → K) × (ℕ → K) :=
  let headDim := view.layout.shape.headDim
  let kvHead := head / groupSize view params
  let vector (stream : KVStream) (token : ℕ) :=
    vectorAt element view stream params.layer token kvHead
  let pass := (List.range params.contextLen).foldl (fun state token =>
    scoreStep state token
      (dot headDim (queryHead element view query head) (vector .key token) * params.scale))
    (scores, ⊥)
  let sums := (List.range params.contextLen).foldl (fun state token =>
    valueStep exp false headDim pass state token (vector .value token)) (0, fun _ => 0)
  (pass.1, fun dim => sums.2 dim / sums.1)

/-- `paged_attention_decode`. -/
def pagedAttentionDecode {T K : Type} [Field K] [LinearOrder K] (exp : Exponential K)
    (element : ElementType T K) (view : CacheView) (query : ℕ → T)
    (params : PagedAttentionParams K) (out : ℕ → T) : Option (ℕ → T) :=
  if !consistent view element.size params then
    none
  else if !resolved view element.size params then
    none
  else
    let headDim := view.layout.shape.headDim
    some ((List.range params.numQueryHeads).foldl (fun state head =>
      let (scores, row) := decodeHead exp element view query params state.1 head
      (scores, Loops.storeRow state.2 (head * headDim) headDim (element.ofFloat ∘ row)))
      ((fun _ => 0), out)).2

/-! ## Kernels that resolve blocks -/

/-- Logical blocks of the context. -/
def logicalBlocks {K : Type} (view : CacheView) (params : PagedAttentionParams K) : ℕ :=
  wrap32 (params.contextLen + view.layout.shape.tokensPerBlock - 1) /
    view.layout.shape.tokensPerBlock

/-- Frame of one logical block. -/
def frame {K : Type} (view : CacheView) (params : PagedAttentionParams K) (logical : ℕ) :
    Option PhysicalBlock :=
  if view.layout.shape.perLayerFrames then view.blockBytes logical params.layer
  else view.blockBytes logical 0

/-- Every frame of the context resolves. -/
def framed {K : Type} (view : CacheView) (params : PagedAttentionParams K) : Bool :=
  (List.range (logicalBlocks view params)).all fun logical => (frame view params logical).isSome

/-- First token of a logical block. -/
def blockBegin (view : CacheView) (logical : ℕ) : ℕ :=
  wrap32 (logical * view.layout.shape.tokensPerBlock)

/-- Tokens of the context in a logical block. -/
def blockTokens {K : Type} (view : CacheView) (params : PagedAttentionParams K) (logical : ℕ) :
    List ℕ :=
  let first := blockBegin view logical
  let last := min (wrap32 (first + view.layout.shape.tokensPerBlock)) params.contextLen
  List.range' first (last - first)

/-- Head vector of a token inside the frame of its block. -/
def pointer {K : Type} (view : CacheView) (params : PagedAttentionParams K) (stream : KVStream)
    (kvHead logical token : ℕ) : Option (PhysicalBlock × ℕ) := do
  let frame ← frame view params logical
  let offsetLayer := if view.layout.shape.perLayerFrames then 0 else params.layer
  let offset ← view.layout.elementOffset offsetLayer stream (token - blockBegin view logical)
    kvHead
  pure (frame, offset)

/-- Walk the tokens of the context block by block. -/
def walk {K σ : Type} (view : CacheView) (params : PagedAttentionParams K)
    (step : σ → ℕ → ℕ → Option σ) (start : σ) : Option σ :=
  (List.range (logicalBlocks view params)).foldlM (fun state logical =>
    (blockTokens view params logical).foldlM (fun state token => step state logical token) state)
    start

/-- One query head of the blocked kernel. -/
def blockedHead {T K : Type} [Field K] [LinearOrder K] (exp : Exponential K)
    (element : ElementType T K) (view : CacheView) (query : ℕ → T)
    (params : PagedAttentionParams K) (scores : ℕ → K) (head : ℕ) :
    Option ((ℕ → K) × (ℕ → K)) := do
  let headDim := view.layout.shape.headDim
  let kvHead := head / groupSize view params
  let pass ← walk view params (fun state logical token => do
    let key ← pointer view params .key kvHead logical token
    pure (scoreStep state token
      (dot headDim (queryHead element view query head) (element.read key) * params.scale)))
    (scores, ⊥)
  let sums ← walk view params (fun state logical token => do
    let value ← pointer view params .value kvHead logical token
    pure (valueStep exp false headDim pass state token (element.read value))) (0, fun _ => 0)
  pure (pass.1, fun dim => sums.2 dim / sums.1)

/-- `paged_attention_decode_blocked`. -/
def pagedAttentionDecodeBlocked {T K : Type} [Field K] [LinearOrder K] (exp : Exponential K)
    (element : ElementType T K) (view : CacheView) (query : ℕ → T)
    (params : PagedAttentionParams K) (out : ℕ → T) : Option (ℕ → T) :=
  if !consistent view element.size params then
    none
  else if !framed view params then
    none
  else do
    let headDim := view.layout.shape.headDim
    let final ← (List.range params.numQueryHeads).foldlM (fun state head => do
      let (scores, row) ← blockedHead exp element view query params state.1 head
      pure (scores, Loops.storeRow state.2 (head * headDim) headDim (element.ofFloat ∘ row)))
      ((fun _ => 0), out)
    pure final.2

/-- The query heads of one kv head in two passes: their scores, and their sums. -/
def twoPassGroup {T K : Type} [Field K] [LinearOrder K] (exp : Exponential K) (avx : Bool)
    (element : ElementType T K) (view : CacheView) (query : ℕ → T)
    (params : PagedAttentionParams K) (scores : ℕ → ℕ → K) (kvHead : ℕ) :
    Option ((ℕ → ℕ → K) × (ℕ → K × (ℕ → K))) := do
  let headDim := view.layout.shape.headDim
  let group := List.range (groupSize view params)
  let passes ← walk view params (fun state logical token => do
    let key ← pointer view params .key kvHead logical token
    pure (group.foldl (fun state member => Function.update state member
      (scoreStep (state member) token (params.scale * dotHead avx headDim
        (queryHead element view query (kvHead * groupSize view params + member))
        (element.read key)))) state))
    fun member => (scores member, (⊥ : WithBot K))
  let sums ← walk view params (fun state logical token => do
    let value ← pointer view params .value kvHead logical token
    pure (group.foldl (fun state member => Function.update state member
      (valueStep exp avx headDim (passes member) (state member) token (element.read value)))
      state))
    fun _ => ((0 : K), fun _ => (0 : K))
  pure (fun member => (passes member).1, sums)

/-- The query heads of one kv head in a single pass. -/
def onlineGroup {T K : Type} [Field K] [LinearOrder K] (exp : Exponential K) (avx : Bool)
    (element : ElementType T K) (view : CacheView) (query : ℕ → T)
    (params : PagedAttentionParams K) (kvHead : ℕ) : Option (ℕ → PartialSoftmax K ℕ) :=
  let headDim := view.layout.shape.headDim
  walk view params (fun state logical token => do
    let key ← pointer view params .key kvHead logical token
    let value ← pointer view params .value kvHead logical token
    pure ((List.range (groupSize view params)).foldl (fun state member =>
      Function.update state member (onlineStep exp avx headDim
        (params.scale * dotHead avx headDim
          (queryHead element view query (kvHead * groupSize view params + member))
          (element.read key))
        (element.read value) (state member))) state))
    fun _ => PartialSoftmax.empty K ℕ

/-- The sums of every query head of one kv head. -/
def groupSums {T K : Type} [Field K] [LinearOrder K] (exp : Exponential K) (online avx : Bool)
    (element : ElementType T K) (view : CacheView) (query : ℕ → T)
    (params : PagedAttentionParams K) (scores : ℕ → ℕ → K) (kvHead : ℕ) :
    Option ((ℕ → ℕ → K) × (ℕ → K × (ℕ → K))) :=
  if online then
    (onlineGroup exp avx element view query params kvHead).map fun state =>
      (scores, fun member => ((state member).sum, (state member).acc))
  else
    twoPassGroup exp avx element view query params scores kvHead

/-- `paged_attention_decode_opt`. -/
def pagedAttentionDecodeOpt {T K : Type} [Field K] [LinearOrder K] (exp : Exponential K)
    (fuseGqa online avx : Bool) (element : ElementType T K) (view : CacheView) (query : ℕ → T)
    (params : PagedAttentionParams K) (out : ℕ → T) : Option (ℕ → T) :=
  if !consistent view element.size params then
    none
  else if !framed view params then
    none
  else if !fuseGqa then
    pagedAttentionDecodeBlocked exp element view query params out
  else do
    let headDim := view.layout.shape.headDim
    let group := groupSize view params
    let final ← (List.range view.layout.shape.numKvHeads).foldlM (fun state kvHead => do
      let (scores, sums) ← groupSums exp online avx element view query params state.1 kvHead
      pure (scores, (List.range group).foldl (fun out member =>
        Loops.storeRow out ((kvHead * group + member) * headDim) headDim fun dim =>
          element.ofFloat ((sums member).2 dim * (1 / (sums member).1))) state.2))
      ((fun _ _ => 0), out)
    pure final.2

/-- `paged_attention_decode_fused`. -/
def pagedAttentionDecodeFused {T K : Type} [Field K] [LinearOrder K] (exp : Exponential K)
    (element : ElementType T K) (view : CacheView) (query : ℕ → T)
    (params : PagedAttentionParams K) (out : ℕ → T) : Option (ℕ → T) :=
  pagedAttentionDecodeOpt exp true false false element view query params out

/-- `paged_attention_decode_fast`; `avx512` tells whether the build has the instructions. -/
def pagedAttentionDecodeFast {T K : Type} [Field K] [LinearOrder K] (exp : Exponential K)
    (avx512 : Bool) (element : ElementType T K) (view : CacheView) (query : ℕ → T)
    (params : PagedAttentionParams K) (out : ℕ → T) : Option (ℕ → T) :=
  pagedAttentionDecodeOpt exp true true avx512 element view query params out

end PagedAttention
end QwenVLPaged
