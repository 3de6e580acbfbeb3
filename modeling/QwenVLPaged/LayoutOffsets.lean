import QwenVLPaged.CacheLayout
import QwenVLPaged.MemoryAllocator

/-!
# Offsets of a layout without overflow

When the elements of a frame can be counted in 64 bits, the strides are the products they are
meant to be, and distinct coordinates have distinct elements inside the frame.
-/

namespace QwenVLPaged

/-- Number of elements of one frame, in unbounded arithmetic. -/
def BlockShape.elementTotal (shape : BlockShape) : ℕ :=
  shape.frameLayers * (2 * (shape.tokensPerBlock * (shape.numKvHeads * shape.headDim)))

/-- Number of bytes of one frame, in unbounded arithmetic. -/
def BlockShape.byteTotal (shape : BlockShape) : ℕ := shape.elementTotal * shape.bytesPerElement

namespace KVBlockLayout

theorem streamIndex_lt (stream : KVStream) : streamIndex stream < 2 := by
  cases stream <;> decide

theorem streamIndex_injective {first second : KVStream}
    (same : streamIndex first = streamIndex second) : first = second := by
  cases first <;> cases second <;> first | rfl | simp [streamIndex] at same

/-- The element position that a coordinate has in the nested order. -/
def position (shape : BlockShape) (layer stream token kvHead dim : ℕ) : ℕ :=
  (((layer * 2 + stream) * shape.tokensPerBlock + token) * shape.numKvHeads + kvHead) *
    shape.headDim + dim

private theorem digit_lt {high low base bound : ℕ} (high_lt : high < bound) (low_lt : low < base) :
    high * base + low < bound * base := by
  calc
    high * base + low < high * base + base := by omega
    _ = (high + 1) * base := (Nat.succ_mul high base).symm
    _ ≤ bound * base := Nat.mul_le_mul_right base high_lt

theorem digit_unique {high low high' low' base : ℕ} (low_lt : low < base)
    (low_lt' : low' < base) (same : high * base + low = high' * base + low') :
    high = high' ∧ low = low' := by
  have positive : 0 < base := by omega
  have highs := congrArg (· / base) same
  have lows := congrArg (· % base) same
  simp only [Nat.mul_comm _ base, Nat.mul_add_div positive, Nat.div_eq_of_lt low_lt,
    Nat.div_eq_of_lt low_lt', Nat.add_zero] at highs
  simp only [Nat.mul_add_mod_self_right, Nat.mod_eq_of_lt low_lt, Nat.mod_eq_of_lt low_lt'] at lows
  exact ⟨highs, lows⟩

theorem position_lt {shape : BlockShape} {layer stream token kvHead dim : ℕ}
    (layer_lt : layer < shape.frameLayers) (stream_lt : stream < 2)
    (token_lt : token < shape.tokensPerBlock) (head_lt : kvHead < shape.numKvHeads)
    (dim_lt : dim < shape.headDim) :
    position shape layer stream token kvHead dim < shape.elementTotal := by
  have bound := digit_lt (digit_lt (digit_lt (digit_lt layer_lt stream_lt) token_lt) head_lt) dim_lt
  rw [BlockShape.elementTotal, ← Nat.mul_assoc, ← Nat.mul_assoc, ← Nat.mul_assoc]
  exact bound

theorem position_unique {shape : BlockShape} {layer stream token kvHead dim : ℕ}
    {layer' stream' token' kvHead' dim' : ℕ} (stream_lt : stream < 2) (stream_lt' : stream' < 2)
    (token_lt : token < shape.tokensPerBlock) (token_lt' : token' < shape.tokensPerBlock)
    (head_lt : kvHead < shape.numKvHeads) (head_lt' : kvHead' < shape.numKvHeads)
    (dim_lt : dim < shape.headDim) (dim_lt' : dim' < shape.headDim)
    (same : position shape layer stream token kvHead dim =
      position shape layer' stream' token' kvHead' dim') :
    layer = layer' ∧ stream = stream' ∧ token = token' ∧ kvHead = kvHead' ∧ dim = dim' := by
  obtain ⟨heads, dims⟩ := digit_unique dim_lt dim_lt' same
  obtain ⟨tokens, heads⟩ := digit_unique head_lt head_lt' heads
  obtain ⟨streams, tokens⟩ := digit_unique token_lt token_lt' tokens
  obtain ⟨layers, streams⟩ := digit_unique stream_lt stream_lt' streams
  exact ⟨layers, streams, tokens, heads, dims⟩

/-- The strides are products: each of them divides the total, so none wraps. -/
theorem strides_eq {shape : BlockShape} (fits : shape.elementTotal < 2 ^ 64) {layer token : ℕ}
    (layer_lt : layer < shape.frameLayers) (token_lt : token < shape.tokensPerBlock) :
    (mk shape).tokenStride = shape.numKvHeads * shape.headDim ∧
      (mk shape).streamStride = shape.tokensPerBlock * (shape.numKvHeads * shape.headDim) ∧
      (mk shape).layerStride =
        2 * (shape.tokensPerBlock * (shape.numKvHeads * shape.headDim)) := by
  have layer_pos : 0 < shape.frameLayers := by omega
  have token_pos : 0 < shape.tokensPerBlock := by omega
  rw [BlockShape.elementTotal] at fits
  have layer_fits : 2 * (shape.tokensPerBlock * (shape.numKvHeads * shape.headDim)) < 2 ^ 64 :=
    (Nat.le_mul_of_pos_left _ layer_pos).trans_lt fits
  have stream_fits : shape.tokensPerBlock * (shape.numKvHeads * shape.headDim) < 2 ^ 64 := by omega
  have token_fits : shape.numKvHeads * shape.headDim < 2 ^ 64 :=
    (Nat.le_mul_of_pos_left _ token_pos).trans_lt stream_fits
  have token_stride : (mk shape).tokenStride = shape.numKvHeads * shape.headDim :=
    wrap64_of_lt token_fits
  have stream_stride : (mk shape).streamStride =
      shape.tokensPerBlock * (shape.numKvHeads * shape.headDim) := by
    rw [streamStride, token_stride]
    exact wrap64_of_lt stream_fits
  refine ⟨token_stride, stream_stride, ?_⟩
  rw [layerStride, stream_stride]
  exact wrap64_of_lt layer_fits

/-- An offset inside the range is the nested product. -/
theorem elementOffset_eq {shape : BlockShape} (fits : shape.elementTotal < 2 ^ 64)
    {layer token kvHead offset : ℕ} {stream : KVStream}
    (found : (mk shape).elementOffset layer stream token kvHead = some offset)
    (nonempty : 0 < shape.headDim) :
    layer < shape.frameLayers ∧ token < shape.tokensPerBlock ∧ kvHead < shape.numKvHeads ∧
      offset = position shape layer (streamIndex stream) token kvHead 0 := by
  unfold elementOffset at found
  split at found
  · simp at found
  · rename_i inside
    simp only [not_or, Nat.not_le, ge_iff_le] at inside
    obtain ⟨layer_lt, token_lt, head_lt⟩ := inside
    refine ⟨layer_lt, token_lt, head_lt, ?_⟩
    obtain ⟨token_stride, stream_stride, layer_stride⟩ := strides_eq fits layer_lt token_lt
    have exact_offset : layer * (mk shape).layerStride +
        streamIndex stream * (mk shape).streamStride + token * (mk shape).tokenStride +
        kvHead * (mk shape).headStride =
        position shape layer (streamIndex stream) token kvHead 0 := by
      rw [layer_stride, stream_stride, token_stride, headStride, position]
      ring
    rw [exact_offset, wrap64_of_lt] at found
    · exact (Option.some.inj found).symm
    · exact (position_lt layer_lt (streamIndex_lt stream) token_lt head_lt nonempty).trans fits

end KVBlockLayout

/-- The frame size of the pool does not overflow, so every element lies inside its frame. -/
def AllocatorConfig.Addressable (config : AllocatorConfig) : Prop :=
  config.blockShape.byteTotal + config.effectiveAlignment ≤ 2 ^ 64

theorem AllocatorConfig.effectiveAlignment_pos (config : AllocatorConfig) :
    0 < config.effectiveAlignment := by
  unfold effectiveAlignment
  split
  · decide
  · omega

theorem AllocatorConfig.Addressable.elementTotal_lt {config : AllocatorConfig}
    (addressable : config.Addressable) (sized : 0 < config.blockShape.bytesPerElement) :
    config.blockShape.elementTotal < 2 ^ 64 := by
  have aligned := config.effectiveAlignment_pos
  have bytes : config.blockShape.elementTotal ≤ config.blockShape.byteTotal :=
    Nat.le_mul_of_pos_right _ sized
  unfold Addressable at addressable
  omega

theorem AllocatorConfig.Addressable.byteTotal_le {config : AllocatorConfig}
    (addressable : config.Addressable) : config.blockShape.byteTotal ≤ config.blockStrideFor := by
  have aligned := config.effectiveAlignment_pos
  have size : config.blockShape.byteSize = config.blockShape.byteTotal := by
    have expand : config.blockShape.tokensPerBlock * config.blockShape.frameLayers *
        config.blockShape.numKvHeads * config.blockShape.headDim *
        config.blockShape.bytesPerElement * 2 = config.blockShape.byteTotal := by
      rw [BlockShape.byteTotal, BlockShape.elementTotal]
      ring
    rw [BlockShape.byteSize, expand]
    exact wrap64_of_lt (by unfold Addressable at addressable; omega)
  have rounded : config.blockShape.byteTotal ≤
      roundUp config.blockShape.byteTotal config.effectiveAlignment := by
    have inside : config.blockShape.byteTotal + config.effectiveAlignment - 1 < 2 ^ 64 := by
      unfold Addressable at addressable
      omega
    have below := Nat.div_mul_le_self
      (config.blockShape.byteTotal + config.effectiveAlignment - 1) config.effectiveAlignment
    have above := Nat.lt_div_mul_add
      (a := config.blockShape.byteTotal + config.effectiveAlignment - 1) aligned
    rw [roundUp, if_neg aligned.ne', wrap64_of_lt inside, wrap64_of_lt (by omega)]
    omega
  rw [blockStrideFor, size]
  split <;> omega

end QwenVLPaged
