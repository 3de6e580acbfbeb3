import QwenVLPaged.LayoutOffsets

/-!
# Every element of the pool has one coordinate

The elements of a frame are numbered by layer, stream, token, kv head and dimension, and the frames
of the pool lie one stride apart. As long as the sizes fit into 64 bits the numbering is a
bijection and no two elements of the pool share a byte.
-/

namespace QwenVLPaged

/-- Where a value stands in a frame. -/
@[ext]
structure FrameCoordinate where
  layer : ℕ
  stream : KVStream
  tokenInBlock : ℕ
  kvHead : ℕ
  dim : ℕ
  deriving DecidableEq

/-- Every part of the coordinate is in range. -/
structure FrameCoordinate.Inside (shape : BlockShape) (place : FrameCoordinate) : Prop where
  layer : place.layer < shape.frameLayers
  token : place.tokenInBlock < shape.tokensPerBlock
  head : place.kvHead < shape.numKvHeads
  dim : place.dim < shape.headDim

namespace KVBlockLayout

/-- Element of a frame at a coordinate, if the vector it belongs to is in range. -/
def element (layout : KVBlockLayout) (place : FrameCoordinate) : Option ℕ :=
  (layout.elementOffset place.layer place.stream place.tokenInBlock place.kvHead).map
    (· + place.dim)

theorem wrap64_mul_wrap64 (first second : ℕ) :
    wrap64 (first * wrap64 second) = wrap64 (first * second) := Nat.mul_mod_mod _ _ _

theorem elementCount_eq (shape : BlockShape) :
    (mk shape).elementCount = wrap64 shape.elementTotal := by
  simp only [elementCount, layerStride, streamStride, tokenStride, headStride, kKVStreamCount,
    wrap64_mul_wrap64, BlockShape.elementTotal]

/-- An element in range stands at its place in the nested order. -/
theorem element_eq {shape : BlockShape} (fits : shape.elementTotal < 2 ^ 64) {place : FrameCoordinate}
    (inside : place.Inside shape) :
    (mk shape).element place =
      some (position shape place.layer (streamIndex place.stream) place.tokenInBlock place.kvHead
        place.dim) := by
  have nonempty : 0 < shape.headDim := by have := inside.dim; omega
  have found : (mk shape).elementOffset place.layer place.stream place.tokenInBlock place.kvHead ≠
      none := by
    have layer := inside.layer
    have token := inside.token
    have head := inside.head
    unfold elementOffset
    rw [if_neg (by dsimp only; omega)]
    simp
  obtain ⟨offset, found⟩ := Option.ne_none_iff_exists'.mp found
  rw [element, found, (elementOffset_eq fits found nonempty).2.2.2]
  rfl

/-- The coordinate of a position. -/
def coordinateAt (shape : BlockShape) (index : ℕ) : FrameCoordinate where
  layer := index / shape.headDim / shape.numKvHeads / shape.tokensPerBlock / 2
  stream := if index / shape.headDim / shape.numKvHeads / shape.tokensPerBlock % 2 = 0 then .key
    else .value
  tokenInBlock := index / shape.headDim / shape.numKvHeads % shape.tokensPerBlock
  kvHead := index / shape.headDim % shape.numKvHeads
  dim := index % shape.headDim

theorem streamIndex_coordinateAt (shape : BlockShape) (index : ℕ) :
    streamIndex (coordinateAt shape index).stream =
      index / shape.headDim / shape.numKvHeads / shape.tokensPerBlock % 2 := by
  simp only [coordinateAt]
  split
  · rename_i even
    rw [even]
    rfl
  · rename_i odd
    rw [Nat.mod_two_ne_zero.mp odd]
    rfl

theorem coordinateAt_inside {shape : BlockShape} {index : ℕ} (below : index < shape.elementTotal) :
    (coordinateAt shape index).Inside shape := by
  have positive : 0 < shape.elementTotal := by omega
  have nonzero := positive
  simp only [BlockShape.elementTotal, CanonicallyOrderedAdd.mul_pos] at nonzero
  obtain ⟨-, -, tokens, heads, dims⟩ := nonzero
  refine ⟨?_, Nat.mod_lt _ tokens, Nat.mod_lt _ heads, Nat.mod_lt _ dims⟩
  simp only [coordinateAt, Nat.div_div_eq_div_mul]
  refine Nat.div_lt_of_lt_mul ?_
  calc index < shape.elementTotal := below
    _ = _ := by rw [BlockShape.elementTotal]; ring

theorem position_coordinateAt (shape : BlockShape) (index : ℕ) :
    position shape (coordinateAt shape index).layer
        (streamIndex (coordinateAt shape index).stream) (coordinateAt shape index).tokenInBlock
        (coordinateAt shape index).kvHead (coordinateAt shape index).dim = index := by
  rw [streamIndex_coordinateAt]
  simp only [position, coordinateAt, Nat.div_add_mod']

/-- Coordinates in range number the elements of a frame. -/
theorem element_bijOn {shape : BlockShape} (fits : shape.elementTotal < 2 ^ 64) :
    Set.BijOn (mk shape).element {place | place.Inside shape}
      {found | ∃ index < (mk shape).elementCount, found = some index} := by
  rw [elementCount_eq, wrap64_of_lt fits]
  refine ⟨?_, ?_, ?_⟩
  · intro place inside
    exact ⟨_, position_lt inside.layer (streamIndex_lt _) inside.token inside.head inside.dim,
      element_eq fits inside⟩
  · intro place inside other inside' same
    rw [element_eq fits inside, element_eq fits inside', Option.some.injEq] at same
    obtain ⟨layers, streams, tokens, heads, dims⟩ := position_unique (streamIndex_lt _)
      (streamIndex_lt _) inside.token inside'.token inside.head inside'.head inside.dim inside'.dim
      same
    exact FrameCoordinate.ext layers (streamIndex_injective streams) tokens heads dims
  · rintro found ⟨index, below, rfl⟩
    have inside := coordinateAt_inside below
    refine ⟨coordinateAt shape index, inside, ?_⟩
    rw [element_eq fits inside, position_coordinateAt]

/-- An offset is missing exactly when the layer, the token or the head is out of range. -/
theorem elementOffset_eq_none_iff (layout : KVBlockLayout) (layer : ℕ) (stream : KVStream)
    (token kvHead : ℕ) :
    layout.elementOffset layer stream token kvHead = none ↔
      ¬ (layer < layout.shape.frameLayers ∧ token < layout.shape.tokensPerBlock ∧
        kvHead < layout.shape.numKvHeads) := by
  unfold elementOffset
  split <;> simp <;> omega

end KVBlockLayout

/-! ## Frames of a pool -/

namespace BlockShape

theorem byteSize_eq (shape : BlockShape) : shape.byteSize = wrap64 shape.byteTotal := by
  rw [byteSize, byteTotal, elementTotal]
  congr 1
  ring

end BlockShape

namespace AllocatorConfig

/-- Adding the alignment to the size does not overflow, or one alignment holds the frame. -/
def Rounds (config : AllocatorConfig) : Prop :=
  config.blockShape.byteSize ≤ config.effectiveAlignment ∨
    config.blockShape.byteSize + config.effectiveAlignment - 1 < 2 ^ 64

/-- Byte of the pool at which the element of a frame starts. -/
def elementStart (config : AllocatorConfig) (frame : PhysicalBlockId) (place : FrameCoordinate) :
    Option ℕ :=
  ((KVBlockLayout.mk config.blockShape).element place).map fun element =>
    wrap64 (frame * config.blockStrideFor) + element * config.blockShape.bytesPerElement

theorem blockStrideFor_pos (config : AllocatorConfig) : 0 < config.blockStrideFor := by
  have aligned := config.effectiveAlignment_pos
  unfold blockStrideFor
  dsimp only
  split <;> omega

/-- A frame holds its block. -/
theorem Rounds.byteSize_le {config : AllocatorConfig} (rounds : config.Rounds) :
    config.blockShape.byteSize ≤ config.blockStrideFor := by
  have aligned := config.effectiveAlignment_pos
  generalize size : config.blockShape.byteSize = value
  generalize alignment : config.effectiveAlignment = unit at aligned
  rw [Rounds, size, alignment] at rounds
  rw [blockStrideFor, size, alignment]
  by_cases inside : value + unit - 1 < 2 ^ 64
  · -- The rounded size is a multiple of the alignment that is not below the size.
    have below := Nat.div_mul_le_self (value + unit - 1) unit
    have above := Nat.lt_div_mul_add (a := value + unit - 1) aligned
    have rounded : roundUp value unit = (value + unit - 1) / unit * unit := by
      rw [roundUp, if_neg aligned.ne', wrap64_of_lt inside, wrap64_of_lt (by omega)]
    rw [rounded]
    split <;> omega
  · have small := rounds.resolve_right inside
    -- The sum starts over below the alignment, so the stride falls back to it.
    have restarted : wrap64 (value + unit - 1) / unit = 0 := by
      have bounded : value < 2 ^ 64 := size ▸ Nat.mod_lt _ (by norm_num)
      refine Nat.div_eq_of_lt ?_
      unfold wrap64
      omega
    have zero : roundUp value unit = 0 := by
      rw [roundUp, if_neg aligned.ne', restarted, Nat.zero_mul]
      rfl
    rw [zero, if_pos rfl]
    exact small

/-- The bytes of an element in range lie inside its frame. -/
theorem elementStart_eq {config : AllocatorConfig}
    (elements : config.blockShape.elementTotal < 2 ^ 64)
    (bytes : config.blockShape.byteTotal < 2 ^ 64) (rounds : config.Rounds)
    (pool : config.blockStrideFor * config.maxBlocks < 2 ^ 64) {frame : PhysicalBlockId}
    (bound : frame < config.maxBlocks) {place : FrameCoordinate}
    (inside : place.Inside config.blockShape) :
    ∃ element < config.blockShape.elementTotal,
      (KVBlockLayout.mk config.blockShape).element place = some element ∧
      config.elementStart frame place =
        some (frame * config.blockStrideFor + element * config.blockShape.bytesPerElement) ∧
      (element + 1) * config.blockShape.bytesPerElement ≤ config.blockStrideFor := by
  have size : config.blockShape.byteTotal ≤ config.blockStrideFor := by
    have stride := rounds.byteSize_le
    rwa [BlockShape.byteSize_eq, wrap64_of_lt bytes] at stride
  have base : frame * config.blockStrideFor < 2 ^ 64 := by
    refine lt_of_le_of_lt ?_ pool
    rw [Nat.mul_comm]
    exact Nat.mul_le_mul_left _ bound.le
  have found := KVBlockLayout.element_eq elements inside
  have below := KVBlockLayout.position_lt inside.layer (KVBlockLayout.streamIndex_lt place.stream)
    inside.token inside.head inside.dim
  refine ⟨_, below, found, ?_, ?_⟩
  · rw [elementStart, found, wrap64_of_lt base]
    rfl
  · exact (Nat.mul_le_mul_right _ below).trans size

/-- The layout numbers the elements of a frame without gaps or repetitions, and the elements of a
pool that fits into the address space share no byte. -/
theorem layout_bijective (config : AllocatorConfig)
    (elements : config.blockShape.elementTotal < 2 ^ 64)
    (bytes : config.blockShape.byteTotal < 2 ^ 64) :
    Set.BijOn (KVBlockLayout.mk config.blockShape).element
        {place | place.Inside config.blockShape}
        {found | ∃ index < (KVBlockLayout.mk config.blockShape).elementCount,
          found = some index} ∧
      (∀ layer stream token kvHead,
        (KVBlockLayout.mk config.blockShape).elementOffset layer stream token kvHead = none ↔
          ¬ (layer < config.blockShape.frameLayers ∧ token < config.blockShape.tokensPerBlock ∧
            kvHead < config.blockShape.numKvHeads)) ∧
      (KVBlockLayout.mk config.blockShape).elementCount * config.blockShape.bytesPerElement =
        config.blockShape.byteSize ∧
      (config.Rounds → config.blockShape.byteSize ≤ config.blockStrideFor) ∧
      (config.Rounds → config.blockStrideFor * config.maxBlocks < 2 ^ 64 →
        ∀ frame < config.maxBlocks, ∀ place, place.Inside config.blockShape →
          ∃ start, config.elementStart frame place = some start ∧
            start + config.blockShape.bytesPerElement ≤ config.poolBytesFor ∧
            ∀ frame' < config.maxBlocks, ∀ place', place'.Inside config.blockShape →
              (frame, place) ≠ (frame', place') →
              ∃ start', config.elementStart frame' place' = some start' ∧
                (start + config.blockShape.bytesPerElement ≤ start' ∨
                  start' + config.blockShape.bytesPerElement ≤ start)) := by
  refine ⟨KVBlockLayout.element_bijOn elements, fun layer stream token kvHead =>
    KVBlockLayout.elementOffset_eq_none_iff _ layer stream token kvHead, ?_,
    fun rounds => rounds.byteSize_le, ?_⟩
  · rw [KVBlockLayout.elementCount_eq, wrap64_of_lt elements, BlockShape.byteSize_eq,
      wrap64_of_lt bytes, BlockShape.byteTotal]
  · intro rounds pool frame bound place inside
    obtain ⟨element, below, found, start, fits⟩ :=
      elementStart_eq elements bytes rounds pool bound inside
    rw [Nat.succ_mul] at fits
    refine ⟨_, start, ?_, ?_⟩
    · rw [poolBytesFor, wrap64_of_lt pool]
      have whole : (frame + 1) * config.blockStrideFor ≤
          config.blockStrideFor * config.maxBlocks := by
        rw [Nat.mul_comm]
        exact Nat.mul_le_mul_left _ bound
      rw [Nat.succ_mul] at whole
      omega
    · intro frame' bound' place' inside' distinct
      obtain ⟨element', below', found', start', fits'⟩ :=
        elementStart_eq elements bytes rounds pool bound' inside'
      rw [Nat.succ_mul] at fits'
      refine ⟨_, start', ?_⟩
      rcases Nat.lt_trichotomy frame frame' with before | same | behind
      · have apart : (frame + 1) * config.blockStrideFor ≤ frame' * config.blockStrideFor :=
          Nat.mul_le_mul_right _ before
        rw [Nat.succ_mul] at apart
        omega
      · -- Two elements of one frame have different numbers.
        subst same
        have other : element ≠ element' := by
          intro equal
          refine distinct (congrArg _ ?_)
          exact (KVBlockLayout.element_bijOn elements).injOn inside inside'
            (found.trans (equal ▸ found'.symm))
        rcases Nat.lt_or_gt_of_ne other with less | more
        · have apart : (element + 1) * config.blockShape.bytesPerElement ≤
              element' * config.blockShape.bytesPerElement := Nat.mul_le_mul_right _ less
          rw [Nat.succ_mul] at apart
          omega
        · have apart : (element' + 1) * config.blockShape.bytesPerElement ≤
              element * config.blockShape.bytesPerElement := Nat.mul_le_mul_right _ more
          rw [Nat.succ_mul] at apart
          omega
      · have apart : (frame' + 1) * config.blockStrideFor ≤ frame * config.blockStrideFor :=
          Nat.mul_le_mul_right _ behind
        rw [Nat.succ_mul] at apart
        omega

/-- Two frames of sixteen elements each. -/
theorem layout_bijective_small :
    Set.BijOn (KVBlockLayout.mk ⟨2, 2, 1, 2, 2, 1⟩).element
      {place | place.Inside ⟨2, 2, 1, 2, 2, 1⟩}
      {found | ∃ index < (KVBlockLayout.mk ⟨2, 2, 1, 2, 2, 1⟩).elementCount,
        found = some index} :=
  (layout_bijective ⟨⟨2, 2, 1, 2, 2, 1⟩, 64, 2, two_lt_word⟩ (by decide) (by decide)).1

/-- Rounding a frame of `3 * 2 ^ 62` bytes up to `2 ^ 63` overflows and the stride becomes too
small; a pool of `2 ^ 64` bytes has size zero; and `2 ^ 64` elements of no bytes count as none. -/
theorem layout_overflows :
    (BlockShape.byteTotal ⟨2 ^ 31, 3, 2 ^ 30, 1, 1, 0⟩ < 2 ^ 64 ∧
      blockStrideFor ⟨⟨2 ^ 31, 3, 2 ^ 30, 1, 1, 0⟩, 2 ^ 63, 1, one_lt_word⟩ <
        BlockShape.byteSize ⟨2 ^ 31, 3, 2 ^ 30, 1, 1, 0⟩) ∧
    (BlockShape.byteTotal ⟨2 ^ 31, 1, 2, 1, 1, 0⟩ < 2 ^ 64 ∧
      poolBytesFor ⟨⟨2 ^ 31, 1, 2, 1, 1, 0⟩, 0, 2 ^ 31, by decide⟩ = 0) ∧
    (BlockShape.byteTotal ⟨2 ^ 31, 2 ^ 31, 2, 1, 0, 0⟩ < 2 ^ 64 ∧
      (KVBlockLayout.mk ⟨2 ^ 31, 2 ^ 31, 2, 1, 0, 0⟩).elementCount = 0 ∧
      FrameCoordinate.Inside ⟨2 ^ 31, 2 ^ 31, 2, 1, 0, 0⟩ ⟨0, .key, 0, 0, 0⟩) :=
  ⟨by decide +kernel, by decide +kernel, by decide +kernel, by decide +kernel,
    ⟨by decide +kernel, by decide +kernel, by decide +kernel, by decide +kernel⟩⟩

end AllocatorConfig
end QwenVLPaged
