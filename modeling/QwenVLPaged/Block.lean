import Mathlib.Tactic

/-!
# Blocks of the paged cache

Identifiers, block shapes and the two kinds of block: a logical block of a sequence and a
physical frame of the pool. Sizes follow the C++ integer types: `wrap32` and `wrap64` reduce the
results of unsigned arithmetic, and identifiers that are only compared or counted upwards in
64 bits are natural numbers.
-/

namespace QwenVLPaged

abbrev RequestId := ℕ
abbrev SequenceId := ℕ
abbrev PhysicalBlockId := ℕ
abbrev SwapSlotId := ℕ

/-- The value kept by a `std::uint32_t`. -/
def wrap32 (value : ℕ) : ℕ := value % 2 ^ 32

/-- The value kept by a `std::size_t`. -/
def wrap64 (value : ℕ) : ℕ := value % 2 ^ 64

theorem wrap32_lt (value : ℕ) : wrap32 value < 2 ^ 32 := Nat.mod_lt _ (by norm_num)

theorem wrap32_of_lt {value : ℕ} (small : value < 2 ^ 32) : wrap32 value = value :=
  Nat.mod_eq_of_lt small

theorem wrap64_of_lt {value : ℕ} (small : value < 2 ^ 64) : wrap64 value = value :=
  Nat.mod_eq_of_lt small

/-! Small sizes fit a 32-bit word. -/

theorem zero_lt_word : 0 < 2 ^ 32 := by norm_num

theorem one_lt_word : 1 < 2 ^ 32 := by norm_num

theorem two_lt_word : 2 < 2 ^ 32 := by norm_num

theorem three_lt_word : 3 < 2 ^ 32 := by norm_num

theorem four_lt_word : 4 < 2 ^ 32 := by norm_num

theorem eight_lt_word : 8 < 2 ^ 32 := by norm_num

/-- Python's `-(-a // b)`. -/
def ceilDiv (a b : ℕ) : ℕ := (a + b - 1) / b

theorem ceilDiv_zero (size : ℕ) : ceilDiv 0 size = 0 := by
  rcases Nat.eq_zero_or_pos size with rfl | positive
  · rfl
  · exact Nat.div_eq_of_lt (by omega)

theorem ceilDiv_le_iff {tokens size blocks : ℕ} (positive : 0 < size) :
    ceilDiv tokens size ≤ blocks ↔ tokens ≤ blocks * size := by
  rw [ceilDiv, ← Nat.lt_succ_iff, Nat.div_lt_iff_lt_mul positive, Nat.succ_mul]
  omega

theorem le_ceilDiv_mul {count size : ℕ} (positive : 0 < size) :
    count ≤ ceilDiv count size * size :=
  (ceilDiv_le_iff positive).mp le_rfl

theorem ceilDiv_mul {count size : ℕ} (positive : 0 < size) : ceilDiv (count * size) size = count := by
  have enough : count * size ≤ ceilDiv (count * size) size * size := le_ceilDiv_mul positive
  exact le_antisymm ((ceilDiv_le_iff positive).mpr le_rfl) (Nat.le_of_mul_le_mul_right enough positive)

theorem ceilDiv_pos {count size : ℕ} (some : 0 < count) (positive : 0 < size) :
    0 < ceilDiv count size := by
  rw [ceilDiv, Nat.div_pos_iff]
  omega

/-- The type of cache data stored in a block. -/
inductive CacheKind
  | textKV
  | visionKV
  | ropeState
  | auxiliary
  deriving DecidableEq

/-- Runtime state of a physical block inside the pool. -/
inductive BlockState
  | free
  | active
  | shared
  | swapped
  deriving DecidableEq

/-- Static shape of one physical cache block. -/
structure BlockShape where
  tokensPerBlock : ℕ
  numLayers : ℕ
  numKvHeads : ℕ
  headDim : ℕ
  bytesPerElement : ℕ
  /-- Layers stored in one frame; zero stands for all of them. -/
  layersPerFrame : ℕ
  deriving DecidableEq

namespace BlockShape

/-- Value-initialised shape, which an empty pool reports. -/
def empty : BlockShape := ⟨0, 0, 0, 0, 0, 0⟩

/-- Layers actually stored in one allocated frame. -/
def frameLayers (shape : BlockShape) : ℕ :=
  if shape.layersPerFrame = 0 then shape.numLayers else shape.layersPerFrame

/-- Each physical frame holds a single layer of several. -/
def perLayerFrames (shape : BlockShape) : Bool :=
  shape.frameLayers == 1 && decide (1 < shape.numLayers)

/-- Bytes needed by a full key and value block. -/
def byteSize (shape : BlockShape) : ℕ :=
  wrap64 (shape.tokensPerBlock * shape.frameLayers * shape.numKvHeads * shape.headDim *
    shape.bytesPerElement * 2)

end BlockShape

/-- Logical page descriptor of a sequence-local block table. -/
structure LogicalBlock where
  sequenceId : SequenceId
  index : ℕ
  cacheKind : CacheKind
  startToken : ℕ
  tokenCount : ℕ
  deriving DecidableEq

/-- Overwrite the first `count` bytes of `destination` with those of `source`. -/
def memcpy (destination source : List UInt8) (count : ℕ) : List UInt8 :=
  source.take count ++ destination.drop count

theorem memcpy_all {destination source : List UInt8} {count : ℕ}
    (source_length : source.length = count) (destination_length : destination.length = count) :
    memcpy destination source count = source := by
  rw [memcpy, List.take_of_length_le source_length.le,
    List.drop_of_length_le destination_length.le, List.append_nil]

/-- One frame of the pool. Its bytes are its slice of the slab. -/
structure PhysicalBlock where
  id : PhysicalBlockId
  shape : BlockShape
  data : List UInt8

/-- Byte capacity of the frame's slice. -/
def PhysicalBlock.sizeBytes (block : PhysicalBlock) : ℕ := block.data.length

end QwenVLPaged
