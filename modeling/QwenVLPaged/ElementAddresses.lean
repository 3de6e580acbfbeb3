import QwenVLPaged.CacheView
import QwenVLPaged.FrameLayout
import QwenVLPaged.TritonDecode

/-!
# One element, four addresses

The slab is addressed in four ways: through `CacheView::slot`, by the Triton kernels, through the
reshaped slices of `PagedPool.stream_view`, and by the precomputed bases of `PagedLayer._write_one`.
All of them count the elements of the slab in the same way.
-/

namespace QwenVLPaged

/-! ## The views of `paged_cache.py` -/

namespace AllocatorConfig

/-- Length of a row of `frames`, the slab reshaped at the element type. -/
def elementsPerBlock (config : AllocatorConfig) : ℕ :=
  config.blockStrideFor / config.blockShape.bytesPerElement

/-- The slice `frames[frame, start:start + count]`, if it has the wanted length: the number in the
slab of its first element. A slice ends with its row. -/
def frameSlice (config : AllocatorConfig) (frame : PhysicalBlockId) (start count : ℕ) : Option ℕ :=
  let row := config.elementsPerBlock
  if min (start + count) row - min start row = count then some (frame * row + min start row)
  else none

def blockSpan (config : AllocatorConfig) : ℕ :=
  config.blockShape.tokensPerBlock * config.blockShape.numKvHeads * config.blockShape.headDim

/-- Element offset of one layer's key or value slice within a frame. -/
def streamBase (config : AllocatorConfig) (layer : ℕ) (stream : KVStream) : Option ℕ :=
  (KVBlockLayout.mk config.blockShape).elementOffset layer stream 0 0

/-- Element `[token, kv_head, dim]` of `stream_view`, a slice reshaped to
`[tokens_per_block, num_kv_heads, head_dim]`. -/
def streamView (config : AllocatorConfig) (frame : PhysicalBlockId) (layer : ℕ)
    (stream : KVStream) (token kvHead dim : ℕ) : Option ℕ := do
  let base ← config.streamBase layer stream
  let first ← config.frameSlice frame base config.blockSpan
  if token < config.blockShape.tokensPerBlock ∧ kvHead < config.blockShape.numKvHeads ∧
      dim < config.blockShape.headDim then
    some (first + ((token * config.blockShape.numKvHeads + kvHead) * config.blockShape.headDim +
      dim))
  else none

/-- Element `[kv_head, dim]` of the row that `_write_one` copies into a frame for one token. -/
def writeOne (config : AllocatorConfig) (frame : PhysicalBlockId) (layer : ℕ) (stream : KVStream)
    (position kvHead dim : ℕ) : Option ℕ := do
  let tokenElems := config.blockShape.numKvHeads * config.blockShape.headDim
  let base ← config.streamBase layer stream
  let offset := position % config.blockShape.tokensPerBlock
  let first ← config.frameSlice frame (base + offset * tokenElems) tokenElems
  some (first + (kvHead * config.blockShape.headDim + dim))

end AllocatorConfig

/-- The tensors of a launch describe the pool of this configuration. -/
structure DecodeTensors.Over {K : Type} (tensors : DecodeTensors K) (config : AllocatorConfig) :
    Prop where
  elements : tensors.elementsPerBlock = config.elementsPerBlock
  layers : tensors.layerStride = (KVBlockLayout.mk config.blockShape).layerStride
  streams : tensors.streamStride = (KVBlockLayout.mk config.blockShape).streamStride
  tokens : tensors.tokenStride = (KVBlockLayout.mk config.blockShape).tokenStride
  heads : tensors.headStride = (KVBlockLayout.mk config.blockShape).headStride

/-- Address that the kernels load a key or a value from. -/
def DecodeTensors.loadAddress {K : Type} (tensors : DecodeTensors K) (stream : KVStream)
    (seq head logicalBlock offset dim : ℕ) : ℤ :=
  match stream with
  | .key => tensors.addr seq head logicalBlock offset dim
  | .value => tensors.addr seq head logicalBlock offset dim + tensors.streamStride

/-! ## Whole elements in a stride -/

namespace AllocatorConfig

theorem effectiveAlignment_dvd_blockStrideFor (config : AllocatorConfig) :
    config.effectiveAlignment ∣ config.blockStrideFor := by
  have aligned := config.effectiveAlignment_pos
  rw [blockStrideFor]
  split
  · exact dvd_rfl
  · rw [roundUp, if_neg aligned.ne']
    have below : wrap64 (config.blockShape.byteSize + config.effectiveAlignment - 1) /
        config.effectiveAlignment * config.effectiveAlignment < 2 ^ 64 :=
      (Nat.div_mul_le_self _ _).trans_lt (Nat.mod_lt _ (by norm_num))
    rw [wrap64_of_lt below]
    exact Nat.dvd_mul_left _ _

theorem elementsPerBlock_mul {config : AllocatorConfig}
    (aligned : config.blockShape.bytesPerElement ∣ config.effectiveAlignment) :
    config.elementsPerBlock * config.blockShape.bytesPerElement = config.blockStrideFor :=
  Nat.div_mul_cancel (aligned.trans config.effectiveAlignment_dvd_blockStrideFor)

theorem bytesPerElement_pos {config : AllocatorConfig}
    (aligned : config.blockShape.bytesPerElement ∣ config.effectiveAlignment) :
    0 < config.blockShape.bytesPerElement :=
  Nat.pos_of_dvd_of_pos aligned config.effectiveAlignment_pos

theorem elementTotal_lt {config : AllocatorConfig}
    (aligned : config.blockShape.bytesPerElement ∣ config.effectiveAlignment)
    (bytes : config.blockShape.byteTotal < 2 ^ 64) : config.blockShape.elementTotal < 2 ^ 64 :=
  (Nat.le_mul_of_pos_right _ (bytesPerElement_pos aligned)).trans_lt bytes

/-- The elements of a block fit into a row. -/
theorem elementTotal_le {config : AllocatorConfig}
    (aligned : config.blockShape.bytesPerElement ∣ config.effectiveAlignment)
    (bytes : config.blockShape.byteTotal < 2 ^ 64) (rounds : config.Rounds) :
    config.blockShape.elementTotal ≤ config.elementsPerBlock := by
  have size := rounds.byteSize_le
  rw [BlockShape.byteSize_eq, wrap64_of_lt bytes, BlockShape.byteTotal,
    ← elementsPerBlock_mul aligned] at size
  exact Nat.le_of_mul_le_mul_right size (bytesPerElement_pos aligned)

theorem frameSlice_of_le {config : AllocatorConfig} (frame : PhysicalBlockId) {start count : ℕ}
    (inside : start + count ≤ config.elementsPerBlock) :
    config.frameSlice frame start count = some (frame * config.elementsPerBlock + start) := by
  rw [frameSlice]
  have clipped : min start config.elementsPerBlock = start := by omega
  simp only [clipped]
  rw [if_pos (by omega)]

/-! ## The four addresses -/

/-- Place of an element in its frame, in the nested order. -/
def placeOf (config : AllocatorConfig) (place : FrameCoordinate) : ℕ :=
  KVBlockLayout.position config.blockShape place.layer (KVBlockLayout.streamIndex place.stream)
    place.tokenInBlock place.kvHead place.dim

theorem streamBase_eq {config : AllocatorConfig}
    (elements : config.blockShape.elementTotal < 2 ^ 64) {place : FrameCoordinate}
    (inside : place.Inside config.blockShape) :
    config.streamBase place.layer place.stream =
      some (KVBlockLayout.position config.blockShape place.layer
        (KVBlockLayout.streamIndex place.stream) 0 0 0) := by
  have layer := inside.layer
  have token := inside.token
  have head := inside.head
  have dim := inside.dim
  have first : (⟨place.layer, place.stream, 0, 0, 0⟩ : FrameCoordinate).Inside config.blockShape :=
    ⟨layer, by dsimp only; omega, by dsimp only; omega, by dsimp only; omega⟩
  have found := KVBlockLayout.element_eq elements first
  rw [KVBlockLayout.element] at found
  simpa [streamBase] using found

/-- The slice of one layer and stream lies in its row. -/
theorem streamBase_span_le {config : AllocatorConfig} {place : FrameCoordinate}
    (inside : place.Inside config.blockShape) :
    KVBlockLayout.position config.blockShape place.layer
        (KVBlockLayout.streamIndex place.stream) 0 0 0 + config.blockSpan ≤
      config.blockShape.elementTotal := by
  have layer := inside.layer
  have stream := KVBlockLayout.streamIndex_lt place.stream
  have digits : place.layer * 2 + KVBlockLayout.streamIndex place.stream + 1 ≤
      config.blockShape.frameLayers * 2 := by omega
  calc
    KVBlockLayout.position config.blockShape place.layer
        (KVBlockLayout.streamIndex place.stream) 0 0 0 + config.blockSpan =
        (place.layer * 2 + KVBlockLayout.streamIndex place.stream + 1) * config.blockSpan := by
      rw [KVBlockLayout.position, blockSpan]
      ring
    _ ≤ config.blockShape.frameLayers * 2 * config.blockSpan := Nat.mul_le_mul_right _ digits
    _ = config.blockShape.elementTotal := by
      rw [BlockShape.elementTotal, blockSpan]
      ring

theorem streamView_eq {config : AllocatorConfig}
    (elements : config.blockShape.elementTotal < 2 ^ 64)
    (fits : config.blockShape.elementTotal ≤ config.elementsPerBlock) (frame : PhysicalBlockId)
    {place : FrameCoordinate} (inside : place.Inside config.blockShape) :
    config.streamView frame place.layer place.stream place.tokenInBlock place.kvHead place.dim =
      some (frame * config.elementsPerBlock + config.placeOf place) := by
  have slice := frameSlice_of_le frame ((streamBase_span_le inside).trans fits)
  simp only [streamView, streamBase_eq elements inside, Option.bind_eq_bind, Option.bind_some,
    slice, inside.token, inside.head, inside.dim, and_self, if_true, Option.some.injEq]
  rw [placeOf, KVBlockLayout.position, KVBlockLayout.position]
  ring

theorem writeOne_eq {config : AllocatorConfig}
    (elements : config.blockShape.elementTotal < 2 ^ 64)
    (fits : config.blockShape.elementTotal ≤ config.elementsPerBlock) (frame : PhysicalBlockId)
    {place : FrameCoordinate} (inside : place.Inside config.blockShape) {position : ℕ}
    (token : position % config.blockShape.tokensPerBlock = place.tokenInBlock) :
    config.writeOne frame place.layer place.stream position place.kvHead place.dim =
      some (frame * config.elementsPerBlock + config.placeOf place) := by
  have span : place.tokenInBlock * (config.blockShape.numKvHeads * config.blockShape.headDim) +
      config.blockShape.numKvHeads * config.blockShape.headDim ≤ config.blockSpan := by
    rw [← Nat.succ_mul, blockSpan, Nat.mul_assoc]
    exact Nat.mul_le_mul_right _ inside.token
  have row := (streamBase_span_le inside).trans fits
  have slice := frameSlice_of_le frame
    (show KVBlockLayout.position config.blockShape place.layer
        (KVBlockLayout.streamIndex place.stream) 0 0 0 +
      place.tokenInBlock * (config.blockShape.numKvHeads * config.blockShape.headDim) +
      config.blockShape.numKvHeads * config.blockShape.headDim ≤ config.elementsPerBlock by omega)
  simp only [writeOne, token, streamBase_eq elements inside, Option.bind_eq_bind, Option.bind_some,
    slice, Option.some.injEq]
  rw [placeOf, KVBlockLayout.position, KVBlockLayout.position]
  ring

theorem loadAddress_eq {K : Type} {tensors : DecodeTensors K} {config : AllocatorConfig}
    (described : tensors.Over config) (elements : config.blockShape.elementTotal < 2 ^ 64)
    {frame : PhysicalBlockId} {place : FrameCoordinate} (inside : place.Inside config.blockShape)
    {seq head logicalBlock : ℕ} (named : tensors.physicalId seq logicalBlock = frame)
    (layer : tensors.layer = place.layer) (shared : head / tensors.groupSize = place.kvHead) :
    tensors.loadAddress place.stream seq head logicalBlock place.tokenInBlock place.dim =
      (frame * config.elementsPerBlock + config.placeOf place : ℕ) := by
  obtain ⟨tokens, streams, layers⟩ := KVBlockLayout.strides_eq elements inside.layer inside.token
  cases stream : place.stream <;>
    simp only [DecodeTensors.loadAddress, DecodeTensors.addr, named, layer, shared, described.elements,
      described.layers, described.streams, described.tokens, described.heads, tokens, streams, layers, placeOf,
      KVBlockLayout.position, KVBlockLayout.headStride, KVBlockLayout.streamIndex, stream] <;>
    push_cast <;> ring

theorem elementStart_eq_index {config : AllocatorConfig}
    (aligned : config.blockShape.bytesPerElement ∣ config.effectiveAlignment)
    (bytes : config.blockShape.byteTotal < 2 ^ 64) (rounds : config.Rounds)
    (pool : config.blockStrideFor * config.maxBlocks < 2 ^ 64) {frame : PhysicalBlockId}
    (bound : frame < config.maxBlocks) {place : FrameCoordinate}
    (inside : place.Inside config.blockShape) :
    config.elementStart frame place =
      some ((frame * config.elementsPerBlock + config.placeOf place) *
        config.blockShape.bytesPerElement) := by
  have elements := elementTotal_lt aligned bytes
  obtain ⟨element, -, found, start, -⟩ := elementStart_eq elements bytes rounds pool bound inside
  rw [KVBlockLayout.element_eq elements inside, Option.some.injEq] at found
  rw [start, ← found, ← elementsPerBlock_mul aligned, placeOf]
  congr 1
  ring

/-- A resolved slot of a view points to the element of its coordinate. -/
theorem element_of_slot {config : AllocatorConfig} {view : CacheView} (dim : ℕ)
    (layout : view.layout = ⟨config.blockShape⟩) {layer token offset : ℕ} {stream : KVStream}
    {kvHead : ℕ} {block : PhysicalBlock}
    (resolved : view.slot config.blockShape.bytesPerElement stream layer token kvHead =
      some (block, offset)) :
    (KVBlockLayout.mk config.blockShape).element
        ⟨if config.blockShape.perLayerFrames then 0 else layer, stream,
          token % config.blockShape.tokensPerBlock, kvHead, dim⟩ = some (offset + dim) := by
  obtain ⟨-, -, found, -⟩ := CacheView.slot_eq_some resolved
  rw [layout] at found
  simp [KVBlockLayout.element, found]

end AllocatorConfig
end QwenVLPaged
