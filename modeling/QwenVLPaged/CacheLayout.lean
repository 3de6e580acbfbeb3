import QwenVLPaged.Block

/-!
# Element addressing inside one frame

A frame stores `[layer][key or value][token in block][kv head][head_dim]` with `head_dim`
innermost. Strides and offsets count elements.
-/

namespace QwenVLPaged

/-- Key or value half of a cache block. -/
inductive KVStream
  | key
  | value
  deriving DecidableEq

/-- Number of streams stored side by side in every block. -/
def kKVStreamCount : ℕ := 2

/-- Element order of one physical block. -/
structure KVBlockLayout where
  shape : BlockShape

namespace KVBlockLayout

/-- Distance between two consecutive kv heads of one token. -/
def headStride (layout : KVBlockLayout) : ℕ := layout.shape.headDim

/-- Distance between two consecutive tokens of one stream. -/
def tokenStride (layout : KVBlockLayout) : ℕ :=
  wrap64 (layout.shape.numKvHeads * layout.headStride)

/-- Distance from the key half of a layer to its value half. -/
def streamStride (layout : KVBlockLayout) : ℕ :=
  wrap64 (layout.shape.tokensPerBlock * layout.tokenStride)

/-- Distance between two consecutive layers. -/
def layerStride (layout : KVBlockLayout) : ℕ :=
  wrap64 (kKVStreamCount * layout.streamStride)

/-- Number of elements addressable inside one block. -/
def elementCount (layout : KVBlockLayout) : ℕ :=
  wrap64 (layout.shape.frameLayers * layout.layerStride)

/-- Position of a stream within a layer. -/
def streamIndex : KVStream → ℕ
  | .key => 0
  | .value => 1

/-- Offset of the first element of one (layer, stream, token, head) vector, if in range. -/
def elementOffset (layout : KVBlockLayout) (layer : ℕ) (stream : KVStream)
    (tokenInBlock kvHead : ℕ) : Option ℕ :=
  if layer ≥ layout.shape.frameLayers ∨ tokenInBlock ≥ layout.shape.tokensPerBlock ∨
      kvHead ≥ layout.shape.numKvHeads then
    none
  else
    some (wrap64 (layer * layout.layerStride + streamIndex stream * layout.streamStride +
      tokenInBlock * layout.tokenStride + kvHead * layout.headStride))

end KVBlockLayout
end QwenVLPaged
