import QwenVLPaged.DeviceTables
import QwenVLPaged.Library.Raising

/-!
# The transformers cache

`PagedPool` and `PagedLayer` of `paged_cache.py`, on top of the cache manager. A layer is a window
of one sequence onto its slice of every frame, so all that a `PagedLayer` keeps of its own is a
length. The slab seen through `frames` is the data of the frames, one element being
`bytesPerElement` bytes. An assertion that fails, like every other exception, leaves the objects as
they are at that point.
-/

namespace QwenVLPaged

/-- One token of one layer and one stream: its heads one after the other, as they lie in a frame. -/
structure TokenRow (shape : BlockShape) where
  elements : List (List UInt8)
  length_eq : elements.length = shape.numKvHeads * shape.headDim
  sized : ∀ element ∈ elements, element.length = shape.bytesPerElement

/-- The key and the value of one token. The tensors that a layer is given are `[1, kv_heads,
tokens, head_dim]`; they are listed here by token, which is what both permutations amount to. -/
abbrev TokenPair (shape : BlockShape) := TokenRow shape × TokenRow shape

/-- A frame returned by `writable_frame`, and the cache manager at that moment. -/
structure WriteGrant where
  sequenceId : SequenceId
  token : ℕ
  frame : PhysicalBlockId
  manager : KVCacheManager

/-- The pool with its host and device caches, and the lengths of the layers over it. -/
structure PagedPool where
  manager : KVCacheManager
  scatter : Bool
  useKernel : Bool
  hostFrames : SequenceId → Option (List PhysicalBlockId)
  devTable : SequenceId → Option (List PhysicalBlockId)
  devContext : SequenceId → Option ℕ
  cachedLength : SequenceId → Option ℕ
  tableLen : SequenceId → Option ℕ
  writable : Option (SequenceId × ℕ × PhysicalBlockId)
  /-- Lengths of the `PagedLayer` objects of a sequence, by layer. -/
  layerLengths : SequenceId → Option (List ℕ)
  /-- Not in the source: the sequence in `writable` was forked since the entry was made. -/
  branched : Bool
  /-- Not in the source: every frame that `writable_frame` returned so far. -/
  grants : List WriteGrant

/-- A method of the pool or of a layer. -/
abbrev PoolM := Raising.Program String PagedPool

/-- `SEQUENCE_ID`. -/
def rootId : SequenceId := 1

def spacerId : SequenceId := rootId + 1000

/-- Store consecutive elements from `start` on: an assignment to a slice of a row of `frames`. -/
def storeSlice (width : ℕ) : List UInt8 → ℕ → List (List UInt8) → List UInt8
  | data, _, [] => data
  | data, start, element :: elements =>
      storeSlice width (storeElement width data start element) (start + 1) elements

/-- Consecutive elements from `start` on. -/
def readSlice (width : ℕ) (data : List UInt8) (start count : ℕ) : List (List UInt8) :=
  (List.range count).map fun index => readElement width data (start + index)

/-- The values of a `torch.int32` tensor. -/
def fitsInt32 (values : List ℕ) : Bool := values.all fun value => decide (value < 2 ^ 31)

def int32Overflow : String := "value cannot be converted to type int32 without overflow"

namespace PagedPool

open Raising (require onlyIf)

def shape (pool : PagedPool) : BlockShape := pool.manager.allocator.config.blockShape

def tokensPerBlock (pool : PagedPool) : ℕ := pool.shape.tokensPerBlock

/-- Elements of one token of one layer and one stream. -/
def tokenElems (pool : PagedPool) : ℕ := pool.shape.numKvHeads * pool.shape.headDim

/-- One row of `frames`. -/
def frameData (pool : PagedPool) (frame : PhysicalBlockId) : List UInt8 :=
  (pool.manager.allocator.frameBytes frame).getD []

/-! ## The pool -/

/-- Branch a sequence, sharing every one of its blocks until written. -/
def fork (parentId childId : SequenceId) : PoolM Unit := do
  let pool ← get
  let (forked, manager) := pool.manager.forkSequence parentId ⟨childId, childId⟩
  let memoized := pool.writable.any fun memo => memo.1 == parentId
  set { pool with manager, branched := pool.branched || forked && memoized }
  require (forked = true) ""

def blockTable (sequenceId : SequenceId) : PoolM (List PhysicalBlockId) := do
  let pool ← get
  match pool.manager.blockTableOf sequenceId with
  | .ok frames => return frames
  | .error message => throw message

def invalidateTable (sequenceId : SequenceId) : PoolM Unit :=
  modify fun pool =>
    { pool with
      hostFrames := Function.update pool.hostFrames sequenceId none
      devTable := Function.update pool.devTable sequenceId none
      devContext := Function.update pool.devContext sequenceId none
      cachedLength := Function.update pool.cachedLength sequenceId none }

/-- Reserve one block, or raise the message. -/
def reserveBlock (sequenceId : SequenceId) (message : String) : PoolM Unit := do
  let pool ← get
  let (reserved, manager) := pool.manager.reserveTokens sequenceId pool.tokensPerBlock
  set { pool with manager }
  require (reserved = true) message

/-- The loop of `ensure_capacity`, which returns the block count that it arrives at. -/
def growTable (sequenceId : SequenceId) (need : ℕ) : ℕ → ℕ → PoolM ℕ
  | 0, count => return count
  | remaining + 1, count => do
      reserveBlock sequenceId
        ("pool exhausted growing to " ++ toString need ++ " blocks; raise max_blocks")
      let pool ← get
      onlyIf (pool.scatter = true)
        (reserveBlock spacerId "pool exhausted reserving a spacer frame; raise max_blocks")
      invalidateTable sequenceId
      growTable sequenceId need remaining (count + 1)

def divisionByZero : String := "integer division or modulo by zero"

/-- The block count that `ensure_capacity` believes a sequence to have. -/
def knownBlocks (sequenceId : SequenceId) : PoolM ℕ := do
  let pool ← get
  match pool.tableLen sequenceId with
  | some count => return count
  | none =>
      let frames ← blockTable sequenceId
      return frames.length

/-- Grow a block table to cover `totalTokens`, if it does not already. -/
def ensureCapacity (sequenceId : SequenceId) (totalTokens : ℕ) : PoolM Unit := do
  let known ← knownBlocks sequenceId
  let pool ← get
  require (pool.tokensPerBlock ≠ 0) divisionByZero
  let need := ceilDiv totalTokens pool.tokensPerBlock
  let count ← growTable sequenceId need (need - known) known
  modify fun pool =>
    { pool with tableLen := Function.update pool.tableLen sequenceId (some count) }

/-- Element offset of one layer's key or value slice within a frame. -/
def streamBase (layer : ℕ) (stream : KVStream) : PoolM ℕ := do
  let pool ← get
  match (KVBlockLayout.mk pool.shape).elementOffset layer stream 0 0 with
  | some base => return base
  | none => throw "element_offset out of range"

/-- The device table, rebuilt when it is missing or has another width. -/
def deviceTable (sequenceId : SequenceId) (needed : ℕ) : PoolM (List PhysicalBlockId) := do
  let pool ← get
  match (pool.devTable sequenceId).filter fun table => table.length == needed with
  | some table => return table
  | none =>
      let frames ← blockTable sequenceId
      let host := frames.take needed
      modify fun pool =>
        { pool with hostFrames := Function.update pool.hostFrames sequenceId (some host) }
      require (fitsInt32 host = true) int32Overflow
      modify fun pool =>
        { pool with devTable := Function.update pool.devTable sequenceId (some host) }
      return host

/-- The context length on the device, rebuilt when it is missing or stands for another length. -/
def deviceContext (sequenceId : SequenceId) (length : ℕ) : PoolM ℕ := do
  let pool ← get
  match (pool.devContext sequenceId).filter fun _ =>
      pool.cachedLength sequenceId == some length with
  | some context => return context
  | none =>
      require (fitsInt32 [length] = true) int32Overflow
      modify fun pool =>
        { pool with
          devContext := Function.update pool.devContext sequenceId (some length)
          cachedLength := Function.update pool.cachedLength sequenceId (some length) }
      return length

/-- Block table and context length for a decode launch, cached per sequence. -/
def decodeInputs (sequenceId : SequenceId) (length : ℕ) : PoolM (List PhysicalBlockId × ℕ) := do
  let pool ← get
  require (pool.tokensPerBlock ≠ 0) divisionByZero
  let table ← deviceTable sequenceId (ceilDiv length pool.tokensPerBlock)
  let context ← deviceContext sequenceId length
  return (table, context)

/-- The first `count` frames of a sequence. -/
def frameIndex (sequenceId : SequenceId) (count : ℕ) : PoolM (List PhysicalBlockId) := do
  let pool ← get
  let (table, _) ← decodeInputs sequenceId (count * pool.tokensPerBlock)
  return table.take count

/-- Record a returned frame. -/
def grant (sequenceId : SequenceId) (token : ℕ) (frame : PhysicalBlockId) :
    PoolM PhysicalBlockId := do
  modify fun pool =>
    { pool with grants := ⟨sequenceId, token, frame, pool.manager⟩ :: pool.grants }
  return frame

/-- The cached host table names another frame for the block, or none. -/
def remapped (pool : PagedPool) (sequenceId : SequenceId) (token : ℕ)
    (frame : PhysicalBlockId) : Bool :=
  (pool.hostFrames sequenceId).any fun host =>
    host[token / pool.tokensPerBlock]? != some frame

/-- The one-entry memo answers for this sequence and token. -/
def memo (pool : PagedPool) (sequenceId : SequenceId) (token : ℕ) : Option PhysicalBlockId :=
  match pool.writable with
  | some (owner, position, frame) =>
      if owner = sequenceId ∧ position = token then some frame else none
  | none => none

/-- Resolve a token's frame, honoring copy-on-write before any write. Token positions cross into
the cache manager as 32-bit values. -/
def writableFrame (sequenceId : SequenceId) (token : ℕ) : PoolM PhysicalBlockId := do
  let pool ← get
  match pool.memo sequenceId token with
  | some frame => grant sequenceId token frame
  | none =>
      require (token < 2 ^ 32) "ensure_token_writable(): incompatible function arguments"
      match pool.manager.ensureTokenWritable sequenceId token 0 with
      | (none, manager) =>
          set { pool with manager }
          throw ("ensure_token_writable failed at token " ++ toString token)
      | (some frame, manager) =>
          set { pool with manager }
          onlyIf (pool.remapped sequenceId token frame = true) (invalidateTable sequenceId)
          modify fun pool =>
            { pool with writable := some (sequenceId, token, frame), branched := false }
          grant sequenceId token frame

/-! ## A layer -/

def layerLength (sequenceId : SequenceId) (layer : ℕ) : PoolM ℕ := do
  let pool ← get
  match (pool.layerLengths sequenceId).bind (·[layer]?) with
  | some length => return length
  | none => throw "list index out of range"

def setLayerLength (sequenceId : SequenceId) (layer length : ℕ) : PoolM Unit :=
  modify fun pool =>
    { pool with
      layerLengths := Function.update pool.layerLengths sequenceId
        ((pool.layerLengths sequenceId).map fun lengths => lengths.set layer length) }

/-- Assign to consecutive elements of one row of `frames`. -/
def assignSlice (frame : PhysicalBlockId) (start : ℕ) (elements : List (List UInt8)) :
    PoolM Unit :=
  modify fun pool =>
    { pool with
      manager :=
        { pool.manager with
          allocator := pool.manager.allocator.writeFrame frame fun data =>
            storeSlice pool.shape.bytesPerElement data start elements } }

/-- Store consecutive tokens that lie in one block. -/
def writeTokens {shape : BlockShape} (sequenceId : SequenceId) (keyBase valueBase position : ℕ)
    (tokens : List (TokenPair shape)) : PoolM Unit := do
  let pool ← get
  let frame ← writableFrame sequenceId position
  let offset := position % pool.tokensPerBlock
  assignSlice frame (keyBase + offset * pool.tokenElems) (tokens.flatMap (·.1.elements))
  assignSlice frame (valueBase + offset * pool.tokenElems) (tokens.flatMap (·.2.elements))

/-- The block loop of `update`. Every turn stores at least one token, so `fuel` is the number of
tokens. -/
def writeBlocks {shape : BlockShape} (sequenceId : SequenceId) (keyBase valueBase : ℕ) :
    ℕ → ℕ → List (TokenPair shape) → PoolM Unit
  | 0, _, _ => return ()
  | _ + 1, _, [] => return ()
  | fuel + 1, position, token :: tokens => do
      let pool ← get
      let offset := position % pool.tokensPerBlock
      let count := min (pool.tokensPerBlock - offset) (token :: tokens).length
      writeTokens sequenceId keyBase valueBase position ((token :: tokens).take count)
      writeBlocks sequenceId keyBase valueBase fuel (position + count) ((token :: tokens).drop count)

/-- The rows of one stream of the indexed frames. The slice of a frame is `tokens_per_block` rows
long, so reshaping cuts every frame into its tokens. -/
def gatherStream (layer length : ℕ) (index : List PhysicalBlockId) (stream : KVStream) :
    PoolM (List (List (List UInt8))) := do
  let pool ← get
  let base ← streamBase layer stream
  require (pool.tokenElems ≠ 0) "cannot reshape tensor of 0 elements"
  let rows (frame : PhysicalBlockId) : List (List (List UInt8)) :=
    (List.range pool.tokensPerBlock).map fun token =>
      readSlice pool.shape.bytesPerElement (pool.frameData frame)
        (base + token * pool.tokenElems) pool.tokenElems
  return (index.flatMap rows).take length

/-- Reassemble the sequence into contiguous keys and values. -/
def gather (sequenceId : SequenceId) (layer : ℕ) :
    PoolM (List (List (List UInt8)) × List (List (List UInt8))) := do
  let pool ← get
  let length ← layerLength sequenceId layer
  require (pool.tokensPerBlock ≠ 0) divisionByZero
  let index ← frameIndex sequenceId (ceilDiv length pool.tokensPerBlock)
  let keys ← gatherStream layer length index .key
  let values ← gatherStream layer length index .value
  return (keys, values)

/-- Append tokens to a layer and return everything it holds, or the tokens themselves when the
kernel reads the pages. -/
def update {shape : BlockShape} (sequenceId : SequenceId) (layer : ℕ)
    (tokens : List (TokenPair shape)) :
    PoolM (List (List (List UInt8)) × List (List (List UInt8))) := do
  let start ← layerLength sequenceId layer
  let keyBase ← streamBase layer .key
  let valueBase ← streamBase layer .value
  ensureCapacity sequenceId (start + tokens.length)
  if tokens.length = 1 then
    writeTokens sequenceId keyBase valueBase start tokens
  else
    writeBlocks sequenceId keyBase valueBase tokens.length start tokens
  setLayerLength sequenceId layer (start + tokens.length)
  let pool ← get
  if tokens.length = 1 ∧ pool.useKernel then
    return (tokens.map (·.1.elements), tokens.map (·.2.elements))
  else
    gather sequenceId layer

/-- Branch a filled cache into a child that shares its blocks. -/
def forkPagedCache (parentId childId : SequenceId) : PoolM Unit := do
  let pool ← get
  let lengths := (pool.layerLengths parentId).getD []
  require (lengths ≠ []) "list index out of range"
  fork parentId childId
  modify fun pool =>
    { pool with layerLengths := Function.update pool.layerLengths childId (some lengths) }

/-- One `PagedLayer` for each decoder layer of a sequence. -/
def pagedLayers (sequenceId : SequenceId) : PoolM Unit :=
  modify fun pool =>
    { pool with
      layerLengths := Function.update pool.layerLengths sequenceId
        (some (List.replicate pool.shape.numLayers 0)) }

/-- A cache over a new pool: `build_paged_cache`, with the sequences of `PagedPool.__init__`. The
pool has no swap backend and its slab is zero. -/
def create (config : AllocatorConfig) (scatter useKernel : Bool) : PagedPool :=
  let root := ((KVCacheManager.create (.create config (fun _ => 0) none)).createSequence
    ⟨rootId, rootId⟩).2
  { manager := if scatter then (root.createSequence ⟨spacerId, spacerId⟩).2 else root
    scatter
    useKernel
    hostFrames := fun _ => none
    devTable := fun _ => none
    devContext := fun _ => none
    cachedLength := fun _ => none
    tableLen := fun _ => none
    writable := none
    layerLengths := Function.update (fun _ => none) rootId
      (some (List.replicate config.blockShape.numLayers 0))
    branched := false
    grants := [] }

/-! ## Runs -/

/-- A call from Python. -/
inductive Op (shape : BlockShape)
  | ensureCapacity (sequenceId : SequenceId) (totalTokens : ℕ)
  | writableFrame (sequenceId : SequenceId) (token : ℕ)
  | decodeInputs (sequenceId : SequenceId) (length : ℕ)
  | fork (parentId childId : SequenceId)
  | forkPagedCache (parentId childId : SequenceId)
  | pagedLayers (sequenceId : SequenceId)
  | update (sequenceId : SequenceId) (layer : ℕ) (tokens : List (TokenPair shape))
  | reset (sequenceId : SequenceId) (layer : ℕ)

/-- Execute one call and keep the new state, whether it returns or raises. -/
def step {shape : BlockShape} (pool : PagedPool) : Op shape → PagedPool
  | .ensureCapacity sequenceId totalTokens =>
      (Raising.outcome (ensureCapacity sequenceId totalTokens) pool).2
  | .writableFrame sequenceId token => (Raising.outcome (writableFrame sequenceId token) pool).2
  | .decodeInputs sequenceId length => (Raising.outcome (decodeInputs sequenceId length) pool).2
  | .fork parentId childId => (Raising.outcome (fork parentId childId) pool).2
  | .forkPagedCache parentId childId => (Raising.outcome (forkPagedCache parentId childId) pool).2
  | .pagedLayers sequenceId => (Raising.outcome (pagedLayers sequenceId) pool).2
  | .update sequenceId layer tokens =>
      (Raising.outcome (update sequenceId layer tokens) pool).2
  | .reset sequenceId layer => (Raising.outcome (setLayerLength sequenceId layer 0) pool).2

/-- Execute a list of calls. -/
def run {shape : BlockShape} (pool : PagedPool) (ops : List (Op shape)) : PagedPool :=
  Execution.run step pool ops

end PagedPool
end QwenVLPaged
