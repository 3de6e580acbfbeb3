import QwenVLPaged.SwapBackend

/-!
# The physical block pool

Allocation, reference counting, copying and swapping of frames. The free list is a stack, so the
back of the source's vector is the head of the list. Byte copies use the default `memcpy`; no
copy hook is installed.
-/

namespace QwenVLPaged

/-- Configuration of the pool. The block count is a 32-bit value. -/
structure AllocatorConfig where
  blockShape : BlockShape
  alignmentBytes : ℕ
  maxBlocks : ℕ
  maxBlocks_lt : maxBlocks < 2 ^ 32

def kDefaultBlockAlignmentBytes : ℕ := 256

/-- Round a byte count up to a multiple of the alignment. -/
def roundUp (value alignment : ℕ) : ℕ :=
  if alignment = 0 then value
  else wrap64 (wrap64 (value + alignment - 1) / alignment * alignment)

namespace AllocatorConfig

def effectiveAlignment (config : AllocatorConfig) : ℕ :=
  if config.alignmentBytes = 0 then kDefaultBlockAlignmentBytes else config.alignmentBytes

/-- Byte distance between consecutive frames. -/
def blockStrideFor (config : AllocatorConfig) : ℕ :=
  let stride := roundUp config.blockShape.byteSize config.effectiveAlignment
  if stride = 0 then config.effectiveAlignment else stride

/-- Total bytes a pool for this configuration needs. -/
def poolBytesFor (config : AllocatorConfig) : ℕ :=
  wrap64 (config.blockStrideFor * config.maxBlocks)

end AllocatorConfig

/-- Metadata tracked for each physical block. -/
structure PhysicalBlockInfo where
  id : PhysicalBlockId
  state : BlockState
  refCount : ℕ
  generation : ℕ
  deriving DecidableEq

/-- Observable allocator counters. -/
structure AllocatorStats where
  totalBlocks : ℕ
  freeBlocks : ℕ
  activeBlocks : ℕ
  sharedBlocks : ℕ
  swappedBlocks : ℕ
  bytesReserved : ℕ
  deriving DecidableEq

/-- Owner of the physical frames. -/
structure MemoryAllocator where
  config : AllocatorConfig
  blocks : List PhysicalBlock
  infos : List PhysicalBlockInfo
  /-- Free frames, the back of the source's vector first. -/
  freeList : List PhysicalBlockId
  swapBackend : Option HostSwapBackend

namespace MemoryAllocator

/-- A pool over a slab with the given initial bytes: frame `i` is bound to the range at
`i * blockStrideFor config`. -/
def create (config : AllocatorConfig) (slab : ℕ → UInt8) (swapBackend : Option HostSwapBackend) :
    MemoryAllocator where
  config := config
  blocks := (List.range config.maxBlocks).map fun id =>
    { id
      shape := config.blockShape
      data := (List.range config.blockStrideFor).map fun byte =>
        slab (id * config.blockStrideFor + byte) }
  infos := (List.range config.maxBlocks).map fun id => ⟨id, .free, 0, 0⟩
  freeList := (List.range config.maxBlocks).reverse
  swapBackend := swapBackend

/-- A physical block by id, if valid. -/
def block (allocator : MemoryAllocator) (id : PhysicalBlockId) : Option PhysicalBlock :=
  allocator.blocks[id]?

/-- Metadata of a physical block, if valid. -/
def info (allocator : MemoryAllocator) (id : PhysicalBlockId) : Option PhysicalBlockInfo :=
  allocator.infos[id]?

/-- Allocate one free physical block if there is one. -/
def allocate (allocator : MemoryAllocator) : Option PhysicalBlockId × MemoryAllocator :=
  match allocator.freeList with
  | [] => (none, allocator)
  | id :: rest =>
      (some id,
        { allocator with
          freeList := rest
          infos := allocator.infos.modify id fun info =>
            { info with state := .active, refCount := 1 } })

/-- Release one reference to a physical block. -/
def release (allocator : MemoryAllocator) (id : PhysicalBlockId) : MemoryAllocator :=
  match allocator.infos[id]? with
  | none => allocator
  | some info =>
      if info.refCount = 0 then
        allocator
      else if info.refCount - 1 = 0 then
        { allocator with
          infos := allocator.infos.set id
            { info with refCount := 0, state := .free, generation := info.generation + 1 }
          freeList := id :: allocator.freeList }
      else if info.refCount - 1 = 1 then
        { allocator with
          infos := allocator.infos.set id
            { info with refCount := info.refCount - 1, state := .active } }
      else
        { allocator with
          infos := allocator.infos.set id { info with refCount := info.refCount - 1 } }

/-- Add one shared reference to a physical block. -/
def retain (allocator : MemoryAllocator) (id : PhysicalBlockId) : MemoryAllocator :=
  match allocator.infos[id]? with
  | none => allocator
  | some info =>
      if info.refCount = 0 then
        allocator
      else
        { allocator with
          infos := allocator.infos.set id
            { info with refCount := wrap32 (info.refCount + 1), state := .shared } }

/-- Copy the bytes of one physical block to another. -/
def copyBlock (allocator : MemoryAllocator) (source destination : PhysicalBlockId) :
    MemoryAllocator :=
  match allocator.block source, allocator.block destination with
  | some src, some dst =>
      { allocator with
        blocks := allocator.blocks.set destination
          { dst with data := memcpy dst.data src.data (min src.sizeBytes dst.sizeBytes) } }
  | _, _ => allocator

/-- Evict a block's contents to the swap backend and reclaim its frame. -/
def swapOut (allocator : MemoryAllocator) (id : PhysicalBlockId) :
    Option SwapSlotId × MemoryAllocator :=
  match allocator.swapBackend, allocator.infos[id]? with
  | some backend, some info =>
      if info.refCount ≠ 1 then
        (none, allocator)
      else
        match allocator.block id with
        | none => (none, allocator)
        | some frame =>
            match backend.store frame with
            | (none, _) => (none, allocator)
            | (some slot, stored) =>
                (some slot,
                  { allocator with
                    swapBackend := some stored
                    infos := allocator.infos.set id
                      { info with
                        refCount := 0, state := .free, generation := info.generation + 1 }
                    freeList := id :: allocator.freeList })
  | _, _ => (none, allocator)

/-- Restore a swapped slot into a newly allocated frame. -/
def swapIn (allocator : MemoryAllocator) (slot : SwapSlotId) :
    Option PhysicalBlockId × MemoryAllocator :=
  match allocator.swapBackend with
  | none => (none, allocator)
  | some backend =>
      match allocator.allocate with
      | (none, same) => (none, same)
      | (some id, taken) =>
          match (taken.block id).bind (backend.load slot) with
          | none => (none, taken.release id)
          | some frame =>
              (some id,
                { taken with
                  blocks := taken.blocks.set id frame
                  swapBackend := some (backend.discard slot) })

/-- Drop a swapped block's contents without restoring them. -/
def discardSwapped (allocator : MemoryAllocator) (slot : SwapSlotId) : MemoryAllocator :=
  { allocator with swapBackend := allocator.swapBackend.map (·.discard slot) }

/-- Point-in-time statistics. The block count is 32 bits wide, so no counter wraps. -/
def stats (allocator : MemoryAllocator) : AllocatorStats where
  totalBlocks := allocator.infos.length
  freeBlocks := allocator.infos.countP fun info => info.state == .free
  activeBlocks := allocator.infos.countP fun info => info.state == .active
  sharedBlocks := allocator.infos.countP fun info => info.state == .shared
  swappedBlocks := wrap32 ((allocator.swapBackend.map (·.residentSlots)).getD 0)
  bytesReserved := allocator.config.poolBytesFor

/-- At least the requested number of blocks is free. -/
def canAllocate (allocator : MemoryAllocator) (blockCount : ℕ) : Bool :=
  decide (blockCount ≤ allocator.freeList.length)

/-- Number of references held on a frame. -/
def refCount (allocator : MemoryAllocator) (id : PhysicalBlockId) : ℕ :=
  (allocator.infos[id]?.map (·.refCount)).getD 0

end MemoryAllocator
end QwenVLPaged
