import QwenVLPaged.Block
import QwenVLPaged.Library.FiniteMap

/-!
# Host swap space

A fixed-capacity store for the bytes of evicted frames. Slot identifiers come from a 64-bit
counter and are never reused.
-/

namespace QwenVLPaged

/-- Host-memory swap space. -/
structure HostSwapBackend where
  maxSlots : ℕ
  nextSlot : SwapSlotId
  slots : AList fun _ : SwapSlotId => List UInt8

namespace HostSwapBackend

/-- A swap space that can hold at most `maxSlots` blocks. -/
def create (maxSlots : ℕ) : HostSwapBackend := ⟨maxSlots, 1, ∅⟩

/-- Number of slots currently held. -/
def residentSlots (backend : HostSwapBackend) : ℕ := backend.slots.entries.length

/-- Copy a block's bytes into a fresh slot, unless the swap space is full. -/
def store (backend : HostSwapBackend) (block : PhysicalBlock) :
    Option SwapSlotId × HostSwapBackend :=
  if backend.residentSlots ≥ backend.maxSlots then
    (none, backend)
  else
    (some backend.nextSlot,
      { backend with
        nextSlot := backend.nextSlot + 1
        slots := backend.slots.insert backend.nextSlot block.data })

/-- Copy a stored slot back into a block. The slot stays resident. -/
def load (backend : HostSwapBackend) (slot : SwapSlotId) (block : PhysicalBlock) :
    Option PhysicalBlock :=
  match backend.slots.lookup slot with
  | none => none
  | some bytes =>
      if block.sizeBytes < bytes.length then none
      else some { block with data := memcpy block.data bytes bytes.length }

/-- Drop a slot without restoring it. -/
def discard (backend : HostSwapBackend) (slot : SwapSlotId) : HostSwapBackend :=
  { backend with slots := backend.slots.erase slot }

end HostSwapBackend
end QwenVLPaged
