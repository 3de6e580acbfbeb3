import QwenVLPaged.Library.Execution
import QwenVLPaged.PoolInvariant

/-!
# Runs of the block pool

The free list, the reference counts and the state labels are three records of one fact. They stay
in step under every run of the allocator's calls, whatever identifiers and slots the caller
passes, so the statistics, `canAllocate` and the allocations that follow agree.
-/

namespace QwenVLPaged

/-- A call of the allocator. -/
inductive PoolOp
  | allocate
  | retain (id : PhysicalBlockId)
  | release (id : PhysicalBlockId)
  | swapOut (id : PhysicalBlockId)
  | swapIn (slot : SwapSlotId)
  | discardSwapped (slot : SwapSlotId)

/-- A count calls for exactly one of the three states of a frame. -/
theorem BlockState.ofRefCount_partition (count : ℕ) :
    (if (BlockState.ofRefCount count == .free) = true then 1 else 0) +
      (if (BlockState.ofRefCount count == .active) = true then 1 else 0) +
      (if (BlockState.ofRefCount count == .shared) = true then 1 else 0) = 1 := by
  rcases count with _ | _ | count <;> rfl

namespace MemoryAllocator

/-- Execute one call and keep the new state. -/
def step (allocator : MemoryAllocator) : PoolOp → MemoryAllocator
  | .allocate => allocator.allocate.2
  | .retain id => allocator.retain id
  | .release id => allocator.release id
  | .swapOut id => (allocator.swapOut id).2
  | .swapIn slot => (allocator.swapIn slot).2
  | .discardSwapped slot => allocator.discardSwapped slot

/-- Execute a list of calls. -/
def run (allocator : MemoryAllocator) (ops : List PoolOp) : MemoryAllocator :=
  Execution.run step allocator ops

/-- A pool over a slab with a swap space of the given capacity, if any. -/
def overSlab (config : AllocatorConfig) (slab : ℕ → UInt8) (swapSlots : Option ℕ) :
    MemoryAllocator :=
  create config slab (swapSlots.map .create)

/-- The call leaves fewer than `2 ^ 32` references on every frame. -/
def Countable (allocator : MemoryAllocator) : PoolOp → Prop
  | .retain id => allocator.refCount id + 1 < 2 ^ 32
  | .allocate | .release _ | .swapOut _ | .swapIn _ | .discardSwapped _ => True

instance (allocator : MemoryAllocator) : DecidablePred allocator.Countable
  | .retain id => inferInstanceAs (Decidable (allocator.refCount id + 1 < 2 ^ 32))
  | .allocate | .release _ | .swapOut _ | .swapIn _ | .discardSwapped _ => .isTrue trivial

/-- Take several frames, one call after the other. -/
def allocateMany (allocator : MemoryAllocator) : ℕ → Option (List PhysicalBlockId)
  | 0 => some []
  | count + 1 =>
      match allocator.allocate with
      | (none, _) => none
      | (some id, after) => (after.allocateMany count).map (id :: ·)

/-! ## One call -/

theorem formed_step {allocator : MemoryAllocator} {op : PoolOp} (formed : allocator.Formed)
    (countable : allocator.Countable op) : (allocator.step op).Formed := by
  cases op with
  | allocate =>
      rcases result : allocator.allocate with ⟨_ | id, after⟩
      · obtain ⟨-, same⟩ := allocate_eq_none result
        simpa only [step, result, same] using formed
      · simpa only [step, result] using (formed.allocate result).1
  | retain id => exact (formed.retain id countable).1
  | release id => exact (formed.release id).1
  | swapOut id =>
      rcases result : allocator.swapOut id with ⟨_ | slot, after⟩
      · have same := swapOut_eq_none result
        simpa only [step, result, same] using formed
      · simpa only [step, result] using (formed.swapOut result).1
  | swapIn slot =>
      rcases result : allocator.swapIn slot with ⟨_ | id, after⟩
      · simpa only [step, result] using (formed.swapIn_none result).1
      · simpa only [step, result] using (formed.swapIn result).1
  | discardSwapped slot => exact formed.discardSwapped slot

theorem formed_overSlab (config : AllocatorConfig) (slab : ℕ → UInt8) (swapSlots : Option ℕ) :
    (overSlab config slab swapSlots).Formed := by
  refine formed_create config slab _ fun installed made => ?_
  obtain ⟨slots, -, rfl⟩ := Option.map_eq_some_iff.mp made
  rfl

/-! ## The statistics -/

/-- Frames in a state are the frames whose count calls for it. -/
theorem Formed.countP_state {allocator : MemoryAllocator} (formed : allocator.Formed)
    (state : BlockState) :
    (allocator.infos.countP fun info => info.state == state) =
      allocator.infos.countP fun info => .ofRefCount info.refCount == state := by
  refine List.countP_congr fun info member => ?_
  obtain ⟨id, found⟩ := List.mem_iff_getElem?.mp member
  rw [formed.states id info found]

theorem Formed.stats_partition {allocator : MemoryAllocator} (formed : allocator.Formed) :
    allocator.stats.freeBlocks + allocator.stats.activeBlocks + allocator.stats.sharedBlocks =
      allocator.stats.totalBlocks := by
  simp only [stats, formed.countP_state]
  generalize allocator.infos = infos
  induction infos with
  | nil => rfl
  | cons info infos induction =>
      have one := BlockState.ofRefCount_partition info.refCount
      simp only [List.countP_cons, List.length_cons]
      omega

/-! ## Successive allocations -/

/-- Successive allocations pop the free list. -/
theorem allocateMany_eq (allocator : MemoryAllocator) (count : ℕ) :
    allocator.allocateMany count =
      if count ≤ allocator.freeList.length then some (allocator.freeList.take count) else none := by
  induction count generalizing allocator with
  | zero => simp [allocateMany]
  | succ count induction =>
      unfold allocateMany allocate
      cases stack : allocator.freeList with
      | nil => simp
      | cons id rest =>
          simp only [induction, List.length_cons, Nat.add_le_add_iff_right, List.take_succ_cons]
          split <;> simp

/-! ## Every run -/

/-- The records of the pool agree. -/
structure InStep (allocator : MemoryAllocator) : Prop where
  free_nodup : allocator.freeList.Nodup
  mem_free : ∀ id, id ∈ allocator.freeList ↔
    ∃ info, allocator.infos[id]? = some info ∧ info.refCount = 0
  states : ∀ (id : PhysicalBlockId) (info : PhysicalBlockInfo), allocator.infos[id]? = some info →
    (info.state = .free ↔ info.refCount = 0) ∧ (info.state = .active ↔ info.refCount = 1) ∧
      (info.state = .shared ↔ 2 ≤ info.refCount)
  partition : allocator.stats.freeBlocks + allocator.stats.activeBlocks +
    allocator.stats.sharedBlocks = allocator.stats.totalBlocks
  freeBlocks : allocator.stats.freeBlocks = allocator.freeList.length
  canAllocate : ∀ count, allocator.canAllocate count = true ↔ count ≤ allocator.stats.freeBlocks
  allocations : ∀ count, count ≤ allocator.stats.freeBlocks ↔
    ∃ ids, allocator.allocateMany count = some ids ∧ ids.length = count ∧ ids.Nodup ∧
      ∀ id ∈ ids, id ∈ allocator.freeList

theorem Formed.inStep {allocator : MemoryAllocator} (formed : allocator.Formed) :
    allocator.InStep := by
  refine ⟨formed.free_nodup, ?_, ?_, formed.stats_partition, formed.sound.freeBlocks_eq, ?_, ?_⟩
  · intro id
    rw [formed.mem_free]
    constructor
    · rintro ⟨inside, unreferenced⟩
      obtain ⟨info, found⟩ := formed.info_of_lt inside
      exact ⟨info, found, refCount_eq_of_info found ▸ unreferenced⟩
    · rintro ⟨info, found, unreferenced⟩
      exact ⟨formed.lt_of_info found, (refCount_eq_of_info found).trans unreferenced⟩
  · intro id info found
    rw [formed.states id info found]
    rcases info.refCount with _ | _ | count <;> simp [BlockState.ofRefCount]
  · intro count
    rw [formed.sound.freeBlocks_eq, MemoryAllocator.canAllocate, decide_eq_true_iff]
  · intro count
    rw [formed.sound.freeBlocks_eq, allocateMany_eq]
    constructor
    · intro enough
      refine ⟨_, if_pos enough, List.length_take_of_le enough, ?_, fun id => List.mem_of_mem_take⟩
      exact formed.free_nodup.sublist (List.take_sublist _ _)
    · rintro ⟨ids, taken, -⟩
      by_contra few
      simp [few] at taken

/-- The free list, the counts, the labels, the statistics and the allocations to come agree after
every run of allocator calls with arbitrary arguments. -/
theorem records_in_step (config : AllocatorConfig) (slab : ℕ → UInt8) (swapSlots : Option ℕ)
    (ops : List PoolOp)
    (countable : Execution.Along step Countable (overSlab config slab swapSlots) ops) :
    ((overSlab config slab swapSlots).run ops).InStep := by
  have preserved : ∀ (allocator : MemoryAllocator) (op : PoolOp), allocator.Formed →
      allocator.Countable op → (allocator.step op).Formed :=
    fun _ _ formed countable => formed_step formed countable
  have formed : ((overSlab config slab swapSlots).run ops).Formed :=
    countable.invariant preserved (formed_overSlab config slab swapSlots)
  exact formed.inStep

/-- A frame is shared, released twice too often and swapped while free; a slot is restored twice. -/
def crossedOps : List PoolOp :=
  [.allocate, .allocate, .retain 3, .swapOut 3, .release 3, .release 3, .release 3, .swapOut 2,
    .swapIn 1, .swapIn 1, .retain 9, .discardSwapped 5]

/-- One frame is in use afterwards and the records agree. -/
theorem records_in_step_crossed :
    ((overSlab ⟨⟨1, 1, 1, 1, 1, 0⟩, 1, 4, four_lt_word⟩ (fun _ => 0) (some 1)).run
        crossedOps).freeList = [3, 1, 0] ∧
      ((overSlab ⟨⟨1, 1, 1, 1, 1, 0⟩, 1, 4, four_lt_word⟩ (fun _ => 0) (some 1)).run
        crossedOps).InStep :=
  ⟨by decide +kernel, records_in_step _ _ (some 1) crossedOps (by decide +kernel)⟩

end MemoryAllocator
end QwenVLPaged
