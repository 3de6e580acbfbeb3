import QwenVLPaged.PoolSoundness

/-!
# The pool invariant

`MemoryAllocator.Formed` is the invariant of the pool while no reference count starts over: it is
sound, the state of a frame is the one its count calls for, and so the free list holds exactly the
frames without references. Each primitive keeps it for arbitrary arguments.
-/

namespace QwenVLPaged

/-- The state that goes with a reference count. -/
def BlockState.ofRefCount : ℕ → BlockState
  | 0 => .free
  | 1 => .active
  | _ + 2 => .shared

namespace MemoryAllocator

/-- The invariant of the pool. -/
structure Formed (allocator : MemoryAllocator) : Prop where
  blocks_length : allocator.blocks.length = allocator.config.maxBlocks
  infos_length : allocator.infos.length = allocator.config.maxBlocks
  shapes : ∀ (id : PhysicalBlockId) (block : PhysicalBlock), allocator.blocks[id]? = some block →
    block.shape = allocator.config.blockShape
  frame_size : ∀ id bytes, allocator.frameBytes id = some bytes →
    bytes.length = allocator.config.blockStrideFor
  slot_size : ∀ slot bytes, allocator.slotBytes slot = some bytes →
    bytes.length = allocator.config.blockStrideFor
  slots_below : ∀ backend, allocator.swapBackend = some backend →
    ∀ slot ∈ backend.slots.keys, slot < backend.nextSlot
  free_nodup : allocator.freeList.Nodup
  mem_free : ∀ id, id ∈ allocator.freeList ↔
    id < allocator.config.maxBlocks ∧ allocator.refCount id = 0
  states : ∀ (id : PhysicalBlockId) (info : PhysicalBlockInfo), allocator.infos[id]? = some info →
    info.state = .ofRefCount info.refCount

theorem BlockState.ofRefCount_eq_free (count : ℕ) :
    BlockState.ofRefCount count = .free ↔ count = 0 := by
  match count with
  | 0 => simp [BlockState.ofRefCount]
  | 1 => simp [BlockState.ofRefCount]
  | _ + 2 => simp [BlockState.ofRefCount]

theorem Formed.sound {allocator : MemoryAllocator} (formed : allocator.Formed) :
    allocator.Sound := by
  refine ⟨formed.blocks_length, formed.infos_length, formed.shapes, formed.frame_size,
    formed.slot_size, formed.slots_below, formed.free_nodup,
    fun id member => (formed.mem_free id).mp member, ?_⟩
  intro id info found
  have inside : id < allocator.config.maxBlocks := by
    rw [← formed.infos_length]
    exact (List.getElem?_eq_some_iff.mp found).1
  rw [formed.states id info found, BlockState.ofRefCount_eq_free, formed.mem_free,
    refCount_eq_of_info found]
  simp [inside]

/-- A sound pool whose states go with the counts. -/
theorem Sound.formed {allocator : MemoryAllocator} (sound : allocator.Sound)
    (states : ∀ (id : PhysicalBlockId) (info : PhysicalBlockInfo),
      allocator.infos[id]? = some info → info.state = .ofRefCount info.refCount) :
    allocator.Formed := by
  refine ⟨sound.blocks_length, sound.infos_length, sound.shapes, sound.frame_size,
    sound.slot_size, sound.slots_below, sound.free_nodup, ?_, states⟩
  refine fun id => ⟨sound.unreferenced id, ?_⟩
  rintro ⟨inside, unreferenced⟩
  obtain ⟨info, found⟩ := sound.info_of_lt inside
  rw [refCount_eq_of_info found] at unreferenced
  rw [← sound.marked id info found, states id info found, BlockState.ofRefCount_eq_free]
  exact unreferenced

/-! ## Reading the pool -/

theorem Formed.info_of_lt {allocator : MemoryAllocator} (formed : allocator.Formed)
    {id : PhysicalBlockId} (inside : id < allocator.config.maxBlocks) :
    ∃ info, allocator.infos[id]? = some info :=
  formed.sound.info_of_lt inside

theorem Formed.block_of_lt {allocator : MemoryAllocator} (formed : allocator.Formed)
    {id : PhysicalBlockId} (inside : id < allocator.config.maxBlocks) :
    ∃ block, allocator.blocks[id]? = some block :=
  formed.sound.block_of_lt inside

theorem Formed.lt_of_info {allocator : MemoryAllocator} (formed : allocator.Formed)
    {id : PhysicalBlockId} {info : PhysicalBlockInfo}
    (found : allocator.infos[id]? = some info) : id < allocator.config.maxBlocks :=
  formed.sound.lt_of_info found

theorem Formed.lt_of_refCount {allocator : MemoryAllocator} (formed : allocator.Formed)
    {id : PhysicalBlockId} (referenced : allocator.refCount id ≠ 0) :
    id < allocator.config.maxBlocks := by
  by_contra outside
  apply referenced
  apply refCount_eq_zero_of_none
  apply List.getElem?_eq_none
  rw [formed.infos_length]
  exact Nat.not_lt.mp outside

/-- The free list of a pool never exceeds the pool. -/
theorem Formed.free_length_le {allocator : MemoryAllocator} (formed : allocator.Formed) :
    allocator.freeList.length ≤ allocator.config.maxBlocks :=
  formed.sound.free_length_le

/-! ## The primitives -/

/-- A record that goes with its count in the place of another one. -/
theorem Formed.states_set {allocator : MemoryAllocator} (formed : allocator.Formed)
    {id : PhysicalBlockId} {info : PhysicalBlockInfo}
    (state : info.state = .ofRefCount info.refCount) (other : PhysicalBlockId)
    (info' : PhysicalBlockInfo) (found : (allocator.infos.set id info)[other]? = some info') :
    info'.state = .ofRefCount info'.refCount := by
  rcases List.mem_or_eq_of_mem_set (List.mem_of_getElem? found) with old | rfl
  · obtain ⟨position, inside, equal⟩ := List.mem_iff_getElem.mp old
    exact formed.states position info' (List.getElem?_eq_some_iff.mpr ⟨inside, equal⟩)
  · exact state

theorem Formed.allocate {allocator after : MemoryAllocator} (formed : allocator.Formed)
    {id : PhysicalBlockId} (taken : allocator.allocate = (some id, after)) :
    after.Formed ∧ Allocated allocator after id := by
  obtain ⟨sound, allocated⟩ := formed.sound.allocate taken
  refine ⟨sound.formed ?_, allocated⟩
  unfold MemoryAllocator.allocate at taken
  split at taken
  · simp at taken
  · simp only [Prod.mk.injEq, Option.some.injEq] at taken
    obtain ⟨rfl, rfl⟩ := taken
    intro other info found
    simp only [List.getElem?_modify, Option.map_eq_map, Option.map_eq_some_iff] at found
    obtain ⟨old, old_eq, rfl⟩ := found
    split
    · rfl
    · exact formed.states other old old_eq

theorem Formed.release {allocator : MemoryAllocator} (formed : allocator.Formed)
    (id : PhysicalBlockId) :
    (allocator.release id).Formed ∧
      Recounted allocator (allocator.release id) id (allocator.refCount id - 1) := by
  obtain ⟨sound, recounted⟩ := formed.sound.release id
  refine ⟨sound.formed ?_, recounted⟩
  unfold MemoryAllocator.release
  split
  · exact formed.states
  · rename_i info found
    split
    · exact formed.states
    · split
      · exact formed.states_set rfl
      · split
        · rename_i one
          exact formed.states_set (by simp [one, BlockState.ofRefCount])
        · -- At least two references remain, so the frame was and stays shared.
          obtain ⟨excess, excess_eq⟩ : ∃ excess, info.refCount = excess + 3 :=
            ⟨info.refCount - 3, by omega⟩
          refine formed.states_set ?_
          rw [formed.states id info found, excess_eq]
          rfl

theorem Formed.retain {allocator : MemoryAllocator} (formed : allocator.Formed)
    (id : PhysicalBlockId) (bounded : allocator.refCount id + 1 < 2 ^ 32) :
    (allocator.retain id).Formed ∧
      Recounted allocator (allocator.retain id) id
        (if allocator.refCount id = 0 then 0 else allocator.refCount id + 1) := by
  obtain ⟨sound, recounted⟩ := formed.sound.retain id
  rw [wrap32_of_lt bounded] at recounted
  refine ⟨sound.formed ?_, recounted⟩
  unfold MemoryAllocator.retain
  split
  · exact formed.states
  · rename_i info found
    split
    · exact formed.states
    · rename_i positive
      rw [refCount_eq_of_info found] at bounded
      obtain ⟨less, less_eq⟩ := Nat.exists_eq_succ_of_ne_zero positive
      refine formed.states_set ?_
      rw [wrap32_of_lt bounded, less_eq]
      rfl

/-- Replacing the bytes of one frame by as many bytes keeps the invariant. -/
theorem Formed.set_block {allocator : MemoryAllocator} (formed : allocator.Formed)
    {id : PhysicalBlockId} {block : PhysicalBlock} {backend : Option HostSwapBackend}
    (inside : id < allocator.config.maxBlocks)
    (shape : block.shape = allocator.config.blockShape)
    (size : block.data.length = allocator.config.blockStrideFor)
    (slot_size : ∀ slot bytes, backend.bind (·.slots.lookup slot) = some bytes →
      bytes.length = allocator.config.blockStrideFor)
    (slots_below : ∀ installed, backend = some installed →
      ∀ slot ∈ installed.slots.keys, slot < installed.nextSlot) :
    (({ allocator with
        blocks := allocator.blocks.set id block
        swapBackend := backend } : MemoryAllocator)).Formed :=
  (formed.sound.set_block inside shape size slot_size slots_below).formed formed.states

theorem Formed.copyBlock {allocator : MemoryAllocator} (formed : allocator.Formed)
    {source destination : PhysicalBlockId} (source_lt : source < allocator.config.maxBlocks)
    (destination_lt : destination < allocator.config.maxBlocks) :
    (allocator.copyBlock source destination).Formed ∧
      Copied allocator (allocator.copyBlock source destination) source destination := by
  obtain ⟨sound, copied⟩ := formed.sound.copyBlock source_lt destination_lt
  refine ⟨sound.formed ?_, copied⟩
  rw [copied.infos]
  exact formed.states

theorem Formed.swapOut {allocator after : MemoryAllocator} (formed : allocator.Formed)
    {id : PhysicalBlockId} {slot : SwapSlotId}
    (evicted : allocator.swapOut id = (some slot, after)) :
    after.Formed ∧ Evicted allocator after id slot := by
  obtain ⟨sound, effect⟩ := formed.sound.swapOut evicted
  refine ⟨sound.formed ?_, effect⟩
  unfold MemoryAllocator.swapOut at evicted
  repeat' split at evicted
  all_goals simp only [Prod.mk.injEq, Option.some.injEq, reduceCtorEq, false_and] at evicted
  obtain ⟨-, rfl⟩ := evicted
  exact formed.states_set rfl

theorem Formed.swapIn {allocator after : MemoryAllocator} (formed : allocator.Formed)
    {slot : SwapSlotId} {id : PhysicalBlockId}
    (restored : allocator.swapIn slot = (some id, after)) :
    after.Formed ∧ Restored allocator after slot id := by
  obtain ⟨sound, effect⟩ := formed.sound.swapIn restored
  refine ⟨sound.formed ?_, effect⟩
  unfold MemoryAllocator.swapIn at restored
  split at restored
  · simp at restored
  split at restored
  · simp at restored
  rename_i taken_eq
  split at restored
  · simp at restored
  simp only [Prod.mk.injEq, Option.some.injEq] at restored
  obtain ⟨rfl, rfl⟩ := restored
  exact (formed.allocate taken_eq).1.states

/-- A failed restoration leaves counts, bytes and slots alone. -/
theorem Formed.swapIn_none {allocator after : MemoryAllocator} (formed : allocator.Formed)
    {slot : SwapSlotId} (failed : allocator.swapIn slot = (none, after)) :
    after.Formed ∧ after.config = allocator.config ∧ after.blocks = allocator.blocks ∧
      after.swapBackend = allocator.swapBackend ∧
      (∀ id, after.refCount id = allocator.refCount id) ∧
      (allocator.freeList = [] ∨ allocator.slotBytes slot = none) := by
  obtain ⟨sound, effect⟩ := formed.sound.swapIn_none failed
  refine ⟨sound.formed ?_, effect⟩
  unfold MemoryAllocator.swapIn at failed
  split at failed
  · simp only [Prod.mk.injEq, true_and] at failed
    exact failed ▸ formed.states
  split at failed
  · rename_i none_eq
    obtain ⟨-, rfl⟩ := allocate_eq_none none_eq
    simp only [Prod.mk.injEq, true_and] at failed
    exact failed ▸ formed.states
  rename_i taken_eq
  split at failed
  case h_2 => simp at failed
  simp only [Prod.mk.injEq, true_and] at failed
  exact failed ▸ ((formed.allocate taken_eq).1.release _).1.states

theorem Formed.discardSwapped {allocator : MemoryAllocator} (formed : allocator.Formed)
    (slot : SwapSlotId) : (allocator.discardSwapped slot).Formed :=
  (formed.sound.discardSwapped slot).formed formed.states

theorem formed_create (config : AllocatorConfig) (slab : ℕ → UInt8)
    (backend : Option HostSwapBackend)
    (fresh : ∀ installed, backend = some installed → installed.slots = ∅) :
    (create config slab backend).Formed := by
  refine (sound_create config slab backend fresh).formed ?_
  intro id info found
  simp only [create, List.getElem?_map, Option.map_eq_some_iff] at found
  obtain ⟨_, _, rfl⟩ := found
  rfl

end MemoryAllocator
end QwenVLPaged
