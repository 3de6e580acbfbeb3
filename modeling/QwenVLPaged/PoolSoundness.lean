import QwenVLPaged.MemoryAllocator

/-!
# What every pool state satisfies

`MemoryAllocator.Sound` is what the primitives of the pool keep for all arguments, also when a
reference count starts over after `2 ^ 32` references: the free list holds, without repetition,
exactly the frames marked free, none of them is referenced, and every frame and every stored slot
has the size of a frame. Each primitive changes counts, bytes and slots only where it says.
-/

namespace QwenVLPaged

namespace MemoryAllocator

/-- Slots currently held by the installed backend. -/
def residentKeys (allocator : MemoryAllocator) : List SwapSlotId :=
  (allocator.swapBackend.map (·.slots.keys)).getD []

/-- Bytes stored in a swap slot. -/
def slotBytes (allocator : MemoryAllocator) (slot : SwapSlotId) : Option (List UInt8) :=
  allocator.swapBackend.bind (·.slots.lookup slot)

/-- Bytes of a frame. -/
def frameBytes (allocator : MemoryAllocator) (id : PhysicalBlockId) : Option (List UInt8) :=
  (allocator.block id).map (·.data)

/-- What holds of the pool after any calls. -/
structure Sound (allocator : MemoryAllocator) : Prop where
  blocks_length : allocator.blocks.length = allocator.config.maxBlocks
  infos_length : allocator.infos.length = allocator.config.maxBlocks
  shapes : ∀ (id : PhysicalBlockId) (block : PhysicalBlock), allocator.blocks[id]? = some block →
    block.shape = allocator.config.blockShape
  frame_size : ∀ id bytes, allocator.frameBytes id = some bytes →
    bytes.length = allocator.config.blockStrideFor
  slot_size : ∀ slot bytes, allocator.slotBytes slot = some bytes →
    bytes.length = allocator.config.blockStrideFor
  slots_below : ∀ backend, allocator.swapBackend = some backend →
    ∀ slot ∈ backend.slots.keys, slot < backend.nextSlot
  free_nodup : allocator.freeList.Nodup
  unreferenced : ∀ id ∈ allocator.freeList,
    id < allocator.config.maxBlocks ∧ allocator.refCount id = 0
  marked : ∀ (id : PhysicalBlockId) (info : PhysicalBlockInfo), allocator.infos[id]? = some info →
    (info.state = .free ↔ id ∈ allocator.freeList)

/-! ## Reading the pool -/

theorem refCount_eq_of_info {allocator : MemoryAllocator} {id : PhysicalBlockId}
    {info : PhysicalBlockInfo} (found : allocator.infos[id]? = some info) :
    allocator.refCount id = info.refCount := by
  simp [refCount, found]

theorem refCount_eq_zero_of_none {allocator : MemoryAllocator} {id : PhysicalBlockId}
    (missing : allocator.infos[id]? = none) : allocator.refCount id = 0 := by
  simp [refCount, missing]

theorem refCount_set {before after : MemoryAllocator} {id : PhysicalBlockId}
    {info : PhysicalBlockInfo} (infos : after.infos = before.infos.set id info)
    (inside : id < before.infos.length) (other : PhysicalBlockId) :
    after.refCount other = if other = id then info.refCount else before.refCount other := by
  simp only [refCount, infos, List.getElem?_set]
  by_cases same : other = id
  · subst same
    simp [inside]
  · have reversed : ¬ id = other := fun equal => same equal.symm
    simp [same, reversed]

theorem Sound.info_of_lt {allocator : MemoryAllocator} (sound : allocator.Sound)
    {id : PhysicalBlockId} (inside : id < allocator.config.maxBlocks) :
    ∃ info, allocator.infos[id]? = some info :=
  ⟨_, List.getElem?_eq_getElem (by rw [sound.infos_length]; exact inside)⟩

theorem Sound.block_of_lt {allocator : MemoryAllocator} (sound : allocator.Sound)
    {id : PhysicalBlockId} (inside : id < allocator.config.maxBlocks) :
    ∃ block, allocator.blocks[id]? = some block :=
  ⟨_, List.getElem?_eq_getElem (by rw [sound.blocks_length]; exact inside)⟩

theorem Sound.lt_of_info {allocator : MemoryAllocator} (sound : allocator.Sound)
    {id : PhysicalBlockId} {info : PhysicalBlockInfo}
    (found : allocator.infos[id]? = some info) : id < allocator.config.maxBlocks := by
  rw [← sound.infos_length]
  exact (List.getElem?_eq_some_iff.mp found).1

/-- A referenced frame is not on the free list. -/
theorem Sound.not_free {allocator : MemoryAllocator} (sound : allocator.Sound)
    {id : PhysicalBlockId} (referenced : allocator.refCount id ≠ 0) : id ∉ allocator.freeList :=
  fun member => referenced (sound.unreferenced id member).2

/-- The free list of a pool never exceeds the pool. -/
theorem Sound.free_length_le {allocator : MemoryAllocator} (sound : allocator.Sound) :
    allocator.freeList.length ≤ allocator.config.maxBlocks := by
  have subset : allocator.freeList ⊆ List.range allocator.config.maxBlocks := by
    intro id member
    exact List.mem_range.mpr (sound.unreferenced id member).1
  simpa using (sound.free_nodup.subperm subset).length_le

theorem length_filter_infos (infos : List PhysicalBlockInfo) (test : PhysicalBlockInfo → Bool) :
    ((List.range infos.length).filter fun id => (infos[id]?.map test).getD false).length =
      infos.countP test := by
  rw [← List.countP_eq_length_filter]
  have reads : infos =
      (List.range infos.length).map fun id => infos[id]?.getD ⟨0, .free, 0, 0⟩ := by
    refine List.ext_getElem? fun id => ?_
    by_cases inside : id < infos.length <;> simp [inside]
  conv_rhs => rw [reads, List.countP_map]
  refine List.countP_congr fun id member => ?_
  have inside := List.mem_range.mp member
  simp [inside]

/-- The reported number of free blocks is the length of the free list. -/
theorem Sound.freeBlocks_eq {allocator : MemoryAllocator} (sound : allocator.Sound) :
    allocator.stats.freeBlocks = allocator.freeList.length := by
  have listed : allocator.freeList.Perm ((List.range allocator.infos.length).filter fun id =>
      (allocator.infos[id]?.map fun info => info.state == .free).getD false) := by
    rw [List.perm_ext_iff_of_nodup sound.free_nodup (List.nodup_range.filter _)]
    intro id
    rw [List.mem_filter, List.mem_range]
    by_cases inside : id < allocator.infos.length
    · obtain ⟨info, found⟩ : ∃ info, allocator.infos[id]? = some info :=
        ⟨_, List.getElem?_eq_getElem inside⟩
      simp only [found, inside, ← sound.marked id info found, Option.map_some, Option.getD_some,
        true_and, beq_iff_eq]
    · have outside : id ∉ allocator.freeList := fun member =>
        inside (sound.infos_length ▸ (sound.unreferenced id member).1)
      simp [inside, outside]
  rw [listed.length_eq, length_filter_infos]
  rfl

/-! ## Allocation -/

theorem allocate_eq_none {allocator after : MemoryAllocator}
    (failed : allocator.allocate = (none, after)) :
    allocator.freeList = [] ∧ after = allocator := by
  unfold allocate at failed
  split at failed
  · rename_i empty
    simp only [Prod.mk.injEq, true_and] at failed
    exact ⟨empty, failed.symm⟩
  · simp at failed

/-- What a successful allocation does. -/
structure Allocated (before after : MemoryAllocator) (id : PhysicalBlockId) : Prop where
  was_free : before.freeList = id :: after.freeList
  config : after.config = before.config
  blocks : after.blocks = before.blocks
  backend : after.swapBackend = before.swapBackend
  refCount : ∀ other, after.refCount other = if other = id then 1 else before.refCount other

theorem Sound.allocate {allocator after : MemoryAllocator} (sound : allocator.Sound)
    {id : PhysicalBlockId} (taken : allocator.allocate = (some id, after)) :
    after.Sound ∧ Allocated allocator after id := by
  unfold MemoryAllocator.allocate at taken
  split at taken
  · simp at taken
  · rename_i head rest stack
    simp only [Prod.mk.injEq, Option.some.injEq] at taken
    obtain ⟨rfl, rfl⟩ := taken
    have head_free := sound.unreferenced head (by rw [stack]; exact List.mem_cons_self)
    obtain ⟨info, found⟩ := sound.info_of_lt head_free.1
    have rest_nodup := List.nodup_cons.mp (stack ▸ sound.free_nodup)
    have counts : ∀ other,
        (({ allocator with
            freeList := rest
            infos := allocator.infos.modify head fun info =>
              { info with state := .active, refCount := 1 } } : MemoryAllocator)).refCount other =
          if other = head then 1 else allocator.refCount other := by
      intro other
      simp only [MemoryAllocator.refCount, List.getElem?_modify]
      by_cases same : other = head
      · subst same
        simp [found]
      · have reversed : ¬ head = other := fun equal => same equal.symm
        simp [same, reversed]
    refine ⟨⟨sound.blocks_length, ?_, sound.shapes, sound.frame_size, sound.slot_size,
      sound.slots_below, rest_nodup.2, ?_, ?_⟩, ⟨stack, rfl, rfl, rfl, counts⟩⟩
    · simpa using sound.infos_length
    · intro other member
      have different : other ≠ head := fun same => rest_nodup.1 (same ▸ member)
      rw [counts other, if_neg different]
      exact sound.unreferenced other (by rw [stack]; exact List.mem_cons_of_mem _ member)
    · intro other info' found'
      simp only [List.getElem?_modify] at found'
      by_cases same : head = other
      · subst same
        rw [found] at found'
        simp at found'
        subst found'
        simp [rest_nodup.1]
      · simp only [same, if_false, Option.map_eq_map, Option.map_id'] at found'
        have reversed : ¬ other = head := fun equal => same equal.symm
        simpa [stack, reversed] using sound.marked other info' found'

/-! ## Releasing and retaining references -/

/-- A transition that changes nothing but the count of one frame and the free list. -/
structure Recounted (before after : MemoryAllocator) (id : PhysicalBlockId) (count : ℕ) :
    Prop where
  config : after.config = before.config
  blocks : after.blocks = before.blocks
  backend : after.swapBackend = before.swapBackend
  refCount : ∀ other, after.refCount other = if other = id then count else before.refCount other

/-- A new record for one frame, which is put on or taken off the free list as it is marked. -/
theorem Sound.set_info {allocator : MemoryAllocator} (sound : allocator.Sound)
    {id : PhysicalBlockId} (info : PhysicalBlockInfo) {free : List PhysicalBlockId}
    (inside : id < allocator.config.maxBlocks)
    (state : info.state = .free → info.refCount = 0) (free_nodup : free.Nodup)
    (mem_free : ∀ other, other ∈ free ↔
      if other = id then info.state = .free else other ∈ allocator.freeList) :
    (({ allocator with
        infos := allocator.infos.set id info, freeList := free } : MemoryAllocator)).Sound ∧
      Recounted allocator
        { allocator with infos := allocator.infos.set id info, freeList := free }
        id info.refCount := by
  have counts (other : PhysicalBlockId) :
      ({ allocator with
          infos := allocator.infos.set id info, freeList := free } : MemoryAllocator).refCount other =
        if other = id then info.refCount else allocator.refCount other :=
    refCount_set rfl (by rw [sound.infos_length]; exact inside) other
  refine ⟨⟨sound.blocks_length, by simpa using sound.infos_length, sound.shapes,
    sound.frame_size, sound.slot_size, sound.slots_below, free_nodup, ?_, ?_⟩,
    rfl, rfl, rfl, counts⟩
  · intro other member
    rw [mem_free other] at member
    rw [counts other]
    by_cases same : other = id
    · rw [if_pos same] at member ⊢
      exact ⟨same ▸ inside, state member⟩
    · rw [if_neg same] at member ⊢
      exact sound.unreferenced other member
  · intro other info' found
    simp only [List.getElem?_set] at found
    rw [mem_free other]
    by_cases same : id = other
    · subst same
      simp only [sound.infos_length, inside, if_true, Option.some.injEq] at found
      simp [found]
    · have reversed : ¬ other = id := fun equal => same equal.symm
      simp only [same, if_false] at found
      rw [if_neg reversed]
      exact sound.marked other info' found

theorem Sound.release {allocator : MemoryAllocator} (sound : allocator.Sound)
    (id : PhysicalBlockId) :
    (allocator.release id).Sound ∧
      Recounted allocator (allocator.release id) id (allocator.refCount id - 1) := by
  have unchanged (zero : allocator.refCount id = 0) :
      allocator.Sound ∧ Recounted allocator allocator id (allocator.refCount id - 1) := by
    refine ⟨sound, rfl, rfl, rfl, fun other => ?_⟩
    split
    · next same => rw [same, zero]
    · rfl
  unfold MemoryAllocator.release
  split
  · rename_i missing
    exact unchanged (refCount_eq_zero_of_none missing)
  · rename_i info found
    have count := refCount_eq_of_info found
    have inside := sound.lt_of_info found
    split
    · rename_i zero
      exact unchanged (count.trans zero)
    · rename_i positive
      have kept_out : id ∉ allocator.freeList := sound.not_free (count ▸ positive)
      have stays_out (info' : PhysicalBlockInfo) (occupied : info'.state ≠ .free)
          (other : PhysicalBlockId) : other ∈ allocator.freeList ↔
            if other = id then info'.state = .free else other ∈ allocator.freeList := by
        by_cases same : other = id
        · subst same
          simp [kept_out, occupied]
        · simp [same]
      rw [count]
      split
      · rename_i last
        rw [last]
        refine sound.set_info _ inside (fun _ => rfl)
          (List.nodup_cons.mpr ⟨kept_out, sound.free_nodup⟩) ?_
        intro other
        by_cases same : other = id <;> simp [same]
      · split
        · exact sound.set_info _ inside (by simp) sound.free_nodup (stays_out _ (by simp))
        · have occupied : info.state ≠ .free := fun free =>
            kept_out ((sound.marked id info found).mp free)
          exact sound.set_info _ inside (fun free => absurd free occupied) sound.free_nodup
            (stays_out _ occupied)

/-- One more reference; the count starts over past the last 32-bit value. -/
theorem Sound.retain {allocator : MemoryAllocator} (sound : allocator.Sound)
    (id : PhysicalBlockId) :
    (allocator.retain id).Sound ∧
      Recounted allocator (allocator.retain id) id
        (if allocator.refCount id = 0 then 0 else wrap32 (allocator.refCount id + 1)) := by
  have unchanged (zero : allocator.refCount id = 0) :
      allocator.Sound ∧ Recounted allocator allocator id
        (if allocator.refCount id = 0 then 0 else wrap32 (allocator.refCount id + 1)) := by
    refine ⟨sound, rfl, rfl, rfl, fun other => ?_⟩
    split
    · next same => simp [same, zero]
    · rfl
  unfold MemoryAllocator.retain
  split
  · rename_i missing
    exact unchanged (refCount_eq_zero_of_none missing)
  · rename_i info found
    have count := refCount_eq_of_info found
    split
    · rename_i zero
      exact unchanged (count.trans zero)
    · rename_i positive
      rw [count, if_neg positive]
      have kept_out : id ∉ allocator.freeList := sound.not_free (count ▸ positive)
      refine sound.set_info _ (sound.lt_of_info found) (by simp) sound.free_nodup ?_
      intro other
      by_cases same : other = id
      · subst same
        simp [kept_out]
      · simp [same]

/-! ## Moving bytes -/

theorem frameBytes_set {before after : MemoryAllocator} {id : PhysicalBlockId}
    {block : PhysicalBlock} (blocks : after.blocks = before.blocks.set id block)
    (inside : id < before.blocks.length) (other : PhysicalBlockId) :
    after.frameBytes other = if other = id then some block.data else before.frameBytes other := by
  simp only [frameBytes, MemoryAllocator.block, blocks, List.getElem?_set]
  by_cases same : other = id
  · subst same
    simp [inside]
  · have reversed : ¬ id = other := fun equal => same equal.symm
    simp [same, reversed]

/-- Replacing the bytes of one frame by as many bytes. -/
theorem Sound.set_block {allocator : MemoryAllocator} (sound : allocator.Sound)
    {id : PhysicalBlockId} {block : PhysicalBlock} {backend : Option HostSwapBackend}
    (inside : id < allocator.config.maxBlocks)
    (shape : block.shape = allocator.config.blockShape)
    (size : block.data.length = allocator.config.blockStrideFor)
    (slot_size : ∀ slot bytes, backend.bind (·.slots.lookup slot) = some bytes →
      bytes.length = allocator.config.blockStrideFor)
    (slots_below : ∀ installed, backend = some installed →
      ∀ slot ∈ installed.slots.keys, slot < installed.nextSlot) :
    (({ allocator with
        blocks := allocator.blocks.set id block
        swapBackend := backend } : MemoryAllocator)).Sound := by
  have indexed : id < allocator.blocks.length := by rw [sound.blocks_length]; exact inside
  refine ⟨by simpa using sound.blocks_length, sound.infos_length, ?_, ?_, slot_size,
    slots_below, sound.free_nodup, sound.unreferenced, sound.marked⟩
  · intro other found member
    simp only [List.getElem?_set] at member
    by_cases same : id = other
    · subst same
      simp only [indexed, if_true, Option.some.injEq] at member
      exact member ▸ shape
    · simp only [same, if_false] at member
      exact sound.shapes other found member
  · intro other bytes found
    rw [frameBytes_set rfl indexed other] at found
    split at found
    · simp only [Option.some.injEq] at found
      exact found ▸ size
    · exact sound.frame_size other bytes found

/-- What copying between two frames of the pool does. -/
structure Copied (before after : MemoryAllocator) (source destination : PhysicalBlockId) :
    Prop where
  config : after.config = before.config
  infos : after.infos = before.infos
  freeList : after.freeList = before.freeList
  backend : after.swapBackend = before.swapBackend
  frameBytes : ∀ other, after.frameBytes other =
    if other = destination then before.frameBytes source else before.frameBytes other

theorem Sound.copyBlock {allocator : MemoryAllocator} (sound : allocator.Sound)
    {source destination : PhysicalBlockId} (source_lt : source < allocator.config.maxBlocks)
    (destination_lt : destination < allocator.config.maxBlocks) :
    (allocator.copyBlock source destination).Sound ∧
      Copied allocator (allocator.copyBlock source destination) source destination := by
  obtain ⟨src, src_eq⟩ := sound.block_of_lt source_lt
  obtain ⟨dst, dst_eq⟩ := sound.block_of_lt destination_lt
  have src_bytes : allocator.frameBytes source = some src.data := by
    simp [MemoryAllocator.frameBytes, MemoryAllocator.block, src_eq]
  have dst_bytes : allocator.frameBytes destination = some dst.data := by
    simp [MemoryAllocator.frameBytes, MemoryAllocator.block, dst_eq]
  have src_size := sound.frame_size source _ src_bytes
  have dst_size := sound.frame_size destination _ dst_bytes
  have whole : memcpy dst.data src.data (min src.sizeBytes dst.sizeBytes) = src.data := by
    rw [PhysicalBlock.sizeBytes, PhysicalBlock.sizeBytes, src_size, dst_size, Nat.min_self]
    exact memcpy_all src_size dst_size
  simp only [MemoryAllocator.copyBlock, MemoryAllocator.block, src_eq, dst_eq, whole]
  refine ⟨sound.set_block destination_lt (sound.shapes destination dst dst_eq) src_size
    sound.slot_size sound.slots_below, rfl, rfl, rfl, rfl, ?_⟩
  intro other
  rw [src_bytes, frameBytes_set rfl (by rw [sound.blocks_length]; exact destination_lt) other]

/-! ## Swapping -/

theorem swapOut_eq_none {allocator after : MemoryAllocator} {id : PhysicalBlockId}
    (failed : allocator.swapOut id = (none, after)) : after = allocator := by
  unfold swapOut at failed
  split at failed
  · split at failed
    · simp_all
    · split at failed
      · simp_all
      · split at failed <;> simp_all
  · simp_all

/-- What a successful eviction does. -/
structure Evicted (before after : MemoryAllocator) (id : PhysicalBlockId) (slot : SwapSlotId) :
    Prop where
  single : before.refCount id = 1
  config : after.config = before.config
  blocks : after.blocks = before.blocks
  freeList : after.freeList = id :: before.freeList
  refCount : ∀ other, after.refCount other = if other = id then 0 else before.refCount other
  slotBytes : ∀ other, after.slotBytes other =
    if other = slot then before.frameBytes id else before.slotBytes other
  fresh : slot ∉ before.residentKeys
  residentKeys : after.residentKeys = slot :: before.residentKeys

theorem Sound.swapOut {allocator after : MemoryAllocator} (sound : allocator.Sound)
    {id : PhysicalBlockId} {slot : SwapSlotId}
    (evicted : allocator.swapOut id = (some slot, after)) :
    after.Sound ∧ Evicted allocator after id slot := by
  unfold MemoryAllocator.swapOut at evicted
  split at evicted
  case h_2 => simp at evicted
  rename_i backend info installed found
  split at evicted
  · simp at evicted
  rename_i single
  rw [Decidable.not_not] at single
  split at evicted
  · simp at evicted
  rename_i frame frame_eq
  unfold HostSwapBackend.store at evicted
  split at evicted
  · simp_all
  rename_i stored_slot stored stored_eq
  split at stored_eq
  · simp at stored_eq
  simp only [Prod.mk.injEq, Option.some.injEq] at stored_eq evicted
  obtain ⟨rfl, rfl⟩ := stored_eq
  obtain ⟨rfl, rfl⟩ := evicted
  have count := (refCount_eq_of_info found).trans single
  have inside := sound.lt_of_info found
  have bytes : allocator.frameBytes id = some frame.data := by
    simp [MemoryAllocator.frameBytes, frame_eq]
  have fresh : backend.nextSlot ∉ backend.slots.keys := by
    intro member
    exact absurd (sound.slots_below backend installed _ member) (Nat.lt_irrefl _)
  have kept_out : id ∉ allocator.freeList := sound.not_free (by rw [count]; exact one_ne_zero)
  obtain ⟨recounted, counts⟩ := sound.set_info
    { info with refCount := 0, state := .free, generation := info.generation + 1 }
    inside (fun _ => rfl) (List.nodup_cons.mpr ⟨kept_out, sound.free_nodup⟩)
    (fun other => by by_cases same : other = id <;> simp [same])
  have slots : ∀ other, AList.lookup other (backend.slots.insert backend.nextSlot frame.data) =
      if other = backend.nextSlot then some frame.data else backend.slots.lookup other := by
    intro other
    split
    · next same => rw [same, AList.lookup_insert]
    · next different => rw [AList.lookup_insert_ne different]
  refine ⟨⟨sound.blocks_length, recounted.infos_length, sound.shapes, sound.frame_size, ?_, ?_,
    recounted.free_nodup, recounted.unreferenced, recounted.marked⟩,
    ⟨count, rfl, rfl, rfl, counts.refCount, ?_, ?_, ?_⟩⟩
  · intro other content held
    simp only [MemoryAllocator.slotBytes, Option.bind_some, slots] at held
    split at held
    · rw [← bytes] at held
      exact sound.frame_size id content held
    · exact sound.slot_size other content (by simpa [MemoryAllocator.slotBytes, installed])
  · intro current equal other member
    simp only [Option.some.injEq] at equal
    subst equal
    simp only [AList.keys_insert, List.mem_cons] at member ⊢
    rcases member with rfl | old
    · exact Nat.lt_succ_self _
    · exact Nat.lt_succ_of_lt
        (sound.slots_below backend installed other (List.mem_of_mem_erase old))
  · intro other
    simp only [MemoryAllocator.slotBytes, Option.bind_some, slots, bytes, installed]
  · simpa [MemoryAllocator.residentKeys, installed] using fresh
  · simp [MemoryAllocator.residentKeys, installed, AList.keys_insert,
      List.erase_of_not_mem fresh]

/-- What a successful restoration does. -/
structure Restored (before after : MemoryAllocator) (slot : SwapSlotId) (id : PhysicalBlockId) :
    Prop where
  was_free : before.freeList = id :: after.freeList
  config : after.config = before.config
  refCount : ∀ other, after.refCount other = if other = id then 1 else before.refCount other
  frameBytes : ∀ other, after.frameBytes other =
    if other = id then before.slotBytes slot else before.frameBytes other
  slotBytes : ∀ other, after.slotBytes other =
    if other = slot then none else before.slotBytes other
  held : slot ∈ before.residentKeys
  residentKeys : after.residentKeys = before.residentKeys.erase slot

theorem Sound.swapIn {allocator after : MemoryAllocator} (sound : allocator.Sound)
    {slot : SwapSlotId} {id : PhysicalBlockId}
    (restored : allocator.swapIn slot = (some id, after)) :
    after.Sound ∧ Restored allocator after slot id := by
  unfold MemoryAllocator.swapIn at restored
  split at restored
  · simp at restored
  rename_i backend installed
  split at restored
  · simp at restored
  rename_i got taken taken_eq
  split at restored
  · simp at restored
  rename_i frame frame_eq
  simp only [Prod.mk.injEq, Option.some.injEq] at restored
  obtain ⟨rfl, rfl⟩ := restored
  obtain ⟨sound', allocated⟩ := sound.allocate taken_eq
  have inside : got < allocator.config.maxBlocks :=
    (sound.unreferenced got (by rw [allocated.was_free]; exact List.mem_cons_self)).1
  have inside' : got < taken.config.maxBlocks := by rw [allocated.config]; exact inside
  obtain ⟨old, old_eq⟩ := sound'.block_of_lt inside'
  simp only [MemoryAllocator.block, old_eq, Option.bind_some, HostSwapBackend.load] at frame_eq
  split at frame_eq
  · simp at frame_eq
  rename_i bytes slot_eq
  split at frame_eq
  · simp at frame_eq
  simp only [Option.some.injEq] at frame_eq
  subst frame_eq
  have slot_bytes : allocator.slotBytes slot = some bytes := by
    simp [MemoryAllocator.slotBytes, installed, slot_eq]
  have bytes_size : bytes.length = taken.config.blockStrideFor := by
    rw [allocated.config]
    exact sound.slot_size slot bytes slot_bytes
  have old_size : old.data.length = taken.config.blockStrideFor :=
    sound'.frame_size got old.data (by
      simp [MemoryAllocator.frameBytes, MemoryAllocator.block, old_eq])
  have whole : memcpy old.data bytes bytes.length = bytes :=
    memcpy_all rfl (old_size.trans bytes_size.symm)
  have erased : ∀ other, AList.lookup other (backend.discard slot).slots =
      if other = slot then none else backend.slots.lookup other := by
    intro other
    simp only [HostSwapBackend.discard]
    split
    · next same => rw [same, AList.lookup_erase]
    · next different => rw [AList.lookup_erase_ne different]
  have same_slots : ∀ other, taken.slotBytes other = allocator.slotBytes other := by
    intro other
    simp [MemoryAllocator.slotBytes, allocated.backend]
  refine ⟨sound'.set_block inside' (sound'.shapes got old old_eq) (by rw [whole]; exact bytes_size)
    ?_ ?_, ⟨allocated.was_free, allocated.config, allocated.refCount, ?_, ?_, ?_, ?_⟩⟩
  · intro other content held
    simp only [Option.bind_some, erased] at held
    split at held
    · simp at held
    · exact sound'.slot_size other content (by
        rw [same_slots]; simpa [MemoryAllocator.slotBytes, installed])
  · intro current equal other member
    simp only [Option.some.injEq] at equal
    subst equal
    simp only [HostSwapBackend.discard, AList.keys_erase] at member ⊢
    exact sound.slots_below backend installed other (List.mem_of_mem_erase member)
  · intro other
    rw [frameBytes_set rfl (by rw [sound'.blocks_length]; exact inside') other,
      whole, slot_bytes]
    simp [MemoryAllocator.frameBytes, MemoryAllocator.block, allocated.blocks]
  · intro other
    simp only [MemoryAllocator.slotBytes, Option.bind_some, erased, installed]
  · have member : slot ∈ backend.slots := AList.lookup_isSome.mp (by rw [slot_eq]; rfl)
    simpa [MemoryAllocator.residentKeys, installed] using AList.mem_keys.mp member
  · simp [MemoryAllocator.residentKeys, installed, HostSwapBackend.discard, AList.keys_erase]

/-- A failed restoration leaves counts, bytes and slots alone. -/
theorem Sound.swapIn_none {allocator after : MemoryAllocator} (sound : allocator.Sound)
    {slot : SwapSlotId} (failed : allocator.swapIn slot = (none, after)) :
    after.Sound ∧ after.config = allocator.config ∧ after.blocks = allocator.blocks ∧
      after.swapBackend = allocator.swapBackend ∧
      (∀ id, after.refCount id = allocator.refCount id) ∧
      (allocator.freeList = [] ∨ allocator.slotBytes slot = none) := by
  unfold MemoryAllocator.swapIn at failed
  split at failed
  · rename_i absent
    simp only [Prod.mk.injEq, true_and] at failed
    subst failed
    exact ⟨sound, rfl, rfl, rfl, fun _ => rfl, .inr (by simp [slotBytes, absent])⟩
  rename_i backend installed
  split at failed
  · rename_i same none_eq
    obtain ⟨empty, rfl⟩ := allocate_eq_none none_eq
    simp only [Prod.mk.injEq, true_and] at failed
    subst failed
    exact ⟨sound, rfl, rfl, rfl, fun _ => rfl, .inl empty⟩
  rename_i got taken taken_eq
  split at failed
  case h_2 => simp at failed
  rename_i unread
  simp only [Prod.mk.injEq, true_and] at failed
  subst failed
  obtain ⟨sound', allocated⟩ := sound.allocate taken_eq
  have got_free := sound.unreferenced got (by rw [allocated.was_free]; exact List.mem_cons_self)
  obtain ⟨released, recounted⟩ := sound'.release got
  refine ⟨released, recounted.config.trans allocated.config,
    recounted.blocks.trans allocated.blocks, recounted.backend.trans allocated.backend, ?_, ?_⟩
  · intro id
    rw [recounted.refCount id, allocated.refCount id, allocated.refCount got]
    by_cases same : id = got
    · simp [same, got_free.2]
    · simp [same]
  · right
    have inside' : got < taken.config.maxBlocks := by rw [allocated.config]; exact got_free.1
    obtain ⟨old, old_eq⟩ := sound'.block_of_lt inside'
    have old_size : old.data.length = taken.config.blockStrideFor :=
      sound'.frame_size got old.data (by
        simp [MemoryAllocator.frameBytes, MemoryAllocator.block, old_eq])
    simp only [MemoryAllocator.block, old_eq, Option.bind_some, HostSwapBackend.load] at unread
    split at unread
    · rename_i missing
      simp [slotBytes, installed, missing]
    · rename_i bytes slot_eq
      split at unread
      · rename_i short
        have bytes_size := sound.slot_size slot bytes (by simp [slotBytes, installed, slot_eq])
        rw [PhysicalBlock.sizeBytes, old_size, allocated.config, bytes_size] at short
        exact absurd short (Nat.lt_irrefl _)
      · simp at unread

theorem slotBytes_discardSwapped (allocator : MemoryAllocator) (slot other : SwapSlotId) :
    (allocator.discardSwapped slot).slotBytes other =
      if other = slot then none else allocator.slotBytes other := by
  simp only [slotBytes, discardSwapped]
  cases allocator.swapBackend with
  | none => simp
  | some backend =>
      simp only [Option.map_some, Option.bind_some, HostSwapBackend.discard]
      split
      · next same => rw [same, AList.lookup_erase]
      · next different => rw [AList.lookup_erase_ne different]

theorem residentKeys_discardSwapped (allocator : MemoryAllocator) (slot : SwapSlotId) :
    (allocator.discardSwapped slot).residentKeys = allocator.residentKeys.erase slot := by
  simp only [residentKeys, discardSwapped]
  cases allocator.swapBackend with
  | none => simp
  | some backend => simp [HostSwapBackend.discard, AList.keys_erase]

theorem Sound.discardSwapped {allocator : MemoryAllocator} (sound : allocator.Sound)
    (slot : SwapSlotId) : (allocator.discardSwapped slot).Sound := by
  refine ⟨sound.blocks_length, sound.infos_length, sound.shapes, sound.frame_size, ?_, ?_,
    sound.free_nodup, sound.unreferenced, sound.marked⟩
  · intro other bytes held
    rw [slotBytes_discardSwapped] at held
    split at held
    · simp at held
    · exact sound.slot_size other bytes held
  · intro current equal other member
    cases installed : allocator.swapBackend with
    | none => simp [MemoryAllocator.discardSwapped, installed] at equal
    | some backend =>
        simp only [MemoryAllocator.discardSwapped, installed, Option.map_some,
          Option.some.injEq] at equal
        subst equal
        simp only [HostSwapBackend.discard, AList.keys_erase] at member ⊢
        exact sound.slots_below backend installed other (List.mem_of_mem_erase member)

/-! ## The fresh pool -/

theorem refCount_create (config : AllocatorConfig) (slab : ℕ → UInt8)
    (backend : Option HostSwapBackend) (id : PhysicalBlockId) :
    (create config slab backend).refCount id = 0 := by
  by_cases inside : id < config.maxBlocks <;> simp [refCount, create, inside]

theorem sound_create (config : AllocatorConfig) (slab : ℕ → UInt8)
    (backend : Option HostSwapBackend)
    (fresh : ∀ installed, backend = some installed → installed.slots = ∅) :
    (create config slab backend).Sound := by
  refine ⟨by simp [create], by simp [create], ?_, ?_, ?_, ?_, ?_, ?_, ?_⟩
  · intro id block found
    simp only [create, List.getElem?_map, Option.map_eq_some_iff] at found
    obtain ⟨_, _, rfl⟩ := found
    rfl
  · intro id bytes found
    simp only [frameBytes, block, create, List.getElem?_map, Option.map_map,
      Option.map_eq_some_iff] at found
    obtain ⟨_, _, rfl⟩ := found
    simp [create]
  · intro slot bytes held
    cases backend with
    | none => simp [slotBytes, create] at held
    | some installed => simp [slotBytes, create, fresh installed rfl] at held
  · intro installed equal slot member
    have empty := fresh installed equal
    rw [empty] at member
    simp at member
  · simp [create, List.nodup_range]
  · intro id member
    rw [refCount_create]
    simpa [create] using member
  · intro id info found
    have inside : id < config.maxBlocks := by
      simpa [create] using (List.getElem?_eq_some_iff.mp found).1
    simp only [create, List.getElem?_map, List.getElem?_range inside, Option.map_some,
      Option.some.injEq] at found
    simp [← found, create, inside]

end MemoryAllocator
end QwenVLPaged
