import QwenVLPaged.PoolRun

/-!
# Generations tell recycled frames apart

A frame keeps its identifier and its address when it is recycled. Each of the three ways back to
the free list, the last release, an eviction and a restoration that fails, increases the frame's
generation, so an observer that finds a referenced frame under its old generation knows that nobody
else had it in between.
-/

namespace QwenVLPaged

namespace MemoryAllocator

/-- How often a frame has been recycled. -/
def generation (allocator : MemoryAllocator) (id : PhysicalBlockId) : ℕ :=
  (allocator.infos[id]?.map (·.generation)).getD 0

/-- Frames that a call puts back on the free list. -/
def recycled (allocator : MemoryAllocator) : PoolOp → List PhysicalBlockId
  | .release id => if allocator.refCount id = 1 then [id] else []
  | .swapOut id => if (allocator.swapOut id).1.isSome then [id] else []
  | .swapIn slot =>
      -- The frame taken for the contents goes back when they cannot be loaded.
      if allocator.swapBackend.isSome ∧ (allocator.swapIn slot).1 = none then
        allocator.allocate.1.toList
      else
        []
  | .allocate | .retain _ | .discardSwapped _ => []

/-- Frames put back on the free list by a list of calls, in order. -/
def recycles (allocator : MemoryAllocator) : List PoolOp → List PhysicalBlockId
  | [] => []
  | op :: ops => allocator.recycled op ++ (allocator.step op).recycles ops

/-! ## One call -/

theorem generation_set {before after : MemoryAllocator} {id : PhysicalBlockId}
    {info : PhysicalBlockInfo} (infos : after.infos = before.infos.set id info)
    (inside : id < before.infos.length) (other : PhysicalBlockId) :
    after.generation other = if other = id then info.generation else before.generation other := by
  rw [generation, infos]
  by_cases same : other = id
  · subst same
    simp [inside]
  · rw [List.getElem?_set_ne (Ne.symm same), if_neg same, generation]

/-- A call pushes some frames, and their generations count the pushes. -/
structure Pushed (before after : MemoryAllocator) (pushed : List PhysicalBlockId) : Prop where
  generation : ∀ id, after.generation id = before.generation id + pushed.count id
  arrives : ∀ id ∈ after.freeList, id ∈ before.freeList ∨ id ∈ pushed
  returned : ∀ id ∈ pushed, id ∈ after.freeList

theorem pushed_refl (allocator : MemoryAllocator) : Pushed allocator allocator [] :=
  ⟨fun _ => rfl, fun _ => .inl, by simp⟩

theorem pushed_allocate (allocator : MemoryAllocator) :
    Pushed allocator allocator.allocate.2 [] := by
  unfold allocate
  split
  · exact pushed_refl allocator
  · rename_i head rest stack
    refine ⟨fun id => ?_, fun id member => ?_, by simp⟩
    · simp only [generation, List.getElem?_modify]
      cases allocator.infos[id]? with
      | none => rfl
      | some info => by_cases same : head = id <;> simp [same]
    · exact .inl (stack ▸ List.mem_cons_of_mem _ member)

theorem pushed_retain (allocator : MemoryAllocator) (id : PhysicalBlockId) :
    Pushed allocator (allocator.retain id) [] := by
  unfold retain
  split
  · exact pushed_refl allocator
  · rename_i info found
    split
    · exact pushed_refl allocator
    · refine ⟨fun other => ?_, fun _ => .inl, by simp⟩
      rw [generation_set rfl (List.getElem?_eq_some_iff.mp found).1]
      split
      · rename_i same
        simp [generation, same, found]
      · rfl

/-- The last release of a frame recycles it. -/
theorem pushed_release (allocator : MemoryAllocator) (id : PhysicalBlockId) :
    Pushed allocator (allocator.release id) (if allocator.refCount id = 1 then [id] else []) := by
  rcases found : allocator.infos[id]? with _ | info
  · have zero := refCount_eq_zero_of_none found
    simp only [release, found, zero, zero_ne_one, if_false]
    exact pushed_refl allocator
  have count := refCount_eq_of_info found
  have inside := (List.getElem?_eq_some_iff.mp found).1
  have old : allocator.generation id = info.generation := by simp [generation, found]
  by_cases last : info.refCount = 1
  · simp only [release, found, count, last, one_ne_zero, if_false, Nat.sub_self, if_true]
    refine ⟨fun other => ?_, fun other member => ?_, by simp⟩
    · rw [generation_set rfl inside]
      by_cases same : other = id
      · simp [same, old]
      · simp [same, Ne.symm same]
    · exact (List.mem_cons.mp member).symm.imp_right (by simp [·])
  · have kept {info' : PhysicalBlockInfo} (same : info'.generation = info.generation) :
        Pushed allocator { allocator with infos := allocator.infos.set id info' } [] := by
      refine ⟨fun other => ?_, fun _ => .inl, by simp⟩
      rw [generation_set rfl inside, same]
      split
      · rename_i here
        simp [here, old]
      · rfl
    simp only [release, found, count, last, if_false]
    split_ifs with zero one two
    · exact pushed_refl allocator
    · omega
    · exact kept rfl
    · exact kept rfl

/-- An eviction that succeeds recycles the frame. -/
theorem pushed_swapOut (allocator : MemoryAllocator) (id : PhysicalBlockId) :
    Pushed allocator (allocator.swapOut id).2
      (if (allocator.swapOut id).1.isSome then [id] else []) := by
  rcases result : allocator.swapOut id with ⟨_ | slot, after⟩
  · rw [swapOut_eq_none result]
    exact pushed_refl allocator
  unfold swapOut at result
  split at result
  case h_2 => simp at result
  rename_i backend info installed found
  split at result
  · simp at result
  split at result
  · simp at result
  split at result
  · simp at result
  rename_i slot' stored kept
  simp only [Prod.mk.injEq, Option.some.injEq] at result
  obtain ⟨-, rfl⟩ := result
  refine ⟨fun other => ?_, fun other member => ?_, by simp⟩
  · rw [generation_set rfl (List.getElem?_eq_some_iff.mp found).1]
    by_cases same : other = id
    · simp [same, generation, found]
    · simp [same, Ne.symm same]
  · exact (List.mem_cons.mp member).symm.imp_right (by simp [·])

/-- A restoration that fails recycles the frame it took. -/
theorem Sound.pushed_swapIn {allocator : MemoryAllocator} (sound : allocator.Sound)
    (slot : SwapSlotId) :
    Pushed allocator (allocator.swapIn slot).2 (allocator.recycled (.swapIn slot)) := by
  have taken := pushed_allocate allocator
  rcases result : allocator.swapIn slot with ⟨_ | id, after⟩
  · simp only [recycled, result, and_true]
    unfold MemoryAllocator.swapIn at result
    split at result
    · rename_i absent
      simp only [Prod.mk.injEq, true_and] at result
      subst result
      simpa [absent] using pushed_refl allocator
    rename_i backend installed
    rw [if_pos (by simp [installed])]
    split at result
    · rename_i same none_eq
      simp only [Prod.mk.injEq, true_and] at result
      rw [← result, (allocate_eq_none none_eq).2]
      simpa [none_eq] using pushed_refl allocator
    rename_i got took took_eq
    split at result
    case h_2 => simp at result
    simp only [Prod.mk.injEq, true_and] at result
    subst result
    obtain ⟨-, allocated⟩ := sound.allocate took_eq
    have released := pushed_release took got
    rw [if_pos (by simp [allocated.refCount])] at released
    rw [took_eq] at taken ⊢
    refine ⟨fun other => ?_, fun other member => ?_, released.returned⟩
    · rw [released.generation, taken.generation]
      rfl
    · rcases released.arrives other member with early | here
      · exact .inl (allocated.was_free ▸ List.mem_cons_of_mem _ early)
      · exact .inr here
  · simp only [recycled, result, reduceCtorEq, and_false, if_false]
    unfold MemoryAllocator.swapIn at result
    split at result
    · simp at result
    split at result
    · simp at result
    rename_i got took took_eq
    split at result
    · simp at result
    simp only [Prod.mk.injEq, Option.some.injEq] at result
    obtain ⟨-, rfl⟩ := result
    rw [took_eq] at taken
    exact ⟨taken.generation, taken.arrives, by simp⟩

theorem Sound.pushed_step {allocator : MemoryAllocator} (sound : allocator.Sound) (op : PoolOp) :
    Pushed allocator (allocator.step op) (allocator.recycled op) := by
  cases op with
  | allocate => exact pushed_allocate allocator
  | retain id => exact pushed_retain allocator id
  | release id => exact pushed_release allocator id
  | swapOut id => exact pushed_swapOut allocator id
  | swapIn slot => exact sound.pushed_swapIn slot
  | discardSwapped slot => exact ⟨fun _ => rfl, fun _ => .inl, by simp [recycled]⟩

/-! ## Runs -/

theorem sound_step {allocator : MemoryAllocator} (sound : allocator.Sound) (op : PoolOp) :
    (allocator.step op).Sound := by
  cases op with
  | allocate =>
      rcases result : allocator.allocate with ⟨_ | id, after⟩
      · obtain ⟨-, same⟩ := allocate_eq_none result
        simpa only [step, result, same] using sound
      · simpa only [step, result] using (sound.allocate result).1
  | retain id => exact (sound.retain id).1
  | release id => exact (sound.release id).1
  | swapOut id =>
      rcases result : allocator.swapOut id with ⟨_ | slot, after⟩
      · have same := swapOut_eq_none result
        simpa only [step, result, same] using sound
      · simpa only [step, result] using (sound.swapOut result).1
  | swapIn slot =>
      rcases result : allocator.swapIn slot with ⟨_ | id, after⟩
      · simpa only [step, result] using (sound.swapIn_none result).1
      · simpa only [step, result] using (sound.swapIn result).1
  | discardSwapped slot => exact sound.discardSwapped slot

theorem sound_run {allocator : MemoryAllocator} (sound : allocator.Sound) (ops : List PoolOp) :
    (allocator.run ops).Sound := by
  induction ops generalizing allocator with
  | nil => exact sound
  | cons op ops induction => exact induction (sound_step sound op)

theorem recycles_append (allocator : MemoryAllocator) (early late : List PoolOp) :
    allocator.recycles (early ++ late) =
      allocator.recycles early ++ (allocator.run early).recycles late := by
  induction early generalizing allocator with
  | nil => rfl
  | cons op early induction =>
      rw [List.cons_append, recycles, induction, recycles, List.append_assoc]
      rfl

/-- The generation of a frame counts its returns to the free list. -/
theorem Sound.generation_run {allocator : MemoryAllocator} (sound : allocator.Sound)
    (ops : List PoolOp) (id : PhysicalBlockId) :
    (allocator.run ops).generation id =
      allocator.generation id + (allocator.recycles ops).count id := by
  induction ops generalizing allocator with
  | nil => rfl
  | cons op ops induction =>
      calc (allocator.run (op :: ops)).generation id
          = (allocator.step op).generation id + ((allocator.step op).recycles ops).count id :=
            induction (sound_step sound op)
        _ = allocator.generation id + (allocator.recycles (op :: ops)).count id := by
            rw [(sound.pushed_step op).generation, recycles, List.count_append, Nat.add_assoc]

/-- A frame gets onto the free list by a return. -/
theorem Sound.recycled_of_free {allocator : MemoryAllocator} (sound : allocator.Sound)
    (ops : List PoolOp) {id : PhysicalBlockId} (taken : id ∉ allocator.freeList)
    (free : id ∈ (allocator.run ops).freeList) : id ∈ allocator.recycles ops := by
  induction ops generalizing allocator with
  | nil => exact absurd free taken
  | cons op ops induction =>
      by_cases arrived : id ∈ (allocator.step op).freeList
      · have now := ((sound.pushed_step op).arrives id arrived).resolve_left taken
        exact List.mem_append_left _ now
      · exact List.mem_append_right _ (induction (sound_step sound op) arrived free)

theorem sound_overSlab (config : AllocatorConfig) (slab : ℕ → UInt8) (swapSlots : Option ℕ) :
    (overSlab config slab swapSlots).Sound :=
  (formed_overSlab config slab swapSlots).sound

/-- Between two points of a run at which a referenced frame shows the same 64-bit generation, the
frame was never free, and every return to the free list shows in the generation. -/
theorem generation_detects_recycling (config : AllocatorConfig) (slab : ℕ → UInt8)
    (swapSlots : Option ℕ) (front middle : List PoolOp) (id : PhysicalBlockId)
    (few : (((overSlab config slab swapSlots).run front).recycles middle).count id < 2 ^ 64) :
    (1 ≤ ((overSlab config slab swapSlots).run front).refCount id →
      1 ≤ ((overSlab config slab swapSlots).run (front ++ middle)).refCount id →
      wrap64 (((overSlab config slab swapSlots).run front).generation id) =
        wrap64 (((overSlab config slab swapSlots).run (front ++ middle)).generation id) →
      ∀ early late, middle = early ++ late →
        id ∉ ((overSlab config slab swapSlots).run (front ++ early)).freeList) ∧
      ∀ early op late, middle = early ++ op :: late →
        (((overSlab config slab swapSlots).run (front ++ early ++ [op])).generation id =
          ((overSlab config slab swapSlots).run (front ++ early)).generation id +
            (((overSlab config slab swapSlots).run (front ++ early)).recycled op).count id) ∧
        (id ∉ ((overSlab config slab swapSlots).run (front ++ early)).freeList →
          id ∈ ((overSlab config slab swapSlots).run (front ++ early ++ [op])).freeList →
          id ∈ ((overSlab config slab swapSlots).run (front ++ early)).recycled op) ∧
        (id ∈ ((overSlab config slab swapSlots).run (front ++ early)).recycled op →
          id ∈ ((overSlab config slab swapSlots).run (front ++ early ++ [op])).freeList) := by
  have sound (ops : List PoolOp) : ((overSlab config slab swapSlots).run ops).Sound :=
    sound_run (sound_overSlab config slab swapSlots) ops
  have later (ops more : List PoolOp) :
      (overSlab config slab swapSlots).run (ops ++ more) =
        ((overSlab config slab swapSlots).run ops).run more :=
    Execution.run_append step _ ops more
  constructor
  · intro held _ same early late split free
    have taken : id ∉ ((overSlab config slab swapSlots).run front).freeList := by
      intro listed
      have none_held := ((sound front).unreferenced id listed).2
      omega
    rw [later] at free
    have returned := (sound front).recycled_of_free early taken free
    have positive : 0 < (((overSlab config slab swapSlots).run front).recycles middle).count id := by
      rw [split, recycles_append]
      exact List.count_pos_iff.mpr (List.mem_append_left _ returned)
    -- Between 1 and 2 ^ 64 - 1 returns the 64-bit generation cannot come round.
    rw [later, (sound front).generation_run middle id] at same
    unfold wrap64 at same
    omega
  · intro early op late split
    have pushed := (sound (front ++ early)).pushed_step op
    rw [later (front ++ early) [op]]
    exact ⟨pushed.generation id, fun taken free => (pushed.arrives id free).resolve_left taken,
      pushed.returned id⟩

/-- A frame stays with its holder while another one is evicted, restored in vain and released. -/
theorem generation_detects_recycling_crossed :
    (((overSlab ⟨⟨1, 1, 1, 1, 1, 0⟩, 1, 4, four_lt_word⟩ (fun _ => 0) (some 1)).run
        [.allocate]).recycles [.allocate, .swapOut 2, .swapIn 7, .retain 3, .swapIn 1, .release 3,
          .release 2]).count 3 < 2 ^ 64 ∧
      3 ∉ ((overSlab ⟨⟨1, 1, 1, 1, 1, 0⟩, 1, 4, four_lt_word⟩ (fun _ => 0) (some 1)).run
        ([.allocate] ++ [.allocate, .swapOut 2, .swapIn 7])).freeList := by
  have few : (((overSlab ⟨⟨1, 1, 1, 1, 1, 0⟩, 1, 4, four_lt_word⟩ (fun _ => 0) (some 1)).run
      [.allocate]).recycles [.allocate, .swapOut 2, .swapIn 7, .retain 3, .swapIn 1, .release 3,
        .release 2]).count 3 < 2 ^ 64 := by
    decide +kernel
  refine ⟨few, ?_⟩
  exact (generation_detects_recycling _ _ _ _ _ 3 few).1 (by decide +kernel) (by decide +kernel)
    (by decide +kernel) [.allocate, .swapOut 2, .swapIn 7]
    [.retain 3, .swapIn 1, .release 3, .release 2] rfl

end MemoryAllocator
end QwenVLPaged
