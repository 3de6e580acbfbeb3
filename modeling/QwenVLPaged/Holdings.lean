import QwenVLPaged.CacheSoundness

/-!
# Holdings

A holding is one reference to a frame, together with a mark that its owner takes itself for the
only one. Other than a ledger, a list of holdings covers a pool whose counts may be too high, or
may have started over past `2 ^ 32` references: such a frame counts zero, stays off the free list
and is never handed out again.
-/

namespace QwenVLPaged

/-- One reference to a frame. -/
structure Holding where
  frame : PhysicalBlockId
  /-- The owner takes itself for the only one. -/
  sole : Bool
  deriving DecidableEq

namespace MemoryAllocator

/-- The holdings are on frames in use, no count is below the number of its holders, and who takes
itself for the only owner of a frame is. -/
structure Holds (allocator : MemoryAllocator) (holdings : List Holding) : Prop where
  sound : allocator.Sound
  used : ∀ holding ∈ holdings, holding.frame ∉ allocator.freeList
  bounded : ∀ id, allocator.refCount id < 2 ^ 32
  counted : ∀ id, allocator.refCount id ≠ 0 →
    holdings.countP (·.frame == id) ≤ allocator.refCount id
  single : ∀ holding ∈ holdings, holding.sole = true → allocator.refCount holding.frame = 1

namespace Holds

theorem subperm {allocator : MemoryAllocator} {holdings holdings' : List Holding}
    (holds : allocator.Holds holdings) (fewer : holdings'.Subperm holdings) :
    allocator.Holds holdings' where
  sound := holds.sound
  used holding member := holds.used holding (fewer.subset member)
  bounded := holds.bounded
  counted id referenced := (fewer.countP_le _).trans (holds.counted id referenced)
  single holding member := holds.single holding (fewer.subset member)

theorem perm {allocator : MemoryAllocator} {holdings holdings' : List Holding}
    (holds : allocator.Holds holdings) (same : holdings'.Perm holdings) :
    allocator.Holds holdings' := holds.subperm same.subperm

/-- The only owner of a frame is the only holder of it. -/
theorem frame_ne {allocator : MemoryAllocator} {holding : Holding} {holdings : List Holding}
    (holds : allocator.Holds (holding :: holdings))
    (single : allocator.refCount holding.frame = 1) {other : Holding} (member : other ∈ holdings) :
    other.frame ≠ holding.frame := by
  intro same
  have counted := holds.counted holding.frame (by rw [single]; exact one_ne_zero)
  have positive : 0 < holdings.countP (·.frame == holding.frame) :=
    List.countP_pos_iff.mpr ⟨other, member, by simp [same]⟩
  rw [single, List.countP_cons_of_pos (by simp)] at counted
  omega

/-- Nobody takes itself for the only owner of a frame that somebody else holds. -/
theorem not_sole {allocator : MemoryAllocator} {holding : Holding} {holdings : List Holding}
    (holds : allocator.Holds (holding :: holdings)) {other : Holding} (member : other ∈ holdings)
    (same : other.frame = holding.frame) : other.sole = false := by
  by_contra marked
  have single := holds.single other (List.mem_cons_of_mem _ member) (by simpa using marked)
  exact holds.frame_ne (same ▸ single) member same

/-! ## Exchanging holdings -/

/-- A frame taken off the free list is nobody else's. -/
theorem take {allocator after : MemoryAllocator} {holdings : List Holding}
    (holds : allocator.Holds holdings) {id : PhysicalBlockId} (sound : after.Sound)
    (stack : allocator.freeList = id :: after.freeList)
    (refCount : ∀ other, after.refCount other = if other = id then 1 else allocator.refCount other)
    (sole : Bool) : after.Holds (⟨id, sole⟩ :: holdings) := by
  have was_free : id ∈ allocator.freeList := by
    rw [stack]
    exact List.mem_cons_self
  have unheld : ∀ holding ∈ holdings, holding.frame ≠ id := by
    intro holding member same
    exact holds.used holding member (same ▸ was_free)
  refine ⟨sound, ?_, ?_, ?_, ?_⟩
  · intro holding member free
    have distinct := holds.sound.free_nodup
    rw [stack, List.nodup_cons] at distinct
    rcases List.mem_cons.mp member with rfl | old
    · exact distinct.1 free
    · refine holds.used holding old ?_
      rw [stack]
      exact List.mem_cons_of_mem _ free
  · intro other
    rw [refCount other]
    split
    · norm_num
    · exact holds.bounded other
  · intro other referenced
    rw [refCount other] at referenced ⊢
    by_cases same : other = id
    · subst same
      have absent : holdings.countP (·.frame == other) = 0 :=
        List.countP_eq_zero.mpr fun holding member => by simpa using unheld holding member
      simp [absent]
    · have different : ¬ id = other := fun equal => same equal.symm
      rw [if_neg same] at referenced ⊢
      rw [List.countP_cons_of_neg (by simpa using different)]
      exact holds.counted other referenced
  · intro holding member marked
    rw [refCount holding.frame]
    rcases List.mem_cons.mp member with rfl | old
    · simp
    · rw [if_neg (unheld holding old)]
      exact holds.single holding old marked

theorem allocate {allocator after : MemoryAllocator} {holdings : List Holding}
    (holds : allocator.Holds holdings) {id : PhysicalBlockId}
    (taken : allocator.allocate = (some id, after)) (sole : Bool) :
    after.Holds (⟨id, sole⟩ :: holdings) := by
  obtain ⟨sound, effect⟩ := holds.sound.allocate taken
  exact holds.take sound effect.was_free effect.refCount sole

theorem swapIn {allocator after : MemoryAllocator} {holdings : List Holding}
    (holds : allocator.Holds holdings) {slot : SwapSlotId} {id : PhysicalBlockId}
    (restored : allocator.swapIn slot = (some id, after)) (sole : Bool) :
    after.Holds (⟨id, sole⟩ :: holdings) := by
  obtain ⟨sound, effect⟩ := holds.sound.swapIn restored
  exact holds.take sound effect.was_free effect.refCount sole

theorem freeList_retain (allocator : MemoryAllocator) (id : PhysicalBlockId) :
    (allocator.retain id).freeList = allocator.freeList := by
  unfold MemoryAllocator.retain
  repeat' split
  all_goals rfl

/-- Sharing a frame that is held without the mark. -/
theorem retain {allocator : MemoryAllocator} {holdings : List Holding}
    (holds : allocator.Holds holdings) {id : PhysicalBlockId}
    (held : (⟨id, false⟩ : Holding) ∈ holdings) :
    (allocator.retain id).Holds (⟨id, false⟩ :: holdings) := by
  obtain ⟨sound, effect⟩ := holds.sound.retain id
  have first := holds.perm (List.perm_cons_erase held).symm
  refine ⟨sound, ?_, ?_, ?_, ?_⟩
  · rw [freeList_retain]
    intro holding member
    rcases List.mem_cons.mp member with rfl | old
    · exact holds.used _ held
    · exact holds.used holding old
  · intro other
    rw [effect.refCount other]
    split
    · split
      · norm_num
      · exact wrap32_lt _
    · exact holds.bounded other
  · intro other referenced
    rw [effect.refCount other] at referenced ⊢
    by_cases same : other = id
    · subst same
      rw [if_pos rfl] at referenced ⊢
      split at referenced
      · exact absurd rfl referenced
      · rename_i positive
        have counted := holds.counted other positive
        have small := holds.bounded other
        rw [if_neg positive, List.countP_cons_of_pos (by simp)]
        -- A count that starts over is zero, so a count that is not did not.
        unfold wrap32 at referenced ⊢
        omega
    · have different : ¬ id = other := fun equal => same equal.symm
      rw [if_neg same] at referenced ⊢
      rw [List.countP_cons_of_neg (by simpa using different)]
      exact holds.counted other referenced
  · intro holding member marked
    rcases List.mem_cons.mp member with rfl | old
    · simp at marked
    · have different : holding.frame ≠ id := by
        intro same
        have behind : holding ∈ holdings.erase ⟨id, false⟩ := by
          refine (List.mem_erase_of_ne fun equal => ?_).mpr old
          simp [equal] at marked
        rw [first.not_sole behind same] at marked
        exact Bool.false_ne_true marked
      rw [effect.refCount holding.frame, if_neg different]
      exact holds.single holding old marked

/-- Every other holding survives when one is given up and its frame goes free with the last
one. -/
theorem drop {allocator after : MemoryAllocator} {holding : Holding} {holdings : List Holding}
    (holds : allocator.Holds (holding :: holdings)) (sound : after.Sound)
    (refCount : ∀ other, after.refCount other =
      if other = holding.frame then allocator.refCount holding.frame - 1
      else allocator.refCount other)
    (free : ∀ other ∈ after.freeList, other ∈ allocator.freeList ∨
      other = holding.frame ∧ allocator.refCount holding.frame = 1) : after.Holds holdings := by
  refine ⟨sound, ?_, ?_, ?_, ?_⟩
  · intro other member freed
    rcases free other.frame freed with before | ⟨same, last⟩
    · exact holds.used other (List.mem_cons_of_mem _ member) before
    · exact holds.frame_ne last member same
  · intro other
    have bounded := holds.bounded other
    have bounded_frame := holds.bounded holding.frame
    rw [refCount other]
    split <;> omega
  · intro other referenced
    rw [refCount other] at referenced ⊢
    by_cases same : other = holding.frame
    · subst same
      rw [if_pos rfl] at referenced ⊢
      have counted := holds.counted holding.frame (by omega)
      rw [List.countP_cons_of_pos (by simp)] at counted
      omega
    · rw [if_neg same] at referenced ⊢
      have counted := holds.counted other referenced
      rwa [List.countP_cons_of_neg (by simpa using fun equal => same equal.symm)] at counted
  · intro other member marked
    have different : other.frame ≠ holding.frame := by
      intro same
      rw [holds.not_sole member same] at marked
      exact Bool.false_ne_true marked
    rw [refCount other.frame, if_neg different]
    exact holds.single other (List.mem_cons_of_mem _ member) marked

theorem mem_freeList_release {allocator : MemoryAllocator} {id other : PhysicalBlockId}
    (member : other ∈ (allocator.release id).freeList) :
    other ∈ allocator.freeList ∨ other = id ∧ allocator.refCount id = 1 := by
  unfold MemoryAllocator.release at member
  split at member
  · exact Or.inl member
  · rename_i info found
    split at member
    · exact Or.inl member
    · rename_i positive
      split at member
      · rename_i last
        rcases List.mem_cons.mp member with same | old
        · refine Or.inr ⟨same, ?_⟩
          rw [refCount_eq_of_info found]
          omega
        · exact Or.inl old
      · split at member <;> exact Or.inl member

theorem release {allocator : MemoryAllocator} {holding : Holding} {holdings : List Holding}
    (holds : allocator.Holds (holding :: holdings)) :
    (allocator.release holding.frame).Holds holdings := by
  obtain ⟨sound, effect⟩ := holds.sound.release holding.frame
  exact holds.drop sound effect.refCount fun _ => mem_freeList_release

theorem swapOut {allocator after : MemoryAllocator} {holding : Holding} {holdings : List Holding}
    (holds : allocator.Holds (holding :: holdings)) {slot : SwapSlotId}
    (evicted : allocator.swapOut holding.frame = (some slot, after)) : after.Holds holdings := by
  obtain ⟨sound, effect⟩ := holds.sound.swapOut evicted
  refine holds.drop sound (fun other => ?_) fun other member => ?_
  · rw [effect.refCount other, effect.single]
  · rw [effect.freeList] at member
    rcases List.mem_cons.mp member with same | old
    · exact Or.inr ⟨same, effect.single⟩
    · exact Or.inl old

/-- Only the counts and the free list matter. -/
theorem of_same {before after : MemoryAllocator} {holdings : List Holding}
    (holds : before.Holds holdings) (sound : after.Sound)
    (refCount : ∀ id, after.refCount id = before.refCount id)
    (free : ∀ id ∈ after.freeList, id ∈ before.freeList) : after.Holds holdings where
  sound := sound
  used holding member freed := holds.used holding member (free holding.frame freed)
  bounded id := by rw [refCount id]; exact holds.bounded id
  counted id referenced := by
    rw [refCount id] at referenced ⊢
    exact holds.counted id referenced
  single holding member marked := by
    rw [refCount holding.frame]
    exact holds.single holding member marked

theorem copyBlock {allocator : MemoryAllocator} {holdings : List Holding}
    (holds : allocator.Holds holdings) (source destination : PhysicalBlockId) :
    (allocator.copyBlock source destination).Holds holdings := by
  have infos : (allocator.copyBlock source destination).infos = allocator.infos := by
    unfold MemoryAllocator.copyBlock
    split <;> rfl
  have free : (allocator.copyBlock source destination).freeList = allocator.freeList := by
    unfold MemoryAllocator.copyBlock
    split <;> rfl
  refine holds.of_same (holds.sound.undisturbed_copyBlock source destination).sound ?_ ?_
  · intro id
    rw [refCount, refCount, infos]
  · rw [free]
    exact fun _ member => member

theorem swapIn_none {allocator after : MemoryAllocator} {holdings : List Holding}
    (holds : allocator.Holds holdings) {slot : SwapSlotId}
    (failed : allocator.swapIn slot = (none, after)) : after.Holds holdings := by
  unfold MemoryAllocator.swapIn at failed
  split at failed
  · exact (Prod.mk.inj failed).2 ▸ holds
  · split at failed
    · rename_i none_eq
      obtain ⟨-, rfl⟩ := allocate_eq_none none_eq
      exact (Prod.mk.inj failed).2 ▸ holds
    · rename_i taken_eq
      split at failed
      · rw [← (Prod.mk.inj failed).2]
        exact (holds.allocate taken_eq false).release
      · simp at failed

/-- The only owner of a frame may take itself for it. -/
theorem mark {allocator : MemoryAllocator} {id : PhysicalBlockId} {sole sole' : Bool}
    {holdings : List Holding} (holds : allocator.Holds (⟨id, sole⟩ :: holdings))
    (single : sole' = true → allocator.refCount id = 1) :
    allocator.Holds (⟨id, sole'⟩ :: holdings) := by
  refine ⟨holds.sound, ?_, holds.bounded, ?_, ?_⟩
  · intro holding member
    rcases List.mem_cons.mp member with rfl | old
    · exact holds.used ⟨id, sole⟩ List.mem_cons_self
    · exact holds.used holding (List.mem_cons_of_mem _ old)
  · intro other referenced
    simpa [List.countP_cons] using holds.counted other referenced
  · intro holding member marked
    rcases List.mem_cons.mp member with rfl | old
    · exact single marked
    · exact holds.single holding (List.mem_cons_of_mem _ old) marked

/-- Copy on write: one holder of a shared frame moves to a fresh one. -/
theorem copyOnWrite {allocator taken : MemoryAllocator} {holding : Holding}
    {holdings : List Holding} (holds : allocator.Holds (holding :: holdings))
    {copy : PhysicalBlockId} (allocated : allocator.allocate = (some copy, taken)) (sole : Bool) :
    ((taken.copyBlock holding.frame copy).release holding.frame).Holds
      (⟨copy, sole⟩ :: holdings) := by
  have copied := (holds.allocate allocated sole).copyBlock holding.frame copy
  exact (copied.perm (List.Perm.swap _ _ _)).release

end Holds
end MemoryAllocator
end QwenVLPaged
