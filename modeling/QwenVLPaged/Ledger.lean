import QwenVLPaged.PoolInvariant

/-!
# Claims on the pool

A claim is one unit of ownership: a reference to a frame or the possession of a swap slot,
together with the bytes its owner expects there. A ledger is a list of claims that accounts for
every reference count and every resident slot of the allocator. Each primitive of the allocator
exchanges the claims it is given and leaves every other claim, with its bytes, as it was.
-/

namespace QwenVLPaged

/-- Where the contents of a block live. -/
inductive Place
  | frame (id : PhysicalBlockId)
  | slot (id : SwapSlotId)
  deriving DecidableEq

namespace Place

/-- The swap slot of a place, if it is one. -/
def slot? : Place → Option SwapSlotId
  | frame _ => none
  | slot id => some id

@[simp] theorem slot?_frame (id : PhysicalBlockId) : (frame id).slot? = none := rfl
@[simp] theorem slot?_slot (id : SwapSlotId) : (slot id).slot? = some id := rfl

end Place

/-- One reference or one slot, with the bytes found there. -/
structure Claim where
  place : Place
  bytes : List UInt8

namespace MemoryAllocator

/-- Bytes currently stored at a place. -/
def contents (allocator : MemoryAllocator) : Place → Option (List UInt8)
  | .frame id => allocator.frameBytes id
  | .slot id => allocator.slotBytes id

/-- The claim an owner of a place can make. -/
def claimAt (allocator : MemoryAllocator) (place : Place) : Claim :=
  ⟨place, (allocator.contents place).getD []⟩

/-- Replace the bytes of one frame in place. -/
def writeFrame (allocator : MemoryAllocator) (id : PhysicalBlockId)
    (update : List UInt8 → List UInt8) : MemoryAllocator :=
  { allocator with
    blocks := allocator.blocks.modify id fun block => { block with data := update block.data } }

theorem residentKeys_nodup (allocator : MemoryAllocator) : allocator.residentKeys.Nodup := by
  unfold residentKeys
  cases allocator.swapBackend with
  | none => simp
  | some backend => exact backend.slots.keys_nodup

end MemoryAllocator

/-- The claims account for every reference count and every resident slot, and each finds its
bytes in place. -/
structure Ledger (allocator : MemoryAllocator) (claims : List Claim) : Prop where
  formed : allocator.Formed
  refs : ∀ id, allocator.refCount id = (claims.map Claim.place).count (.frame id)
  slots : (claims.filterMap fun claim => claim.place.slot?).Perm allocator.residentKeys
  held : ∀ claim ∈ claims, allocator.contents claim.place = some claim.bytes

namespace Ledger

theorem perm {allocator : MemoryAllocator} {claims claims' : List Claim}
    (ledger : Ledger allocator claims) (same : claims.Perm claims') :
    Ledger allocator claims' where
  formed := ledger.formed
  refs id := (ledger.refs id).trans ((same.map Claim.place).count_eq (.frame id))
  slots := (same.filterMap _).symm.trans ledger.slots
  held claim member := ledger.held claim (same.mem_iff.mpr member)

theorem create (config : AllocatorConfig) (slab : ℕ → UInt8) (backend : Option HostSwapBackend)
    (fresh : ∀ installed, backend = some installed → installed.slots = ∅) :
    Ledger (.create config slab backend) [] where
  formed := MemoryAllocator.formed_create config slab backend fresh
  refs id := by simp [MemoryAllocator.refCount_create]
  slots := by
    cases backend with
    | none => simp [MemoryAllocator.residentKeys, MemoryAllocator.create]
    | some installed =>
        simp [MemoryAllocator.residentKeys, MemoryAllocator.create, fresh installed rfl]
  held claim member := by simp at member

/-! ## Reading a ledger -/

theorem count_pos {allocator : MemoryAllocator} {claims : List Claim}
    (ledger : Ledger allocator claims) {claim : Claim} {id : PhysicalBlockId}
    (member : claim ∈ claims) (place : claim.place = .frame id) :
    0 < allocator.refCount id := by
  rw [ledger.refs id]
  exact List.count_pos_iff.mpr (List.mem_map.mpr ⟨claim, member, place⟩)

theorem lt_maxBlocks {allocator : MemoryAllocator} {claims : List Claim}
    (ledger : Ledger allocator claims) {claim : Claim} {id : PhysicalBlockId}
    (member : claim ∈ claims) (place : claim.place = .frame id) :
    id < allocator.config.maxBlocks :=
  ledger.formed.lt_of_refCount (ledger.count_pos member place).ne'

/-- A frame without references is claimed by nobody. -/
theorem place_ne_of_refCount_zero {allocator : MemoryAllocator} {claims : List Claim}
    (ledger : Ledger allocator claims) {id : PhysicalBlockId}
    (unreferenced : allocator.refCount id = 0) {claim : Claim} (member : claim ∈ claims) :
    claim.place ≠ .frame id := by
  intro place
  exact absurd (ledger.count_pos member place) (by rw [unreferenced]; exact Nat.lt_irrefl 0)

/-- The bytes a claim expects are the bytes of its place, so they do not depend on the claim. -/
theorem bytes_eq {allocator : MemoryAllocator} {claims : List Claim}
    (ledger : Ledger allocator claims) {left right : Claim} (left_mem : left ∈ claims)
    (right_mem : right ∈ claims) (place : left.place = right.place) : left.bytes = right.bytes := by
  have left_held := ledger.held left left_mem
  rw [place, ledger.held right right_mem] at left_held
  exact (Option.some.inj left_held).symm

theorem claimAt_eq {allocator : MemoryAllocator} {claims : List Claim}
    (ledger : Ledger allocator claims) {claim : Claim} (member : claim ∈ claims) :
    allocator.claimAt claim.place = claim := by
  simp [MemoryAllocator.claimAt, ledger.held claim member]

/-- Every ledger is the list of the claims that the allocator grants at its places. -/
theorem map_claimAt {allocator : MemoryAllocator} {claims : List Claim}
    (ledger : Ledger allocator claims) :
    (claims.map Claim.place).map allocator.claimAt = claims := by
  rw [List.map_map]
  exact (List.map_congr_left fun claim member => ledger.claimAt_eq member).trans (List.map_id _)

/-- Nobody else claims a frame with a single reference. -/
theorem frame_unclaimed {allocator : MemoryAllocator} {claims : List Claim} {claim : Claim}
    {id : PhysicalBlockId} (ledger : Ledger allocator (claim :: claims))
    (place : claim.place = .frame id) (single : allocator.refCount id = 1) :
    ∀ other ∈ claims, other.place ≠ .frame id := by
  intro other member same
  have counted := ledger.refs id
  simp only [List.map_cons, List.count_cons, place, single] at counted
  have positive := List.count_pos_iff.mpr
    (List.mem_map.mpr ⟨other, member, same⟩ : Place.frame id ∈ claims.map Claim.place)
  simp at counted
  omega

/-- Nobody else claims a slot. -/
theorem slot_unclaimed {allocator : MemoryAllocator} {claims : List Claim} {claim : Claim}
    {slot : SwapSlotId} (ledger : Ledger allocator (claim :: claims))
    (place : claim.place = .slot slot) : ∀ other ∈ claims, other.place ≠ .slot slot := by
  intro other member same
  have nodup := ledger.slots.nodup_iff.mpr allocator.residentKeys_nodup
  rw [List.filterMap_cons_some (b := slot) (by simp [place]), List.nodup_cons] at nodup
  exact nodup.1 (List.mem_filterMap.mpr ⟨other, member, by simp [same]⟩)

/-! ## Exchanging claims -/

theorem allocate {allocator after : MemoryAllocator} {claims : List Claim}
    (ledger : Ledger allocator claims) {id : PhysicalBlockId}
    (taken : allocator.allocate = (some id, after)) :
    Ledger after (allocator.claimAt (.frame id) :: claims) ∧ after.config = allocator.config := by
  obtain ⟨formed, allocated⟩ := ledger.formed.allocate taken
  have free := (ledger.formed.mem_free id).mp (by rw [allocated.was_free]; exact List.mem_cons_self)
  have same_contents : after.contents = allocator.contents := by
    funext place
    cases place <;>
      simp [MemoryAllocator.contents, MemoryAllocator.frameBytes, MemoryAllocator.block,
        MemoryAllocator.slotBytes, allocated.blocks, allocated.backend]
  refine ⟨⟨formed, ?_, ?_, ?_⟩, allocated.config⟩
  · intro other
    rw [allocated.refCount other, List.map_cons, List.count_cons, ← ledger.refs other]
    by_cases same : other = id
    · subst same
      simp [MemoryAllocator.claimAt, free.2]
    · have different : ¬ id = other := fun equal => same equal.symm
      simp [MemoryAllocator.claimAt, same, different]
  · simpa [MemoryAllocator.claimAt, MemoryAllocator.residentKeys, allocated.backend,
      List.filterMap_cons] using ledger.slots
  · intro claim member
    rw [same_contents]
    rcases List.mem_cons.mp member with rfl | old
    · obtain ⟨block, found⟩ := ledger.formed.block_of_lt free.1
      simp [MemoryAllocator.claimAt, MemoryAllocator.contents, MemoryAllocator.frameBytes,
        MemoryAllocator.block, found]
    · exact ledger.held claim old

private theorem recounted_contents {before after : MemoryAllocator} {id : PhysicalBlockId}
    {count : ℕ} (recounted : MemoryAllocator.Recounted before after id count) (place : Place) :
    after.contents place = before.contents place := by
  cases place <;>
    simp [MemoryAllocator.contents, MemoryAllocator.frameBytes, MemoryAllocator.block,
      MemoryAllocator.slotBytes, recounted.blocks, recounted.backend]

private theorem recounted_residentKeys {before after : MemoryAllocator} {id : PhysicalBlockId}
    {count : ℕ} (recounted : MemoryAllocator.Recounted before after id count) :
    after.residentKeys = before.residentKeys := by
  simp [MemoryAllocator.residentKeys, recounted.backend]

theorem retain {allocator : MemoryAllocator} {claims : List Claim}
    (ledger : Ledger allocator claims) {claim : Claim} {id : PhysicalBlockId}
    (member : claim ∈ claims) (place : claim.place = .frame id)
    (bounded : allocator.refCount id + 1 < 2 ^ 32) :
    Ledger (allocator.retain id) (claim :: claims) ∧
      (allocator.retain id).config = allocator.config := by
  obtain ⟨formed, recounted⟩ := ledger.formed.retain id bounded
  have positive := ledger.count_pos member place
  refine ⟨⟨formed, ?_, ?_, ?_⟩, recounted.config⟩
  · intro other
    rw [recounted.refCount other, List.map_cons, List.count_cons, ← ledger.refs other, place,
      if_neg positive.ne']
    by_cases same : other = id
    · simp [same]
    · have different : ¬ id = other := fun equal => same equal.symm
      simp [same, different]
  · rw [recounted_residentKeys recounted]
    simpa [place] using ledger.slots
  · intro other other_mem
    rw [recounted_contents recounted]
    rcases List.mem_cons.mp other_mem with rfl | old
    · exact ledger.held _ member
    · exact ledger.held other old

theorem release {allocator : MemoryAllocator} {claims : List Claim} {claim : Claim}
    {id : PhysicalBlockId} (ledger : Ledger allocator (claim :: claims))
    (place : claim.place = .frame id) :
    Ledger (allocator.release id) claims ∧
      (allocator.release id).config = allocator.config := by
  obtain ⟨formed, recounted⟩ := ledger.formed.release id
  refine ⟨⟨formed, ?_, ?_, ?_⟩, recounted.config⟩
  · intro other
    have counted (frame : PhysicalBlockId) := ledger.refs frame
    simp only [List.map_cons, List.count_cons, place] at counted
    rw [recounted.refCount other]
    by_cases same : other = id
    · subst same
      rw [if_pos rfl, counted other]
      simp
    · have different : ¬ id = other := fun equal => same equal.symm
      simpa [same, different] using counted other
  · rw [recounted_residentKeys recounted]
    simpa [place] using ledger.slots
  · intro other member
    rw [recounted_contents recounted]
    exact ledger.held other (List.mem_cons_of_mem _ member)

theorem copyBlock {allocator : MemoryAllocator} {claims : List Claim} {source fresh : Claim}
    {origin target : PhysicalBlockId} (ledger : Ledger allocator (fresh :: claims))
    (fresh_place : fresh.place = .frame target) (single : allocator.refCount target = 1)
    (member : source ∈ claims) (source_place : source.place = .frame origin) :
    Ledger (allocator.copyBlock origin target) (⟨fresh.place, source.bytes⟩ :: claims) ∧
      (allocator.copyBlock origin target).config = allocator.config := by
  obtain ⟨formed, copied⟩ := ledger.formed.copyBlock
    (ledger.lt_maxBlocks (List.mem_cons_of_mem _ member) source_place)
    (ledger.lt_maxBlocks List.mem_cons_self fresh_place)
  have others : ∀ place, place ≠ .frame target →
      (allocator.copyBlock origin target).contents place = allocator.contents place := by
    intro place different
    cases place with
    | frame id =>
        have id_ne : id ≠ target := fun equal => different (by rw [equal])
        simp [MemoryAllocator.contents, copied.frameBytes, id_ne]
    | slot id =>
        simp [MemoryAllocator.contents, MemoryAllocator.slotBytes, copied.backend]
  refine ⟨⟨formed, ?_, ?_, ?_⟩, copied.config⟩
  · intro id
    simpa [MemoryAllocator.refCount, copied.infos] using ledger.refs id
  · simpa [MemoryAllocator.residentKeys, copied.backend, fresh_place, List.filterMap_cons] using
      ledger.slots
  · intro claim claim_mem
    rcases List.mem_cons.mp claim_mem with rfl | old
    · have source_held := ledger.held source (List.mem_cons_of_mem _ member)
      rw [source_place] at source_held
      simpa [fresh_place, MemoryAllocator.contents, copied.frameBytes] using source_held
    · rw [others _ (ledger.frame_unclaimed fresh_place single claim old)]
      exact ledger.held claim (List.mem_cons_of_mem _ old)

/-- Copy on write: one owner of a shared frame moves to a fresh frame with the same bytes. -/
theorem copyOnWrite {allocator taken : MemoryAllocator} {claims : List Claim} {claim : Claim}
    {source copy : PhysicalBlockId} (ledger : Ledger allocator (claim :: claims))
    (place : claim.place = .frame source) (allocated : allocator.allocate = (some copy, taken)) :
    Ledger ((taken.copyBlock source copy).release source) (⟨.frame copy, claim.bytes⟩ :: claims) ∧
      ((taken.copyBlock source copy).release source).config = allocator.config ∧
      ((taken.copyBlock source copy).release source).refCount copy = 1 := by
  obtain ⟨first, first_config⟩ := ledger.allocate allocated
  obtain ⟨-, effect⟩ := ledger.formed.allocate allocated
  have free := (ledger.formed.mem_free copy).mp (by rw [effect.was_free]; exact List.mem_cons_self)
  have different : copy ≠ source := by
    rintro rfl
    exact ledger.place_ne_of_refCount_zero free.2 List.mem_cons_self place
  have single : taken.refCount copy = 1 := by rw [effect.refCount copy, if_pos rfl]
  obtain ⟨second, second_config⟩ := first.copyBlock rfl single List.mem_cons_self place
  obtain ⟨final, final_config⟩ := (second.perm (List.Perm.swap _ _ _)).release place
  refine ⟨final, final_config.trans (second_config.trans first_config), ?_⟩
  obtain ⟨-, recounted⟩ := second.formed.release source
  rw [recounted.refCount copy, if_neg different]
  exact (second.refs copy).trans ((first.refs copy).symm.trans single)

/-- The only owner of a frame may change its bytes. -/
theorem writeFrame {allocator : MemoryAllocator} {claims : List Claim} {claim : Claim}
    {id : PhysicalBlockId} {update : List UInt8 → List UInt8}
    (ledger : Ledger allocator (claim :: claims)) (place : claim.place = .frame id)
    (single : allocator.refCount id = 1)
    (length : (update claim.bytes).length = claim.bytes.length) :
    Ledger (allocator.writeFrame id update) (⟨claim.place, update claim.bytes⟩ :: claims) ∧
      (allocator.writeFrame id update).config = allocator.config := by
  have inside := ledger.lt_maxBlocks List.mem_cons_self place
  obtain ⟨block, found⟩ := ledger.formed.block_of_lt inside
  have bytes : allocator.frameBytes id = some claim.bytes := by
    simpa [place, MemoryAllocator.contents] using ledger.held claim List.mem_cons_self
  have data_eq : block.data = claim.bytes := by
    simpa [MemoryAllocator.frameBytes, MemoryAllocator.block, found] using bytes
  have as_set : allocator.writeFrame id update =
      { allocator with
        blocks := allocator.blocks.set id { block with data := update claim.bytes } } := by
    simp only [MemoryAllocator.writeFrame, MemoryAllocator.mk.injEq, true_and, and_true]
    rw [← data_eq]
    exact List.modify_eq_set_getElem? .. |>.trans (by simp [found])
  have blocks : (allocator.writeFrame id update).blocks =
      allocator.blocks.set id { block with data := update claim.bytes } := by rw [as_set]
  have frames := MemoryAllocator.frameBytes_set blocks
    (by rw [ledger.formed.blocks_length]; exact inside)
  refine ⟨⟨?_, ?_, ?_, ?_⟩, rfl⟩
  · rw [as_set]
    refine ledger.formed.set_block inside (ledger.formed.shapes id block found) ?_
      ledger.formed.slot_size ledger.formed.slots_below
    rw [length]
    exact ledger.formed.frame_size id _ bytes
  · intro other
    exact ledger.refs other
  · exact ledger.slots
  · intro other other_mem
    rcases List.mem_cons.mp other_mem with rfl | old
    · simp [place, MemoryAllocator.contents, frames]
    · rw [← ledger.held other (List.mem_cons_of_mem _ old)]
      have different := ledger.frame_unclaimed place single other old
      cases other_place : other.place with
      | frame other_id =>
          have id_ne : other_id ≠ id := fun equal => different (by rw [other_place, equal])
          simp [MemoryAllocator.contents, frames, id_ne]
      | slot slot => rfl

theorem swapOut {allocator after : MemoryAllocator} {claims : List Claim} {claim : Claim}
    {id : PhysicalBlockId} {slot : SwapSlotId} (ledger : Ledger allocator (claim :: claims))
    (place : claim.place = .frame id) (evicted : allocator.swapOut id = (some slot, after)) :
    Ledger after (⟨.slot slot, claim.bytes⟩ :: claims) ∧ after.config = allocator.config := by
  obtain ⟨formed, effect⟩ := ledger.formed.swapOut evicted
  have bytes : allocator.frameBytes id = some claim.bytes := by
    simpa [place, MemoryAllocator.contents] using ledger.held claim List.mem_cons_self
  have slots : (claims.filterMap fun claim => claim.place.slot?).Perm allocator.residentKeys := by
    simpa [place] using ledger.slots
  refine ⟨⟨formed, ?_, ?_, ?_⟩, effect.config⟩
  · intro other
    have counted := ledger.refs other
    simp only [List.map_cons, List.count_cons, place] at counted ⊢
    rw [effect.refCount other]
    by_cases same : other = id
    · subst same
      rw [effect.single] at counted
      simp at counted
      simpa using counted.symm
    · have different : ¬ id = other := fun equal => same equal.symm
      simpa [same, different] using counted
  · rw [effect.residentKeys]
    simpa using slots
  · intro other member
    rcases List.mem_cons.mp member with rfl | old
    · simp [MemoryAllocator.contents, effect.slotBytes, bytes]
    · rw [← ledger.held other (List.mem_cons_of_mem _ old)]
      cases other_place : other.place with
      | frame other_id =>
          simp [MemoryAllocator.contents, MemoryAllocator.frameBytes, MemoryAllocator.block,
            effect.blocks]
      | slot other_slot =>
          have other_ne : other_slot ≠ slot := by
            rintro rfl
            exact effect.fresh (slots.mem_iff.mp
              (List.mem_filterMap.mpr ⟨other, old, by simp [other_place]⟩))
          simp [MemoryAllocator.contents, effect.slotBytes, other_ne]

theorem swapIn {allocator after : MemoryAllocator} {claims : List Claim} {claim : Claim}
    {slot : SwapSlotId} {id : PhysicalBlockId} (ledger : Ledger allocator (claim :: claims))
    (place : claim.place = .slot slot) (restored : allocator.swapIn slot = (some id, after)) :
    Ledger after (⟨.frame id, claim.bytes⟩ :: claims) ∧ after.config = allocator.config := by
  obtain ⟨formed, effect⟩ := ledger.formed.swapIn restored
  have bytes : allocator.slotBytes slot = some claim.bytes := by
    simpa [place, MemoryAllocator.contents] using ledger.held claim List.mem_cons_self
  have free := (ledger.formed.mem_free id).mp (by rw [effect.was_free]; exact List.mem_cons_self)
  have slots : (slot :: claims.filterMap fun claim => claim.place.slot?).Perm
      allocator.residentKeys := by
    simpa [place] using ledger.slots
  refine ⟨⟨formed, ?_, ?_, ?_⟩, effect.config⟩
  · intro other
    have counted := ledger.refs other
    simp only [List.map_cons, List.count_cons, place] at counted ⊢
    rw [effect.refCount other]
    by_cases same : other = id
    · subst same
      rw [free.2] at counted
      simp at counted
      simpa using counted.symm
    · have different : ¬ id = other := fun equal => same equal.symm
      simpa [same, different] using counted
  · rw [effect.residentKeys]
    simpa [List.filterMap_cons] using slots.erase slot
  · intro other member
    rcases List.mem_cons.mp member with rfl | old
    · simp [MemoryAllocator.contents, effect.frameBytes, bytes]
    · rw [← ledger.held other (List.mem_cons_of_mem _ old)]
      cases other_place : other.place with
      | frame other_id =>
          have other_ne : other_id ≠ id := by
            rintro rfl
            exact ledger.place_ne_of_refCount_zero free.2 (List.mem_cons_of_mem _ old) other_place
          simp [MemoryAllocator.contents, effect.frameBytes, other_ne]
      | slot other_slot =>
          have other_ne : other_slot ≠ slot := by
            rintro rfl
            exact ledger.slot_unclaimed place other old other_place
          simp [MemoryAllocator.contents, effect.slotBytes, other_ne]

theorem swapIn_none {allocator after : MemoryAllocator} {claims : List Claim}
    (ledger : Ledger allocator claims) {slot : SwapSlotId}
    (failed : allocator.swapIn slot = (none, after)) :
    Ledger after claims ∧ after.config = allocator.config := by
  obtain ⟨formed, config, blocks, backend, counts, -⟩ := ledger.formed.swapIn_none failed
  refine ⟨⟨formed, fun id => (counts id).trans (ledger.refs id), ?_, ?_⟩, config⟩
  · simpa [MemoryAllocator.residentKeys, backend] using ledger.slots
  · intro claim member
    rw [← ledger.held claim member]
    cases claim.place <;>
      simp [MemoryAllocator.contents, MemoryAllocator.frameBytes, MemoryAllocator.block,
        MemoryAllocator.slotBytes, blocks, backend]

theorem discardSwapped {allocator : MemoryAllocator} {claims : List Claim} {claim : Claim}
    {slot : SwapSlotId} (ledger : Ledger allocator (claim :: claims))
    (place : claim.place = .slot slot) :
    Ledger (allocator.discardSwapped slot) claims ∧
      (allocator.discardSwapped slot).config = allocator.config := by
  have slots : (slot :: claims.filterMap fun claim => claim.place.slot?).Perm
      allocator.residentKeys := by
    simpa [place] using ledger.slots
  refine ⟨⟨ledger.formed.discardSwapped slot, ?_, ?_, ?_⟩, rfl⟩
  · intro id
    have counted := ledger.refs id
    simpa [place, MemoryAllocator.refCount, MemoryAllocator.discardSwapped] using counted
  · rw [MemoryAllocator.residentKeys_discardSwapped]
    simpa using slots.erase slot
  · intro other member
    rw [← ledger.held other (List.mem_cons_of_mem _ member)]
    cases other_place : other.place with
    | frame other_id => rfl
    | slot other_slot =>
        have other_ne : other_slot ≠ slot := by
          rintro rfl
          exact ledger.slot_unclaimed place other member other_place
        simp [MemoryAllocator.contents, MemoryAllocator.slotBytes_discardSwapped, other_ne]

end Ledger
end QwenVLPaged
