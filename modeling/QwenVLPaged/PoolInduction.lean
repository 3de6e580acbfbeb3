import QwenVLPaged.CacheRun

/-!
# Properties of the pool that every call keeps

The cache manager changes its pool by the primitives of the allocator only. A property that each
primitive keeps is kept by every call, whatever the tables say.
-/

namespace QwenVLPaged

namespace MemoryAllocator

/-- Every primitive of the pool keeps the property. -/
structure Stable (property : MemoryAllocator → Prop) : Prop where
  allocate : ∀ allocator, property allocator → property allocator.allocate.2
  release : ∀ allocator id, property allocator → property (allocator.release id)
  retain : ∀ allocator id, property allocator → property (allocator.retain id)
  copyBlock : ∀ allocator source destination, property allocator →
    property (allocator.copyBlock source destination)
  writeFrame : ∀ allocator id update, property allocator → property (allocator.writeFrame id update)
  swapOut : ∀ allocator id, property allocator → property (allocator.swapOut id).2
  swapIn : ∀ allocator slot, property allocator → property (allocator.swapIn slot).2
  discardSwapped : ∀ allocator slot, property allocator → property (allocator.discardSwapped slot)

end MemoryAllocator

namespace KVCacheManager

open MemoryAllocator (Stable)

/-! ## The loops -/

theorem stable_retainAll {property : MemoryAllocator → Prop} (stable : Stable property)
    {allocator : MemoryAllocator} (holds : property allocator) (ids : List PhysicalBlockId) :
    property (retainAll allocator ids) := by
  induction ids generalizing allocator with
  | nil => exact holds
  | cons id ids induction => exact induction (stable.retain allocator id holds)

theorem stable_releaseAll {property : MemoryAllocator → Prop} (stable : Stable property)
    {allocator : MemoryAllocator} (holds : property allocator) (ids : List PhysicalBlockId) :
    property (releaseAll allocator ids) := by
  induction ids generalizing allocator with
  | nil => exact holds
  | cons id ids induction => exact induction (stable.release allocator id holds)

theorem stable_releaseEntries {property : MemoryAllocator → Prop} (stable : Stable property)
    {allocator : MemoryAllocator} (holds : property allocator) (entries : List BlockTableEntry) :
    property (entries.foldl releaseEntry allocator) := by
  induction entries generalizing allocator with
  | nil => exact holds
  | cons entry entries induction =>
      refine induction ?_
      unfold releaseEntry
      split
      · exact stable.discardSwapped allocator _ holds
      · exact stable.release allocator _ holds

theorem stable_reserveBlocks {property : MemoryAllocator → Prop} (stable : Stable property)
    (sequenceId : SequenceId) (tokensPerBlock baseIndex remaining offset : ℕ)
    {allocator : MemoryAllocator} (holds : property allocator) (table : BlockTable) :
    property (reserveBlocks sequenceId tokensPerBlock baseIndex remaining offset allocator
      table).2.1 := by
  induction remaining generalizing offset allocator table with
  | zero => exact holds
  | succ remaining induction =>
      have taken := stable.allocate allocator holds
      rw [reserveBlocks]
      split
      · rename_i failed
        rwa [failed] at taken
      · rename_i success
        rw [success] at taken
        exact induction _ taken _

theorem stable_reserveTables {property : MemoryAllocator → Prop} (stable : Stable property)
    (sequenceId : SequenceId) (tokensPerBlock blocks : ℕ) {allocator : MemoryAllocator}
    (holds : property allocator) (tables : List BlockTable) :
    property (reserveTables sequenceId tokensPerBlock blocks allocator tables).2.1 := by
  induction tables generalizing allocator with
  | nil => exact holds
  | cons table tables induction =>
      have head := stable_reserveBlocks stable sequenceId tokensPerBlock (wrap32 table.size) blocks
        0 holds table
      rw [reserveTables]
      split
      · rename_i failed
        rwa [failed] at head
      · rename_i success
        rw [success] at head
        exact induction head

theorem stable_attachBlocks {property : MemoryAllocator → Prop} (stable : Stable property)
    (sequenceId : SequenceId) (tokensPerBlock index : ℕ) (ids : List PhysicalBlockId)
    {allocator : MemoryAllocator} (holds : property allocator) (table : BlockTable) :
    property (attachBlocks sequenceId tokensPerBlock index ids allocator table).1 := by
  induction ids generalizing index allocator table with
  | nil => exact holds
  | cons id ids induction => exact induction _ (stable.retain allocator id holds) _

theorem stable_attachTables {property : MemoryAllocator → Prop} (stable : Stable property)
    (sequenceId : SequenceId) (tokensPerBlock idsPerTable : ℕ) (ids : List PhysicalBlockId)
    {allocator : MemoryAllocator} (holds : property allocator) (tables : List BlockTable) :
    property (attachTables sequenceId tokensPerBlock idsPerTable ids allocator tables).1 := by
  induction tables generalizing ids allocator with
  | nil => exact holds
  | cons table tables induction =>
      exact induction _ (stable_attachBlocks stable sequenceId tokensPerBlock 0 _ holds table)

theorem stable_swapOutEntries {property : MemoryAllocator → Prop} (stable : Stable property)
    {allocator : MemoryAllocator} (holds : property allocator) (table : BlockTable)
    (indices : List ℕ) : property (swapOutEntries allocator table indices).2.1 := by
  induction indices generalizing allocator table with
  | nil => exact holds
  | cons index indices induction =>
      rw [swapOutEntries]
      split
      · exact induction holds table
      · rename_i entry _
        have evicted := stable.swapOut allocator entry.physicalId holds
        split
        · rename_i failed
          rw [failed] at evicted
          exact induction evicted table
        · rename_i success
          rw [success] at evicted
          exact induction evicted _

theorem stable_swapOutTables {property : MemoryAllocator → Prop} (stable : Stable property)
    {allocator : MemoryAllocator} (holds : property allocator) (tables : List BlockTable) :
    property (swapOutTables allocator tables).2.1 := by
  induction tables generalizing allocator with
  | nil => exact holds
  | cons table tables induction => exact induction (stable_swapOutEntries stable holds table _)

theorem stable_swapInEntries {property : MemoryAllocator → Prop} (stable : Stable property)
    {allocator : MemoryAllocator} (holds : property allocator) (table : BlockTable)
    (positions : List ℕ) : property (swapInEntries allocator table positions).2.1 := by
  induction positions generalizing allocator table with
  | nil => exact holds
  | cons position positions induction =>
      rw [swapInEntries]
      split
      · exact induction holds table
      · split
        · exact induction holds table
        · split
          · exact holds
          · rename_i slot _
            have restored := stable.swapIn allocator slot holds
            split
            · rename_i failed
              rwa [failed] at restored
            · rename_i success
              rw [success] at restored
              exact induction restored _

theorem stable_swapInTables {property : MemoryAllocator → Prop} (stable : Stable property)
    {allocator : MemoryAllocator} (holds : property allocator) (tables : List BlockTable) :
    property (swapInTables allocator tables).2.1 := by
  induction tables generalizing allocator with
  | nil => exact holds
  | cons table tables induction =>
      have head := stable_swapInEntries stable holds table (List.range table.size)
      rw [swapInTables]
      split
      · rename_i failed
        rwa [failed] at head
      · rename_i success
        rw [success] at head
        exact induction head

/-! ## The calls -/

theorem stable_dropPrefixUser {property : MemoryAllocator → Prop} (stable : Stable property)
    {manager : KVCacheManager} (holds : property manager.allocator) (state : SequenceState) :
    property (manager.dropPrefixUser state).1.allocator := by
  simp only [dropPrefixUser]
  repeat' split
  all_goals first
    | exact holds
    | exact stable_releaseAll stable holds _

theorem stable_releaseSequence {property : MemoryAllocator → Prop} (stable : Stable property)
    {manager : KVCacheManager} (holds : property manager.allocator) (sequenceId : SequenceId) :
    property (manager.releaseSequence sequenceId).allocator := by
  unfold releaseSequence
  split
  · exact holds
  · simp only [unindexSequence_allocator]
    exact stable_releaseEntries stable (stable_dropPrefixUser stable holds _) _

theorem stable_ensureTokenWritable {property : MemoryAllocator → Prop}
    (stable : Stable property) {manager : KVCacheManager} (holds : property manager.allocator)
    (sequenceId : SequenceId) (token layer : ℕ) :
    property (manager.ensureTokenWritable sequenceId token layer).2.allocator := by
  have taken := stable.allocate manager.allocator holds
  simp only [ensureTokenWritable]
  repeat' split
  all_goals first
    | exact holds
    | (rename_i failed; rwa [failed] at taken)
    | (rename_i success
       rw [success] at taken
       exact stable.release _ _ (stable.copyBlock _ _ _ taken))

theorem stable_swapOutSequence {property : MemoryAllocator → Prop} (stable : Stable property)
    {manager : KVCacheManager} (holds : property manager.allocator) (sequenceId : SequenceId) :
    property (manager.swapOutSequence sequenceId).2.allocator := by
  unfold swapOutSequence
  split
  · exact holds
  · exact stable_swapOutTables stable holds _

theorem stable_swapInSequence {property : MemoryAllocator → Prop} (stable : Stable property)
    {manager : KVCacheManager} (holds : property manager.allocator) (sequenceId : SequenceId) :
    property (manager.swapInSequence sequenceId).2.allocator := by
  simp only [swapInSequence]
  repeat' split
  all_goals first
    | exact holds
    | exact stable_swapInTables stable holds _

/-- What every primitive keeps, every call keeps. -/
theorem stable_step {property : MemoryAllocator → Prop} (stable : Stable property)
    {manager : KVCacheManager} (holds : property manager.allocator) (op : CacheOp) :
    property (manager.step op).allocator := by
  cases op with
  | createSequence metadata =>
      simp only [step, createSequence]
      split <;> exact holds
  | forkSequence parentId childMetadata =>
      simp only [step, forkSequence]
      repeat' split
      all_goals first
        | exact holds
        | exact stable_retainAll stable holds _
  | reserveTokens sequenceId tokenCount =>
      simp only [step, reserveTokens]
      repeat' split
      all_goals first
        | exact holds
        | exact stable_reserveTables stable _ _ _ holds _
  | ensureTokenWritable sequenceId token layer =>
      exact stable_ensureTokenWritable stable holds sequenceId token layer
  | writeToken sequenceId token layer stores =>
      have ensured := stable_ensureTokenWritable stable holds sequenceId token layer
      simp only [step, writeToken]
      split
      · rename_i failed
        rwa [failed] at ensured
      · rename_i frame after success
        rw [success] at ensured
        exact stable.writeFrame after.allocator frame
          (fun data => stores.foldl (storeToken manager.poolShape token) data) ensured
  | swapOutSequence sequenceId => exact stable_swapOutSequence stable holds sequenceId
  | swapOutRequest requestId =>
      exact swapOutSequences_induction (motive := fun manager => property manager.allocator)
        (fun _ id holds => stable_swapOutSequence stable holds id) holds _
  | swapInSequence sequenceId => exact stable_swapInSequence stable holds sequenceId
  | swapInRequest requestId =>
      exact swapInRequest_induction (motive := fun manager => property manager.allocator)
        (fun _ id holds => stable_swapInSequence stable holds id) holds requestId
  | publishPrefix sequenceId key =>
      simp only [step, publishPrefix]
      repeat' split
      all_goals first
        | exact holds
        | exact stable_retainAll stable holds _
  | attachPrefix sequenceId key =>
      simp only [step, attachPrefix]
      repeat' split
      all_goals first
        | exact holds
        | exact stable_attachTables stable _ _ _ _ holds _
  | releaseSequence sequenceId => exact stable_releaseSequence stable holds sequenceId
  | releaseRequest requestId =>
      exact releaseRequest_induction (motive := fun manager => property manager.allocator)
        (fun _ id holds => stable_releaseSequence stable holds id) holds requestId

end KVCacheManager
end QwenVLPaged
