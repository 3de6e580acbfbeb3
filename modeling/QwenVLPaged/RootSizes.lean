import QwenVLPaged.SequenceSizes

/-!
# How much an admitted root maps

`try_admit` opens the root of a candidate, attaches a published prefix and reserves the rest of the
prompt. A record counts the tokens of the frames it pins, so the root ends up with the blocks of its
prompt and no more, and no other sequence is touched.
-/

namespace QwenVLPaged

namespace KVCacheManager

/-! ## Record sizes -/

/-- Every prefix record counts the tokens of the frames it pins. -/
def Gauged (tokensPerBlock : ℕ) (manager : KVCacheManager) : Prop :=
  ∀ key records, manager.prefixIndex.lookup key = some records → ∀ record ∈ records,
    record.tokenCount = record.physicalIds.length * tokensPerBlock

theorem Gauged.of_index {tokensPerBlock : ℕ} {before after : KVCacheManager}
    (gauged : before.Gauged tokensPerBlock) (index : after.prefixIndex = before.prefixIndex) :
    after.Gauged tokensPerBlock := by
  intro key records found
  exact gauged key records (index ▸ found)

theorem Gauged.insert {tokensPerBlock : ℕ} {before after : KVCacheManager} {key : String}
    {records : List PrefixRecord} (gauged : before.Gauged tokensPerBlock)
    (index : after.prefixIndex = before.prefixIndex.insert key records)
    (measured : ∀ record ∈ records,
      record.tokenCount = record.physicalIds.length * tokensPerBlock) :
    after.Gauged tokensPerBlock := by
  intro other others found
  by_cases same : other = key
  · rw [index, same, AList.lookup_insert] at found
    rwa [← Option.some.inj found]
  · rw [index, AList.lookup_insert_ne same] at found
    exact gauged other others found

theorem Gauged.dropPrefixUser {tokensPerBlock : ℕ} {manager : KVCacheManager}
    (gauged : manager.Gauged tokensPerBlock) (state : SequenceState) :
    (manager.dropPrefixUser state).1.Gauged tokensPerBlock := by
  simp only [KVCacheManager.dropPrefixUser]
  split
  · exact gauged
  · split
    · exact gauged
    · rename_i records published
      split
      · exact gauged
      · rename_i record rest last
        have each := gauged _ _ published
        rw [← List.takeWhile_append_dropWhile
          (p := fun record : PrefixRecord => record.contentHash != state.prefixHash)
          (l := records), last] at each
        split
        · refine gauged.insert rfl fun other member => ?_
          rcases List.mem_append.mp member with early | late
          · exact each other (List.mem_append_left _ early)
          · rcases List.mem_cons.mp late with rfl | late
            · exact each record (List.mem_append_right _ List.mem_cons_self)
            · exact each other (List.mem_append_right _ (List.mem_cons_of_mem _ late))
        · split
          · intro key others found
            have different : key ≠ state.prefixKey := by
              rintro rfl
              simp at found
            rw [AList.lookup_erase_ne different] at found
            exact gauged key others found
          · refine gauged.insert rfl fun other member => each other ?_
            rcases List.mem_append.mp member with early | late
            · exact List.mem_append_left _ early
            · exact List.mem_append_right _ (List.mem_cons_of_mem _ late)

theorem Gauged.releaseSequence {tokensPerBlock : ℕ} {manager : KVCacheManager}
    (gauged : manager.Gauged tokensPerBlock) (sequenceId : SequenceId) :
    (manager.releaseSequence sequenceId).Gauged tokensPerBlock := by
  unfold KVCacheManager.releaseSequence
  split
  · exact gauged
  · rename_i state _
    exact (gauged.dropPrefixUser state).of_index (by simp)

theorem Gauged.attachPrefix {tokensPerBlock : ℕ} {manager : KVCacheManager}
    (gauged : manager.Gauged tokensPerBlock) (sequenceId : SequenceId) (key : String) :
    (manager.attachPrefix sequenceId key).2.Gauged tokensPerBlock := by
  simp only [KVCacheManager.attachPrefix]
  split
  · exact gauged
  · split
    · exact gauged
    · split
      · exact gauged
      · split
        · rename_i record published
          have measured := gauged key _ published record List.mem_cons_self
          split
          · exact gauged
          · split
            · exact gauged
            · refine gauged.insert rfl fun other member => ?_
              rw [List.mem_singleton.mp member]
              exact measured
        · exact gauged

theorem index_swapOutSequence (manager : KVCacheManager) (sequenceId : SequenceId) :
    (manager.swapOutSequence sequenceId).2.prefixIndex = manager.prefixIndex := by
  unfold swapOutSequence
  split <;> rfl

theorem index_swapInSequence (manager : KVCacheManager) (sequenceId : SequenceId) :
    (manager.swapInSequence sequenceId).2.prefixIndex = manager.prefixIndex := by
  simp only [swapInSequence]
  repeat' split
  all_goals rfl

theorem index_ensureTokenWritable (manager : KVCacheManager) (sequenceId : SequenceId)
    (token layer : ℕ) :
    (manager.ensureTokenWritable sequenceId token layer).2.prefixIndex = manager.prefixIndex := by
  simp only [ensureTokenWritable]
  repeat' split
  all_goals rfl

/-- Only publishing makes a record. -/
theorem gauged_step {tokensPerBlock : ℕ} {manager : KVCacheManager} (op : CacheOp)
    (silent : op.Silent) (gauged : manager.Gauged tokensPerBlock) :
    (manager.step op).Gauged tokensPerBlock := by
  cases op with
  | createSequence metadata =>
      refine gauged.of_index ?_
      simp only [step, createSequence]
      split <;> rfl
  | forkSequence parentId childMetadata =>
      refine gauged.of_index ?_
      simp only [step, forkSequence]
      repeat' split
      all_goals rfl
  | reserveTokens sequenceId tokenCount =>
      refine gauged.of_index ?_
      simp only [step, reserveTokens]
      repeat' split
      all_goals rfl
  | ensureTokenWritable sequenceId token layer =>
      exact gauged.of_index (manager.index_ensureTokenWritable sequenceId token layer)
  | writeToken sequenceId token layer stores =>
      have ensured := manager.index_ensureTokenWritable sequenceId token layer
      refine gauged.of_index ?_
      simp only [step, writeToken]
      split
      · rename_i failed
        rwa [failed] at ensured
      · rename_i success
        rwa [success] at ensured
  | swapOutSequence sequenceId => exact gauged.of_index (manager.index_swapOutSequence sequenceId)
  | swapOutRequest requestId =>
      exact swapOutSequences_induction (motive := Gauged tokensPerBlock)
        (fun middle id holds => Gauged.of_index holds (middle.index_swapOutSequence id)) gauged _
  | swapInSequence sequenceId => exact gauged.of_index (manager.index_swapInSequence sequenceId)
  | swapInRequest requestId =>
      exact swapInRequest_induction (motive := Gauged tokensPerBlock)
        (fun middle id holds => Gauged.of_index holds (middle.index_swapInSequence id)) gauged _
  | publishPrefix sequenceId key => exact silent.elim
  | attachPrefix sequenceId key => exact gauged.attachPrefix sequenceId key
  | releaseSequence sequenceId => exact gauged.releaseSequence sequenceId
  | releaseRequest requestId =>
      exact releaseRequest_induction (motive := Gauged tokensPerBlock)
        (fun _ id holds => holds.releaseSequence id) gauged _

theorem prefixTokenCount_eq_some {manager : KVCacheManager} {key : String}
    {record : PrefixRecord} (named : key ≠ "")
    (published : manager.prefixIndex.lookup key = some [record]) :
    manager.prefixTokenCount key = record.tokenCount := by
  rw [prefixTokenCount, if_neg named, published]

/-! ## Opening a root -/

/-- The sequence was opened for the request and maps `size` blocks in one table. -/
def OpenedWith (before after : KVCacheManager) (id : SequenceId) (owner : RequestId) (size : ℕ) :
    Prop :=
  ∀ other, after.outline other = if other = id then some (owner, [size]) else before.outline other

theorem OpenedWith.held {before after : KVCacheManager} {id : SequenceId} {owner : RequestId}
    {size : ℕ} (opened : OpenedWith before after id owner size) :
    after.outline id = some (owner, [size]) := by
  rw [opened, if_pos rfl]

theorem OpenedWith.trans {first second third : KVCacheManager} {id : SequenceId}
    {owner : RequestId} {size size' : ℕ} (opened : OpenedWith first second id owner size)
    (changed : OpenedWith second third id owner size') :
    OpenedWith first third id owner size' := by
  intro other
  rw [changed, opened]
  split <;> rfl

/-- Releasing the request of a fresh sequence forgets the other sequences of that request too. -/
theorem OpenedWith.released {before after : KVCacheManager} {id : SequenceId} {owner : RequestId}
    {size : ℕ} (opened : OpenedWith before after id owner size) (listed : after.Listed)
    (absent : before.outline id = none) (other : SequenceId) :
    (after.releaseRequest owner).outline other =
      (before.outline other).filter fun held => held.1 != owner := by
  rw [outline_releaseRequest listed, opened]
  split
  · rename_i same
    rw [same, absent]
    simp
  · rfl

/-- A pool whose sequences have one table of blocks of the given size. -/
structure Plain (tokensPerBlock : ℕ) (manager : KVCacheManager) : Prop where
  sound : manager.Sound
  listed : manager.Listed
  tables : manager.allocator.config.tableCount = 1
  shape : manager.allocator.config.blockShape.tokensPerBlock = tokensPerBlock

theorem plain_step {tokensPerBlock : ℕ} {manager : KVCacheManager} (op : CacheOp)
    (plain : manager.Plain tokensPerBlock) : (manager.step op).Plain tokensPerBlock := by
  have config := config_step plain.sound op
  exact ⟨sound_step plain.sound op, listed_step plain.listed op, by rw [config]; exact plain.tables,
    by rw [config]; exact plain.shape⟩

theorem Plain.tableCount {tokensPerBlock : ℕ} {manager : KVCacheManager}
    (plain : manager.Plain tokensPerBlock) : manager.tableCount = 1 :=
  (tableCount_eq plain.sound.pool).trans plain.tables

/-- An empty pool reports no block size. -/
theorem Plain.tokensPerBlock {tokensPerBlock : ℕ} {manager : KVCacheManager}
    (plain : manager.Plain tokensPerBlock) :
    manager.tokensPerBlock = 0 ∨ manager.tokensPerBlock = tokensPerBlock := by
  rw [tokensPerBlock_eq plain.sound.pool, AllocatorConfig.tokensPerBlock, plain.shape]
  split
  · exact Or.inl rfl
  · exact Or.inr rfl

theorem Plain.blocksNeeded_le {tokensPerBlock : ℕ} {manager : KVCacheManager}
    (plain : manager.Plain tokensPerBlock) (tokenCount : ℕ) :
    blocksNeeded tokenCount manager.tokensPerBlock * tokensPerBlock ≤
      tokenCount + (tokensPerBlock - 1) := by
  rcases plain.tokensPerBlock with none | same
  · simp [none, blocksNeeded]
  · rw [same]
    rcases Nat.eq_zero_or_pos tokensPerBlock with zero | positive
    · simp [zero]
    · have below := blocksNeeded_mul_lt positive tokenCount
      omega

end KVCacheManager

namespace Scheduler

open KVCacheManager (OpenedWith Gauged Plain)

/-- The steps of `openRoot` behind a successful `createSequence`. -/
theorem openRoot_created {cache opened : KVCacheManager} {candidate : Request}
    {tokensPerBlock : ℕ}
    (plain : opened.Plain tokensPerBlock) (gauged : opened.Gauged tokensPerBlock)
    (created : cache.createSequence candidate.metadata = (true, opened))
    (fresh : opened.outline candidate.rootSequenceId = some (candidate.requestId, [0])) :
    ∃ grown size, OpenedWith opened grown candidate.rootSequenceId candidate.requestId size ∧
      size * tokensPerBlock ≤ candidate.promptTokens + (tokensPerBlock - 1) ∧
      grown.Plain tokensPerBlock ∧
      (openRoot cache candidate = (true, grown) ∨
        openRoot cache candidate = (false, grown.releaseRequest candidate.requestId)) := by
  -- What is attached, and what it leaves to reserve.
  obtain ⟨attached, joined, size, attach_eq, joined_eq, small, plain'⟩ :
      ∃ attached joined size,
        (if 0 < cachedTokens opened candidate ∧
            cachedTokens opened candidate ≤ candidate.promptTokens then
          opened.attachPrefix candidate.rootSequenceId candidate.prefixKey
        else (0, opened)) = (attached, joined) ∧
        OpenedWith opened joined candidate.rootSequenceId candidate.requestId size ∧
        size * tokensPerBlock + (candidate.promptTokens - attached) ≤ candidate.promptTokens ∧
        joined.Plain tokensPerBlock := by
    have nothing : OpenedWith opened opened candidate.rootSequenceId candidate.requestId 0 := by
      intro other
      split
      · rename_i same
        rw [same, fresh]
      · rfl
    split
    · rename_i usable
      have kept := KVCacheManager.plain_step
        (.attachPrefix candidate.rootSequenceId candidate.prefixKey) plain
      rcases KVCacheManager.outline_attachPrefix fresh candidate.prefixKey with
        same | ⟨record, after, size, published, run_eq, bounded, outline⟩
      · exact ⟨0, opened, 0, same, nothing, by simp, plain⟩
      · refine ⟨record.tokenCount, after, size, run_eq, outline, ?_, ?_⟩
        · have named : candidate.prefixKey ≠ "" := by
            intro empty
            simp [cachedTokens, empty] at usable
          have tokens := gauged _ _ published record List.mem_cons_self
          rw [cachedTokens, if_neg named,
            KVCacheManager.prefixTokenCount_eq_some named published] at usable
          have scaled := Nat.mul_le_mul_right tokensPerBlock bounded
          omega
        · simpa [KVCacheManager.step, run_eq] using kept
    · exact ⟨0, opened, 0, rfl, nothing, by simp, plain⟩
  have finish (reserved : Bool) (grown : KVCacheManager)
      (reserve_eq : (if 0 < candidate.promptTokens - attached then
        joined.reserveTokens candidate.rootSequenceId (candidate.promptTokens - attached)
        else (true, joined)) = (reserved, grown)) :
      openRoot cache candidate = (true, grown) ∨
        openRoot cache candidate = (false, grown.releaseRequest candidate.requestId) := by
    simp only [openRoot, created, attach_eq, reserve_eq]
    split
    · exact Or.inr rfl
    · split
      · exact Or.inr rfl
      · exact Or.inl rfl
  by_cases still : 0 < candidate.promptTokens - attached
  · obtain ⟨-, size', bounded, outline⟩ := KVCacheManager.outline_reserveTokens joined_eq.held
      (candidate.promptTokens - attached)
    have kept := KVCacheManager.plain_step
      (.reserveTokens candidate.rootSequenceId (candidate.promptTokens - attached)) plain'
    refine ⟨_, size', joined_eq.trans outline, ?_, kept, finish _ _ (by rw [if_pos still])⟩
    have needed := plain'.blocksNeeded_le (candidate.promptTokens - attached)
    have scaled := Nat.mul_le_mul_right tokensPerBlock bounded
    rw [Nat.add_mul] at scaled
    omega
  · refine ⟨joined, size, joined_eq, ?_, plain', finish _ _ (by rw [if_neg still])⟩
    omega

/-- Opening a root does nothing, or adds a root with the blocks of the prompt, or adds it and takes
it back together with all sequences of the request. -/
theorem openRoot_outline {cache : KVCacheManager} {tokensPerBlock : ℕ}
    (plain : cache.Plain tokensPerBlock) (gauged : cache.Gauged tokensPerBlock)
    (candidate : Request) :
    openRoot cache candidate = (false, cache) ∨
    cache.outline candidate.rootSequenceId = none ∧
      ((∃ after size, openRoot cache candidate = (true, after) ∧
        OpenedWith cache after candidate.rootSequenceId candidate.requestId size ∧
        size * tokensPerBlock ≤ candidate.promptTokens + (tokensPerBlock - 1)) ∨
      ∃ after, openRoot cache candidate = (false, after) ∧ ∀ id, after.outline id =
        (cache.outline id).filter fun held => held.1 != candidate.requestId) := by
  rcases created : cache.createSequence candidate.metadata with ⟨_ | _, opened⟩
  · left
    rw [openRoot, created, KVCacheManager.createSequence_refused created]
  · right
    obtain ⟨absent, outline⟩ := KVCacheManager.outline_createSequence created
    rw [plain.tableCount] at outline
    have plain' := KVCacheManager.plain_step (.createSequence candidate.metadata) plain
    have gauged' := KVCacheManager.gauged_step (.createSequence candidate.metadata) trivial gauged
    simp only [KVCacheManager.step, created] at plain' gauged'
    have first : OpenedWith cache opened candidate.rootSequenceId candidate.requestId 0 := outline
    obtain ⟨grown, size, changed, small, plain'', ended⟩ :=
      openRoot_created plain' gauged' created first.held
    refine ⟨absent, ?_⟩
    rcases ended with admitted | refused
    · exact Or.inl ⟨grown, size, admitted, first.trans changed, small⟩
    · exact Or.inr ⟨_, refused, (first.trans changed).released plain''.listed absent⟩

end Scheduler

end QwenVLPaged
