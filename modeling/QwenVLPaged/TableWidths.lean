import QwenVLPaged.SequenceSizes

/-!
# Every sequence has all its tables

A sequence is opened with one table per layer, or with a single one, and no call adds or removes a
table. This holds in every state of a manager, whatever its counters did.
-/

namespace QwenVLPaged

namespace KVCacheManager

/-- Every live sequence has this many tables. -/
def Wide (count : ℕ) (manager : KVCacheManager) : Prop :=
  ∀ id state, manager.sequences.lookup id = some state → state.tables.length = count

theorem Wide.of_outline {count : ℕ} {before after : KVCacheManager} (wide : before.Wide count)
    (same : SameOutline before after) : after.Wide count := by
  intro id state found
  have outlined := same id
  rw [outline, outline, found] at outlined
  obtain ⟨old, held, sizes⟩ := Option.map_eq_some_iff.mp outlined.symm
  have lengths := congrArg (fun pair => pair.2.length) sizes
  simp only [List.length_map] at lengths
  exact lengths.symm.trans (wide id old held)

theorem Wide.insert {count : ℕ} {before after : KVCacheManager} (wide : before.Wide count)
    {id : SequenceId} {state : SequenceState}
    (sequences : after.sequences = before.sequences.insert id state)
    (width : state.tables.length = count) : after.Wide count := by
  intro other found held
  rw [sequences] at held
  by_cases same : other = id
  · rw [same, AList.lookup_insert, Option.some.injEq] at held
    exact held ▸ width
  · rw [AList.lookup_insert_ne same] at held
    exact wide other found held

theorem Wide.releaseSequence {count : ℕ} {manager : KVCacheManager} (wide : manager.Wide count)
    (sequenceId : SequenceId) : (manager.releaseSequence sequenceId).Wide count := by
  intro id state found
  rw [sequences_releaseSequence] at found
  by_cases same : id = sequenceId
  · rw [same, AList.lookup_erase] at found
    simp at found
  · rw [AList.lookup_erase_ne same] at found
    exact wide id state found

theorem length_attachTables (sequenceId : SequenceId) (tokensPerBlock idsPerTable : ℕ)
    (ids : List PhysicalBlockId) (allocator : MemoryAllocator) (tables : List BlockTable) :
    (attachTables sequenceId tokensPerBlock idsPerTable ids allocator tables).2.length =
      tables.length := by
  induction tables generalizing ids allocator with
  | nil => rfl
  | cons table tables induction =>
      rw [attachTables]
      exact congrArg Nat.succ (induction _ _)

theorem Wide.attachPrefix {count : ℕ} {manager : KVCacheManager} (wide : manager.Wide count)
    (sequenceId : SequenceId) (key : String) :
    (manager.attachPrefix sequenceId key).2.Wide count := by
  rcases found : manager.sequences.lookup sequenceId with _ | state
  · simp only [KVCacheManager.attachPrefix, found, ite_self]
    exact wide
  · simp only [KVCacheManager.attachPrefix, found]
    have width := wide sequenceId state found
    repeat' split
    all_goals first
      | exact wide
      | exact wide.insert rfl ((length_attachTables _ _ _ _ _ _).trans width)

theorem Wide.reserveTokens {count : ℕ} {manager : KVCacheManager} (wide : manager.Wide count)
    (sequenceId : SequenceId) (tokenCount : ℕ) :
    (manager.reserveTokens sequenceId tokenCount).2.Wide count := by
  unfold KVCacheManager.reserveTokens
  split
  · exact wide
  · rename_i state found
    have same := (sizes_reserveTables_le sequenceId manager.tokensPerBlock
      (blocksNeeded tokenCount manager.tokensPerBlock) manager.allocator state.tables).length_eq
    split
    · exact wide
    · dsimp only
      split
      · exact wide
      · exact wide.insert rfl (same.symm.trans (wide sequenceId state found))

theorem Wide.forkSequence {count : ℕ} {manager : KVCacheManager} (wide : manager.Wide count)
    (parentId : SequenceId) (child : SequenceMetadata) :
    (manager.forkSequence parentId child).2.Wide count := by
  unfold KVCacheManager.forkSequence
  split
  · exact wide
  · rename_i parent found
    repeat' split
    all_goals first
      | exact wide
      | exact wide.insert rfl ((List.length_map _).trans (wide parentId parent found))

theorem wide_step {manager : KVCacheManager} (sound : manager.Sound)
    (wide : manager.Wide manager.allocator.config.tableCount) (op : CacheOp) :
    (manager.step op).Wide manager.allocator.config.tableCount := by
  cases op with
  | createSequence metadata =>
      have width := tableCount_eq sound.pool
      simp only [step, KVCacheManager.createSequence]
      split
      · exact wide
      · exact wide.insert rfl (List.length_replicate.trans width)
  | forkSequence parentId child => exact wide.forkSequence parentId child
  | reserveTokens sequenceId tokenCount => exact wide.reserveTokens sequenceId tokenCount
  | ensureTokenWritable sequenceId token layer =>
      exact wide.of_outline (sameOutline_ensureTokenWritable manager sequenceId token layer)
  | writeToken sequenceId token layer stores =>
      have kept := wide.of_outline
        (sameOutline_ensureTokenWritable manager sequenceId token layer)
      simp only [step, KVCacheManager.writeToken]
      split
      · rename_i refused
        rw [refused] at kept
        exact kept
      · rename_i granted
        rw [granted] at kept
        exact kept
  | swapOutSequence sequenceId =>
      exact wide.of_outline (sameOutline_swapOutSequence manager sequenceId)
  | swapOutRequest requestId =>
      exact wide.of_outline (sameOutline_swapOutRequest manager requestId)
  | swapInSequence sequenceId =>
      exact wide.of_outline (sameOutline_swapInSequence manager sequenceId)
  | swapInRequest requestId => exact wide.of_outline (sameOutline_swapInRequest manager requestId)
  | publishPrefix sequenceId key =>
      exact wide.of_outline (sameOutline_publishPrefix manager sequenceId key)
  | attachPrefix sequenceId key => exact wide.attachPrefix sequenceId key
  | releaseSequence sequenceId => exact wide.releaseSequence sequenceId
  | releaseRequest requestId =>
      exact releaseRequest_induction (fun _ id holds => holds.releaseSequence id) wide requestId

/-- In every state of a manager each sequence has the tables that the layout calls for. -/
theorem wide_run (config : AllocatorConfig) (slab : ℕ → UInt8) (maxSlots : ℕ)
    (ops : List CacheOp) :
    ((fresh config slab maxSlots).run ops).Sound ∧
      ((fresh config slab maxSlots).run ops).allocator.config = config ∧
      ((fresh config slab maxSlots).run ops).Wide config.tableCount := by
  have start : (fresh config slab maxSlots).Sound := by
    refine sound_create (MemoryAllocator.sound_create config slab _ fun installed same => ?_)
    rw [← Option.some.inj same]
    rfl
  have first : (fresh config slab maxSlots).Wide config.tableCount := by
    simp [Wide, fresh, create]
  refine Execution.run_induction (motive := fun (manager : KVCacheManager) _ => manager.Sound ∧
    manager.allocator.config = config ∧ manager.Wide config.tableCount) ?_ ⟨start, rfl, first⟩
  rintro manager op _ ⟨sound, rfl, wide⟩
  exact ⟨sound_step sound op, config_step sound op, wide_step sound wide op⟩

end KVCacheManager
end QwenVLPaged
