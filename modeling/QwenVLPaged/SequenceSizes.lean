import QwenVLPaged.ReserveExactness

/-!
# Owners and sizes of sequences

For which request a sequence was opened and how many blocks its tables map. Swapping, publishing
and making a token writable change neither; a reservation and an attached prefix change the size of
one sequence, and a release forgets the sequences of one request.
-/

namespace QwenVLPaged

namespace BlockTable

@[simp]
theorem size_modifyEntry (table : BlockTable) (index : ℕ)
    (update : BlockTableEntry → BlockTableEntry) :
    (table.modifyEntry index update).size = table.size := by
  have parts : beforeIndex table.entries index ++ fromIndex table.entries index = table.entries :=
    List.takeWhile_append_dropWhile
  unfold modifyEntry
  split
  · rename_i found rest equal
    split
    · conv_rhs => rw [size, ← parts, equal]
      simp [size]
    · rfl
  · rfl

theorem size_map_le (table : BlockTable) (logical : LogicalBlock) (physicalId : PhysicalBlockId)
    (writable : Bool) : (table.map logical physicalId writable).size ≤ table.size + 1 := by
  have parts := congrArg List.length (List.takeWhile_append_dropWhile
    (p := fun entry : BlockTableEntry => decide (entry.logical.index < logical.index))
    (l := table.entries))
  rw [List.length_append] at parts
  simp only [map, beforeIndex, fromIndex]
  split
  · rename_i found rest equal
    rw [equal, List.length_cons] at parts
    split
    · simp only [size, List.length_append, List.length_cons]
      omega
    · simp only [size, equal, List.length_append, List.length_cons]
      omega
  · rename_i equal
    rw [equal, List.length_nil] at parts
    simp only [size, List.length_append, List.length_cons, List.length_nil]
    omega

end BlockTable

namespace KVCacheManager

/-- Owner of a live sequence and the sizes of its tables. -/
def outline (manager : KVCacheManager) (id : SequenceId) : Option (RequestId × List ℕ) :=
  (manager.sequences.lookup id).map fun state =>
    (state.metadata.requestId, state.tables.map BlockTable.size)

theorem outline_eq_some {manager : KVCacheManager} {id : SequenceId} {owner : RequestId}
    {sizes : List ℕ} :
    manager.outline id = some (owner, sizes) ↔
      ∃ state, manager.sequences.lookup id = some state ∧ state.metadata.requestId = owner ∧
        state.tables.map BlockTable.size = sizes := by
  simp [outline]

theorem outline_eq_none {manager : KVCacheManager} {id : SequenceId} :
    manager.outline id = none ↔ manager.sequences.lookup id = none := by
  simp [outline]

theorem outline_of_insert (before : KVCacheManager) {after : KVCacheManager} {id : SequenceId}
    {state : SequenceState} (sequences : after.sequences = before.sequences.insert id state)
    (other : SequenceId) :
    after.outline other =
      if other = id then some (state.metadata.requestId, state.tables.map BlockTable.size)
      else before.outline other := by
  unfold outline
  rw [sequences]
  split
  · rename_i same
    rw [same, AList.lookup_insert]
    rfl
  · rename_i different
    rw [AList.lookup_insert_ne different]

/-- No sequence changed its owner or the sizes of its tables. -/
def SameOutline (before after : KVCacheManager) : Prop :=
  ∀ id, after.outline id = before.outline id

theorem sameOutline_of_insert {before after : KVCacheManager} {id : SequenceId}
    {state state' : SequenceState} (found : before.sequences.lookup id = some state)
    (sequences : after.sequences = before.sequences.insert id state')
    (owner : state'.metadata.requestId = state.metadata.requestId)
    (sizes : state'.tables.map BlockTable.size = state.tables.map BlockTable.size) :
    SameOutline before after := by
  intro other
  rw [outline_of_insert before sequences]
  split
  · rename_i same
    rw [same, outline, found, owner, sizes]
    rfl
  · rfl

/-! ## Calls that change no size -/

theorem size_swapOutEntries (allocator : MemoryAllocator) (table : BlockTable)
    (indices : List ℕ) : (swapOutEntries allocator table indices).2.2.size = table.size := by
  induction indices generalizing allocator table with
  | nil => rfl
  | cons index indices induction =>
      rw [swapOutEntries]
      split
      · exact induction allocator table
      · split
        · exact induction _ table
        · exact (induction _ _).trans (table.size_modifyEntry index _)

theorem sizes_swapOutTables (allocator : MemoryAllocator) (tables : List BlockTable) :
    (swapOutTables allocator tables).2.2.map BlockTable.size = tables.map BlockTable.size := by
  induction tables generalizing allocator with
  | nil => rfl
  | cons table tables induction =>
      rw [swapOutTables, List.map_cons, List.map_cons, induction, size_swapOutEntries]

theorem size_swapInEntries (allocator : MemoryAllocator) (table : BlockTable)
    (positions : List ℕ) : (swapInEntries allocator table positions).2.2.size = table.size := by
  induction positions generalizing allocator table with
  | nil => rfl
  | cons position positions induction =>
      rw [swapInEntries]
      split
      · exact induction allocator table
      · split
        · exact induction allocator table
        · split
          · rfl
          · split
            · rfl
            · exact (induction _ _).trans (table.size_modifyEntry _ _)

theorem sizes_swapInTables (allocator : MemoryAllocator) (tables : List BlockTable) :
    (swapInTables allocator tables).2.2.map BlockTable.size = tables.map BlockTable.size := by
  induction tables generalizing allocator with
  | nil => rfl
  | cons table tables induction =>
      have head := size_swapInEntries allocator table (List.range table.size)
      rw [swapInTables]
      split
      · rename_i failed
        rw [failed] at head
        rw [List.map_cons, List.map_cons, head]
      · rename_i after done restored
        rw [restored] at head
        rw [List.map_cons, List.map_cons, head, induction]

theorem sameOutline_swapOutSequence (manager : KVCacheManager) (sequenceId : SequenceId) :
    SameOutline manager (manager.swapOutSequence sequenceId).2 := by
  unfold swapOutSequence
  split
  · exact fun _ => rfl
  · rename_i state found
    exact sameOutline_of_insert found rfl rfl (sizes_swapOutTables _ _)

theorem sameOutline_swapInSequence (manager : KVCacheManager) (sequenceId : SequenceId) :
    SameOutline manager (manager.swapInSequence sequenceId).2 := by
  simp only [swapInSequence]
  split
  · exact fun _ => rfl
  · rename_i state found
    split
    · exact fun _ => rfl
    · split
      · exact fun _ => rfl
      · exact sameOutline_of_insert found rfl rfl (sizes_swapInTables _ _)

theorem sameOutline_swapOutRequest (manager : KVCacheManager) (requestId : RequestId) :
    SameOutline manager (manager.swapOutRequest requestId).2 :=
  swapOutSequences_induction (motive := SameOutline manager)
    (fun middle id same other => (sameOutline_swapOutSequence middle id other).trans (same other))
    (fun _ => rfl) _

theorem sameOutline_swapInRequest (manager : KVCacheManager) (requestId : RequestId) :
    SameOutline manager (manager.swapInRequest requestId).2 :=
  swapInRequest_induction (motive := SameOutline manager)
    (fun middle id same other => (sameOutline_swapInSequence middle id other).trans (same other))
    (fun _ => rfl) requestId

theorem map_size_set {tables : List BlockTable} {layer : ℕ} {table table' : BlockTable}
    (found : tables[layer]? = some table) (size : table'.size = table.size) :
    (tables.set layer table').map BlockTable.size = tables.map BlockTable.size := by
  obtain ⟨inside, rfl⟩ := List.getElem?_eq_some_iff.mp found
  rw [List.map_set, size]
  apply List.ext_getElem (by simp)
  intro index _ _
  by_cases same : layer = index
  · subst same
    simp
  · simp [same]

theorem sameOutline_ensureTokenWritable (manager : KVCacheManager) (sequenceId : SequenceId)
    (token layer : ℕ) :
    SameOutline manager (manager.ensureTokenWritable sequenceId token layer).2 := by
  simp only [ensureTokenWritable]
  split
  · exact fun _ => rfl
  · rename_i state found
    split
    · exact fun _ => rfl
    · rename_i table table_eq
      have written (after : MemoryAllocator) (index : ℕ)
          (update : BlockTableEntry → BlockTableEntry) :
          SameOutline manager { manager with
            allocator := after
            sequences := manager.sequences.insert sequenceId
              { state with tables := state.tables.set layer (table.modifyEntry index update) } } :=
        sameOutline_of_insert found rfl rfl (map_size_set table_eq (table.size_modifyEntry _ _))
      repeat' split
      all_goals first
        | exact fun _ => rfl
        | exact written _ _ _

theorem sameOutline_publishPrefix (manager : KVCacheManager) (sequenceId : SequenceId)
    (key : String) : SameOutline manager (manager.publishPrefix sequenceId key).2 := by
  simp only [publishPrefix]
  split
  · exact fun _ => rfl
  · split
    · exact fun _ => rfl
    · rename_i state found
      repeat' split
      all_goals first
        | exact fun _ => rfl
        | exact sameOutline_of_insert found rfl rfl rfl

/-! ## Opening -/

theorem outline_createSequence {manager after : KVCacheManager} {metadata : SequenceMetadata}
    (created : manager.createSequence metadata = (true, after)) :
    manager.outline metadata.sequenceId = none ∧ ∀ id, after.outline id =
      if id = metadata.sequenceId then
        some (metadata.requestId, List.replicate manager.tableCount 0)
      else manager.outline id := by
  unfold createSequence at created
  split at created
  · simp at created
  · rename_i absent
    obtain rfl := (Prod.mk.inj created).2
    refine ⟨outline_eq_none.mpr (by simpa using absent), fun id => ?_⟩
    rw [outline_of_insert manager rfl]
    simp [BlockTable.create, BlockTable.size]

theorem createSequence_refused {manager after : KVCacheManager} {metadata : SequenceMetadata}
    (refused : manager.createSequence metadata = (false, after)) : after = manager := by
  unfold createSequence at refused
  split at refused
  · exact (Prod.mk.inj refused).2.symm
  · simp at refused

/-- A child maps as much as its parent. -/
theorem outline_forkSequence {manager after : KVCacheManager} {parentId : SequenceId}
    {child : SequenceMetadata} (forked : manager.forkSequence parentId child = (true, after)) :
    ∃ owner sizes, manager.outline parentId = some (owner, sizes) ∧
      manager.outline child.sequenceId = none ∧ ∀ id, after.outline id =
        if id = child.sequenceId then some (child.requestId, sizes) else manager.outline id := by
  unfold forkSequence at forked
  split at forked
  · simp at forked
  · rename_i parent found
    split at forked
    · simp at forked
    · rename_i absent
      split at forked
      · simp at forked
      · obtain rfl := (Prod.mk.inj forked).2
        refine ⟨_, _, outline_eq_some.mpr ⟨parent, found, rfl, rfl⟩,
          outline_eq_none.mpr (by simpa using absent), fun id => ?_⟩
        rw [outline_of_insert manager rfl]
        simp [Function.comp_def, BlockTable.fork, BlockTable.size]
        rfl

theorem forkSequence_refused {manager after : KVCacheManager} {parentId : SequenceId}
    {child : SequenceMetadata} (refused : manager.forkSequence parentId child = (false, after)) :
    after = manager := by
  unfold forkSequence at refused
  repeat' split at refused
  all_goals first
    | exact (Prod.mk.inj refused).2.symm
    | simp at refused

/-! ## Growing -/

theorem size_reserveBlocks_le (sequenceId : SequenceId) (tokensPerBlock baseIndex : ℕ)
    (remaining offset : ℕ) (allocator : MemoryAllocator) (table : BlockTable) :
    (reserveBlocks sequenceId tokensPerBlock baseIndex remaining offset allocator table).2.2.size ≤
      table.size + remaining := by
  induction remaining generalizing offset allocator table with
  | zero => exact le_rfl
  | succ remaining induction =>
      rw [reserveBlocks]
      split
      · exact Nat.le_add_right _ _
      · rename_i physical taken _
        refine (induction _ taken _).trans ?_
        have grown := table.size_map_le ⟨sequenceId, wrap32 (baseIndex + offset), table.cacheKind,
          wrap32 (wrap32 (baseIndex + offset) * tokensPerBlock), tokensPerBlock⟩ physical true
        omega

theorem sizes_reserveTables_le (sequenceId : SequenceId) (tokensPerBlock blocks : ℕ)
    (allocator : MemoryAllocator) (tables : List BlockTable) :
    List.Forall₂ (fun table table' => BlockTable.size table' ≤ table.size + blocks) tables
      (reserveTables sequenceId tokensPerBlock blocks allocator tables).2.2 := by
  induction tables generalizing allocator with
  | nil => exact .nil
  | cons table tables induction =>
      have head := size_reserveBlocks_le sequenceId tokensPerBlock (wrap32 table.size) blocks 0
        allocator table
      rw [reserveTables]
      split
      · rename_i failed
        rw [failed] at head
        exact .cons head (List.forall₂_same.mpr fun _ _ => Nat.le_add_right _ _)
      · rename_i after grown reserved
        rw [reserved] at head
        exact .cons head (induction after)

theorem map_size_singleton {tables tables' : List BlockTable} {size blocks : ℕ}
    (related : List.Forall₂ (fun table table' => BlockTable.size table' ≤ table.size + blocks)
      tables tables') (single : tables.map BlockTable.size = [size]) :
    ∃ size', size' ≤ size + blocks ∧ tables'.map BlockTable.size = [size'] := by
  obtain ⟨table, rfl, rfl⟩ := List.map_eq_singleton_iff.mp single
  cases related with
  | cons head tail =>
      cases tail
      exact ⟨_, head, rfl⟩

theorem blocksNeeded_lt (tokenCount tokensPerBlock : ℕ) :
    blocksNeeded tokenCount tokensPerBlock < 2 ^ 32 :=
  (Nat.div_le_self _ _).trans_lt (wrap32_lt _)

theorem blocksNeeded_mul_lt {tokensPerBlock : ℕ} (positive : 0 < tokensPerBlock)
    (tokenCount : ℕ) :
    blocksNeeded tokenCount tokensPerBlock * tokensPerBlock < tokenCount + tokensPerBlock := by
  calc
    blocksNeeded tokenCount tokensPerBlock * tokensPerBlock ≤
        wrap32 (tokenCount + tokensPerBlock - 1) := Nat.div_mul_le_self _ _
    _ ≤ tokenCount + tokensPerBlock - 1 := Nat.mod_le _ _
    _ < tokenCount + tokensPerBlock := by omega

/-- A reservation grows the one table of its sequence by at most the blocks it needs. -/
theorem outline_reserveTokens {manager : KVCacheManager} {sequenceId : SequenceId}
    {owner : RequestId} {size : ℕ} (held : manager.outline sequenceId = some (owner, [size]))
    (tokenCount : ℕ) :
    ((manager.reserveTokens sequenceId tokenCount).1 = false →
      (manager.reserveTokens sequenceId tokenCount).2 = manager) ∧
    ∃ size' ≤ size + blocksNeeded tokenCount manager.tokensPerBlock,
      ∀ id, (manager.reserveTokens sequenceId tokenCount).2.outline id =
        if id = sequenceId then some (owner, [size']) else manager.outline id := by
  obtain ⟨state, found, rfl, sizes⟩ := outline_eq_some.mp held
  have width : state.tables.length = 1 := by simpa using congrArg List.length sizes
  have unchanged (id : SequenceId) : manager.outline id =
      if id = sequenceId then some (state.metadata.requestId, [size]) else manager.outline id := by
    split
    · rename_i same
      rw [same, held]
    · rfl
  constructor
  · refine reserveTokens_refused found ?_
    rw [width, Nat.mul_one]
    exact blocksNeeded_lt _ _
  · obtain ⟨size', bounded, sizes'⟩ := map_size_singleton
      (sizes_reserveTables_le sequenceId manager.tokensPerBlock
        (blocksNeeded tokenCount manager.tokensPerBlock) manager.allocator state.tables) sizes
    simp only [reserveTokens, found]
    split
    · exact ⟨size, Nat.le_add_right _ _, unchanged⟩
    · split
      · exact ⟨size, Nat.le_add_right _ _, unchanged⟩
      · refine ⟨size', bounded, fun id => ?_⟩
        rw [outline_of_insert manager rfl, sizes']

/-- A sequence with one table can be grown by a block if and only if a frame is free. -/
theorem reserveTokens_one {manager : KVCacheManager} (sound : manager.Sound)
    {sequenceId : SequenceId} {owner : RequestId} {size : ℕ}
    (held : manager.outline sequenceId = some (owner, [size]))
    (blocky : manager.tokensPerBlock ≠ 0) (few : manager.tokensPerBlock < 2 ^ 32) :
    ((manager.reserveTokens sequenceId 1).1 = true ↔ 0 < manager.allocator.freeList.length) ∧
      manager.allocator.freeList.length ≤
        (manager.reserveTokens sequenceId 1).2.allocator.freeList.length + 1 := by
  obtain ⟨state, found, -, sizes⟩ := outline_eq_some.mp held
  have width : state.tables.length = 1 := by simpa using congrArg List.length sizes
  have one : blocksNeeded 1 manager.tokensPerBlock = 1 := by
    rw [blocksNeeded, Nat.add_sub_cancel_left, wrap32_of_lt few,
      Nat.div_self (Nat.pos_of_ne_zero blocky)]
  by_cases free : 0 < manager.allocator.freeList.length
  · have enough : 1 * state.tables.length ≤ manager.allocator.freeList.length := by omega
    obtain ⟨allocator, tables, run_eq, result⟩ := reserveTokens_grows sound found blocky one enough
    obtain ⟨after, grown, takes_eq, taken⟩ := reserveTables_takes sequenceId manager.tokensPerBlock
      1 manager.allocator state.tables
    rw [run_eq] at takes_eq
    obtain ⟨-, rfl, -⟩ := Prod.mk.injEq .. ▸ takes_eq
    have lengths := congrArg List.length taken.free
    rw [List.length_append, List.length_take_of_le enough, width] at lengths
    rw [result]
    refine ⟨by simp [free], ?_⟩
    dsimp only
    omega
  · have refused : (manager.reserveTokens sequenceId 1).1 = false := by
      by_contra success
      have enough := reserveTokens_enough found (Bool.eq_true_of_not_eq_false success)
      rw [one, width] at enough
      omega
    exact ⟨by simp [refused, free], by omega⟩

/-! ## Attaching a prefix -/

theorem size_attachBlocks_le (sequenceId : SequenceId) (tokensPerBlock index : ℕ)
    (ids : List PhysicalBlockId) (allocator : MemoryAllocator) (table : BlockTable) :
    (attachBlocks sequenceId tokensPerBlock index ids allocator table).2.size ≤
      table.size + ids.length := by
  induction ids generalizing index allocator table with
  | nil => exact le_rfl
  | cons physical ids induction =>
      rw [attachBlocks, List.length_cons]
      refine (induction _ _ _).trans ?_
      have grown := table.size_map_le ⟨sequenceId, wrap32 index, table.cacheKind,
        wrap32 (index * tokensPerBlock), tokensPerBlock⟩ physical false
      omega

/-- Attaching does nothing, or maps the frames of the one record under the key. -/
theorem outline_attachPrefix {manager : KVCacheManager} {sequenceId : SequenceId}
    {owner : RequestId} (held : manager.outline sequenceId = some (owner, [0])) (key : String) :
    manager.attachPrefix sequenceId key = (0, manager) ∨
    ∃ record after size, manager.prefixIndex.lookup key = some [record] ∧
      manager.attachPrefix sequenceId key = (record.tokenCount, after) ∧
      size ≤ record.physicalIds.length ∧
      ∀ id, after.outline id =
        if id = sequenceId then some (owner, [size]) else manager.outline id := by
  obtain ⟨state, found, rfl, sizes⟩ := outline_eq_some.mp held
  obtain ⟨table, tables, empty⟩ := List.map_eq_singleton_iff.mp sizes
  simp only [attachPrefix, found]
  split
  · exact Or.inl rfl
  · split
    · exact Or.inl rfl
    · split
      · rename_i record published
        split
        · exact Or.inl rfl
        · split
          · exact Or.inl rfl
          · have bounded := size_attachBlocks_le sequenceId manager.tokensPerBlock 0
              (record.physicalIds.take (record.physicalIds.length / state.tables.length))
              manager.allocator table
            rw [empty, List.length_take] at bounded
            refine Or.inr ⟨record, _, (attachBlocks sequenceId manager.tokensPerBlock 0
              (record.physicalIds.take (record.physicalIds.length / state.tables.length))
              manager.allocator table).2.size, published, rfl, by omega, fun id => ?_⟩
            rw [outline_of_insert manager rfl]
            simp [tables, attachTables]
      · exact Or.inl rfl

/-! ## Releasing -/

theorem outline_releaseSequence (manager : KVCacheManager) (sequenceId id : SequenceId) :
    (manager.releaseSequence sequenceId).outline id =
      if id = sequenceId then none else manager.outline id := by
  unfold outline
  rw [sequences_releaseSequence]
  split
  · rename_i same
    rw [same, AList.lookup_erase]
    rfl
  · rename_i different
    rw [AList.lookup_erase_ne different]

theorem outline_releaseSequences (manager : KVCacheManager) (ids : List SequenceId)
    (id : SequenceId) :
    (ids.foldl releaseSequence manager).outline id =
      if id ∈ ids then none else manager.outline id := by
  induction ids generalizing manager with
  | nil => simp
  | cons first ids induction =>
      rw [List.foldl_cons, induction, outline_releaseSequence]
      by_cases later : id ∈ ids
      · simp [later]
      · by_cases same : id = first
        · simp [same]
        · simp [later, same]

/-- Releasing a request forgets its sequences and no others. -/
theorem outline_releaseRequest {manager : KVCacheManager} (listed : manager.Listed)
    (requestId : RequestId) (id : SequenceId) :
    (manager.releaseRequest requestId).outline id =
      (manager.outline id).filter fun held => held.1 != requestId := by
  rw [releaseRequest, outline_releaseSequences]
  have same : id ∈ manager.sequencesFor requestId ↔
      ∃ sizes, manager.outline id = some (requestId, sizes) := by
    rw [listed.members]
    simp [outline_eq_some]
  rcases held : manager.outline id with _ | ⟨owner, sizes⟩
  · simp
  · rw [held] at same
    by_cases owned : owner = requestId
    · rw [if_pos (same.mpr ⟨sizes, by rw [owned]⟩), Option.filter_some, owned]
      simp
    · rw [if_neg (fun member => owned (by simpa using same.mp member)), Option.filter_some]
      simp [owned]

end KVCacheManager
end QwenVLPaged
