import QwenVLPaged.CacheRun

/-!
# Block tables for device kernels

Python hands the kernels a flat list of frame numbers. The list is read off the entries without
asking where their contents are, so it agrees with `BlockTable.lookup` exactly while the sequence
is resident.
-/

namespace QwenVLPaged

/-! ## Numbering

The entries of a table are numbered from zero on, even where the 32-bit index of a new block wraps
around: it then replaces an entry. -/

/-- A table whose entries carry their positions as 32-bit indices. -/
structure BlockTable.Numbered (table : BlockTable) : Prop where
  indexed : table.Indexed
  bounded : table.entries.length ≤ 2 ^ 32

namespace BlockTable

theorem numbered_create (sequenceId : SequenceId) : (create sequenceId).Numbered :=
  ⟨indexed_create sequenceId, Nat.zero_le _⟩

theorem Numbered.fork {table : BlockTable} (numbered : table.Numbered) (child : SequenceId) :
    (table.fork child).Numbered :=
  ⟨numbered.indexed.fork child, by simpa [BlockTable.fork] using numbered.bounded⟩

theorem Numbered.modifyEntry {table : BlockTable} (numbered : table.Numbered) (index : ℕ)
    {update : BlockTableEntry → BlockTableEntry}
    (keeps : ∀ entry, (update entry).logical.index = entry.logical.index) :
    (table.modifyEntry index update).Numbered := by
  rw [numbered.indexed.modifyEntry_eq]
  exact ⟨numbered.indexed.modify index keeps, by simpa using numbered.bounded⟩

/-- Mapping an existing index replaces its entry. -/
theorem Indexed.map_existing {table : BlockTable} (indexed : table.Indexed)
    (logical : LogicalBlock) (inside : logical.index < table.entries.length)
    (physicalId : PhysicalBlockId) (writable : Bool) :
    table.map logical physicalId writable =
      { table with
        entries := table.entries.modify logical.index
          fun _ => ⟨logical, physicalId, writable, none⟩ } := by
  have found := indexed logical.index _ (List.getElem?_eq_getElem inside)
  simp only [BlockTable.map, indexed.fromIndex, indexed.beforeIndex,
    List.drop_eq_getElem_cons inside, found, if_true]
  rw [List.modify_eq_take_cons_drop inside]

/-- Mapping an index that exists or comes next keeps the numbering. -/
theorem Numbered.map {table : BlockTable} (numbered : table.Numbered) (logical : LogicalBlock)
    (next : logical.index ≤ table.entries.length) (small : logical.index < 2 ^ 32)
    (physicalId : PhysicalBlockId) (writable : Bool) :
    (table.map logical physicalId writable).Numbered ∧
      (table.map logical physicalId writable).entries.length =
        max table.entries.length (logical.index + 1) := by
  rcases next.lt_or_eq with inside | last
  · rw [numbered.indexed.map_existing logical inside]
    refine ⟨⟨?_, by simpa using numbered.bounded⟩, ?_⟩
    · intro position found member
      simp only [List.getElem?_modify, Option.map_eq_map, Option.map_eq_some_iff] at member
      obtain ⟨before, before_eq, rfl⟩ := member
      split
      · assumption
      · exact numbered.indexed position before before_eq
    · simp only [List.length_modify]
      omega
  · rw [numbered.indexed.map_next logical last]
    refine ⟨⟨numbered.indexed.append _ last, ?_⟩, ?_⟩
    · simp only [List.length_append, List.length_singleton]
      omega
    · simp only [List.length_append, List.length_singleton]
      omega

end BlockTable

namespace KVCacheManager

/-- The next index of a table is its size until all 32-bit indices are used. -/
theorem numbered_reserveBlocks {sequenceId : SequenceId} {tokensPerBlock base remaining : ℕ}
    {offset : ℕ} {allocator : MemoryAllocator} {table : BlockTable} (numbered : table.Numbered)
    (next : base + offset = table.entries.length ∨ table.entries.length = 2 ^ 32) :
    (reserveBlocks sequenceId tokensPerBlock base remaining offset allocator
      table).2.2.Numbered := by
  induction remaining generalizing offset allocator table with
  | zero => exact numbered
  | succ remaining induction =>
      rw [reserveBlocks]
      split
      · exact numbered
      · have bounded := numbered.bounded
        have small := wrap32_lt (base + offset)
        have below : wrap32 (base + offset) ≤ table.entries.length := by
          rcases next with equal | full
          · exact equal ▸ Nat.mod_le _ _
          · omega
        rename_i physical taken _
        obtain ⟨mapped, length⟩ := numbered.map
          { sequenceId
            index := wrap32 (base + offset)
            cacheKind := table.cacheKind
            startToken := wrap32 (wrap32 (base + offset) * tokensPerBlock)
            tokenCount := tokensPerBlock } below small physical true
        refine induction mapped ?_
        rw [length]
        simp only
        by_cases room : base + offset < 2 ^ 32
        · rw [wrap32_of_lt room]
          omega
        · omega

theorem numbered_reserveTables {sequenceId : SequenceId} {tokensPerBlock blocks : ℕ}
    {allocator : MemoryAllocator} {tables : List BlockTable}
    (numbered : ∀ table ∈ tables, table.Numbered) :
    ∀ table ∈ (reserveTables sequenceId tokensPerBlock blocks allocator tables).2.2,
      table.Numbered := by
  induction tables generalizing allocator with
  | nil => exact numbered
  | cons table tables induction =>
      obtain ⟨first, others⟩ := List.forall_mem_cons.mp numbered
      have next : wrap32 table.size + 0 = table.entries.length ∨
          table.entries.length = 2 ^ 32 := by
        rcases first.bounded.lt_or_eq with room | full
        · exact Or.inl (wrap32_of_lt room)
        · exact Or.inr full
      have grown : (reserveBlocks sequenceId tokensPerBlock (wrap32 table.size) blocks 0 allocator
          table).2.2.Numbered := numbered_reserveBlocks first next
      rw [reserveTables]
      split
      · rename_i stopped
        rw [stopped] at grown
        exact List.forall_mem_cons.mpr ⟨grown, others⟩
      · rename_i reserved
        rw [reserved] at grown
        exact List.forall_mem_cons.mpr ⟨grown, induction others⟩

theorem numbered_attachBlocks {sequenceId : SequenceId} {tokensPerBlock index : ℕ}
    {ids : List PhysicalBlockId} {allocator : MemoryAllocator} {table : BlockTable}
    (numbered : table.Numbered)
    (next : index ≤ table.entries.length ∨ table.entries.length = 2 ^ 32) :
    (attachBlocks sequenceId tokensPerBlock index ids allocator table).2.Numbered := by
  induction ids generalizing index allocator table with
  | nil => exact numbered
  | cons physical ids induction =>
      have bounded := numbered.bounded
      have small := wrap32_lt index
      have below : wrap32 index ≤ table.entries.length := by
        rcases next with inside | full
        · exact (Nat.mod_le _ _).trans inside
        · omega
      obtain ⟨mapped, length⟩ := numbered.map
        { sequenceId
          index := wrap32 index
          cacheKind := table.cacheKind
          startToken := wrap32 (index * tokensPerBlock)
          tokenCount := tokensPerBlock } below small physical false
      rw [attachBlocks]
      refine induction mapped ?_
      rw [length]
      simp only
      by_cases room : index < 2 ^ 32
      · rw [wrap32_of_lt room]
        omega
      · omega

theorem numbered_attachTables {sequenceId : SequenceId} {tokensPerBlock idsPerTable : ℕ}
    {ids : List PhysicalBlockId} {allocator : MemoryAllocator} {tables : List BlockTable}
    (numbered : ∀ table ∈ tables, table.Numbered) :
    ∀ table ∈ (attachTables sequenceId tokensPerBlock idsPerTable ids allocator tables).2,
      table.Numbered := by
  induction tables generalizing ids allocator with
  | nil => exact numbered
  | cons table tables induction =>
      obtain ⟨first, others⟩ := List.forall_mem_cons.mp numbered
      rw [attachTables]
      refine List.forall_mem_cons.mpr ⟨?_, induction others⟩
      exact numbered_attachBlocks first (Or.inl (Nat.zero_le _))

theorem numbered_swapOutEntries {allocator : MemoryAllocator} {table : BlockTable}
    {indices : List ℕ} (numbered : table.Numbered) :
    (swapOutEntries allocator table indices).2.2.Numbered := by
  induction indices generalizing allocator table with
  | nil => exact numbered
  | cons index indices induction =>
      rw [swapOutEntries]
      split
      · exact induction numbered
      split
      · exact induction numbered
      · exact induction (numbered.modifyEntry index fun _ => rfl)

theorem numbered_swapOutTables {allocator : MemoryAllocator} {tables : List BlockTable}
    (numbered : ∀ table ∈ tables, table.Numbered) :
    ∀ table ∈ (swapOutTables allocator tables).2.2, table.Numbered := by
  induction tables generalizing allocator with
  | nil => exact numbered
  | cons table tables induction =>
      obtain ⟨first, others⟩ := List.forall_mem_cons.mp numbered
      rw [swapOutTables]
      exact List.forall_mem_cons.mpr ⟨numbered_swapOutEntries first, induction others⟩

theorem numbered_swapInEntries {allocator : MemoryAllocator} {table : BlockTable}
    {positions : List ℕ} (numbered : table.Numbered) :
    (swapInEntries allocator table positions).2.2.Numbered := by
  induction positions generalizing allocator table with
  | nil => exact numbered
  | cons position positions induction =>
      rw [swapInEntries]
      split
      · exact induction numbered
      split
      · exact induction numbered
      split
      · exact numbered
      split
      · exact numbered
      · exact induction (numbered.modifyEntry _ fun _ => rfl)

theorem numbered_swapInTables {allocator : MemoryAllocator} {tables : List BlockTable}
    (numbered : ∀ table ∈ tables, table.Numbered) :
    ∀ table ∈ (swapInTables allocator tables).2.2, table.Numbered := by
  induction tables generalizing allocator with
  | nil => exact numbered
  | cons table tables induction =>
      obtain ⟨first, others⟩ := List.forall_mem_cons.mp numbered
      have restored : (swapInEntries allocator table (List.range table.size)).2.2.Numbered :=
        numbered_swapInEntries first
      rw [swapInTables]
      split
      · rename_i stopped
        rw [stopped] at restored
        exact List.forall_mem_cons.mpr ⟨restored, others⟩
      · rename_i done
        rw [done] at restored
        exact List.forall_mem_cons.mpr ⟨restored, induction others⟩

/-- Every table of every sequence is numbered. -/
def Numbered (sequences : AList fun _ : SequenceId => SequenceState) : Prop :=
  ∀ id state, sequences.lookup id = some state → ∀ table ∈ state.tables, table.Numbered

theorem Numbered.insert {sequences : AList fun _ : SequenceId => SequenceState}
    (numbered : Numbered sequences) {id : SequenceId} {state : SequenceState}
    (tables : ∀ table ∈ state.tables, table.Numbered) : Numbered (sequences.insert id state) := by
  intro other found lookup
  by_cases same : other = id
  · subst same
    rw [AList.lookup_insert] at lookup
    exact Option.some.inj lookup ▸ tables
  · rw [AList.lookup_insert_ne same] at lookup
    exact numbered other found lookup

theorem numbered_createSequence {manager : KVCacheManager} (numbered : Numbered manager.sequences)
    (metadata : SequenceMetadata) : Numbered (manager.createSequence metadata).2.sequences := by
  unfold createSequence
  split
  · exact numbered
  · refine numbered.insert fun table member => ?_
    rw [List.eq_of_mem_replicate member]
    exact BlockTable.numbered_create _

theorem numbered_forkSequence {manager : KVCacheManager} (numbered : Numbered manager.sequences)
    (parentId : SequenceId) (childMetadata : SequenceMetadata) :
    Numbered (manager.forkSequence parentId childMetadata).2.sequences := by
  unfold forkSequence
  split
  · exact numbered
  rename_i parent found
  split
  · exact numbered
  split
  · exact numbered
  · refine numbered.insert fun table member => ?_
    obtain ⟨forked, inside, rfl⟩ := List.mem_map.mp member
    exact (numbered parentId parent found forked inside).fork _

theorem numbered_reserveTokens {manager : KVCacheManager} (numbered : Numbered manager.sequences)
    (sequenceId : SequenceId) (tokenCount : ℕ) :
    Numbered (manager.reserveTokens sequenceId tokenCount).2.sequences := by
  unfold reserveTokens
  split
  · exact numbered
  rename_i state found
  split
  · exact numbered
  simp only
  split
  · exact numbered
  · exact numbered.insert (numbered_reserveTables (numbered sequenceId state found))

theorem numbered_ensureTokenWritable {manager : KVCacheManager}
    (numbered : Numbered manager.sequences) (sequenceId : SequenceId) (tokenPosition layer : ℕ) :
    Numbered (manager.ensureTokenWritable sequenceId tokenPosition layer).2.sequences := by
  have update {state : SequenceState} {table : BlockTable} (physicalId : PhysicalBlockId)
      (index : ℕ) (found : manager.sequences.lookup sequenceId = some state)
      (table_eq : state.tables[layer]? = some table) :
      Numbered (manager.sequences.insert sequenceId
        { state with tables := state.tables.set layer (table.modifyEntry index fun entry =>
          { entry with physicalId, writable := true }) }) := by
    refine numbered.insert fun other member => ?_
    rcases List.mem_or_eq_of_mem_set member with old | rfl
    · exact numbered sequenceId state found other old
    · exact (numbered sequenceId state found table (List.mem_of_getElem? table_eq)).modifyEntry
        index fun _ => rfl
  unfold ensureTokenWritable
  split
  · exact numbered
  rename_i state found
  split
  · exact numbered
  rename_i table table_eq
  simp only
  repeat' split
  all_goals first
    | exact numbered
    | exact update _ _ found table_eq

theorem numbered_swapOutSequence {manager : KVCacheManager}
    (numbered : Numbered manager.sequences) (sequenceId : SequenceId) :
    Numbered (manager.swapOutSequence sequenceId).2.sequences := by
  unfold swapOutSequence
  split
  · exact numbered
  · rename_i state found
    exact numbered.insert (numbered_swapOutTables (numbered sequenceId state found))

theorem numbered_swapInSequence {manager : KVCacheManager}
    (numbered : Numbered manager.sequences) (sequenceId : SequenceId) :
    Numbered (manager.swapInSequence sequenceId).2.sequences := by
  unfold swapInSequence
  split
  · exact numbered
  rename_i state found
  simp only
  split
  · exact numbered
  split
  · exact numbered
  · exact numbered.insert (numbered_swapInTables (numbered sequenceId state found))

theorem numbered_publishPrefix {manager : KVCacheManager} (numbered : Numbered manager.sequences)
    (sequenceId : SequenceId) (key : String) :
    Numbered (manager.publishPrefix sequenceId key).2.sequences := by
  have named (hash : UInt64) {state : SequenceState}
      (found : manager.sequences.lookup sequenceId = some state) :
      Numbered (manager.sequences.insert sequenceId
        { state with prefixKey := key, prefixHash := hash }) :=
    numbered.insert (numbered sequenceId state found)
  unfold publishPrefix
  split
  · exact numbered
  split
  · exact numbered
  rename_i state found
  simp only
  repeat' split
  all_goals first
    | exact numbered
    | exact named _ found

theorem numbered_attachPrefix {manager : KVCacheManager} (numbered : Numbered manager.sequences)
    (sequenceId : SequenceId) (key : String) :
    Numbered (manager.attachPrefix sequenceId key).2.sequences := by
  unfold attachPrefix
  split
  · exact numbered
  split
  · exact numbered
  rename_i state found
  simp only
  repeat' split
  all_goals first
    | exact numbered
    | exact numbered.insert (numbered_attachTables (numbered sequenceId state found))

theorem numbered_releaseSequence {manager : KVCacheManager}
    (numbered : Numbered manager.sequences) (sequenceId : SequenceId) :
    Numbered (manager.releaseSequence sequenceId).sequences := by
  rw [sequences_releaseSequence]
  intro id state lookup
  by_cases same : id = sequenceId
  · subst same
    simp at lookup
  · rw [AList.lookup_erase_ne same] at lookup
    exact numbered id state lookup

theorem numbered_step {manager : KVCacheManager} (numbered : Numbered manager.sequences)
    (op : CacheOp) : Numbered (manager.step op).sequences := by
  cases op with
  | createSequence metadata => exact numbered_createSequence numbered metadata
  | forkSequence parentId childMetadata => exact numbered_forkSequence numbered _ _
  | reserveTokens sequenceId tokenCount => exact numbered_reserveTokens numbered _ _
  | ensureTokenWritable sequenceId token layer => exact numbered_ensureTokenWritable numbered _ _ _
  | writeToken sequenceId token layer stores =>
      have writable := numbered_ensureTokenWritable numbered sequenceId token layer
      rw [step, writeToken]
      split
      · rename_i refused
        rwa [refused] at writable
      · rename_i granted
        rwa [granted] at writable
  | swapOutSequence sequenceId => exact numbered_swapOutSequence numbered sequenceId
  | swapOutRequest requestId =>
      exact swapOutSequences_induction (motive := fun manager => Numbered manager.sequences)
        (fun _ _ numbered => numbered_swapOutSequence numbered _) numbered _
  | swapInSequence sequenceId => exact numbered_swapInSequence numbered sequenceId
  | swapInRequest requestId =>
      exact swapInRequest_induction (motive := fun manager => Numbered manager.sequences)
        (fun _ _ numbered => numbered_swapInSequence numbered _) numbered _
  | publishPrefix sequenceId key => exact numbered_publishPrefix numbered _ _
  | attachPrefix sequenceId key => exact numbered_attachPrefix numbered _ _
  | releaseSequence sequenceId => exact numbered_releaseSequence numbered _
  | releaseRequest requestId =>
      exact releaseRequest_induction (motive := fun manager => Numbered manager.sequences)
        (fun _ _ numbered => numbered_releaseSequence numbered _) numbered _

theorem numbered_run (allocator : MemoryAllocator) (ops : List CacheOp) :
    Numbered ((create allocator).run ops).sequences :=
  Execution.run_induction (motive := fun (manager : KVCacheManager) _ => Numbered manager.sequences)
    (fun _ op _ numbered => numbered_step numbered op) (by simp [Numbered, create])

/-! ## The flattened table -/

/-- The list that the Python binding returns, or the text of its exception. -/
def blockTableOf (manager : KVCacheManager) (sequenceId : SequenceId) :
    Except String (List PhysicalBlockId) :=
  match manager.cacheView sequenceId .textKV with
  | none => .error ("no cache view for sequence " ++ toString sequenceId)
  | some view =>
      .ok ((view.blockTable.map fun table => table.entries.map (·.physicalId)).getD [])

/-- The flattened table of a sequence faults like the page table: it holds what `lookup` resolves
at every position, and there is none while a block is swapped out. -/
structure FaultsLikeLookup (manager : KVCacheManager) (sequenceId : SequenceId) : Prop where
  frames : ∀ state frames, manager.sequences.lookup sequenceId = some state →
    manager.blockTableOf sequenceId = .ok frames →
    frames.length = state.textTable.size ∧
      ∀ (position : ℕ) (frame : PhysicalBlockId), frames[position]? = some frame →
        state.textTable.lookup position = some frame
  swapped : ∀ state, manager.sequences.lookup sequenceId = some state →
    (∃ table ∈ state.tables, ∃ entry ∈ table.entries, entry.swapSlot.isSome) →
    ∃ message, manager.blockTableOf sequenceId = .error message

/-- No logical block of the sequence is swapped out. -/
def Resident (manager : KVCacheManager) (sequenceId : SequenceId) : Prop :=
  ∀ state, manager.sequences.lookup sequenceId = some state →
    ∀ table ∈ state.tables, ∀ entry ∈ table.entries, entry.swapSlot = none

theorem blockTableOf_eq {manager : KVCacheManager} {sequenceId : SequenceId}
    {state : SequenceState} (found : manager.sequences.lookup sequenceId = some state) :
    manager.blockTableOf sequenceId =
      .ok (state.textTable.entries.map (·.physicalId)) := by
  simp [blockTableOf, cacheView, found]

/-- In every reachable state the flattened table of a sequence faults like the page table exactly
when nothing of the sequence is swapped out. -/
theorem block_table_faults_iff_resident (allocator : MemoryAllocator) (ops : List CacheOp)
    (sequenceId : SequenceId) :
    ((create allocator).run ops).FaultsLikeLookup sequenceId ↔
      ((create allocator).run ops).Resident sequenceId := by
  have numbered := numbered_run allocator ops
  generalize (create allocator).run ops = manager at numbered ⊢
  constructor
  · intro faults state found table inside entry member
    by_contra swapped
    obtain ⟨message, refused⟩ := faults.swapped state found
      ⟨table, inside, entry, member, Option.isSome_iff_ne_none.mpr swapped⟩
    rw [blockTableOf_eq found] at refused
    simp at refused
  · intro resident
    refine ⟨?_, ?_⟩
    · intro state frames found returned
      rw [blockTableOf_eq found] at returned
      obtain rfl := Except.ok.inj returned
      refine ⟨List.length_map _, fun position frame at_position => ?_⟩
      rw [List.getElem?_map, Option.map_eq_some_iff] at at_position
      obtain ⟨entry, entry_eq, rfl⟩ := at_position
      have member := List.mem_of_getElem? entry_eq
      have inside := SequenceState.textTable_mem member
      have indexed := (numbered sequenceId state found _ inside).indexed
      rw [BlockTable.lookup, indexed.entry_eq, entry_eq]
      simp [resident state found _ inside entry member]
    · rintro state found ⟨table, inside, entry, member, swapped⟩
      simp [resident state found table inside entry member] at swapped

/-- The frame of a swapped-out block is handed to another sequence, and the flattened tables of
both name it. -/
theorem swapped_block_still_listed :
    let manager := (create (.create ⟨⟨1, 1, 1, 1, 1, 0⟩, 1, 1, one_lt_word⟩ (fun _ => 0)
      (some (.create 1)))).run
      [.createSequence ⟨1, 1⟩, .reserveTokens 1 1, .swapOutSequence 1, .createSequence ⟨2, 2⟩,
        .reserveTokens 2 1]
    (manager.blockTableOf 1).toOption = some [0] ∧ (manager.blockTableOf 2).toOption = some [0] ∧
      (manager.sequences.lookup 1).map (·.textTable.lookup 0) = some none ∧
      (manager.sequences.lookup 2).map (·.textTable.lookup 0) = some (some 0) := by
  decide +kernel

end KVCacheManager
end QwenVLPaged
