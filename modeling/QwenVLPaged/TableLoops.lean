import QwenVLPaged.CacheSoundness

/-!
# Rules for the loops over block tables

What a call does to the tables of a sequence it does block by block: evict one, restore one, map
one. A property of the pool and of the blocks of a sequence that each such step keeps is kept by
the whole loop.
-/

namespace QwenVLPaged

namespace KVCacheManager

/-- A list around one of its positions. -/
theorem split_at {entries : List BlockTableEntry} {position : ℕ} {entry : BlockTableEntry}
    (found : entries[position]? = some entry) :
    entries = entries.take position ++ entry :: entries.drop (position + 1) := by
  obtain ⟨inside, rfl⟩ := List.getElem?_eq_some_iff.mp found
  rw [← List.drop_eq_getElem_cons inside, List.take_append_drop]

theorem modify_at {entries : List BlockTableEntry} {position : ℕ} {entry : BlockTableEntry}
    (found : entries[position]? = some entry) (update : BlockTableEntry → BlockTableEntry) :
    entries.modify position update =
      entries.take position ++ update entry :: entries.drop (position + 1) := by
  obtain ⟨inside, rfl⟩ := List.getElem?_eq_some_iff.mp found
  exact List.modify_eq_take_cons_drop inside

/-! ## Evicting -/

/-- The effect of the evicting loop on a property of the pool and the blocks. -/
def EvictionKept (motive : MemoryAllocator → List BlockTableEntry → Prop) : Prop :=
  ∀ allocator after front entry back slot, motive allocator (front ++ entry :: back) →
    entry.swapSlot = none → allocator.swapOut entry.physicalId = (some slot, after) →
    motive after (front ++ { entry with swapSlot := some slot } :: back)

theorem EvictionKept.append_left {motive : MemoryAllocator → List BlockTableEntry → Prop}
    (kept : EvictionKept motive) (visited : List BlockTableEntry) :
    EvictionKept fun allocator entries => motive allocator (visited ++ entries) := by
  intro allocator after front entry back slot before resident evicted
  simp only [← List.append_assoc] at before ⊢
  exact kept allocator after _ entry back slot before resident evicted

theorem EvictionKept.append_right {motive : MemoryAllocator → List BlockTableEntry → Prop}
    (kept : EvictionKept motive) (rest : List BlockTableEntry) :
    EvictionKept fun allocator entries => motive allocator (entries ++ rest) := by
  intro allocator after front entry back slot before resident evicted
  simp only [List.append_assoc, List.cons_append] at before ⊢
  exact kept allocator after front entry _ slot before resident evicted

theorem swapOutEntries_rule {motive : MemoryAllocator → List BlockTableEntry → Prop}
    (kept : EvictionKept motive) {allocator : MemoryAllocator} {table : BlockTable}
    {indices : List ℕ} (indexed : table.Indexed) (distinct : indices.Nodup)
    (resident : ∀ index ∈ indices, ∀ entry, table.entries[index]? = some entry →
      entry.swapSlot = none) (start : motive allocator table.entries) :
    motive (swapOutEntries allocator table indices).2.1
      (swapOutEntries allocator table indices).2.2.entries := by
  induction indices generalizing allocator table with
  | nil => exact start
  | cons index indices induction =>
      obtain ⟨not_later, distinct⟩ := List.nodup_cons.mp distinct
      have later_resident : ∀ other ∈ indices, ∀ entry, table.entries[other]? = some entry →
          entry.swapSlot = none :=
        fun other member => resident other (List.mem_cons_of_mem _ member)
      rw [swapOutEntries, indexed.entry_eq]
      cases found : table.entries[index]? with
      | none => exact induction indexed distinct later_resident start
      | some entry =>
          simp only
          rcases swap_eq : allocator.swapOut entry.physicalId with ⟨_ | slot, after⟩
          · obtain rfl := MemoryAllocator.swapOut_eq_none swap_eq
            exact induction indexed distinct later_resident start
          · simp only [indexed.modifyEntry_eq]
            refine induction (indexed.modify index fun _ => rfl) distinct ?_ ?_
            · intro other member found_entry other_eq
              have different : index ≠ other := fun equal => not_later (equal ▸ member)
              simp only [List.getElem?_modify, different, if_false, Option.map_eq_map,
                Option.map_id'] at other_eq
              exact later_resident other member found_entry other_eq
            · rw [split_at found] at start
              rw [modify_at found]
              exact kept allocator after _ entry _ slot start
                (resident index List.mem_cons_self entry found) swap_eq

theorem swapOutTables_rule {motive : MemoryAllocator → List BlockTableEntry → Prop}
    (kept : EvictionKept motive) {allocator : MemoryAllocator} {tables : List BlockTable}
    (indexed : ∀ table ∈ tables, table.Indexed)
    (start : motive allocator (tables.flatMap (·.entries))) :
    motive (swapOutTables allocator tables).2.1
      ((swapOutTables allocator tables).2.2.flatMap (·.entries)) := by
  induction tables generalizing allocator motive with
  | nil => exact start
  | cons table tables induction =>
      have head_indexed := indexed table List.mem_cons_self
      have head := swapOutEntries_rule (kept.append_right (tables.flatMap (·.entries)))
        head_indexed (residentIndices_nodup head_indexed)
        (fun index member entry found => mem_residentIndices head_indexed member found) start
      exact induction (kept.append_left _)
        (fun other member => indexed other (List.mem_cons_of_mem _ member)) head

/-! ## Restoring -/

/-- The effect of the restoring loop on a property of the pool and the blocks. -/
structure RestorationKept (motive : MemoryAllocator → List BlockTableEntry → Prop) : Prop where
  moved : ∀ allocator after front entry back slot id, motive allocator (front ++ entry :: back) →
    entry.swapSlot = some slot → allocator.swapIn slot = (some id, after) →
    motive after (front ++ { entry with physicalId := id, swapSlot := none } :: back)
  failed : ∀ allocator after entries slot, motive allocator entries →
    allocator.swapIn slot = (none, after) → motive after entries

theorem RestorationKept.append_left {motive : MemoryAllocator → List BlockTableEntry → Prop}
    (kept : RestorationKept motive) (visited : List BlockTableEntry) :
    RestorationKept fun allocator entries => motive allocator (visited ++ entries) := by
  refine ⟨?_, fun allocator after entries slot before => kept.failed allocator after _ slot before⟩
  intro allocator after front entry back slot id before swapped restored
  simp only [← List.append_assoc] at before ⊢
  exact kept.moved allocator after _ entry back slot id before swapped restored

theorem RestorationKept.append_right {motive : MemoryAllocator → List BlockTableEntry → Prop}
    (kept : RestorationKept motive) (rest : List BlockTableEntry) :
    RestorationKept fun allocator entries => motive allocator (entries ++ rest) := by
  refine ⟨?_, fun allocator after entries slot before => kept.failed allocator after _ slot before⟩
  intro allocator after front entry back slot id before swapped restored
  simp only [List.append_assoc, List.cons_append] at before ⊢
  exact kept.moved allocator after front entry _ slot id before swapped restored

theorem swapInEntries_rule {motive : MemoryAllocator → List BlockTableEntry → Prop}
    (kept : RestorationKept motive) {allocator : MemoryAllocator} {table : BlockTable}
    (positions : List ℕ) (indexed : table.Indexed) (start : motive allocator table.entries) :
    motive (swapInEntries allocator table positions).2.1
      (swapInEntries allocator table positions).2.2.entries := by
  induction positions generalizing allocator table with
  | nil => exact start
  | cons position positions induction =>
      rw [swapInEntries]
      cases found : table.entries[position]? with
      | none => exact induction indexed start
      | some visited =>
          simp only
          split
          · exact induction indexed start
          · rw [indexed position visited found, indexed.entry_eq, found, Option.bind_some]
            cases slot_eq : visited.swapSlot with
            | none => exact start
            | some slot =>
                simp only
                rcases swap_eq : allocator.swapIn slot with ⟨_ | id, after⟩
                · exact kept.failed allocator after _ slot start swap_eq
                · simp only [indexed.modifyEntry_eq]
                  refine induction (indexed.modify position fun _ => rfl) ?_
                  rw [split_at found] at start
                  rw [modify_at found]
                  exact kept.moved allocator after _ visited _ slot id start slot_eq swap_eq

theorem swapInTables_rule {motive : MemoryAllocator → List BlockTableEntry → Prop}
    (kept : RestorationKept motive) {allocator : MemoryAllocator} {tables : List BlockTable}
    (indexed : ∀ table ∈ tables, table.Indexed)
    (start : motive allocator (tables.flatMap (·.entries))) :
    motive (swapInTables allocator tables).2.1
      ((swapInTables allocator tables).2.2.flatMap (·.entries)) := by
  induction tables generalizing allocator motive with
  | nil => exact start
  | cons table tables induction =>
      have head := swapInEntries_rule (kept.append_right (tables.flatMap (·.entries)))
        (List.range table.size) (indexed table List.mem_cons_self) start
      rw [swapInTables]
      rcases run_eq : swapInEntries allocator table (List.range table.size) with
        ⟨_ | _, middle, done⟩
      · rw [run_eq] at head
        exact head
      · rw [run_eq] at head
        exact induction (kept.append_left done.entries)
          (fun other member => indexed other (List.mem_cons_of_mem _ member)) head


/-! ## Mapping -/

/-- Mapping a block puts it between the entries in front of it and those behind it, in place of
the one with its index if there is one. -/
theorem entries_map (table : BlockTable) (logical : LogicalBlock) (physicalId : PhysicalBlockId)
    (writable : Bool) :
    ∃ front replaced back, table.entries = front ++ replaced ++ back ∧
      (table.map logical physicalId writable).entries =
        front ++ ⟨logical, physicalId, writable, none⟩ :: back := by
  have split : table.entries = BlockTable.beforeIndex table.entries logical.index ++
      BlockTable.fromIndex table.entries logical.index := List.takeWhile_append_dropWhile.symm
  simp only [BlockTable.map]
  split
  · rename_i found rest after_eq
    rw [after_eq] at split
    split
    · exact ⟨_, [found], rest, by simpa using split, rfl⟩
    · exact ⟨_, [], found :: rest, by simpa using split, by rw [after_eq]⟩
  · rename_i after_eq
    rw [after_eq] at split
    exact ⟨_, [], [], by simpa using split, rfl⟩

/-- The effect of a mapping loop on a property of the pool and the blocks, where the pool passes
the frame of the new block as `takes` says. -/
def MappingKept (takes : MemoryAllocator → PhysicalBlockId → MemoryAllocator → Prop)
    (writable : Bool) (motive : MemoryAllocator → List BlockTableEntry → Prop) : Prop :=
  ∀ allocator after front replaced back logical id, motive allocator (front ++ replaced ++ back) →
    takes allocator id after → motive after (front ++ ⟨logical, id, writable, none⟩ :: back)

theorem MappingKept.append_left
    {takes : MemoryAllocator → PhysicalBlockId → MemoryAllocator → Prop} {writable : Bool}
    {motive : MemoryAllocator → List BlockTableEntry → Prop}
    (kept : MappingKept takes writable motive) (visited : List BlockTableEntry) :
    MappingKept takes writable fun allocator entries => motive allocator (visited ++ entries) := by
  intro allocator after front replaced back logical id before taken
  simp only [← List.append_assoc] at before ⊢
  exact kept allocator after _ replaced back logical id before taken

theorem MappingKept.append_right
    {takes : MemoryAllocator → PhysicalBlockId → MemoryAllocator → Prop} {writable : Bool}
    {motive : MemoryAllocator → List BlockTableEntry → Prop}
    (kept : MappingKept takes writable motive) (rest : List BlockTableEntry) :
    MappingKept takes writable fun allocator entries => motive allocator (entries ++ rest) := by
  intro allocator after front replaced back logical id before taken
  rw [List.append_assoc] at before
  rw [List.append_assoc, List.cons_append]
  exact kept allocator after front replaced _ logical id before taken

theorem MappingKept.map {takes : MemoryAllocator → PhysicalBlockId → MemoryAllocator → Prop}
    {writable : Bool} {motive : MemoryAllocator → List BlockTableEntry → Prop}
    (kept : MappingKept takes writable motive) {allocator after : MemoryAllocator}
    {table : BlockTable} (start : motive allocator table.entries) (logical : LogicalBlock)
    {id : PhysicalBlockId} (taken : takes allocator id after) :
    motive after (table.map logical id writable).entries := by
  obtain ⟨front, replaced, back, entries, mapped⟩ := entries_map table logical id writable
  rw [entries] at start
  rw [mapped]
  exact kept allocator after front replaced back logical id start taken

/-- The pool hands out a free frame. -/
def Allocates (allocator : MemoryAllocator) (id : PhysicalBlockId) (after : MemoryAllocator) :
    Prop := allocator.allocate = (some id, after)

theorem reserveBlocks_rule {motive : MemoryAllocator → List BlockTableEntry → Prop}
    (kept : MappingKept Allocates true motive) (sequenceId : SequenceId)
    (tokensPerBlock baseIndex remaining offset : ℕ) {allocator : MemoryAllocator}
    {table : BlockTable} (start : motive allocator table.entries) :
    motive (reserveBlocks sequenceId tokensPerBlock baseIndex remaining offset allocator table).2.1
      (reserveBlocks sequenceId tokensPerBlock baseIndex remaining offset allocator
        table).2.2.entries := by
  induction remaining generalizing offset allocator table with
  | zero => exact start
  | succ remaining induction =>
      rw [reserveBlocks]
      rcases taken_eq : allocator.allocate with ⟨_ | id, after⟩
      · obtain ⟨-, rfl⟩ := MemoryAllocator.allocate_eq_none taken_eq
        exact start
      · exact induction (offset + 1) (kept.map start _ taken_eq)

theorem reserveTables_rule {motive : MemoryAllocator → List BlockTableEntry → Prop}
    (kept : MappingKept Allocates true motive) (sequenceId : SequenceId)
    (tokensPerBlock blocks : ℕ) {allocator : MemoryAllocator} {tables : List BlockTable}
    (start : motive allocator (tables.flatMap (·.entries))) :
    motive (reserveTables sequenceId tokensPerBlock blocks allocator tables).2.1
      ((reserveTables sequenceId tokensPerBlock blocks allocator tables).2.2.flatMap
        (·.entries)) := by
  induction tables generalizing allocator motive with
  | nil => exact start
  | cons table tables induction =>
      have head := reserveBlocks_rule (kept.append_right (tables.flatMap (·.entries))) sequenceId
        tokensPerBlock (wrap32 table.size) blocks 0 start
      rw [reserveTables]
      rcases run_eq : reserveBlocks sequenceId tokensPerBlock (wrap32 table.size) blocks 0
        allocator table with ⟨_ | _, middle, grown⟩
      · rw [run_eq] at head
        exact head
      · rw [run_eq] at head
        exact induction (kept.append_left grown.entries) head

/-- The pool shares one of the listed frames. -/
def Retains (ids : List PhysicalBlockId) (allocator : MemoryAllocator) (id : PhysicalBlockId)
    (after : MemoryAllocator) : Prop := id ∈ ids ∧ after = allocator.retain id

theorem attachBlocks_rule {motive : MemoryAllocator → List BlockTableEntry → Prop}
    {shared : List PhysicalBlockId} (kept : MappingKept (Retains shared) false motive)
    (sequenceId : SequenceId) (tokensPerBlock index : ℕ) {ids : List PhysicalBlockId}
    (listed : ids ⊆ shared) {allocator : MemoryAllocator} {table : BlockTable}
    (start : motive allocator table.entries) :
    motive (attachBlocks sequenceId tokensPerBlock index ids allocator table).1
      (attachBlocks sequenceId tokensPerBlock index ids allocator table).2.entries := by
  induction ids generalizing index allocator table with
  | nil => exact start
  | cons id ids induction =>
      have taken : Retains shared allocator id (allocator.retain id) :=
        ⟨listed List.mem_cons_self, rfl⟩
      exact induction (index + 1) (fun other member => listed (List.mem_cons_of_mem _ member))
        (kept.map start _ taken)

theorem attachTables_rule {motive : MemoryAllocator → List BlockTableEntry → Prop}
    {shared : List PhysicalBlockId} (kept : MappingKept (Retains shared) false motive)
    (sequenceId : SequenceId) (tokensPerBlock idsPerTable : ℕ) {ids : List PhysicalBlockId}
    (listed : ids ⊆ shared) {allocator : MemoryAllocator} {tables : List BlockTable}
    (start : motive allocator (tables.flatMap (·.entries))) :
    motive (attachTables sequenceId tokensPerBlock idsPerTable ids allocator tables).1
      ((attachTables sequenceId tokensPerBlock idsPerTable ids allocator tables).2.flatMap
        (·.entries)) := by
  induction tables generalizing allocator motive ids with
  | nil => exact start
  | cons table tables induction =>
      have front : ids.take idsPerTable ⊆ shared :=
        fun id member => listed (List.mem_of_mem_take member)
      have back : ids.drop idsPerTable ⊆ shared :=
        fun id member => listed (List.mem_of_mem_drop member)
      have head := attachBlocks_rule (kept.append_right (tables.flatMap (·.entries))) sequenceId
        tokensPerBlock 0 front start
      exact induction (kept.append_left _) back head


/-! ## Writing -/

/-- The block that holds a token, if the sequence has one. -/
def addressed (manager : KVCacheManager) (sequenceId : SequenceId) (token layer : ℕ) :
    Option BlockTableEntry := do
  let state ← manager.sequences.lookup sequenceId
  let table ← state.tables[layer]?
  let front ← table.entries.head?
  table.entry (token / front.logical.tokenCount)

/-- The tables with another frame for one block, which is marked writable. -/
def privatized (tables : List BlockTable) (layer : ℕ) (table : BlockTable) (index : ℕ)
    (frame : PhysicalBlockId) : List BlockTable :=
  tables.set layer
    { table with
      entries := table.entries.modify index fun entry =>
        { entry with physicalId := frame, writable := true } }

/-- One block of a sequence was made writable: it kept its frame, or it got a copy of it. -/
structure MadeWritable (before after : KVCacheManager) (id : SequenceId) (state : SequenceState)
    (layer : ℕ) (table : BlockTable) (index : ℕ) (entry : BlockTableEntry)
    (frame : PhysicalBlockId) : Prop where
  found : before.sequences.lookup id = some state
  table_eq : state.tables[layer]? = some table
  entry_eq : table.entries[index]? = some entry
  resident : entry.swapSlot = none
  sequences : after.sequences = before.sequences.insert id
    { state with tables := privatized state.tables layer table index frame }
  prefixIndex : after.prefixIndex = before.prefixIndex
  index_eq : after.sequencesByRequest = before.sequencesByRequest
  pool : before.allocator.refCount entry.physicalId ≤ 1 ∧ frame = entry.physicalId ∧
      after.allocator = before.allocator ∨
    ∃ taken, before.allocator.allocate = (some frame, taken) ∧
      after.allocator = (taken.copyBlock entry.physicalId frame).release entry.physicalId

theorem ensureTokenWritable_effect {manager : KVCacheManager} (sound : manager.Sound)
    (sequenceId : SequenceId) (token layer : ℕ) :
    (manager.ensureTokenWritable sequenceId token layer).2 = manager ∨
      ∃ state table index entry frame,
        manager.addressed sequenceId token layer = some entry ∧
        MadeWritable manager (manager.ensureTokenWritable sequenceId token layer).2 sequenceId
          state layer table index entry frame := by
  unfold ensureTokenWritable
  cases found : manager.sequences.lookup sequenceId with
  | none => exact Or.inl rfl
  | some state =>
      simp only
      cases table_eq : state.tables[layer]? with
      | none => exact Or.inl rfl
      | some table =>
          have indexed := (sound.regular sequenceId state found table
            (List.mem_of_getElem? table_eq)).indexed
          simp only
          split
          · exact Or.inl rfl
          · rename_i front others entries
            split
            · exact Or.inl rfl
            · split
              · exact Or.inl rfl
              · rename_i entry entry_eq
                split
                · exact Or.inl rfl
                · rename_i unswapped
                  split
                  · exact Or.inl rfl
                  · rename_i info info_eq
                    have resident : entry.swapSlot = none := by simpa using unswapped
                    have here : manager.addressed sequenceId token layer = some entry := by
                      simp [addressed, found, table_eq, entries, entry_eq]
                    have position := (indexed.entry_eq _).symm.trans entry_eq
                    have count := MemoryAllocator.refCount_eq_of_info info_eq
                    split
                    · rename_i low
                      refine Or.inr ⟨state, table, _, entry, entry.physicalId, here, found,
                        table_eq, position, resident, ?_, rfl, rfl,
                        Or.inl ⟨count ▸ low, rfl, rfl⟩⟩
                      rw [indexed.modifyEntry_eq]
                      rfl
                    · rcases taken_eq : manager.allocator.allocate with ⟨_ | copy, taken⟩
                      · obtain ⟨-, rfl⟩ := MemoryAllocator.allocate_eq_none taken_eq
                        exact Or.inl rfl
                      · refine Or.inr ⟨state, table, _, entry, copy, here, found, table_eq,
                          position, resident, ?_, rfl, rfl, Or.inr ⟨taken, taken_eq, rfl⟩⟩
                        simp only [indexed.modifyEntry_eq]
                        rfl

/-- The blocks of a sequence around the one that was made writable. -/
theorem entries_privatized {tables : List BlockTable} {layer index : ℕ} {table : BlockTable}
    {entry : BlockTableEntry} (table_eq : tables[layer]? = some table)
    (entry_eq : table.entries[index]? = some entry) (frame : PhysicalBlockId) :
    ∃ front back, tables.flatMap (·.entries) = front ++ entry :: back ∧
      (privatized tables layer table index frame).flatMap (·.entries) =
        front ++ { entry with physicalId := frame, writable := true } :: back := by
  obtain ⟨inside, rfl⟩ := List.getElem?_eq_some_iff.mp table_eq
  have split : tables = tables.take layer ++ tables[layer] :: tables.drop (layer + 1) := by
    rw [← List.drop_eq_getElem_cons inside, List.take_append_drop]
  refine ⟨(tables.take layer).flatMap (·.entries) ++ tables[layer].entries.take index,
    tables[layer].entries.drop (index + 1) ++ (tables.drop (layer + 1)).flatMap (·.entries),
    ?_, ?_⟩
  · conv_lhs => rw [split]
    rw [List.flatMap_append, List.flatMap_cons]
    conv_lhs => rw [split_at entry_eq]
    simp
  · rw [privatized, List.set_eq_take_append_cons_drop, if_pos inside, List.flatMap_append,
      List.flatMap_cons, modify_at entry_eq]
    simp

end KVCacheManager
end QwenVLPaged
