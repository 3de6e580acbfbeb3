import QwenVLPaged.Block

/-!
# Block tables

The page table of one sequence and one cache stream: entries sorted by logical index. The binary
search of the source finds the first entry whose index is not below the wanted one, so the table
splits at that iterator into the entries before it and the entries from it on.
-/

namespace QwenVLPaged

/-- One virtual-to-physical mapping entry. -/
structure BlockTableEntry where
  logical : LogicalBlock
  physicalId : PhysicalBlockId
  writable : Bool
  /-- Engaged while the contents live in the swap backend. -/
  swapSlot : Option SwapSlotId
  deriving DecidableEq

/-- Page table of one sequence and one stream. -/
structure BlockTable where
  sequenceId : SequenceId
  cacheKind : CacheKind
  entries : List BlockTableEntry
  deriving DecidableEq

namespace BlockTable

/-- Entries in front of the iterator returned by `lower_bound_index`. -/
def beforeIndex (entries : List BlockTableEntry) (index : ℕ) :
    List BlockTableEntry :=
  entries.takeWhile fun entry => decide (entry.logical.index < index)

/-- Entries from the iterator returned by `lower_bound_index` on. -/
def fromIndex (entries : List BlockTableEntry) (index : ℕ) :
    List BlockTableEntry :=
  entries.dropWhile fun entry => decide (entry.logical.index < index)

/-- An empty table for a sequence. -/
def create (sequenceId : SequenceId) : BlockTable := ⟨sequenceId, .textKV, []⟩

/-- Number of mapped logical blocks. -/
def size (table : BlockTable) : ℕ := table.entries.length

/-- Add or replace one logical-to-physical mapping. -/
def map (table : BlockTable) (logical : LogicalBlock) (physicalId : PhysicalBlockId)
    (writable : Bool) : BlockTable :=
  let before := beforeIndex table.entries logical.index
  let after := fromIndex table.entries logical.index
  let mapped : BlockTableEntry := ⟨logical, physicalId, writable, none⟩
  match after with
  | found :: rest =>
      if found.logical.index = logical.index then
        { table with entries := before ++ mapped :: rest }
      else
        { table with entries := before ++ mapped :: after }
  | [] => { table with entries := before ++ [mapped] }

/-- Remove a mapping and return its physical block if present. -/
def unmap (table : BlockTable) (index : ℕ) :
    Option PhysicalBlockId × BlockTable :=
  match fromIndex table.entries index with
  | found :: rest =>
      if found.logical.index = index then
        (some found.physicalId, { table with entries := beforeIndex table.entries index ++ rest })
      else
        (none, table)
  | [] => (none, table)

/-- The mapping entry of a logical block if present. -/
def entry (table : BlockTable) (index : ℕ) : Option BlockTableEntry :=
  match fromIndex table.entries index with
  | found :: _ => if found.logical.index = index then some found else none
  | [] => none

/-- Resolve a logical block into its frame, unless it is unmapped or swapped out. -/
def lookup (table : BlockTable) (index : ℕ) : Option PhysicalBlockId :=
  match table.entry index with
  | some found => if found.swapSlot.isSome then none else some found.physicalId
  | none => none

/-- Update in place through the pointer returned by `mutable_entry`. -/
def modifyEntry (table : BlockTable) (index : ℕ)
    (update : BlockTableEntry → BlockTableEntry) : BlockTable :=
  match fromIndex table.entries index with
  | found :: rest =>
      if found.logical.index = index then
        { table with entries := beforeIndex table.entries index ++ update found :: rest }
      else
        table
  | [] => table

/-- Mark a mapped logical block writable or shared. -/
def setWritable (table : BlockTable) (index : ℕ) (writable : Bool) : BlockTable :=
  table.modifyEntry index fun entry => { entry with writable }

/-- A child table that shares every current physical block and may write none. -/
def fork (table : BlockTable) (childSequenceId : SequenceId) : BlockTable :=
  { table with
    sequenceId := childSequenceId
    entries := table.entries.map fun entry =>
      { entry with
        writable := false
        logical := { entry.logical with sequenceId := childSequenceId } } }

/-! ## Consecutively indexed tables -/

/-- The entries carry the logical indices `0, 1, 2, …` in order. -/
def Indexed (table : BlockTable) : Prop :=
  ∀ (position : ℕ) (found : BlockTableEntry),
    table.entries[position]? = some found → found.logical.index = position

private theorem span_of_indexed (entries : List BlockTableEntry) (offset index : ℕ)
    (indexed : ∀ (position : ℕ) (found : BlockTableEntry),
      entries[position]? = some found → found.logical.index = offset + position) :
    beforeIndex entries (offset + index) = entries.take index ∧
      fromIndex entries (offset + index) = entries.drop index := by
  induction entries generalizing offset index with
  | nil => simp [beforeIndex, fromIndex]
  | cons head tail induction =>
      have head_index : head.logical.index = offset := by simpa using indexed 0 head rfl
      have tail_indexed : ∀ (position : ℕ) (found : BlockTableEntry),
          tail[position]? = some found → found.logical.index = offset + 1 + position := by
        intro position found member
        rw [indexed (position + 1) found (by simpa using member)]
        omega
      cases index with
      | zero => simp [beforeIndex, fromIndex, head_index]
      | succ index =>
          obtain ⟨before, after⟩ := induction (offset + 1) index tail_indexed
          rw [show offset + 1 + index = offset + (index + 1) by omega] at before after
          have below : decide (head.logical.index < offset + (index + 1)) = true := by
            simp [head_index]
          constructor
          · simp only [beforeIndex, List.takeWhile_cons, below, if_true, List.take_succ_cons]
            exact congrArg (head :: ·) before
          · simp only [fromIndex, List.dropWhile_cons, below, if_true, List.drop_succ_cons]
            exact after

theorem Indexed.beforeIndex {table : BlockTable} (indexed : table.Indexed) (index : ℕ) :
    beforeIndex table.entries index = table.entries.take index := by
  simpa using (span_of_indexed table.entries 0 index fun position found member => by
    simpa using indexed position found member).1

theorem Indexed.fromIndex {table : BlockTable} (indexed : table.Indexed) (index : ℕ) :
    fromIndex table.entries index = table.entries.drop index := by
  simpa using (span_of_indexed table.entries 0 index fun position found member => by
    simpa using indexed position found member).2

theorem indexed_create (sequenceId : SequenceId) : (create sequenceId).Indexed := by
  intro position found member
  simp [create] at member

/-- In a consecutively indexed table the logical index is the position. -/
theorem Indexed.entry_eq {table : BlockTable} (indexed : table.Indexed) (index : ℕ) :
    table.entry index = table.entries[index]? := by
  rw [entry, indexed.fromIndex]
  cases found : table.entries[index]? with
  | none => rw [List.drop_of_length_le (List.getElem?_eq_none_iff.mp found)]
  | some head =>
      obtain ⟨inside, equal⟩ := List.getElem?_eq_some_iff.mp found
      rw [List.drop_eq_getElem_cons inside, equal]
      simp [indexed index head found]

/-- Updating through `mutable_entry` changes the entry at that position. -/
theorem Indexed.modifyEntry_eq {table : BlockTable} (indexed : table.Indexed) (index : ℕ)
    (update : BlockTableEntry → BlockTableEntry) :
    table.modifyEntry index update =
      { table with entries := table.entries.modify index update } := by
  rw [modifyEntry, indexed.fromIndex, indexed.beforeIndex]
  cases found : table.entries[index]? with
  | none =>
      have outside := List.getElem?_eq_none_iff.mp found
      rw [List.drop_of_length_le outside, List.modify_eq_self outside]
  | some head =>
      obtain ⟨inside, equal⟩ := List.getElem?_eq_some_iff.mp found
      rw [List.drop_eq_getElem_cons inside, equal]
      simp only [indexed index head found, if_true]
      congr 1
      rw [List.modify_eq_take_cons_drop inside, equal]

/-- Mapping the next free index appends an entry. -/
theorem Indexed.map_next {table : BlockTable} (indexed : table.Indexed) (logical : LogicalBlock)
    (next : logical.index = table.entries.length) (physicalId : PhysicalBlockId)
    (writable : Bool) :
    table.map logical physicalId writable =
      { table with entries := table.entries ++ [⟨logical, physicalId, writable, none⟩] } := by
  simp only [BlockTable.map, indexed.fromIndex, indexed.beforeIndex, next, List.drop_length,
    List.take_length]

theorem Indexed.append {table : BlockTable} (indexed : table.Indexed) (added : BlockTableEntry)
    (next : added.logical.index = table.entries.length) :
    ({ table with entries := table.entries ++ [added] } : BlockTable).Indexed := by
  intro position found member
  rcases Nat.lt_trichotomy position table.entries.length with inside | last | outside
  · exact indexed position found (by simpa [List.getElem?_append_left inside] using member)
  · subst last
    simp at member
    rw [← member]
    exact next
  · rw [List.getElem?_eq_none (by simp; omega)] at member
    simp at member

theorem Indexed.modify {table : BlockTable} (indexed : table.Indexed) (position : ℕ)
    {update : BlockTableEntry → BlockTableEntry}
    (keeps : ∀ entry, (update entry).logical.index = entry.logical.index) :
    ({ table with entries := table.entries.modify position update } : BlockTable).Indexed := by
  intro other found member
  simp only [List.getElem?_modify, Option.map_eq_map, Option.map_eq_some_iff] at member
  obtain ⟨before, before_eq, rfl⟩ := member
  split
  · rw [keeps]
    exact indexed other before before_eq
  · exact indexed other before before_eq

/-- Only the logical blocks matter. -/
theorem Indexed.of_logicals {table : BlockTable} (indexed : table.Indexed)
    {entries : List BlockTableEntry}
    (logicals : entries.map (·.logical) = table.entries.map (·.logical)) :
    ({ table with entries } : BlockTable).Indexed := by
  intro position found member
  have logical := congrArg (fun list => list[position]?) logicals
  simp only [List.getElem?_map, member, Option.map_some] at logical
  obtain ⟨old, old_eq, same⟩ := Option.map_eq_some_iff.mp logical.symm
  rw [← same]
  exact indexed position old old_eq

theorem Indexed.fork {table : BlockTable} (indexed : table.Indexed) (child : SequenceId) :
    (table.fork child).Indexed := by
  intro position found member
  simp only [BlockTable.fork, List.getElem?_map, Option.map_eq_some_iff] at member
  obtain ⟨before, before_eq, rfl⟩ := member
  exact indexed position before before_eq

end BlockTable
end QwenVLPaged
