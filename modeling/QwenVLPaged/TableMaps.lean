import QwenVLPaged.BlockTable
import QwenVLPaged.Library.Execution
import QwenVLPaged.Library.SortedMap

/-!
# Block tables are finite maps

A block table keeps its entries sorted by logical index and finds them by binary search. Calls on a
family of tables, each table the child of an earlier one or the first, behave like calls on finite
maps from logical indices to entries.
-/

namespace QwenVLPaged

open SortedMap (Ordered Split)

/-- A change of one table. An update through `mutable_entry` keeps the logical index. -/
inductive TableOp
  | map (logical : LogicalBlock) (physicalId : PhysicalBlockId) (writable : Bool)
  | unmap (index : ℕ)
  | setWritable (index : ℕ) (writable : Bool)
  | update (index : ℕ) (change : BlockTableEntry → BlockTableEntry)
      (keeps : ∀ entry, (change entry).logical.index = entry.logical.index)

/-- A call on one table of a family. A fork adds a table and leaves its parent alone. -/
inductive TableCall
  | change (target : ℕ) (op : TableOp)
  | fork (target : ℕ) (child : SequenceId)

namespace BlockTable

def apply (table : BlockTable) : TableOp → BlockTable
  | .map logical physicalId writable => table.map logical physicalId writable
  | .unmap index => (table.unmap index).2
  | .setWritable index writable => table.setWritable index writable
  | .update index change _ => table.modifyEntry index change

/-- Execute one call on a family of tables. -/
def call (tables : List BlockTable) : TableCall → List BlockTable
  | .change target op => tables.modify target fun table => table.apply op
  | .fork target child => tables ++ (tables[target]?.map fun table => table.fork child).toList

/-- Execute a list of calls. -/
def calls (tables : List BlockTable) (list : List TableCall) : List BlockTable :=
  Execution.run call tables list

end BlockTable

/-! ## The maps -/

/-- A finite map from logical indices to entries, with the sequence that owns it. -/
structure TableMap where
  sequenceId : SequenceId
  cacheKind : CacheKind
  entries : ℕ → Option BlockTableEntry

namespace TableMap

def apply (table : TableMap) : TableOp → TableMap
  | .map logical physicalId writable =>
      { table with
        entries := Function.update table.entries logical.index
          (some ⟨logical, physicalId, writable, none⟩) }
  | .unmap index => { table with entries := Function.update table.entries index none }
  | .setWritable index writable =>
      { table with
        entries := Function.update table.entries index
          ((table.entries index).map fun entry => { entry with writable }) }
  | .update index change _ =>
      { table with
        entries := Function.update table.entries index ((table.entries index).map change) }

/-- An equal map under the child id, with all writable flags cleared. -/
def fork (table : TableMap) (child : SequenceId) : TableMap where
  sequenceId := child
  cacheKind := table.cacheKind
  entries index := (table.entries index).map fun entry =>
    { entry with writable := false, logical := { entry.logical with sequenceId := child } }

def call (tables : List TableMap) : TableCall → List TableMap
  | .change target op => tables.modify target fun table => table.apply op
  | .fork target child => tables ++ (tables[target]?.map fun table => table.fork child).toList

def calls (tables : List TableMap) (list : List TableCall) : List TableMap :=
  Execution.run call tables list

end TableMap

/-! ## Refinement -/

namespace BlockTable

/-- The table stands for the map. -/
structure Represents (table : BlockTable) (map : TableMap) : Prop where
  sequenceId : table.sequenceId = map.sequenceId
  cacheKind : table.cacheKind = map.cacheKind
  ordered : Ordered (fun entry : BlockTableEntry => entry.logical.index) table.entries
  entry : ∀ index, table.entry index = map.entries index

theorem entry_eq_find (table : BlockTable) (index : ℕ) :
    table.entry index =
      SortedMap.find (fun entry : BlockTableEntry => entry.logical.index) table.entries index := by
  have same : fromIndex table.entries index =
      SortedMap.behind (fun entry : BlockTableEntry => entry.logical.index) table.entries index :=
    rfl
  rw [BlockTable.entry, SortedMap.find, same]
  split <;> simp_all

/-- The entries around an index and what the table finds there. -/
theorem Represents.split {table : BlockTable} {map : TableMap} (represents : table.Represents map)
    (index : ℕ) :
    ∃ back, fromIndex table.entries index = (map.entries index).toList ++ back ∧
      Split (fun entry : BlockTableEntry => entry.logical.index) table.entries index
        (beforeIndex table.entries index) (map.entries index) back := by
  obtain ⟨found, back, rest, split⟩ := represents.ordered.split index
  have same : found = map.entries index := by
    rw [← represents.entry, entry_eq_find]
    exact (represents.ordered.find_eq split).symm
  subst same
  exact ⟨back, rest, split⟩

/-- Exchanging the entry at an index changes the map there and nowhere else. -/
theorem Represents.exchange {table : BlockTable} {map : TableMap}
    (represents : table.Represents map) {index : ℕ} {back : List BlockTableEntry}
    (split : Split (fun entry : BlockTableEntry => entry.logical.index) table.entries index
      (beforeIndex table.entries index) (map.entries index) back)
    {changed : Option BlockTableEntry} (kept : ∀ entry ∈ changed, entry.logical.index = index) :
    ({ table with
        entries := beforeIndex table.entries index ++ (changed.toList ++ back) } :
      BlockTable).Represents { map with entries := Function.update map.entries index changed } := by
  obtain ⟨ordered, exchanged⟩ := split.replace represents.ordered kept
  refine ⟨represents.sequenceId, represents.cacheKind, ordered, fun other => ?_⟩
  change _ = Function.update map.entries index changed other
  by_cases same : other = index
  · rw [same, Function.update_self, entry_eq_find]
    exact ordered.find_eq exchanged
  · -- Away from the index, the same entries are in both lists.
    rw [Function.update_of_ne same, ← represents.entry, entry_eq_find, entry_eq_find]
    obtain ⟨found, tail, -, after⟩ := ordered.split other
    obtain ⟨found', tail', -, before⟩ := represents.ordered.split other
    have unchanged : found = found' := by
      refine Option.ext fun entry => ?_
      rw [← Option.mem_def, ← Option.mem_def, ← after.mem_found, ← before.mem_found]
      refine and_congr_left fun named => ?_
      have elsewhere (here : Option BlockTableEntry)
          (at_index : ∀ entry ∈ here, entry.logical.index = index) : entry ∉ here.toList := by
        intro member
        exact same (named.symm.trans (at_index entry (by simpa using member)))
      conv_rhs => rw [split.items]
      simp only [List.mem_append, elsewhere changed kept, elsewhere _ split.found, false_or]
    rw [ordered.find_eq after, represents.ordered.find_eq before, unchanged]

theorem entries_map_eq {table : BlockTable} {map : TableMap} (logical : LogicalBlock) (physicalId : PhysicalBlockId) (writable : Bool)
    {back : List BlockTableEntry}
    (rest : fromIndex table.entries logical.index =
      (map.entries logical.index).toList ++ back)
    (larger : ∀ entry ∈ back, logical.index < entry.logical.index)
    (found : ∀ entry ∈ map.entries logical.index, entry.logical.index = logical.index) :
    table.map logical physicalId writable =
      { table with
        entries := beforeIndex table.entries logical.index ++
          ((some (⟨logical, physicalId, writable, none⟩ : BlockTableEntry)).toList ++ back) } := by
  simp only [BlockTable.map, rest]
  rcases mapped : map.entries logical.index with _ | entry
  · cases back with
    | nil => rfl
    | cons next back => simp [(larger next List.mem_cons_self).ne']
  · simp [found entry (by simp [mapped])]

theorem Represents.map {table : BlockTable} {map : TableMap} (represents : table.Represents map)
    (logical : LogicalBlock) (physicalId : PhysicalBlockId) (writable : Bool) :
    (table.map logical physicalId writable).Represents
      (map.apply (.map logical physicalId writable)) := by
  obtain ⟨back, rest, split⟩ := represents.split logical.index
  rw [entries_map_eq logical physicalId writable rest split.back split.found]
  exact represents.exchange split (by simp)

theorem Represents.unmap {table : BlockTable} {map : TableMap} (represents : table.Represents map)
    (index : ℕ) :
    (table.unmap index).1 = (map.entries index).map (·.physicalId) ∧
      (table.unmap index).2.Represents (map.apply (.unmap index)) := by
  obtain ⟨back, rest, split⟩ := represents.split index
  have emptied : ({ table with
      entries := beforeIndex table.entries index ++ back } : BlockTable).Represents
        (map.apply (.unmap index)) := by
    exact represents.exchange split (show ∀ entry ∈ (none : Option BlockTableEntry), _ by simp)
  simp only [BlockTable.unmap, rest]
  rcases mapped : map.entries index with _ | entry
  · have same : table = { table with entries := beforeIndex table.entries index ++ back } := by
      have items := split.items
      rw [mapped] at items
      rw [← show table.entries = beforeIndex table.entries index ++ back from items]
    cases back with
    | nil => exact ⟨rfl, same ▸ emptied⟩
    | cons next back =>
        simp only [Option.toList_none, List.nil_append,
          (split.back next List.mem_cons_self).ne', if_false]
        exact ⟨rfl, same ▸ emptied⟩
  · simp only [Option.toList_some, List.cons_append, List.nil_append,
      split.found entry (by simp [mapped]), if_true]
    exact ⟨rfl, emptied⟩

theorem Represents.modifyEntry {table : BlockTable} {map : TableMap}
    (represents : table.Represents map) (index : ℕ) {change : BlockTableEntry → BlockTableEntry}
    (keeps : ∀ entry, (change entry).logical.index = entry.logical.index) :
    (table.modifyEntry index change).Represents
      { map with
        entries := Function.update map.entries index ((map.entries index).map change) } := by
  obtain ⟨back, rest, split⟩ := represents.split index
  have kept : ∀ entry ∈ (map.entries index).map change, entry.logical.index = index := by
    intro entry member
    obtain ⟨old, here, rfl⟩ := Option.map_eq_some_iff.mp member
    rw [keeps]
    exact split.found old here
  have exchanged := represents.exchange split kept
  simp only [BlockTable.modifyEntry, rest]
  rcases mapped : map.entries index with _ | entry
  · rw [mapped] at exchanged
    have same : table = { table with entries := beforeIndex table.entries index ++ back } := by
      have items := split.items
      rw [mapped] at items
      rw [← show table.entries = beforeIndex table.entries index ++ back from items]
    cases back with
    | nil => exact same ▸ exchanged
    | cons next back =>
        simp only [Option.toList_none, List.nil_append,
          (split.back next List.mem_cons_self).ne', if_false]
        exact same ▸ exchanged
  · rw [mapped] at exchanged
    simp only [Option.toList_some, List.cons_append, List.nil_append,
      split.found entry (by simp [mapped]), if_true]
    exact exchanged

theorem Represents.apply {table : BlockTable} {map : TableMap} (represents : table.Represents map)
    (op : TableOp) : (table.apply op).Represents (map.apply op) := by
  cases op with
  | map logical physicalId writable => exact represents.map logical physicalId writable
  | unmap index => exact (represents.unmap index).2
  | setWritable index writable => exact represents.modifyEntry index fun _ => rfl
  | update index change keeps => exact represents.modifyEntry index keeps

theorem Represents.fork {table : BlockTable} {map : TableMap} (represents : table.Represents map)
    (child : SequenceId) : (table.fork child).Represents (map.fork child) := by
  refine ⟨rfl, represents.cacheKind, represents.ordered.map fun _ => rfl, fun index => ?_⟩
  have keeps (entry : BlockTableEntry) :
      ({ entry with writable := false, logical := { entry.logical with sequenceId := child } } :
        BlockTableEntry).logical.index = entry.logical.index := rfl
  rw [entry_eq_find]
  refine (SortedMap.find_map keeps table.entries index).trans ?_
  rw [← entry_eq_find, represents.entry]
  rfl

/-- As many entries as mapped indices. -/
theorem Represents.size {table : BlockTable} {map : TableMap} (represents : table.Represents map) :
    {index | (map.entries index).isSome}.encard = table.size := by
  simp only [← represents.entry, entry_eq_find]
  exact represents.ordered.encard_keys

/-- A block resolves to its frame exactly while it has no swap slot. -/
theorem Represents.lookup {table : BlockTable} {map : TableMap} (represents : table.Represents map)
    (index : ℕ) (physicalId : PhysicalBlockId) :
    table.lookup index = some physicalId ↔
      ∃ entry, map.entries index = some entry ∧ entry.physicalId = physicalId ∧
        entry.swapSlot = none := by
  rw [BlockTable.lookup, represents.entry]
  rcases map.entries index with _ | entry
  · simp
  · cases slot : entry.swapSlot <;> simp [slot]

/-! ## Families of tables -/

theorem represents_call {tables : List BlockTable} {maps : List TableMap}
    (represents : List.Forall₂ Represents tables maps) (called : TableCall) :
    List.Forall₂ Represents (call tables called) (TableMap.call maps called) := by
  cases called with
  | change target op =>
      rw [call, TableMap.call]
      induction represents generalizing target with
      | nil => simp
      | cons first _ induction =>
          cases target with
          | zero => exact List.Forall₂.cons (first.apply op) ‹_›
          | succ target => exact List.Forall₂.cons first (induction target)
  | fork target child =>
      rw [call, TableMap.call]
      refine List.rel_append represents ?_
      have found : Option.Rel Represents tables[target]? maps[target]? := by
        clear child
        induction represents generalizing target with
        | nil => exact Option.Rel.none
        | cons first _ induction =>
            cases target with
            | zero => exact Option.Rel.some first
            | succ target => exact induction target
      generalize tables[target]? = table at found ⊢
      generalize maps[target]? = map at found ⊢
      cases found with
      | none => exact List.Forall₂.nil
      | some first => exact List.Forall₂.cons (first.fork child) List.Forall₂.nil

theorem represents_calls {tables : List BlockTable} {maps : List TableMap}
    (represents : List.Forall₂ Represents tables maps) (list : List TableCall) :
    List.Forall₂ Represents (calls tables list) (TableMap.calls maps list) := by
  induction list generalizing tables maps with
  | nil => exact represents
  | cons called list induction => exact induction (represents_call represents called)

end BlockTable

namespace TableOp

/-- The logical index an operation is about. -/
def index : TableOp → ℕ
  | .map logical _ _ => logical.index
  | .unmap index => index
  | .setWritable index _ => index
  | .update index _ _ => index

/-- The operation starts or ends the mapping of its index. -/
def Rebinds : TableOp → Prop
  | .map _ _ _ => True
  | .unmap _ => True
  | .setWritable _ _ => False
  | .update _ _ _ => False

/-- What an in-place update does to the entry it finds. -/
def edit : TableOp → BlockTableEntry → BlockTableEntry
  | .setWritable _ writable, entry => { entry with writable }
  | .update _ change _, entry => change entry
  | .map _ _ _, entry => entry
  | .unmap _, entry => entry

end TableOp

namespace BlockTable

/-- An operation leaves the entries of all other indices alone. -/
theorem Represents.entry_apply_of_ne {table : BlockTable} {map : TableMap}
    (represents : table.Represents map) (op : TableOp) {index : ℕ} (other : index ≠ op.index) :
    (table.apply op).entry index = table.entry index := by
  rw [(represents.apply op).entry, represents.entry]
  cases op <;> exact Function.update_of_ne other _ _

theorem Represents.entry_apply_of_quiet {table : BlockTable} {map : TableMap}
    (represents : table.Represents map) {op : TableOp} (quiet : ¬ op.Rebinds) :
    (table.apply op).entry op.index = (table.entry op.index).map op.edit := by
  rw [(represents.apply op).entry, represents.entry]
  cases op with
  | map logical physicalId writable => exact absurd trivial quiet
  | unmap index => exact absurd trivial quiet
  | setWritable index writable => exact Function.update_self _ _ _
  | update index change keeps => exact Function.update_self _ _ _

/-- Between two changes of its mapping, an entry sees its own updates and nothing else. -/
theorem Represents.entry_run {table : BlockTable} {map : TableMap}
    (represents : table.Represents map) (ops : List TableOp) {index : ℕ}
    (quiet : ∀ op ∈ ops, op.index = index → ¬ op.Rebinds) :
    (Execution.run BlockTable.apply table ops).entry index =
      (table.entry index).map fun found =>
        (ops.filter fun op => decide (op.index = index)).foldl (fun entry op => op.edit entry)
          found := by
  induction ops generalizing table map with
  | nil => simp
  | cons op ops induction =>
      rw [Execution.run_cons, induction (represents.apply op) fun other member =>
        quiet other (List.mem_cons_of_mem _ member)]
      by_cases same : op.index = index
      · subst same
        rw [represents.entry_apply_of_quiet (quiet op List.mem_cons_self rfl), Option.map_map,
          List.filter_cons_of_pos (by simp)]
        rfl
      · rw [represents.entry_apply_of_ne op (Ne.symm same), List.filter_cons_of_neg (by simpa)]

/-- Tables of a family, each forked from an earlier one or the first, are finite maps. -/
theorem calls_refine_maps (sequenceId : SequenceId) (cacheKind : CacheKind)
    (list : List TableCall) :
    List.Forall₂
        (fun table map =>
          table.sequenceId = map.sequenceId ∧ table.cacheKind = map.cacheKind ∧
            (table.entries.Pairwise fun first second =>
              first.logical.index < second.logical.index) ∧
            {index | (map.entries index).isSome}.encard = table.size ∧
            (∀ index, table.entry index = map.entries index) ∧
            (∀ index physicalId, table.lookup index = some physicalId ↔
              ∃ entry, map.entries index = some entry ∧ entry.physicalId = physicalId ∧
                entry.swapSlot = none) ∧
            ∀ index, (table.unmap index).1 = (map.entries index).map (·.physicalId))
        (calls [⟨sequenceId, cacheKind, []⟩] list)
        (TableMap.calls [⟨sequenceId, cacheKind, fun _ => none⟩] list) ∧
      ∀ table ∈ calls [⟨sequenceId, cacheKind, []⟩] list,
        (∀ op index, index ≠ TableOp.index op →
          (table.apply op).entry index = table.entry index) ∧
        (∀ logical physicalId writable ops,
          (∀ op ∈ ops, TableOp.index op = logical.index → ¬ op.Rebinds) →
          (Execution.run apply (table.map logical physicalId writable) ops).entry logical.index =
            some ((ops.filter fun op => decide (op.index = logical.index)).foldl
              (fun entry op => op.edit entry) ⟨logical, physicalId, writable, none⟩)) ∧
        (∀ index ops, (∀ op ∈ ops, TableOp.index op = index → ¬ op.Rebinds) →
          (Execution.run apply (table.unmap index).2 ops).entry index = none) ∧
        ∀ child index, (table.fork child).entry index =
          (table.entry index).map fun entry =>
            { entry with
              writable := false, logical := { entry.logical with sequenceId := child } } := by
  have represents := represents_calls
    (List.Forall₂.cons ⟨rfl, rfl, List.Pairwise.nil, fun _ => rfl⟩ List.Forall₂.nil :
      List.Forall₂ Represents [⟨sequenceId, cacheKind, []⟩]
        [⟨sequenceId, cacheKind, fun _ => none⟩]) list
  refine ⟨represents.imp fun table map same => ?_, fun table member => ?_⟩
  · exact ⟨same.sequenceId, same.cacheKind, same.ordered, same.size, same.entry, same.lookup,
      fun index => (same.unmap index).1⟩
  · obtain ⟨map, same⟩ : ∃ map, table.Represents map := by
      obtain ⟨position, inside, rfl⟩ := List.getElem_of_mem member
      exact ⟨_, represents.get inside (represents.length_eq ▸ inside)⟩
    refine ⟨fun op index other => same.entry_apply_of_ne op other, ?_, ?_, ?_⟩
    · intro logical physicalId writable ops quiet
      have mapped := same.map logical physicalId writable
      rw [mapped.entry_run ops quiet, mapped.entry]
      simp [TableMap.apply]
    · intro index ops quiet
      have unmapped := (same.unmap index).2
      rw [unmapped.entry_run ops quiet, unmapped.entry]
      simp [TableMap.apply]
    · intro child index
      rw [(same.fork child).entry, same.entry]
      rfl

end BlockTable
end QwenVLPaged
