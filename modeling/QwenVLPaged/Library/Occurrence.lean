import Mathlib.Data.List.Basic

/-!
# Single occurrences

An item that occurs once in a list, or in a list of lists, occurs at one position.
-/

namespace List

theorem position_unique {α : Type*} [DecidableEq α] {items : List α} {item : α} {first second : ℕ}
    (single : items.count item ≤ 1) (at_first : items[first]? = some item)
    (at_second : items[second]? = some item) : first = second := by
  induction items generalizing first second with
  | nil => simp at at_first
  | cons head tail induction =>
      rw [List.count_cons] at single
      -- The head and a later position together would count twice.
      have clash {position : ℕ} (head_eq : head = item) (later : tail[position]? = some item) :
          False := by
        have positive := List.count_pos_iff.mpr (List.mem_of_getElem? later)
        simp only [head_eq, BEq.rfl, if_true] at single
        omega
      cases first with
      | zero =>
          have head_eq : head = item := by simpa using at_first
          cases second with
          | zero => rfl
          | succ second => exact (clash head_eq (by simpa using at_second)).elim
      | succ first =>
          cases second with
          | zero =>
              have head_eq : head = item := by simpa using at_second
              exact (clash head_eq (by simpa using at_first)).elim
          | succ second =>
              have tail_single : tail.count item ≤ 1 := by omega
              exact congrArg (· + 1) (induction tail_single (by simpa using at_first)
                (by simpa using at_second))

theorem nested_position_unique {α : Type*} [DecidableEq α] {rows : List (List α)} {item : α}
    {row column row' column' : ℕ} {items items' : List α} (single : rows.flatten.count item ≤ 1)
    (at_row : rows[row]? = some items) (at_column : items[column]? = some item)
    (at_row' : rows[row']? = some items') (at_column' : items'[column']? = some item) :
    row = row' ∧ column = column' := by
  induction rows generalizing row row' with
  | nil => simp at at_row
  | cons head tail induction =>
      rw [List.flatten_cons, List.count_append] at single
      have clash {position : ℕ} {later : List α} (in_head : item ∈ head)
          (found : tail[position]? = some later) (in_later : item ∈ later) : False := by
        have first := List.count_pos_iff.mpr in_head
        have second := List.count_pos_iff.mpr
          (List.mem_flatten.mpr ⟨later, List.mem_of_getElem? found, in_later⟩)
        omega
      cases row with
      | zero =>
          obtain rfl : head = items := by simpa using at_row
          cases row' with
          | zero =>
              obtain rfl : head = items' := by simpa using at_row'
              exact ⟨rfl, position_unique (by omega) at_column at_column'⟩
          | succ row' =>
              exact (clash (List.mem_of_getElem? at_column) (by simpa using at_row')
                (List.mem_of_getElem? at_column')).elim
      | succ row =>
          cases row' with
          | zero =>
              obtain rfl : head = items' := by simpa using at_row'
              exact (clash (List.mem_of_getElem? at_column') (by simpa using at_row)
                (List.mem_of_getElem? at_column)).elim
          | succ row' =>
              obtain ⟨rows_eq, columns_eq⟩ := induction (by omega) (by simpa using at_row)
                (by simpa using at_row')
              exact ⟨congrArg (· + 1) rows_eq, columns_eq⟩

/-- A count over distinct keys grows by one when the property turns true for one of them. -/
theorem countP_key_succ {α β : Type*} [DecidableEq β] {items : List α} {key : α → β}
    {before after : β → Bool} {changed : β} (distinct : (items.map key).Nodup)
    (present : changed ∈ items.map key) (old : before changed = false)
    (new : after changed = true)
    (others : ∀ other, other ≠ changed → after other = before other) :
    (items.countP fun item => after (key item)) =
      (items.countP fun item => before (key item)) + 1 := by
  induction items with
  | nil => simp at present
  | cons head tail induction =>
      obtain ⟨fresh, distinct'⟩ := List.nodup_cons.mp distinct
      rw [List.countP_cons, List.countP_cons]
      by_cases here : key head = changed
      · have elsewhere : (tail.countP fun item => after (key item)) =
            tail.countP fun item => before (key item) := by
          refine List.countP_congr fun item member => ?_
          rw [others (key item) fun same => fresh ?_]
          exact here ▸ same ▸ List.mem_map_of_mem member
        simp [here, old, new, elsewhere]
      · have later := (List.mem_cons.mp present).resolve_left fun same => here same.symm
        rw [induction distinct' later, others _ here]
        omega

end List
