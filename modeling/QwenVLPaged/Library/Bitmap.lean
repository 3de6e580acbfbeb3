import Mathlib.Data.List.Basic
import Mathlib.Data.List.Count
import Mathlib.Tactic

/-!
# First fit over a bitmap

A bitmap marks the taken cells of an array. `search` finds the first run of free cells of a given
length with one pass and one counter, and `mark` sets all the cells of a run.
-/

namespace Bitmap

/-- The cells from `start` on have the given mark. -/
def Run (mark : Bool) (cells : List Bool) (start count : ℕ) : Prop :=
  ∀ offset < count, cells[start + offset]? = some mark

theorem Run.le_length {mark : Bool} {cells : List Bool} {start count : ℕ}
    (run : Run mark cells start count) (nonempty : 0 < count) : start + count ≤ cells.length := by
  have last := run (count - 1) (by omega)
  have inside := (List.getElem?_eq_some_iff.mp last).1
  omega

/-! ## The search -/

/-- Scan the rest of the bitmap from a position, behind `free` free cells. -/
def searchFrom (needed : ℕ) : List Bool → ℕ → ℕ → Option ℕ
  | [], _, _ => none
  | taken :: rest, position, free =>
      let run := if taken then 0 else free + 1
      if run = needed then some (position + 1 - needed)
      else searchFrom needed rest (position + 1) run

/-- The start of the first run of `needed` free cells. -/
def search (needed : ℕ) (cells : List Bool) : Option ℕ := searchFrom needed cells 0 0

theorem run_of_searchFrom {needed : ℕ} {rest front : List Bool} {free start : ℕ}
    (short : free ≤ front.length)
    (behind : Run false (front ++ rest) (front.length - free) free)
    (found : searchFrom needed rest front.length free = some start) :
    Run false (front ++ rest) start needed ∧ start + needed ≤ (front ++ rest).length := by
  induction rest generalizing front free with
  | nil => simp [searchFrom] at found
  | cons taken rest induction =>
      have split : front ++ taken :: rest = (front ++ [taken]) ++ rest := by simp
      have here : (front ++ taken :: rest)[front.length]? = some taken := by simp
      -- The counter behind the scanned cell, and the free cells it stands for.
      have counted : (if taken then 0 else free + 1) ≤ (front ++ [taken]).length ∧
          Run false ((front ++ [taken]) ++ rest)
            ((front ++ [taken]).length - if taken then 0 else free + 1)
            (if taken then 0 else free + 1) := by
        rw [← split]
        cases taken with
        | true => exact ⟨by simp, fun offset inside => by simp at inside⟩
        | false =>
            refine ⟨by simpa using short, fun offset inside => ?_⟩
            simp only [List.length_append, List.length_singleton, Bool.false_eq_true, if_false]
              at inside ⊢
            have start_eq : front.length + 1 - (free + 1) = front.length - free := by omega
            rw [start_eq]
            rcases Nat.lt_or_eq_of_le (Nat.le_of_lt_succ inside) with before | last
            · exact behind offset before
            · rw [last, Nat.sub_add_cancel short]
              exact here
      rw [searchFrom] at found
      by_cases enough : (if taken = true then 0 else free + 1) = needed
      · rw [if_pos enough] at found
        rw [enough] at counted
        obtain rfl := Option.some.inj found
        rw [split]
        simp only [List.length_append, List.length_singleton] at counted ⊢
        exact ⟨counted.2, by omega⟩
      · rw [if_neg enough] at found
        have again := induction counted.1 counted.2 (by simpa using found)
        rwa [← split] at again

/-- A found run is free and inside the bitmap. -/
theorem run_of_search {needed start : ℕ} {cells : List Bool}
    (found : search needed cells = some start) :
    Run false cells start needed ∧ start + needed ≤ cells.length :=
  @run_of_searchFrom needed cells [] 0 start (Nat.le_refl 0) (fun _ inside => by simp at inside)
    found

theorem no_run_of_searchFrom {needed : ℕ} {rest front : List Bool} {free : ℕ}
    (less : free < needed)
    (maximal : ∀ start, (∀ position, start ≤ position → position < front.length →
      (front ++ rest)[position]? = some false) → front.length ≤ start + free)
    (later : ∀ start, Run false (front ++ rest) start needed → front.length < start + needed)
    (missing : searchFrom needed rest front.length free = none) (start : ℕ) :
    ¬ Run false (front ++ rest) start needed := by
  induction rest generalizing front free with
  | nil =>
      intro run
      have inside := run.le_length (by omega)
      have outside := later start run
      simp only [List.append_nil] at inside
      omega
  | cons taken rest induction =>
      have split : front ++ taken :: rest = (front ++ [taken]) ++ rest := by simp
      have here : (front ++ taken :: rest)[front.length]? = some taken := by simp
      rw [searchFrom] at missing
      by_cases other : (if taken = true then 0 else free + 1) = needed
      · rw [if_pos other] at missing
        simp at missing
      · rw [if_neg other] at missing
        rw [split]
        refine induction ?_ ?_ ?_ (by simpa using missing)
        · cases taken <;> simp at other ⊢ <;> omega
        · intro first free_cells
          rw [← split] at free_cells
          simp only [List.length_append, List.length_singleton] at free_cells ⊢
          by_cases beyond : front.length < first
          · omega
          · have last := free_cells front.length (by omega) (by omega)
            obtain rfl : taken = false := Option.some.inj (here.symm.trans last)
            have before := maximal first fun position from_first inside =>
              free_cells position from_first (by omega)
            simp only [Bool.false_eq_true, if_false]
            omega
        · intro first run
          rw [← split] at run
          have outside := later first run
          simp only [List.length_append, List.length_singleton]
          by_contra close
          have ends : first + needed = front.length + 1 := by omega
          have last := run (front.length - first) (by omega)
          rw [show first + (front.length - first) = front.length by omega] at last
          obtain rfl : taken = false := Option.some.inj (here.symm.trans last)
          have before := maximal first fun position from_first inside => by
            have cell := run (position - first) (by omega)
            rwa [show first + (position - first) = position by omega] at cell
          simp only [Bool.false_eq_true, if_false] at other
          omega

/-- A search for at least one cell fails only if there is no run of so many free cells. -/
theorem no_run_of_search {needed : ℕ} {cells : List Bool} (nonempty : 0 < needed)
    (missing : search needed cells = none) (start : ℕ) : ¬ Run false cells start needed :=
  @no_run_of_searchFrom needed cells [] 0 nonempty (fun _ _ => Nat.zero_le _)
    (fun _ _ => by simp only [List.length_nil]; omega) missing start

theorem searchFrom_zero (rest : List Bool) (position free : ℕ) :
    searchFrom 0 rest position free = none ↔ true ∉ rest := by
  induction rest generalizing position free with
  | nil => simp [searchFrom]
  | cons taken rest induction => cases taken <;> simp [searchFrom, induction]

/-- A search for no cell stops behind the first taken cell, so it fails on a free bitmap. -/
theorem search_zero (cells : List Bool) : search 0 cells = none ↔ true ∉ cells :=
  searchFrom_zero cells 0 0

/-! ## Marking a run -/

/-- Set the cells of a run one after another. -/
def mark (value : Bool) (cells : List Bool) (start count : ℕ) : List Bool :=
  (List.range count).foldl (fun cells offset => cells.set (start + offset) value) cells

theorem mark_succ (value : Bool) (cells : List Bool) (start count : ℕ) :
    mark value cells start (count + 1) =
      (mark value cells start count).set (start + count) value := by
  rw [mark, List.range_succ, List.foldl_append]
  rfl

@[simp]
theorem length_mark (value : Bool) (cells : List Bool) (start count : ℕ) :
    (mark value cells start count).length = cells.length := by
  induction count with
  | zero => rfl
  | succ count induction => rw [mark_succ, List.length_set, induction]

theorem getElem?_mark (value : Bool) (cells : List Bool) (start count position : ℕ) :
    (mark value cells start count)[position]? =
      if start ≤ position ∧ position < start + count then cells[position]?.map fun _ => value
      else cells[position]? := by
  induction count with
  | zero =>
      rw [if_neg (by omega)]
      rfl
  | succ count induction =>
      rw [mark_succ, List.getElem?_set]
      by_cases last : start + count = position
      · subst last
        have last_inside : start ≤ start + count ∧ start + count < start + (count + 1) := by omega
        simp only [if_true, last_inside, length_mark]
        split
        · rename_i inside
          simp [List.getElem?_eq_getElem inside]
        · rename_i outside
          simp [List.getElem?_eq_none (Nat.le_of_not_lt outside)]
      · rw [if_neg last, induction]
        by_cases inside : start ≤ position ∧ position < start + count
        · rw [if_pos inside, if_pos (by omega)]
        · rw [if_neg inside, if_neg (by omega)]

/-- Marking a run of the other mark adds its cells to the count. -/
theorem count_mark {value : Bool} {cells : List Bool} {start count : ℕ}
    (run : Run (!value) cells start count) :
    (mark value cells start count).count value = cells.count value + count := by
  induction count with
  | zero => rfl
  | succ count induction =>
      have before := induction fun offset inside => run offset (by omega)
      have cell : (mark value cells start count)[start + count]? = some (!value) := by
        rw [getElem?_mark, if_neg (by omega)]
        exact run count (by omega)
      obtain ⟨inside, value_eq⟩ := List.getElem?_eq_some_iff.mp cell
      rw [mark_succ, List.count_set inside, before, value_eq]
      cases value <;> simp <;> omega


/-! ## Runs that share a bitmap -/

/-- A position inside a run, given by its start and its length. -/
def Covers (run : ℕ × ℕ) (position : ℕ) : Prop :=
  run.1 ≤ position ∧ position < run.1 + run.2

/-- The runs are pairwise disjoint inside the bitmap, and the taken cells are their union. -/
structure Partition (cells : List Bool) (runs : List (ℕ × ℕ)) : Prop where
  inside : ∀ run ∈ runs, run.1 + run.2 ≤ cells.length
  disjoint : runs.Pairwise fun left right =>
    ∀ position, ¬ (Covers left position ∧ Covers right position)
  covers : ∀ position, cells[position]? = some true ↔ ∃ run ∈ runs, Covers run position

theorem partition_free (size : ℕ) : Partition (List.replicate size false) [] := by
  refine ⟨by simp, List.Pairwise.nil, fun position => ?_⟩
  simp [List.getElem?_replicate]

theorem Partition.perm {cells : List Bool} {runs runs' : List (ℕ × ℕ)}
    (partition : Partition cells runs) (perm : runs.Perm runs') : Partition cells runs' := by
  refine ⟨fun run member => partition.inside run (perm.mem_iff.mpr member), ?_, fun position => ?_⟩
  · refine (perm.pairwise_iff ?_).mp partition.disjoint
    intro left right apart position both
    exact apart position ⟨both.2, both.1⟩
  · rw [partition.covers]
    simp only [perm.mem_iff]

/-- A free run that is taken is disjoint from the runs before. -/
theorem Partition.take {cells : List Bool} {runs : List (ℕ × ℕ)}
    (partition : Partition cells runs) {start count : ℕ} (free : Run false cells start count)
    (fits : start + count ≤ cells.length) :
    Partition (mark true cells start count) (runs ++ [(start, count)]) := by
  have apart (position : ℕ) (covered : Covers (start, count) position) :
      cells[position]? = some false := by
    have cell := free (position - start) (by have := covered.1; have := covered.2; omega)
    rwa [show start + (position - start) = position from Nat.add_sub_cancel' covered.1] at cell
  refine ⟨?_, List.pairwise_append.mpr ⟨partition.disjoint, List.pairwise_singleton _ _, ?_⟩,
    fun position => ?_⟩
  · intro run member
    rw [length_mark]
    rcases List.mem_append.mp member with old | new
    · exact partition.inside run old
    · rw [List.mem_singleton.mp new]
      exact fits
  · intro old member new new_mem position both
    rw [List.mem_singleton.mp new_mem] at both
    have taken := (partition.covers position).mpr ⟨old, member, both.1⟩
    rw [apart position both.2] at taken
    simp at taken
  · rw [getElem?_mark]
    by_cases covered : start ≤ position ∧ position < start + count
    · rw [if_pos covered, apart position covered]
      refine iff_of_true rfl ⟨(start, count), by simp, covered⟩
    · rw [if_neg covered, partition.covers]
      constructor
      · rintro ⟨run, member, inside⟩
        exact ⟨run, List.mem_append_left _ member, inside⟩
      · rintro ⟨run, member, inside⟩
        rcases List.mem_append.mp member with old | new
        · exact ⟨run, old, inside⟩
        · rw [List.mem_singleton.mp new] at inside
          exact absurd inside covered

theorem Partition.run_taken {cells : List Bool} {run : ℕ × ℕ} {runs : List (ℕ × ℕ)}
    (partition : Partition cells (run :: runs)) : Run true cells run.1 run.2 := by
  intro offset inside
  exact (partition.covers _).mpr ⟨run, List.mem_cons_self, Nat.le_add_right _ _, by omega⟩

/-- A run that is given back leaves the others. -/
theorem Partition.give {cells : List Bool} {run : ℕ × ℕ} {runs : List (ℕ × ℕ)}
    (partition : Partition cells (run :: runs)) : Partition (mark false cells run.1 run.2) runs := by
  obtain ⟨first, rest⟩ := List.pairwise_cons.mp partition.disjoint
  refine ⟨?_, rest, fun position => ?_⟩
  · intro other member
    rw [length_mark]
    exact partition.inside other (List.mem_cons_of_mem _ member)
  · rw [getElem?_mark]
    by_cases covered : run.1 ≤ position ∧ position < run.1 + run.2
    · rw [if_pos covered]
      constructor
      · intro taken
        cases cell : cells[position]? <;> simp [cell] at taken
      · rintro ⟨other, member, inside⟩
        exact absurd ⟨covered, inside⟩ (first other member position)
    · rw [if_neg covered, partition.covers]
      constructor
      · rintro ⟨other, member, inside⟩
        rcases List.mem_cons.mp member with rfl | old
        · exact absurd inside covered
        · exact ⟨other, old, inside⟩
      · rintro ⟨other, member, inside⟩
        exact ⟨other, List.mem_cons_of_mem _ member, inside⟩

theorem Partition.all_free {cells : List Bool} (partition : Partition cells []) :
    true ∉ cells := by
  intro member
  obtain ⟨position, inside, value⟩ := List.mem_iff_getElem.mp member
  have taken := (partition.covers position).mp (List.getElem?_eq_some_iff.mpr ⟨inside, value⟩)
  simp at taken

end Bitmap
