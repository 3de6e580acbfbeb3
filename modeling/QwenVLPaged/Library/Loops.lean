import Mathlib.Algebra.BigOperators.Group.List.Basic
import Mathlib.Algebra.BigOperators.Intervals
import Mathlib.Data.List.Range
import Mathlib.Logic.Function.Basic

/-!
# Loops over arrays

An array is a function from indices, a loop over it is a left fold. The rules say what a loop that
visits every index once leaves behind, how a loop of such loops acts on a single index, and that a
range cut into blocks is still that range.
-/

namespace Loops

/-- A loop that rewrites every listed entry once, each from its own value. -/
theorem foldl_update_apply {ι α : Type*} [DecidableEq ι] (next : ι → α → α) {indices : List ι}
    (nodup : indices.Nodup) (memory : ι → α) (i : ι) :
    indices.foldl (fun memory j => Function.update memory j (next j (memory j))) memory i =
      if i ∈ indices then next i (memory i) else memory i := by
  induction indices generalizing memory with
  | nil => rfl
  | cons j indices induction =>
      obtain ⟨fresh, nodup⟩ := List.nodup_cons.mp nodup
      rw [List.foldl_cons, induction nodup]
      rcases eq_or_ne i j with rfl | different
      · rw [if_neg fresh, if_pos List.mem_cons_self, Function.update_self]
      · rw [Function.update_of_ne different]
        simp [different]

/-- In a loop of such loops every entry runs through its own steps. -/
theorem foldl_foldl_update_apply {ι α τ : Type*} [DecidableEq ι] (next : τ → ι → α → α)
    {indices : List ι} (nodup : indices.Nodup) (labels : List τ) (memory : ι → α) {i : ι}
    (listed : i ∈ indices) :
    labels.foldl (fun memory label => indices.foldl
        (fun memory j => Function.update memory j (next label j (memory j))) memory) memory i =
      labels.foldl (fun value label => next label i value) (memory i) := by
  induction labels generalizing memory with
  | nil => rfl
  | cons label labels induction =>
      rw [List.foldl_cons, induction, foldl_update_apply (next label) nodup, if_pos listed,
        List.foldl_cons]

/-- A loop of writers, one of which sets what is observed while the others leave it alone. -/
theorem foldl_observe {σ ι α : Type*} (write : σ → ι → σ) (observe : σ → α) {value : α}
    {labels : List ι} {label : ι} (listed : label ∈ labels)
    (sets : ∀ memory, observe (write memory label) = value)
    (keeps : ∀ other ∈ labels, other ≠ label → ∀ memory,
      observe (write memory other) = observe memory)
    (memory : σ) : observe (labels.foldl write memory) = value := by
  classical
  induction labels using List.reverseRecOn with
  | nil => exact absurd listed List.not_mem_nil
  | append_singleton labels last induction =>
      rw [List.foldl_append, List.foldl_cons, List.foldl_nil]
      rcases eq_or_ne last label with rfl | different
      · exact sets _
      · rw [keeps last (by simp) different]
        refine induction ?_ fun other member => keeps other (List.mem_append_left _ member)
        rcases List.mem_append.mp listed with earlier | final
        · exact earlier
        · exact absurd (List.mem_singleton.mp final).symm different

/-- A running sum. -/
theorem foldl_add {α K : Type*} [AddMonoid K] (term : α → K) (labels : List α) (start : K) :
    labels.foldl (fun sum label => sum + term label) start = start + (labels.map term).sum := by
  induction labels generalizing start with
  | nil => rw [List.foldl_nil, List.map_nil, List.sum_nil, add_zero]
  | cons label labels induction =>
      rw [List.foldl_cons, induction, List.map_cons, List.sum_cons, add_assoc]

/-- A running maximum bounds what it has seen. -/
theorem le_foldl_max {α β : Type*} [LinearOrder β] (term : α → β) {labels : List α} (start : β) :
    start ≤ labels.foldl (fun top label => max top (term label)) start ∧
      ∀ label ∈ labels, term label ≤
        labels.foldl (fun top label => max top (term label)) start := by
  induction labels generalizing start with
  | nil => simp
  | cons label labels induction =>
      obtain ⟨kept, bounded⟩ := induction (max start (term label))
      refine ⟨(le_max_left _ _).trans kept, fun other member => ?_⟩
      rcases List.mem_cons.mp member with rfl | later
      · exact (le_max_right _ _).trans kept
      · exact bounded other later

/-- A loop with an early exit that is never taken. -/
theorem foldlM_eq_some {σ α : Type*} {step : σ → α → Option σ} {next : σ → α → σ}
    {labels : List α}
    (succeeds : ∀ label ∈ labels, ∀ state, step state label = some (next state label))
    (start : σ) : labels.foldlM step start = some (labels.foldl next start) := by
  induction labels generalizing start with
  | nil => rfl
  | cons label labels induction =>
      rw [List.foldlM_cons, succeeds label List.mem_cons_self, Option.bind_eq_bind,
        Option.bind_some, List.foldl_cons]
      exact induction (fun other member => succeeds other (List.mem_cons_of_mem _ member)) _

theorem foldlM_isSome {σ α : Type*} {step : σ → α → Option σ} {labels : List α}
    (succeeds : ∀ label ∈ labels, ∀ state, (step state label).isSome) (start : σ) :
    (labels.foldlM step start).isSome := by
  induction labels generalizing start with
  | nil => rfl
  | cons label labels induction =>
      obtain ⟨next, stepped⟩ := Option.isSome_iff_exists.mp (succeeds label List.mem_cons_self start)
      rw [List.foldlM_cons, stepped]
      exact induction (fun other member => succeeds other (List.mem_cons_of_mem _ member)) next

/-- Blocks of `size` indices, the last one cut off at `count`, cover the indices below `count`. -/
theorem flatMap_blocks (size blocks count : ℕ) :
    (List.range blocks).flatMap (fun block =>
        List.range' (block * size) (min (block * size + size) count - block * size)) =
      List.range (min (blocks * size) count) := by
  induction blocks with
  | zero => simp
  | succ blocks induction =>
      rw [List.range_succ, List.flatMap_append, induction, List.flatMap_singleton, Nat.succ_mul]
      rcases Nat.le_total count (blocks * size) with above | under
      · rw [Nat.min_eq_right above, Nat.min_eq_right (by omega), Nat.sub_eq_zero_of_le above]
        exact List.append_nil _
      · rw [Nat.min_eq_left under, List.range_eq_range', List.range_eq_range']
        have joined := @List.range'_append 0 (blocks * size)
          (min (blocks * size + size) count - blocks * size) 1
        rw [Nat.one_mul, Nat.zero_add] at joined
        rw [joined]
        congr 1
        omega

/-- Full blocks cover a multiple of their size. -/
theorem flatMap_full_blocks (size blocks : ℕ) :
    (List.range blocks).flatMap (fun block => List.range' (block * size) size) =
      List.range (blocks * size) := by
  induction blocks with
  | zero => simp
  | succ blocks induction =>
      rw [List.range_succ, List.flatMap_append, induction, List.flatMap_singleton, Nat.succ_mul,
        List.range_eq_range', List.range_eq_range']
      have joined := @List.range'_append 0 (blocks * size) size 1
      rwa [Nat.one_mul, Nat.zero_add] at joined

theorem sum_map_range {K : Type*} [AddCommMonoid K] (term : ℕ → K) (count : ℕ) :
    ((List.range count).map term).sum = ∑ index ∈ Finset.range count, term index := rfl

/-- A mask on the first entries keeps them. -/
theorem filter_range {covered count : ℕ} (inside : covered ≤ count) :
    (List.range count).filter (fun index => decide (index < covered)) = List.range covered := by
  induction count with
  | zero => rw [Nat.le_zero.mp inside, List.range_zero, List.filter_nil]
  | succ count induction =>
      rw [List.range_succ, List.filter_append]
      rcases Nat.lt_succ_iff_lt_or_eq.mp (Nat.lt_succ_of_le inside) with below | rfl
      · rw [induction (Nat.le_of_lt_succ below)]
        simp [Nat.le_of_lt_succ below]
      · rw [List.range_succ]
        have all : (List.range count).filter (fun index => decide (index < count + 1)) =
            List.range count := by
          refine List.filter_eq_self.mpr fun index member => ?_
          simp [(List.mem_range.mp member).le.trans_lt (Nat.lt_succ_self count)]
        rw [all]
        simp

/-- A sum over a tile whose mask covers its first entries. -/
theorem sum_masked {K : Type*} [AddCommMonoid K] (term : ℕ → K) {covered count : ℕ}
    (inside : covered ≤ count) :
    ((List.range count).map fun index => if index < covered then term index else 0).sum =
      ((List.range covered).map term).sum := by
  rw [sum_map_range, sum_map_range, ← Finset.sum_filter]
  refine Finset.sum_congr (Finset.ext fun index => ?_) fun _ _ => rfl
  simp only [Finset.mem_filter, Finset.mem_range]
  omega

/-- Summing lane by lane is summing in order. -/
theorem sum_lanes {K : Type*} [AddCommMonoid K] (term : ℕ → K) (lanes steps : ℕ) :
    ∑ lane ∈ Finset.range lanes, ∑ step ∈ Finset.range steps, term (step * lanes + lane) =
      ∑ index ∈ Finset.range (steps * lanes), term index := by
  rw [Finset.sum_comm]
  induction steps with
  | zero => simp
  | succ steps induction =>
      rw [Finset.sum_range_succ, induction, Nat.succ_mul, Finset.sum_range_add]

/-- The rows of a table have been stored one after the other. -/
def Rows {α : Type*} (rows width : ℕ) (value : ℕ → ℕ → α) (memory : ℕ → α) : Prop :=
  ∀ row < rows, ∀ column < width, memory (row * width + column) = value row column

/-- Store one row, entry by entry. -/
def storeRow {α : Type*} (memory : ℕ → α) (base width : ℕ) (value : ℕ → α) : ℕ → α :=
  (List.range width).foldl (fun memory column =>
    Function.update memory (base + column) (value column)) memory

theorem storeRow_apply {α : Type*} (memory : ℕ → α) (base width : ℕ) (value : ℕ → α)
    (index : ℕ) :
    storeRow memory base width value index =
      if base ≤ index ∧ index < base + width then value (index - base) else memory index := by
  unfold storeRow
  induction width with
  | zero =>
      rw [List.range_zero, List.foldl_nil, if_neg (by omega)]
  | succ width induction =>
      rw [List.range_succ, List.foldl_append, List.foldl_cons, List.foldl_nil]
      rcases eq_or_ne index (base + width) with rfl | different
      · rw [Function.update_self, if_pos (by omega), Nat.add_sub_cancel_left]
      · rw [Function.update_of_ne different, induction]
        exact if_congr (by omega) rfl rfl

theorem storeRow_self {α : Type*} (memory : ℕ → α) (row width : ℕ) (value : ℕ → α) {column : ℕ}
    (inside : column < width) :
    storeRow memory (row * width) width value (row * width + column) = value column := by
  rw [storeRow_apply, if_pos (by omega), Nat.add_sub_cancel_left]

theorem storeRow_of_ne {α : Type*} (memory : ℕ → α) {row other width : ℕ} (value : ℕ → α)
    {column : ℕ} (inside : column < width) (different : row ≠ other) :
    storeRow memory (other * width) width value (row * width + column) =
      memory (row * width + column) := by
  rw [storeRow_apply, if_neg]
  rintro ⟨low, high⟩
  refine different ?_
  calc row = (row * width + column) / width := by
        rw [Nat.mul_comm, Nat.mul_add_div (by omega), Nat.div_eq_of_lt inside, Nat.add_zero]
    _ = other := by
        rw [Nat.div_eq_iff (by omega)]
        omega

theorem Rows.storeRow {α : Type*} {rows width : ℕ} {value : ℕ → ℕ → α} {memory : ℕ → α}
    (stored : Rows rows width value memory) {next : ℕ → α}
    (same : ∀ column < width, next column = value rows column) :
    Rows (rows + 1) width value (storeRow memory (rows * width) width next) := by
  intro row below column inside
  rcases Nat.lt_succ_iff_lt_or_eq.mp below with earlier | rfl
  · rw [storeRow_of_ne memory next inside earlier.ne]
    exact stored row earlier column inside
  · rw [storeRow_self memory row width next inside]
    exact same column inside

end Loops
