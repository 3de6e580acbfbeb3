import Mathlib.Algebra.BigOperators.Group.List.Basic
import Mathlib.Algebra.BigOperators.Ring.List
import Mathlib.Algebra.Order.Field.Basic
import Mathlib.Analysis.SpecialFunctions.Exp
import Mathlib.Order.WithBot

/-!
# Softmax averages with a running maximum

A softmax average is a quotient of two sums of exponentials. Streaming implementations keep both
sums relative to a running maximum, which is `⊥` while nothing has been seen, and rescale them when
the maximum grows. The rules below say that such partial sums can be extended by a block of scores,
merged with each other and finally divided, for any order of the scores.
-/

/-- A positive map that turns sums into products. -/
structure Exponential (K : Type*) [Field K] [LinearOrder K] where
  toFun : K → K
  map_add : ∀ x y, toFun (x + y) = toFun x * toFun y
  pos : ∀ x, 0 < toFun x

namespace Exponential

/-- The real exponential. -/
noncomputable def real : Exponential ℝ := ⟨Real.exp, Real.exp_add, Real.exp_pos⟩

/-- Exponential of a difference, with `⊥` for minus infinity on the left. -/
def gap {K : Type*} [Field K] [LinearOrder K] (exp : Exponential K) :
    WithBot K → WithBot K → K
  | some x, some y => exp.toFun (x - y)
  | _, _ => 0

/-- What a sum of exponentials is scaled by when it is kept relative to a maximum. -/
def weight {K : Type*} [Field K] [LinearOrder K] (exp : Exponential K) : WithBot K → K
  | some x => exp.toFun (-x)
  | none => 0

/-- Sum of the exponentials of the scores. -/
def total {K ι : Type*} [Field K] [LinearOrder K] (exp : Exponential K)
    (scored : List (K × (ι → K))) : K :=
  (scored.map fun entry => exp.toFun entry.1).sum

/-- Sum of the values, each weighted by the exponential of its score. -/
def weighted {K ι : Type*} [Field K] [LinearOrder K] (exp : Exponential K)
    (scored : List (K × (ι → K))) (i : ι) : K :=
  (scored.map fun entry => exp.toFun entry.1 * entry.2 i).sum

/-- Softmax average of the values. -/
def mean {K ι : Type*} [Field K] [LinearOrder K] (exp : Exponential K)
    (scored : List (K × (ι → K))) (i : ι) : K :=
  exp.weighted scored i / exp.total scored

/-! ## Differences of scores -/

@[simp]
theorem gap_bot {K : Type*} [Field K] [LinearOrder K] (exp : Exponential K) (top : WithBot K) :
    exp.gap ⊥ top = 0 := by
  cases top <;> rfl

@[simp]
theorem gap_coe {K : Type*} [Field K] [LinearOrder K] (exp : Exponential K) (x y : K) :
    exp.gap x y = exp.toFun (x - y) := rfl

@[simp]
theorem weight_bot {K : Type*} [Field K] [LinearOrder K] (exp : Exponential K) :
    exp.weight ⊥ = 0 := rfl

@[simp]
theorem weight_coe {K : Type*} [Field K] [LinearOrder K] (exp : Exponential K) (x : K) :
    exp.weight x = exp.toFun (-x) := rfl

theorem map_zero {K : Type*} [Field K] [LinearOrder K] (exp : Exponential K) :
    exp.toFun 0 = 1 := by
  have double := exp.map_add 0 0
  rw [add_zero] at double
  exact (mul_eq_left₀ (exp.pos 0).ne').mp double.symm

theorem gap_eq {K : Type*} [Field K] [LinearOrder K] (exp : Exponential K) (x : K)
    (top : WithBot K) (above : (x : WithBot K) ≤ top) :
    exp.gap x top = exp.weight top * exp.toFun x := by
  cases top with
  | bot => exact absurd above (WithBot.not_coe_le_bot x)
  | coe y => rw [gap_coe, weight_coe, ← exp.map_add, neg_add_eq_sub]

theorem gap_self {K : Type*} [Field K] [LinearOrder K] (exp : Exponential K) (x : K) :
    exp.gap x x = 1 := by
  rw [gap_coe, sub_self, exp.map_zero]

/-- Raising the maximum rescales what is kept relative to it. -/
theorem weight_mul_gap {K : Type*} [Field K] [LinearOrder K] (exp : Exponential K)
    {low high : WithBot K} (seen : low ≠ ⊥) (above : low ≤ high) :
    exp.weight low * exp.gap low high = exp.weight high := by
  cases low with
  | bot => exact absurd rfl seen
  | coe x =>
      cases high with
      | bot => exact absurd above (WithBot.not_coe_le_bot x)
      | coe y =>
          rw [gap_coe, weight_coe, weight_coe, ← exp.map_add]
          congr 1
          ring

theorem weight_pos {K : Type*} [Field K] [LinearOrder K] (exp : Exponential K)
    {top : WithBot K} (seen : top ≠ ⊥) : 0 < exp.weight top := by
  cases top with
  | bot => exact absurd rfl seen
  | coe x => exact exp.pos (-x)

/-! ## Sums -/

@[simp]
theorem total_append {K ι : Type*} [Field K] [LinearOrder K] (exp : Exponential K)
    (front back : List (K × (ι → K))) :
    exp.total (front ++ back) = exp.total front + exp.total back := by
  simp [total]

@[simp]
theorem weighted_append {K ι : Type*} [Field K] [LinearOrder K] (exp : Exponential K)
    (front back : List (K × (ι → K))) (i : ι) :
    exp.weighted (front ++ back) i = exp.weighted front i + exp.weighted back i := by
  simp [weighted]

theorem total_flatMap {K ι κ : Type*} [Field K] [LinearOrder K] (exp : Exponential K)
    (parts : List κ) (scored : κ → List (K × (ι → K))) :
    exp.total (parts.flatMap scored) = (parts.map fun part => exp.total (scored part)).sum := by
  induction parts with
  | nil => rfl
  | cons part parts induction =>
      rw [List.flatMap_cons, total_append, induction, List.map_cons, List.sum_cons]

theorem weighted_flatMap {K ι κ : Type*} [Field K] [LinearOrder K] (exp : Exponential K)
    (parts : List κ) (scored : κ → List (K × (ι → K))) (i : ι) :
    exp.weighted (parts.flatMap scored) i =
      (parts.map fun part => exp.weighted (scored part) i).sum := by
  induction parts with
  | nil => rfl
  | cons part parts induction =>
      rw [List.flatMap_cons, weighted_append, induction, List.map_cons, List.sum_cons]

theorem total_pos {K ι : Type*} [Field K] [LinearOrder K] [IsStrictOrderedRing K]
    (exp : Exponential K) {scored : List (K × (ι → K))} (nonempty : scored ≠ []) :
    0 < exp.total scored := by
  refine List.sum_pos _ (fun value member => ?_) (by simpa using nonempty)
  obtain ⟨entry, -, rfl⟩ := List.mem_map.mp member
  exact exp.pos entry.1

theorem sum_gap {K ι : Type*} [Field K] [LinearOrder K] (exp : Exponential K)
    {scored : List (K × (ι → K))} {top : WithBot K}
    (above : ∀ entry ∈ scored, (entry.1 : WithBot K) ≤ top) :
    (scored.map fun entry => exp.gap entry.1 top).sum = exp.weight top * exp.total scored := by
  rw [total, ← List.sum_map_mul_left]
  exact congrArg List.sum (List.map_congr_left fun entry member =>
    exp.gap_eq entry.1 top (above entry member))

theorem sum_gap_mul {K ι : Type*} [Field K] [LinearOrder K] (exp : Exponential K)
    {scored : List (K × (ι → K))} {top : WithBot K}
    (above : ∀ entry ∈ scored, (entry.1 : WithBot K) ≤ top) (i : ι) :
    (scored.map fun entry => exp.gap entry.1 top * entry.2 i).sum =
      exp.weight top * exp.weighted scored i := by
  rw [weighted, ← List.sum_map_mul_left]
  refine congrArg List.sum (List.map_congr_left fun entry member => ?_)
  rw [exp.gap_eq entry.1 top (above entry member), mul_assoc]

end Exponential

/-! ## Partial sums -/

/-- Running maximum, sum of weights and weighted sum of values of a streaming softmax. -/
structure PartialSoftmax (K ι : Type*) where
  top : WithBot K
  sum : K
  acc : ι → K

namespace PartialSoftmax

/-- Nothing seen yet. -/
def empty (K ι : Type*) [Zero K] : PartialSoftmax K ι := ⟨⊥, 0, fun _ => 0⟩

/-- The partial sums of exactly these scores, relative to a finite maximum once there are any. -/
structure Of {K ι : Type*} [Field K] [LinearOrder K] (exp : Exponential K)
    (sums : PartialSoftmax K ι) (scored : List (K × (ι → K))) : Prop where
  unseen : sums.top = ⊥ → scored = []
  sum : sums.sum = exp.weight sums.top * exp.total scored
  acc : ∀ i, sums.acc i = exp.weight sums.top * exp.weighted scored i

theorem of_empty {K ι : Type*} [Field K] [LinearOrder K] (exp : Exponential K) :
    (empty K ι).Of exp [] :=
  ⟨fun _ => rfl, by simp [empty], fun i => by simp [empty]⟩

/-- Two-pass softmax: all weights relative to one maximum. -/
theorem of_twoPass {K ι : Type*} [Field K] [LinearOrder K] (exp : Exponential K)
    {scored : List (K × (ι → K))} {top : WithBot K}
    (above : ∀ entry ∈ scored, (entry.1 : WithBot K) ≤ top) :
    Of exp ⟨top, (scored.map fun entry => exp.gap entry.1 top).sum,
      fun i => (scored.map fun entry => exp.gap entry.1 top * entry.2 i).sum⟩ scored := by
  refine ⟨fun unseen => ?_, exp.sum_gap above, exp.sum_gap_mul above⟩
  refine List.eq_nil_iff_forall_not_mem.mpr fun entry member => ?_
  exact WithBot.not_coe_le_bot entry.1 ((above entry member).trans_eq unseen)

/-- Rescaled partial sums followed by a block of new scores. -/
theorem Of.absorb {K ι : Type*} [Field K] [LinearOrder K] {exp : Exponential K}
    {sums : PartialSoftmax K ι} {scored block : List (K × (ι → K))} (of : sums.Of exp scored)
    {top : WithBot K} (raised : sums.top ≤ top)
    (above : ∀ entry ∈ block, (entry.1 : WithBot K) ≤ top) :
    Of exp ⟨top, sums.sum * exp.gap sums.top top +
        (block.map fun entry => exp.gap entry.1 top).sum,
      fun i => sums.acc i * exp.gap sums.top top +
        (block.map fun entry => exp.gap entry.1 top * entry.2 i).sum⟩ (scored ++ block) := by
  have fresh := of_twoPass exp above
  rcases eq_or_ne sums.top ⊥ with unseen | seen
  · obtain rfl := of.unseen unseen
    simpa [unseen] using fresh
  · refine ⟨fun none => absurd (le_bot_iff.mp (raised.trans_eq none)) seen, ?_, fun i => ?_⟩
    · rw [exp.sum_gap above, exp.total_append, of.sum, mul_right_comm,
        exp.weight_mul_gap seen raised, mul_add]
    · simp only
      rw [exp.sum_gap_mul above, exp.weighted_append, of.acc, mul_right_comm,
        exp.weight_mul_gap seen raised, mul_add]

/-- Partial sums of several parts, all rescaled to one maximum. -/
theorem of_merge {K ι κ : Type*} [Field K] [LinearOrder K] {exp : Exponential K}
    {parts : List κ} {sums : κ → PartialSoftmax K ι} {scored : κ → List (K × (ι → K))}
    (of : ∀ part ∈ parts, (sums part).Of exp (scored part)) {top : WithBot K}
    (above : ∀ part ∈ parts, (sums part).top ≤ top) :
    Of exp ⟨top, (parts.map fun part => (sums part).sum * exp.gap (sums part).top top).sum,
      fun i => (parts.map fun part =>
        (sums part).acc i * exp.gap (sums part).top top).sum⟩ (parts.flatMap scored) := by
  have scaled (part : κ) (member : part ∈ parts) :
      (sums part).sum * exp.gap (sums part).top top =
          exp.weight top * exp.total (scored part) ∧
        ∀ i, (sums part).acc i * exp.gap (sums part).top top =
          exp.weight top * exp.weighted (scored part) i := by
    rcases eq_or_ne (sums part).top ⊥ with unseen | seen
    · rw [unseen, exp.gap_bot, (of part member).unseen unseen]
      simp [Exponential.total, Exponential.weighted]
    · have raised := exp.weight_mul_gap seen (above part member)
      refine ⟨?_, fun i => ?_⟩
      · rw [(of part member).sum, mul_right_comm, raised]
      · rw [(of part member).acc, mul_right_comm, raised]
  refine ⟨fun unseen => ?_, ?_, fun i => ?_⟩
  · refine List.flatMap_eq_nil_iff.mpr fun part member => (of part member).unseen ?_
    exact le_bot_iff.mp ((above part member).trans_eq unseen)
  · rw [exp.total_flatMap, ← List.sum_map_mul_left]
    exact congrArg List.sum (List.map_congr_left fun part member => (scaled part member).1)
  · rw [exp.weighted_flatMap, ← List.sum_map_mul_left]
    exact congrArg List.sum (List.map_congr_left fun part member => (scaled part member).2 i)

theorem Of.top_ne_bot {K ι : Type*} [Field K] [LinearOrder K] {exp : Exponential K}
    {sums : PartialSoftmax K ι} {scored : List (K × (ι → K))} (of : sums.Of exp scored)
    (nonempty : scored ≠ []) : sums.top ≠ ⊥ :=
  fun unseen => nonempty (of.unseen unseen)

theorem Of.sum_pos {K ι : Type*} [Field K] [LinearOrder K] [IsStrictOrderedRing K]
    {exp : Exponential K} {sums : PartialSoftmax K ι} {scored : List (K × (ι → K))}
    (of : sums.Of exp scored) (nonempty : scored ≠ []) : 0 < sums.sum := by
  rw [of.sum]
  exact mul_pos (exp.weight_pos (of.top_ne_bot nonempty)) (exp.total_pos nonempty)

/-- The quotient of the partial sums is the softmax average: the maximum cancels. -/
theorem Of.mean {K ι : Type*} [Field K] [LinearOrder K] {exp : Exponential K}
    {sums : PartialSoftmax K ι} {scored : List (K × (ι → K))} (of : sums.Of exp scored)
    (nonempty : scored ≠ []) (i : ι) : sums.acc i / sums.sum = exp.mean scored i := by
  rw [of.sum, of.acc, Exponential.mean]
  exact mul_div_mul_left _ _ (exp.weight_pos (of.top_ne_bot nonempty)).ne'

end PartialSoftmax
