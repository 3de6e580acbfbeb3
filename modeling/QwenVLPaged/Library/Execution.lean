import Mathlib.Data.List.Basic

/-!
# Guarded finite executions

A deterministic machine is a step function on states and labels. `run` folds it over a list of
labels, and `Along` records that every step of such a run meets a condition on the state before
it. The rules below turn what one step preserves into what every run preserves.
-/

namespace Execution

/-- Execute a list of labels from left to right. -/
def run {σ α : Type*} (step : σ → α → σ) : σ → List α → σ
  | state, [] => state
  | state, label :: labels => run step (step state label) labels

/-- Every step of the run meets `guard` in the state it starts from. -/
def Along {σ α : Type*} (step : σ → α → σ) (guard : σ → α → Prop) : σ → List α → Prop
  | _, [] => True
  | state, label :: labels => guard state label ∧ Along step guard (step state label) labels

instance Along.decidable {σ α : Type*} (step : σ → α → σ) (guard : σ → α → Prop)
    [∀ state label, Decidable (guard state label)] :
    ∀ state labels, Decidable (Along step guard state labels)
  | _, [] => inferInstanceAs (Decidable True)
  | state, label :: labels =>
      have := Along.decidable step guard (step state label) labels
      inferInstanceAs (Decidable (_ ∧ _))

@[simp]
theorem run_nil {σ α : Type*} (step : σ → α → σ) (state : σ) : run step state [] = state := rfl

@[simp]
theorem run_cons {σ α : Type*} (step : σ → α → σ) (state : σ) (label : α) (labels : List α) :
    run step state (label :: labels) = run step (step state label) labels := rfl

theorem run_append {σ α : Type*} (step : σ → α → σ) (state : σ) (front back : List α) :
    run step state (front ++ back) = run step (run step state front) back := by
  induction front generalizing state with
  | nil => rfl
  | cons label front induction =>
      simp only [List.cons_append, run_cons]
      exact induction (step state label)

theorem along_append {σ α : Type*} {step : σ → α → σ} {guard : σ → α → Prop} {state : σ}
    {front back : List α} :
    Along step guard state (front ++ back) ↔
      Along step guard state front ∧ Along step guard (run step state front) back := by
  induction front generalizing state with
  | nil => simp [Along]
  | cons label front induction =>
      simp only [List.cons_append, Along, run_cons, induction, and_assoc]

theorem Along.imp {σ α : Type*} {step : σ → α → σ} {guard guard' : σ → α → Prop}
    (weaken : ∀ state label, guard state label → guard' state label) {state : σ}
    {labels : List α} (guarded : Along step guard state labels) :
    Along step guard' state labels := by
  induction labels generalizing state with
  | nil => trivial
  | cons label labels induction =>
      exact ⟨weaken state label guarded.1, induction guarded.2⟩

theorem Along.and {σ α : Type*} {step : σ → α → σ} {guard guard' : σ → α → Prop} {state : σ}
    {labels : List α} (guarded : Along step guard state labels)
    (guarded' : Along step guard' state labels) :
    Along step (fun state label => guard state label ∧ guard' state label) state labels := by
  induction labels generalizing state with
  | nil => trivial
  | cons label labels induction =>
      exact ⟨⟨guarded.1, guarded'.1⟩, induction guarded.2 guarded'.2⟩

theorem along_of_forall {σ α : Type*} {step : σ → α → σ} {guard : α → Prop} {state : σ}
    {labels : List α} (holds : ∀ label ∈ labels, guard label) :
    Along step (fun _ label => guard label) state labels := by
  induction labels generalizing state with
  | nil => trivial
  | cons label labels induction =>
      exact ⟨holds label List.mem_cons_self,
        induction fun other member => holds other (List.mem_cons_of_mem _ member)⟩

/-- A machine that carries another one along runs it step by step. -/
theorem project_run {σ τ α : Type*} {step : σ → α → σ} {carried : τ → α → τ} {project : σ → τ}
    (follows : ∀ state label, project (step state label) = carried (project state) label)
    (state : σ) (labels : List α) :
    project (run step state labels) = run carried (project state) labels := by
  induction labels generalizing state with
  | nil => rfl
  | cons label labels induction => rw [run_cons, run_cons, induction, follows]

theorem Along.of_project {σ τ α : Type*} {step : σ → α → σ} {carried : τ → α → τ}
    (project : σ → τ) {guard : τ → α → Prop}
    (follows : ∀ state label, project (step state label) = carried (project state) label)
    {state : σ} {labels : List α} (guarded : Along carried guard (project state) labels) :
    Along step (fun state label => guard (project state) label) state labels := by
  induction labels generalizing state with
  | nil => trivial
  | cons label labels induction =>
      refine ⟨guarded.1, induction ?_⟩
      rw [follows]
      exact guarded.2

/-- A property of a state and the labels still to come holds of the final state of every run
when each step hands it on to the remaining labels. -/
theorem run_induction {σ α : Type*} {step : σ → α → σ} {motive : σ → List α → Prop}
    (advance : ∀ state label labels,
      motive state (label :: labels) → motive (step state label) labels)
    {state : σ} {labels : List α} (start : motive state labels) :
    motive (run step state labels) [] := by
  induction labels generalizing state with
  | nil => exact start
  | cons label labels induction => exact induction (advance state label labels start)

/-- An invariant kept by every guarded step holds after every guarded run. -/
theorem Along.invariant {σ α : Type*} {step : σ → α → σ} {guard : σ → α → Prop}
    {invariant : σ → Prop}
    (preserved : ∀ state label,
      invariant state → guard state label → invariant (step state label))
    {state : σ} {labels : List α} (start : invariant state)
    (guarded : Along step guard state labels) :
    invariant (run step state labels) := by
  have advance (state : σ) (label : α) (labels : List α)
      (holds : invariant state ∧ Along step guard state (label :: labels)) :
      invariant (step state label) ∧ Along step guard (step state label) labels :=
    ⟨preserved state label holds.1 holds.2.1, holds.2.2⟩
  exact (run_induction
    (motive := fun state labels => invariant state ∧ Along step guard state labels)
    advance ⟨start, guarded⟩).1

end Execution
