import Mathlib.Tactic.TypeStar

/-!
# Programs that raise exceptions

A program updates a state and either returns a value or raises an exception. The state survives
the exception, as in a language whose objects keep what was assigned to them before the raise.
`Ensures` is the weakest precondition of such a program, with one postcondition for the values it
returns and one for the exceptions it raises.
-/

namespace Raising

/-- A program over states `σ` that returns an `α` or raises an `ε`. -/
abbrev Program (ε σ α : Type) : Type := ExceptT ε (StateM σ) α

/-- What a program returns or raises, and the state it leaves. -/
def outcome {ε σ α : Type} (program : Program ε σ α) (state : σ) : Except ε α × σ :=
  StateT.run (ExceptT.run program) state

/-- Raise an exception unless a condition holds. -/
def require {ε σ : Type} (condition : Prop) [Decidable condition] (exception : ε) :
    Program ε σ Unit :=
  if condition then pure () else throw exception

/-- Execute a program only if a condition holds. -/
def onlyIf {ε σ : Type} (condition : Prop) [Decidable condition] (program : Program ε σ Unit) :
    Program ε σ Unit :=
  if condition then program else pure ()

/-- From `state` on, the program returns only what `returned` allows and raises only what `raised`
allows. -/
def Ensures {ε σ α : Type} (program : Program ε σ α) (state : σ) (returned : α → σ → Prop)
    (raised : ε → σ → Prop) : Prop :=
  match outcome program state with
  | (.ok value, after) => returned value after
  | (.error exception, after) => raised exception after

/-! ## Outcomes of the constructs -/

@[simp]
theorem outcome_pure {ε σ α : Type} (value : α) (state : σ) :
    outcome (pure value : Program ε σ α) state = (.ok value, state) := rfl

@[simp]
theorem outcome_throw {ε σ α : Type} (exception : ε) (state : σ) :
    outcome (throw exception : Program ε σ α) state = (.error exception, state) := rfl

@[simp]
theorem outcome_get {ε σ : Type} (state : σ) :
    outcome (get : Program ε σ σ) state = (.ok state, state) := rfl

@[simp]
theorem outcome_set {ε σ : Type} (state after : σ) :
    outcome (set after : Program ε σ PUnit) state = (.ok ⟨⟩, after) := rfl

@[simp]
theorem outcome_modify {ε σ : Type} (update : σ → σ) (state : σ) :
    outcome (modify update : Program ε σ PUnit) state = (.ok ⟨⟩, update state) := rfl

theorem outcome_bind {ε σ α β : Type} (program : Program ε σ α) (next : α → Program ε σ β)
    (state : σ) :
    outcome (program >>= next) state =
      match outcome program state with
      | (.ok value, after) => outcome (next value) after
      | (.error exception, after) => (.error exception, after) := by
  change (match outcome program state with
    | (result, after) => StateT.run (ExceptT.bindCont next result) after) = _
  rcases outcome program state with ⟨value | exception, after⟩ <;> rfl

/-! ## Rules -/

theorem Ensures.mono {ε σ α : Type} {program : Program ε σ α} {state : σ}
    {returned returned' : α → σ → Prop} {raised raised' : ε → σ → Prop}
    (ensures : Ensures program state returned raised)
    (on_return : ∀ value after, returned value after → returned' value after)
    (on_raise : ∀ exception after, raised exception after → raised' exception after) :
    Ensures program state returned' raised' := by
  unfold Ensures at ensures ⊢
  rcases result : outcome program state with ⟨exception | value, after⟩
  · rw [result] at ensures
    exact on_raise exception after ensures
  · rw [result] at ensures
    exact on_return value after ensures

/-- What the second program ensures from wherever the first one returns, both ensure. -/
theorem Ensures.bind {ε σ α β : Type} {program : Program ε σ α} {next : α → Program ε σ β}
    {state : σ} {middle : α → σ → Prop} {returned : β → σ → Prop} {raised : ε → σ → Prop}
    (first : Ensures program state middle raised)
    (second : ∀ value after, middle value after → Ensures (next value) after returned raised) :
    Ensures (program >>= next) state returned raised := by
  unfold Ensures at first ⊢
  rw [outcome_bind]
  rcases result : outcome program state with ⟨exception | value, after⟩
  · rw [result] at first
    exact first
  · rw [result] at first
    exact second value after first

theorem ensures_pure {ε σ α : Type} {value : α} {state : σ} {returned : α → σ → Prop}
    {raised : ε → σ → Prop} (holds : returned value state) :
    Ensures (pure value) state returned raised := holds

theorem ensures_throw {ε σ α : Type} {exception : ε} {state : σ} {returned : α → σ → Prop}
    {raised : ε → σ → Prop} (holds : raised exception state) :
    Ensures (throw exception) state returned raised := holds

/-- Reading the state. -/
theorem ensures_get {ε σ β : Type} {next : σ → Program ε σ β} {state : σ}
    {returned : β → σ → Prop} {raised : ε → σ → Prop}
    (rest : Ensures (next state) state returned raised) :
    Ensures (get >>= next) state returned raised := by
  unfold Ensures at rest ⊢
  rwa [outcome_bind, outcome_get]

/-- Replacing the state. -/
theorem ensures_set {ε σ β : Type} {next : PUnit → Program ε σ β} {state after : σ}
    {returned : β → σ → Prop} {raised : ε → σ → Prop}
    (rest : Ensures (next ⟨⟩) after returned raised) :
    Ensures (set after >>= next) state returned raised := by
  unfold Ensures at rest ⊢
  rwa [outcome_bind, outcome_set]

theorem ensures_modify {ε σ β : Type} {next : PUnit → Program ε σ β} {update : σ → σ}
    {state : σ} {returned : β → σ → Prop} {raised : ε → σ → Prop}
    (rest : Ensures (next ⟨⟩) (update state) returned raised) :
    Ensures (modify update >>= next) state returned raised := by
  unfold Ensures at rest ⊢
  rwa [outcome_bind, outcome_modify]

theorem ensures_require {ε σ β : Type} {condition : Prop} [Decidable condition] {exception : ε}
    {next : Unit → Program ε σ β} {state : σ} {returned : β → σ → Prop} {raised : ε → σ → Prop}
    (met : condition → Ensures (next ()) state returned raised)
    (missed : ¬ condition → raised exception state) :
    Ensures (require condition exception >>= next) state returned raised := by
  unfold Ensures at met ⊢
  rw [outcome_bind]
  by_cases holds : condition
  · rw [require, if_pos holds, outcome_pure]
    exact met holds
  · rw [require, if_neg holds, outcome_throw]
    exact missed holds

theorem ensures_require_last {ε σ : Type} {condition : Prop} [Decidable condition]
    {exception : ε} {state : σ} {returned : Unit → σ → Prop} {raised : ε → σ → Prop}
    (met : condition → returned () state) (missed : ¬ condition → raised exception state) :
    Ensures (require condition exception) state returned raised := by
  by_cases holds : condition
  · rw [require, if_pos holds]
    exact met holds
  · rw [require, if_neg holds]
    exact missed holds

theorem ensures_onlyIf {ε σ : Type} {condition : Prop} [Decidable condition]
    {program : Program ε σ Unit} {state : σ} {returned : Unit → σ → Prop} {raised : ε → σ → Prop}
    (taken : condition → Ensures program state returned raised)
    (skipped : ¬ condition → returned () state) :
    Ensures (onlyIf condition program) state returned raised := by
  by_cases holds : condition
  · rw [onlyIf, if_pos holds]
    exact taken holds
  · rw [onlyIf, if_neg holds]
    exact skipped holds

/-- A result that the raising postcondition excludes is a returned value. -/
theorem Ensures.returns {ε σ α : Type} {program : Program ε σ α} {state : σ}
    {returned : α → σ → Prop} {raised : ε → σ → Prop}
    (ensures : Ensures program state returned raised)
    (excluded : ∀ exception, (outcome program state).1 = .error exception →
      ¬ raised exception (outcome program state).2) :
    ∃ value, (outcome program state).1 = .ok value ∧
      returned value (outcome program state).2 := by
  unfold Ensures at ensures
  rcases result : outcome program state with ⟨exception | value, after⟩
  · rw [result] at ensures excluded
    exact absurd ensures (excluded exception rfl)
  · rw [result] at ensures
    exact ⟨value, rfl, ensures⟩

/-- Whatever the program does, the state it leaves satisfies what both postconditions imply. -/
theorem Ensures.final {ε σ α : Type} {program : Program ε σ α} {state : σ}
    {returned : α → σ → Prop} {raised : ε → σ → Prop} {holds : σ → Prop}
    (ensures : Ensures program state returned raised)
    (on_return : ∀ value after, returned value after → holds after)
    (on_raise : ∀ exception after, raised exception after → holds after) :
    holds (outcome program state).2 := by
  unfold Ensures at ensures
  rcases result : outcome program state with ⟨exception | value, after⟩
  · rw [result] at ensures
    exact on_raise exception after ensures
  · rw [result] at ensures
    exact on_return value after ensures

/-! ## Programs that compute one result

A program that only updates caches returns, or raises, what a pure computation does. -/

/-- The program returns or raises `result`, and leaves a state that satisfies `kept`. -/
def Yields {ε σ α : Type} (program : Program ε σ α) (state : σ) (result : Except ε α)
    (kept : σ → Prop) : Prop :=
  (outcome program state).1 = result ∧ kept (outcome program state).2

theorem yields_pure {ε σ α : Type} {value : α} {state : σ} {kept : σ → Prop} (holds : kept state) :
    Yields (pure value : Program ε σ α) state (.ok value) kept := ⟨rfl, holds⟩

theorem yields_throw {ε σ α : Type} {exception : ε} {state : σ} {kept : σ → Prop}
    (holds : kept state) :
    Yields (throw exception : Program ε σ α) state (.error exception) kept := ⟨rfl, holds⟩

theorem Yields.bind {ε σ α β : Type} {program : Program ε σ α} {next : α → Program ε σ β}
    {state : σ} {result : Except ε α} {results : α → Except ε β} {kept : σ → Prop}
    (first : Yields program state result kept)
    (second : ∀ value after, result = .ok value → kept after →
      Yields (next value) after (results value) kept) :
    Yields (program >>= next) state (result >>= results) kept := by
  obtain ⟨result_eq, holds⟩ := first
  unfold Yields
  rw [outcome_bind]
  rcases reached : outcome program state with ⟨exception | value, after⟩
  · rw [reached] at result_eq holds
    subst result_eq
    exact ⟨rfl, holds⟩
  · rw [reached] at result_eq holds
    subst result_eq
    exact second value after rfl holds

theorem yields_get {ε σ β : Type} {next : σ → Program ε σ β} {state : σ} {result : Except ε β}
    {kept : σ → Prop} (rest : Yields (next state) state result kept) :
    Yields (get >>= next) state result kept := by
  unfold Yields at rest ⊢
  rwa [outcome_bind, outcome_get]

theorem yields_modify {ε σ β : Type} {next : PUnit → Program ε σ β} {update : σ → σ} {state : σ}
    {result : Except ε β} {kept : σ → Prop}
    (rest : Yields (next ⟨⟩) (update state) result kept) :
    Yields (modify update >>= next) state result kept := by
  unfold Yields at rest ⊢
  rwa [outcome_bind, outcome_modify]

theorem yields_require {ε σ β : Type} {condition : Prop} [Decidable condition] {exception : ε}
    {next : Unit → Program ε σ β} {state : σ} {result : Except ε β} {kept : σ → Prop}
    (met : condition → Yields (next ()) state result kept)
    (missed : ¬ condition → result = .error exception ∧ kept state) :
    Yields (require condition exception >>= next) state result kept := by
  unfold Yields at met ⊢
  rw [outcome_bind]
  by_cases holds : condition
  · rw [require, if_pos holds, outcome_pure]
    exact met holds
  · rw [require, if_neg holds, outcome_throw]
    exact ⟨(missed holds).1.symm, (missed holds).2⟩

theorem Yields.ensures {ε σ α : Type} {program : Program ε σ α} {state : σ} {result : Except ε α}
    {kept : σ → Prop} (yields : Yields program state result kept) :
    Ensures program state (fun value after => result = .ok value ∧ kept after)
      (fun exception after => result = .error exception ∧ kept after) := by
  obtain ⟨result_eq, holds⟩ := yields
  unfold Ensures
  rcases reached : outcome program state with ⟨exception | value, after⟩
  · rw [reached] at result_eq holds
    exact ⟨result_eq.symm, holds⟩
  · rw [reached] at result_eq holds
    exact ⟨result_eq.symm, holds⟩

/-! ## Loops -/

/-- Execute a program for each label in turn. -/
def each {ε σ α : Type} (body : α → Program ε σ Unit) : List α → Program ε σ Unit
  | [] => pure ()
  | label :: labels => do
      body label
      each body labels

/-- A loop of tests raises unless all of them pass. -/
theorem outcome_each {ε σ α : Type} {body : α → Program ε σ Unit} {test : α → Bool}
    {exception : ε} {state : σ} {labels : List α}
    (tests : ∀ label ∈ labels, outcome (body label) state =
      if test label then (.ok (), state) else (.error exception, state)) :
    outcome (each body labels) state =
      if labels.all test then (.ok (), state) else (.error exception, state) := by
  induction labels with
  | nil => rfl
  | cons label labels induction =>
      rw [each, outcome_bind, tests label List.mem_cons_self]
      rcases passed : test label with _ | _
      · simp [passed]
      · simpa [passed] using induction fun other member =>
          tests other (List.mem_cons_of_mem _ member)

/-- A loop whose rounds all return. -/
theorem outcome_foldlM {ε σ α β : Type} {body : β → α → Program ε σ β} {labels : List α}
    {next : β × σ → α → β × σ}
    (returns : ∀ label ∈ labels, ∀ value state, outcome (body value label) state =
      (.ok (next (value, state) label).1, (next (value, state) label).2))
    (value : β) (state : σ) :
    outcome (labels.foldlM body value) state =
      (.ok (labels.foldl next (value, state)).1, (labels.foldl next (value, state)).2) := by
  induction labels generalizing value state with
  | nil => rfl
  | cons label labels induction =>
      rw [List.foldlM_cons, outcome_bind, returns label List.mem_cons_self, List.foldl_cons]
      exact induction (fun other member => returns other (List.mem_cons_of_mem _ member)) _ _

/-- A loop whose rounds do what the rounds of a partial loop do, when that loop succeeds. -/
theorem outcome_foldlM_of_some {ε σ α β : Type} {body : β → α → Program ε σ β}
    {step : β × σ → α → Option (β × σ)}
    (returns : ∀ value state label next, step (value, state) label = some next →
      outcome (body value label) state = (.ok next.1, next.2))
    {labels : List α} {value : β} {state : σ} {final : β × σ}
    (succeeds : labels.foldlM step (value, state) = some final) :
    outcome (labels.foldlM body value) state = (.ok final.1, final.2) := by
  induction labels generalizing value state with
  | nil =>
      obtain rfl := Option.some.inj succeeds
      rfl
  | cons label labels induction =>
      rw [List.foldlM_cons] at succeeds
      obtain ⟨next, stepped, rest⟩ := Option.bind_eq_some_iff.mp succeeds
      rw [List.foldlM_cons, outcome_bind, returns value state label next stepped]
      exact induction rest

/-- A loop whose first round raises. -/
theorem outcome_foldlM_raises {ε σ α β : Type} {body : β → α → Program ε σ β} {label : α}
    {labels : List α} {value : β} {state after : σ} {exception : ε}
    (raises : outcome (body value label) state = (.error exception, after)) :
    outcome ((label :: labels).foldlM body value) state = (.error exception, after) := by
  rw [List.foldlM_cons, outcome_bind, raises]

end Raising
