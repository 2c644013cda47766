import GraphQL.Response

/-!
# `GraphQL/Execution/Outcome.lean` — what a part of an execution comes to

Executing a part of a request — a field, an item of a list, a selection set — comes to an `Outcome`:
a result, or a failure on its way up to the nearest place where null is allowed, and in both cases
the errors that were reported meanwhile. Errors are reported as seen from the part itself; whatever
encloses it puts its own step in front of their paths (`Run.under`), so no path is carried down.

A `Run` is such a part with the state of the application threaded through. A failure ends the run of
what encloses it, and what has been reported stays reported. A run may also come to nothing:
execution counts how deep selection sets stand inside each other, and where the count is used up
there is no outcome at all, which is told apart from every outcome.
-/

set_option autoImplicit false

namespace GraphQL

/-- A result or a failure on its way up (`none`), and the errors reported meanwhile. -/
structure Outcome (α : Type) where
  result : Option α
  errors : List ErrorReport := []

/-- A part of an execution, over a state of type `σ`. -/
def Run (σ α : Type) : Type :=
  σ → Option (Outcome α × σ)

namespace Run

variable {σ α β : Type}

/-- The run with a result, without errors. -/
protected def pure (a : α) : Run σ α := fun s =>
  some ({ result := some a }, s)

/-- One run, and after it another that depends on its result. After a failure there is no other. -/
protected def bind (run : Run σ α) (next : α → Run σ β) : Run σ β := fun s =>
  match run s with
  | none => none
  | some (first, s) =>
    match first.result with
    | none => some ({ result := none, errors := first.errors }, s)
    | some a =>
      match next a s with
      | none => none
      | some (second, s) =>
        some ({ result := second.result, errors := first.errors ++ second.errors }, s)

instance : Monad (Run σ) where
  pure := Run.pure
  bind := Run.bind

/-- The run for which the count of nested selection sets was too small. -/
def exhausted : Run σ α := fun _ => none

/-- Reports an error and fails. -/
def fail (report : ErrorReport) : Run σ α := fun s =>
  some ({ result := none, errors := [report] }, s)

/-- Behaviour of the application. -/
def ofState (action : StateM σ α) : Run σ α := fun s =>
  let (a, s) := action s
  some ({ result := some a }, s)

/-- The same run, with a step in front of the paths of its errors. -/
def under (step : PathElement) (run : Run σ α) : Run σ α := fun s =>
  match run s with
  | none => none
  | some (outcome, s) =>
    some ({ outcome with errors := outcome.errors.map (·.under step) }, s)

/-- The same run, where a failure stops at a place that allows null and leaves the value that stands
for null there. Errors stay. -/
def absorb (allowed : Bool) (null : α) (run : Run σ α) : Run σ α := fun s =>
  match run s with
  | none => none
  | some (outcome, s) =>
    match outcome.result with
    | some _ => some (outcome, s)
    | none => some (if allowed then { outcome with result := some null } else outcome, s)

theorem pure_apply (a : α) (s : σ) : (pure a : Run σ α) s = some ({ result := some a }, s) := rfl

theorem bind_apply (run : Run σ α) (next : α → Run σ β) (s : σ) :
    (run >>= next) s = Run.bind run next s := rfl

theorem bind_pure_run (run : Run σ α) : Run.bind run Run.pure = run := by
  funext s
  simp only [Run.bind, Run.pure]
  rcases run s with _ | ⟨⟨_ | a, errors⟩, s⟩ <;> simp

theorem pure_bind_run (a : α) (next : α → Run σ β) : Run.bind (Run.pure a) next = next a := by
  funext s
  simp only [Run.bind, Run.pure]
  rcases next a s with _ | ⟨outcome, s⟩ <;> simp

theorem bind_assoc_run {γ : Type} (run : Run σ α) (next : α → Run σ β) (further : β → Run σ γ) :
    Run.bind (Run.bind run next) further = Run.bind run fun a => Run.bind (next a) further := by
  funext s
  simp only [Run.bind]
  rcases run s with _ | ⟨⟨_ | a, errors⟩, s₁⟩
  · rfl
  · rfl
  · dsimp only
    rcases next a s₁ with _ | ⟨⟨_ | b, errors₂⟩, s₂⟩
    · rfl
    · rfl
    · dsimp only
      rcases further b s₂ with _ | ⟨outcome, s₃⟩
      · rfl
      · simp

instance : LawfulMonad (Run σ) :=
  LawfulMonad.mk' (Run σ) bind_pure_run pure_bind_run bind_assoc_run

/-! ## How the operations meet

A step goes through a sequence of runs to each of them, so where in an execution a step is put in
front of paths makes no difference; and a run that stops failures at a place that allows null has a
result whenever it comes to anything. -/

@[simp] theorem exhausted_bind (next : α → Run σ β) : (exhausted >>= next) = exhausted := rfl

@[simp] theorem fail_bind (report : ErrorReport) (next : α → Run σ β) :
    (fail report >>= next) = fail report := rfl

@[simp] theorem under_pure (step : PathElement) (a : α) :
    (pure a : Run σ α).under step = pure a := rfl

@[simp] theorem under_fail (step : PathElement) (report : ErrorReport) :
    (fail report : Run σ α).under step = fail (report.under step) := rfl

theorem under_bind (step : PathElement) (run : Run σ α) (next : α → Run σ β) :
    (run >>= next).under step = run.under step >>= fun a => (next a).under step := by
  funext s
  simp only [bind_apply, under, Run.bind]
  cases run s with
  | none => rfl
  | some first =>
    obtain ⟨⟨result, errors⟩, s₁⟩ := first
    cases result with
    | none => rfl
    | some a =>
      cases h : next a s₁ with
      | none => simp [h]
      | some second => simp [h]

@[simp] theorem absorb_pure (allowed : Bool) (null a : α) :
    (pure a : Run σ α).absorb allowed null = pure a := rfl

/-- A sequence of runs comes to something if the first run fails, or if it has a result with which
the second comes to something. -/
theorem bind_eq_some {run : Run σ α} {next : α → Run σ β} {s s' : σ} {outcome : Outcome β}
    (h : (run >>= next) s = some (outcome, s')) :
    (∃ errors, run s = some ({ result := none, errors }, s') ∧
        outcome = { result := none, errors }) ∨
      ∃ a errors t second, run s = some ({ result := some a, errors }, t) ∧
        next a t = some (second, s') ∧
        outcome = { result := second.result, errors := errors ++ second.errors } := by
  rw [bind_apply] at h
  unfold Run.bind at h
  cases hr : run s with
  | none =>
    rw [hr] at h
    cases h
  | some first =>
    obtain ⟨⟨result, errors⟩, t⟩ := first
    rw [hr] at h
    cases result with
    | none =>
      cases h
      exact Or.inl ⟨errors, rfl, rfl⟩
    | some a =>
      dsimp only at h
      cases hn : next a t with
      | none =>
        rw [hn] at h
        cases h
      | some after =>
        obtain ⟨second, t'⟩ := after
        rw [hn] at h
        cases h
        exact Or.inr ⟨a, errors, t, second, rfl, hn, rfl⟩

/-- Where null is not allowed, a failure goes on. -/
theorem absorb_false (null : α) (run : Run σ α) : run.absorb false null = run := by
  funext s
  simp only [absorb]
  cases run s with
  | none => rfl
  | some first =>
    obtain ⟨⟨result, errors⟩, s₁⟩ := first
    cases result <;> rfl

/-- Where null is allowed, no failure goes on. -/
theorem isSome_result_of_absorb_true {null : α} {run : Run σ α} {s s' : σ} {outcome : Outcome α}
    (h : run.absorb true null s = some (outcome, s')) : outcome.result.isSome = true := by
  simp only [absorb] at h
  cases hr : run s with
  | none =>
    rw [hr] at h
    cases h
  | some first =>
    obtain ⟨⟨result, errors⟩, s₁⟩ := first
    rw [hr] at h
    cases result with
    | none =>
      cases h
      rfl
    | some a =>
      cases h
      rfl

end Run

end GraphQL
