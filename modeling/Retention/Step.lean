import Retention.Failure

/-!
# Steps

A step runs in a state, may change it, and ends with a value or a failure. A failure ends
the steps after it but undoes nothing: what was done before it stays done.
-/

namespace Retention

/-- A step over a state that ends with a value or a failure. -/
def Step (σ α : Type) : Type := σ → Except Failure α × σ

namespace Step

variable {σ α β : Type}

/-- The step that does nothing but end with a value. -/
protected def pure (value : α) : Step σ α := fun s => (.ok value, s)

/-- One step after another; the second runs only if the first does not fail. -/
protected def bind (step : Step σ α) (next : α → Step σ β) : Step σ β := fun s =>
  match step s with
  | (.ok value, s) => next value s
  | (.error failure, s) => (.error failure, s)

instance : Monad (Step σ) where
  pure := Step.pure
  bind := Step.bind

/-- The step that fails. -/
def fail (failure : Failure) : Step σ α := fun s => (.error failure, s)

/-- A step together with what it ends with; this one does not fail. -/
def attempt (step : Step σ α) : Step σ (Except Failure α) := fun s =>
  match step s with
  | (result, s) => (.ok result, s)

/-- The step that ends with the state. -/
def get : Step σ σ := fun s => (.ok s, s)

/-- The step that changes the state. -/
def modify (change : σ → σ) : Step σ Unit := fun s => (.ok (), change s)

/-- The step that ends as an earlier result did. -/
def ofExcept (result : Except Failure α) : Step σ α := fun s => (result, s)

/-- A step with its failure seen in another way. -/
def mapFailure (see : Failure → Failure) (step : Step σ α) : Step σ α := fun s =>
  match step s with
  | (.ok value, s) => (.ok value, s)
  | (.error failure, s) => (.error (see failure), s)

/-- A step whose failure is answered by another step. -/
def recover (step : Step σ α) (answer : Failure → Step σ α) : Step σ α := fun s =>
  match step s with
  | (.ok value, s) => (.ok value, s)
  | (.error failure, s) => answer failure s

@[simp] theorem pure_apply (value : α) (s : σ) : (pure value : Step σ α) s = (.ok value, s) := rfl

theorem bind_apply (step : Step σ α) (next : α → Step σ β) (s : σ) :
    (step >>= next) s =
      match step s with
      | (.ok value, s) => next value s
      | (.error failure, s) => (.error failure, s) := rfl

@[simp] theorem fail_apply (failure : Failure) (s : σ) :
    (fail failure : Step σ α) s = (.error failure, s) := rfl

@[simp] theorem get_apply (s : σ) : (get : Step σ σ) s = (.ok s, s) := rfl

@[simp] theorem modify_apply (change : σ → σ) (s : σ) :
    modify change s = (.ok (), change s) := rfl

@[simp] theorem ofExcept_apply (result : Except Failure α) (s : σ) :
    (ofExcept result : Step σ α) s = (result, s) := rfl

/-- After a step that ends with a value the next one runs. -/
theorem bind_of_ok {step : Step σ α} {s t : σ} {value : α} (h : step s = (.ok value, t))
    (next : α → Step σ β) : (step >>= next) s = next value t := by
  rw [bind_apply, h]

/-- After a step that fails nothing runs. -/
theorem bind_of_error {step : Step σ α} {s t : σ} {failure : Failure}
    (h : step s = (.error failure, t)) (next : α → Step σ β) :
    (step >>= next) s = (.error failure, t) := by
  rw [bind_apply, h]

end Step

end Retention
