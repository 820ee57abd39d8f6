import Mathlib.Order.Defs.Unbundled
import Retention.Step

/-!
# How steps end and what they leave alone

What is known of the parts of a composed step from the way the whole of it ended. A step ends
with a value exactly when all its parts do, and with a failure exactly when one of its parts
does and those before it do not.

What a step leaves alone is a relation between the states before and after it that holds however
it ends. A relation that can be chained holds of a composed step when it holds of its parts.

What a step depends on is a relation between states from which it ends in the same way.

* `Step.bind_eq_ok_iff`, `Step.bind_eq_error_iff`, `Step.bind_cases`: how two steps in a row end.
* `Step.Keeps`: a relation holds across a step, and `Step.Keeps.bind` across two in a row.
* `Step.Agrees`: related states lead to one result, and `Step.Agrees.bind` for two steps in a row.
-/

namespace Retention

variable {ε σ α β : Type}

/-! ### Results -/

theorem bind_eq_ok_iff {result : Except ε α} {next : α → Except ε β} {value : β} :
    (result >>= next) = .ok value ↔ ∃ first, result = .ok first ∧ next first = .ok value := by
  cases result <;> simp [bind, Except.bind]

theorem bind_eq_error_iff {result : Except ε α} {next : α → Except ε β} {failure : ε} :
    (result >>= next) = .error failure ↔
      result = .error failure ∨ ∃ first, result = .ok first ∧ next first = .error failure := by
  cases result <;> simp [bind, Except.bind]

theorem map_eq_ok_iff {result : Except ε α} {f : α → β} {value : β} :
    (f <$> result) = .ok value ↔ ∃ first, result = .ok first ∧ f first = value := by
  cases result <;> simp [Functor.map, Except.map]

theorem exceptMap_eq_ok_iff {result : Except ε α} {f : α → β} {value : β} :
    result.map f = .ok value ↔ ∃ first, result = .ok first ∧ f first = value :=
  map_eq_ok_iff

theorem mapError_eq_ok_iff {δ : Type} {result : Except ε α} {f : ε → δ} {value : α} :
    result.mapError f = .ok value ↔ result = .ok value := by
  cases result with
  | error failure => exact ⟨nofun, nofun⟩
  | ok first =>
    change (Except.ok first : Except δ α) = .ok value ↔ _
    simp

theorem mapError_eq_error_iff {δ : Type} {result : Except ε α} {f : ε → δ} {failure : δ} :
    result.mapError f = .error failure ↔ ∃ earlier, result = .error earlier ∧ f earlier = failure := by
  cases result with
  | error earlier =>
    change (Except.error (f earlier) : Except δ α) = .error failure ↔ _
    simp
  | ok value => exact ⟨nofun, nofun⟩

namespace Step

/-! ### Steps that end with a value -/

theorem bind_eq_ok_iff {step : Step σ α} {next : α → Step σ β} {s t : σ} {value : β} :
    (step >>= next) s = (.ok value, t) ↔
      ∃ first u, step s = (.ok first, u) ∧ next first u = (.ok value, t) := by
  rw [bind_apply]
  rcases step s with ⟨failure | first, u⟩
  · simp
  · constructor
    · exact fun h => ⟨first, u, rfl, h⟩
    · rintro ⟨_, _, ⟨⟩, h⟩
      exact h

/-- After an earlier result the next step runs if that was a value. -/
theorem ofExcept_bind_eq_ok_iff {result : Except Failure α} {next : α → Step σ β} {s t : σ}
    {value : β} :
    (ofExcept result >>= next) s = (.ok value, t) ↔
      ∃ first, result = .ok first ∧ next first s = (.ok value, t) := by
  rw [bind_apply, ofExcept_apply]
  cases result <;> simp

theorem bind_eq_error_iff {step : Step σ α} {next : α → Step σ β} {s t : σ}
    {failure : Failure} :
    (step >>= next) s = (.error failure, t) ↔
      step s = (.error failure, t) ∨
        ∃ first u, step s = (.ok first, u) ∧ next first u = (.error failure, t) := by
  rw [bind_apply]
  rcases step s with ⟨other | first, u⟩
  · simp
  · constructor
    · exact fun h => Or.inr ⟨first, u, rfl, h⟩
    · rintro (h | ⟨_, _, ⟨⟩, h⟩)
      · simp at h
      · exact h

/-- Two steps in a row fail with the first one, or end as the second does. -/
theorem bind_cases {step : Step σ α} {next : α → Step σ β} {s t : σ} {result : Except Failure β}
    (h : (step >>= next) s = (result, t)) :
    (∃ failure, step s = (.error failure, t) ∧ result = .error failure) ∨
      ∃ first u, step s = (.ok first, u) ∧ next first u = (result, t) := by
  rcases hstep : step s with ⟨failure | first, u⟩
  · obtain ⟨rfl, rfl⟩ := Prod.mk.inj ((bind_of_error hstep next).symm.trans h)
    exact Or.inl ⟨failure, rfl, rfl⟩
  · exact Or.inr ⟨first, u, rfl, (bind_of_ok hstep next).symm.trans h⟩

/-- An earlier result that is a failure is where it ends; else the next step decides. -/
theorem ofExcept_bind_cases {earlier : Except Failure α} {next : α → Step σ β} {s t : σ}
    {result : Except Failure β} (h : (ofExcept earlier >>= next) s = (result, t)) :
    (∃ failure, earlier = .error failure ∧ result = .error failure ∧ t = s) ∨
      ∃ first, earlier = .ok first ∧ next first s = (result, t) := by
  obtain ⟨failure, hearlier, rfl⟩ | ⟨first, _, hearlier, hnext⟩ := bind_cases h
  · obtain ⟨hfailure, hstate⟩ := Prod.mk.inj hearlier
    exact Or.inl ⟨failure, hfailure, rfl, hstate.symm⟩
  · obtain ⟨hfirst, rfl⟩ := Prod.mk.inj hearlier
    exact Or.inr ⟨first, hfirst, hnext⟩

theorem map_apply (f : α → β) (step : Step σ α) (s : σ) :
    (f <$> step) s = ((step s).1.map f, (step s).2) := by
  change (step >>= fun value => pure (f value)) s = _
  rw [bind_apply]
  rcases step s with ⟨failure | first, u⟩ <;> rfl

/-- What a step ended with is worked on without a step of its own. -/
theorem bind_ofExcept_apply (step : Step σ α) (next : α → Except Failure β) (s : σ) :
    (step >>= fun value => ofExcept (next value)) s = ((step s).1 >>= next, (step s).2) := by
  rw [bind_apply]
  rcases step s with ⟨failure | first, u⟩ <;> rfl

/-- A step together with what it ends with. -/
theorem attempt_eq_ok_iff {step : Step σ α} {s t : σ} {result : Except Failure α} :
    step.attempt s = (.ok result, t) ↔ step s = (result, t) := by
  constructor
  · rintro ⟨⟩
    rfl
  · intro h
    rw [attempt, h]

theorem mapFailure_apply (see : Failure → Failure) (step : Step σ α) (s : σ) :
    step.mapFailure see s = ((step s).1.mapError see, (step s).2) := by
  unfold mapFailure
  rcases step s with ⟨failure | first, u⟩ <;> rfl

theorem recover_of_ok {step : Step σ α} {answer : Failure → Step σ α} {s t : σ} {value : α}
    (h : step s = (.ok value, t)) : step.recover answer s = (.ok value, t) := by
  rw [recover, h]

theorem recover_of_error {step : Step σ α} {answer : Failure → Step σ α} {s t : σ}
    {failure : Failure} (h : step s = (.error failure, t)) :
    step.recover answer s = answer failure t := by
  rw [recover, h]

/-! ### What steps leave alone -/

/-- However a step ends, a relation holds between the states before and after it. -/
def Keeps (relation : σ → σ → Prop) (step : Step σ α) : Prop := ∀ s, relation s (step s).2

variable {relation : σ → σ → Prop}

theorem Keeps.intro {step : Step σ α}
    (h : ∀ s result t, step s = (result, t) → relation s t) : Keeps relation step :=
  fun s => h s _ _ rfl

theorem Keeps.of_eq {step : Step σ α} (h : Keeps relation step) {s t : σ}
    {result : Except Failure α} (hstep : step s = (result, t)) : relation s t := by
  have hrelation := h s
  rwa [hstep] at hrelation

section Refl

variable [Std.Refl relation]

theorem keeps_pure (value : α) : Keeps relation (pure value : Step σ α) := Std.Refl.refl

theorem keeps_fail (failure : Failure) : Keeps relation (fail failure : Step σ α) := Std.Refl.refl

theorem keeps_ofExcept (result : Except Failure α) :
    Keeps relation (ofExcept result : Step σ α) := Std.Refl.refl

/-- After an earlier result only the steps that follow its value matter. -/
theorem keeps_ofExcept_bind {earlier : Except Failure α} {next : α → Step σ β}
    (h : ∀ value, earlier = .ok value → Keeps relation (next value)) :
    Keeps relation (ofExcept earlier >>= next) := by
  cases earlier with
  | error failure => exact fun _ => Std.Refl.refl _
  | ok value => exact h value rfl

end Refl

theorem keeps_modify {change : σ → σ} (h : ∀ s, relation s (change s)) :
    Keeps relation (modify change) := h

theorem Keeps.attempt {step : Step σ α} (h : Keeps relation step) : Keeps relation step.attempt :=
  h

theorem Keeps.mapFailure {step : Step σ α} (h : Keeps relation step) (see : Failure → Failure) :
    Keeps relation (step.mapFailure see) := fun s => by
  rw [mapFailure_apply]
  exact h s

/-- Where what follows a step changes nothing, the state is the one that the step leaves. -/
theorem bind_snd {step : Step σ α} {next : α → Step σ β} (h : ∀ value, Keeps Eq (next value))
    (s : σ) : ((step >>= next) s).2 = (step s).2 := by
  rw [bind_apply]
  rcases step s with ⟨failure | value, t⟩
  · rfl
  · exact (h value t).symm

/-- Where answering a failure changes nothing, the state is the one that the step leaves. -/
theorem recover_snd {step : Step σ α} {answer : Failure → Step σ α}
    (h : ∀ failure, Keeps Eq (answer failure)) (s : σ) :
    (step.recover answer s).2 = (step s).2 := by
  rw [recover]
  rcases step s with ⟨failure | value, t⟩
  · exact (h failure t).symm
  · rfl

section Trans

variable [IsTrans σ relation]

/-- What two steps leave alone is left alone by one after the other. -/
theorem Keeps.bind {step : Step σ α} {next : α → Step σ β} (h : Keeps relation step)
    (hnext : ∀ value, Keeps relation (next value)) : Keeps relation (step >>= next) := by
  intro s
  have hstep := h s
  rw [bind_apply]
  generalize step s = outcome at hstep ⊢
  rcases outcome with ⟨failure | value, t⟩
  · exact hstep
  · exact IsTrans.trans _ _ _ hstep (hnext value t)

theorem Keeps.recover {step : Step σ α} {answer : Failure → Step σ α} (h : Keeps relation step)
    (hanswer : ∀ failure, Keeps relation (answer failure)) :
    Keeps relation (step.recover answer) := by
  intro s
  have hstep := h s
  rw [Step.recover]
  generalize step s = outcome at hstep ⊢
  rcases outcome with ⟨failure | value, t⟩
  · exact IsTrans.trans _ _ _ hstep (hanswer failure t)
  · exact hstep

end Trans

theorem Keeps.map {step : Step σ α} (h : Keeps relation step) (f : α → β) :
    Keeps relation (f <$> step) := fun s => by
  rw [map_apply]
  exact h s

/-! ### What steps depend on -/

/-- From related states a step ends in the same way and leaves related states. -/
def Agrees (relation : σ → σ → Prop) (step : Step σ α) : Prop :=
  ∀ s t, relation s t → (step s).1 = (step t).1 ∧ relation (step s).2 (step t).2

theorem agrees_pure (value : α) : Agrees relation (pure value : Step σ α) :=
  fun _ _ h => ⟨rfl, h⟩

/-- What two steps depend on is all that one after the other depends on. -/
theorem Agrees.bind {step : Step σ α} {next : α → Step σ β} (h : Agrees relation step)
    (hnext : ∀ value, Agrees relation (next value)) : Agrees relation (step >>= next) := by
  intro s t hst
  obtain ⟨hvalue, hafter⟩ := h s t hst
  rw [bind_apply, bind_apply]
  generalize step s = first at hvalue hafter ⊢
  generalize step t = second at hvalue hafter ⊢
  obtain ⟨result, s⟩ := first
  obtain ⟨other, t⟩ := second
  obtain rfl : result = other := hvalue
  cases result with
  | error failure => exact ⟨rfl, hafter⟩
  | ok value => exact hnext value s t hafter

/-- After an earlier result only the steps that follow its value matter. -/
theorem agrees_ofExcept_bind {earlier : Except Failure α} {next : α → Step σ β}
    (h : ∀ value, earlier = .ok value → Agrees relation (next value)) :
    Agrees relation (ofExcept earlier >>= next) := by
  cases earlier with
  | error failure => exact fun _ _ hst => ⟨rfl, hst⟩
  | ok value => exact h value rfl

end Step

end Retention
