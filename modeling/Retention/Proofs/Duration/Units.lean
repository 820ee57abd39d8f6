import Retention.Proofs.Duration
import Retention.Proofs.Rule.Grammar

/-!
# The unit of a written duration

Writing tries the units from the largest down, so the unit it takes is the largest that measures the
seconds; no unit measures zero seconds, and these are written in seconds. The amount before the unit
has no leading zeros. What is written is read back, and of all texts only the digits of an amount
before the letter of a unit are read, to their product and never to another number.

## Main definitions

* `Duration.Largest`: the unit that seconds are written in.

## Main results

* `Duration.TimeUnit.find?_measures`: the first unit that measures some seconds is the largest.
* `Duration.write_largest`: seconds are written in the largest unit that measures them.
* `Duration.text_is_exact`: what durations are read to, and how they are written.
-/

namespace Retention.Duration

open Number

/-! ### The largest unit -/

/-- The unit that seconds are written in: the largest they are a whole number of, and the second
where there are none. -/
def Largest (seconds : Nat) (unit : TimeUnit) : Prop :=
  (seconds = 0 ∧ unit = .second) ∨
    (seconds ≠ 0 ∧ unit.size ∣ seconds ∧ ∀ other : TimeUnit, other.size ∣ seconds →
      other.size ≤ unit.size)

theorem TimeUnit.mem_all (unit : TimeUnit) : unit ∈ all := by
  cases unit <;> decide

theorem TimeUnit.pairwise_all : all.Pairwise fun larger smaller => smaller.size ≤ larger.size := by
  decide

theorem TimeUnit.measures_int {unit : TimeUnit} {seconds : Nat} :
    unit.measures (.int seconds) = true ↔ seconds ≠ 0 ∧ unit.size ∣ seconds := by
  rw [measures, decide_eq_true_eq, Nat.dvd_iff_mod_eq_zero, ← Int.natCast_emod]
  omega

/-- The first unit that measures some seconds is the largest they are a whole number of. -/
theorem TimeUnit.find?_measures {seconds : Nat} {unit : TimeUnit}
    (h : all.find? (fun unit => unit.measures (.int seconds)) = some unit) :
    Largest seconds unit := by
  obtain ⟨hmeasures, before, after, hall, hbefore⟩ := List.find?_eq_some_iff_append.mp h
  obtain ⟨hne, hdvd⟩ := measures_int.mp hmeasures
  refine Or.inr ⟨hne, hdvd, fun other hother => ?_⟩
  -- A larger unit would have been found before this one.
  have hsorted := pairwise_all
  have hmem := other.mem_all
  rw [hall] at hsorted hmem
  rcases List.mem_append.mp hmem with hmem | hmem
  · have hnot := hbefore other hmem
    rw [measures_int.mpr ⟨hne, hother⟩] at hnot
    cases hnot
  · rcases List.mem_cons.mp hmem with rfl | hmem
    · exact le_rfl
    · exact (List.pairwise_cons.mp (List.pairwise_append.mp hsorted).2.1).1 other hmem

/-- Without seconds there is no unit that measures them. -/
theorem TimeUnit.eq_zero_of_find? {seconds : Nat}
    (h : all.find? (fun unit => unit.measures (.int seconds)) = none) : seconds = 0 := by
  by_contra hne
  exact List.find?_eq_none.mp h .second (mem_all _) (measures_int.mpr ⟨hne, one_dvd _⟩)

/-! ### Writing -/

/-- Seconds are written as the decimal digits of their amount of the largest unit. -/
theorem write_largest {seconds : Nat} (h : seconds ≤ 2 ^ 53) :
    ∃ unit, Largest seconds unit ∧ write (.int seconds) =
      String.ofList (Nat.toDigits 10 (seconds / unit.size) ++ [unit.letter]) := by
  cases hfind : TimeUnit.all.find? fun unit => unit.measures (.int seconds) with
  | none =>
    obtain rfl := TimeUnit.eq_zero_of_find? hfind
    exact ⟨.second, Or.inl ⟨rfl, rfl⟩, by decide⟩
  | some unit =>
    have hle : seconds / unit.size ≤ 2 ^ 53 := Nat.le_trans (Nat.div_le_self _ _) h
    refine ⟨unit, TimeUnit.find?_measures hfind, ?_⟩
    rw [(write_of_find? h hfind).2, characters_int hle]

/-- **Durations are exact.** A text of JSON is read as a duration exactly when it is the digits of
an amount directly followed by the letter of a unit, and their product is safe; this product is what
is read, and of any other text nothing. Safe seconds are written in the largest unit that measures
them, and are read back from what is written. -/
theorem text_is_exact :
    (∀ (text : String) (number : Number), read? text = some number ↔
      ∃ seconds : Nat, Writes text seconds ∧ seconds ≤ 2 ^ 53 - 1 ∧ number = .int seconds) ∧
    (∀ text : String, read? text = none ↔
      ¬ ∃ seconds : Nat, Writes text seconds ∧ seconds ≤ 2 ^ 53 - 1) ∧
    (∀ (text : Text) (number : Number), Rule.readAge (.string text) = .ok number ↔
      ∃ (whole : String) (seconds : Nat), text = .whole whole ∧ Writes whole seconds ∧
        seconds ≤ 2 ^ 53 - 1 ∧ number = .int seconds) ∧
    ∀ seconds : Nat, seconds ≤ 2 ^ 53 - 1 →
      (∃ unit, Largest seconds unit ∧ write (.int seconds) =
        String.ofList (Nat.toDigits 10 (seconds / unit.size) ++ [unit.letter])) ∧
      read? (write (.int seconds)) = some (.int seconds) := by
  have hsafe {seconds : Nat} : (seconds : Int) ≤ maxSafe ↔ seconds ≤ 2 ^ 53 - 1 :=
    natCast_le_maxSafe.trans (by omega)
  have hread (text : String) (number : Number) : read? text = some number ↔ ∃ seconds : Nat,
      Writes text seconds ∧ seconds ≤ 2 ^ 53 - 1 ∧ number = .int seconds := by
    simp only [read?_eq_some_iff, hsafe]
  refine ⟨hread, fun text => ?_, fun text number => ?_, fun seconds h => ?_⟩
  · rw [Option.eq_none_iff_forall_ne_some]
    constructor
    · rintro hnone ⟨seconds, hwrites, hle⟩
      exact hnone _ ((hread text _).mpr ⟨seconds, hwrites, hle, rfl⟩)
    · rintro hnot number hsome
      obtain ⟨seconds, hwrites, hle, -⟩ := (hread text number).mp hsome
      exact hnot ⟨seconds, hwrites, hle⟩
  · simp only [Rule.readAge_eq_ok_iff, Json.string.injEq]
  · exact ⟨write_largest (by omega), read?_write (hsafe.mpr h)⟩

/-- The largest safe number of seconds is read back, and the largest safe number of whole hours is
written in hours. -/
theorem text_is_exact_at_largest :
    (2 ^ 53 - 1 ≤ 2 ^ 53 - 1 ∧ read? (write (.int 9007199254740991)) =
      some (.int 9007199254740991)) ∧
    (9007199254738800 ≤ 2 ^ 53 - 1 ∧ Largest 9007199254738800 .hour ∧
      write (.int 9007199254738800) = "2501999792983h") := by
  have hbound : 9007199254738800 ≤ 2 ^ 53 - 1 := by decide
  obtain ⟨⟨unit, hlargest, hwrite⟩, -⟩ := text_is_exact.2.2.2 9007199254738800 hbound
  have hunit : unit = .hour := by
    obtain ⟨h, -⟩ | ⟨-, -, hmax⟩ := hlargest
    · cases h
    · have hle := hmax .hour (by decide)
      cases unit
      · rfl
      · exact absurd hle (by decide)
      · exact absurd hle (by decide)
  subst hunit
  exact ⟨⟨by decide, (text_is_exact.2.2.2 9007199254740991 (by decide)).2⟩, hbound, hlargest,
    hwrite.trans (by decide)⟩

end Retention.Duration
