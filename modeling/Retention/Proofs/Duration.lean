import Retention.Duration
import Retention.Proofs.Number.Shortest

/-!
# Durations are exact

A duration is read through a double and a rounded product, but no rounding shows: a text is
read exactly when the product of its amount and its unit, taken as whole numbers, is safe,
and then that product is what is read.

* `Writes`: the seconds that a text writes, in exact arithmetic.
* `read?_eq_some_iff`: reading gives the seconds written, as long as they are safe.
* `writes_write`: writing in the largest unit writes the seconds given.
* `eq_of_read?_write`: a double is not written as other seconds, whether it can be read back or not.
-/

namespace Retention.Duration

open Number

/-- A text writes some seconds: it is the digits of an amount directly followed by the letter
of a unit, and the seconds are the amount times the unit. -/
def Writes (text : String) (seconds : Nat) : Prop :=
  ∃ (amount : List Char) (unit : TimeUnit),
    text.toList = amount ++ [unit.letter] ∧ amount ≠ [] ∧ (∀ c ∈ amount, c.isDigit = true) ∧
      seconds = Nat.ofDigitChars 10 amount 0 * unit.size

/-! ### Units -/

theorem TimeUnit.one_le_size (unit : TimeUnit) : 1 ≤ unit.size := by
  cases unit <;> decide

theorem TimeUnit.isDigit_letter (unit : TimeUnit) : unit.letter.isDigit = false := by
  cases unit <;> decide

theorem TimeUnit.ofText?_letter (unit : TimeUnit) : ofText? [unit.letter] = some unit := by
  cases unit <;> decide

/-- Only its letter spells a unit. -/
theorem TimeUnit.eq_of_ofText? {text : List Char} {unit : TimeUnit}
    (h : ofText? text = some unit) : text = [unit.letter] := by
  simpa using List.find?_some h

/-! ### Amounts times units -/

section Amounts

variable {amount : List Char} (hamount : ∀ c ∈ amount, c.isDigit = true) {factor : Nat}
  (hfactor : 1 ≤ factor)

include hamount hfactor

/-- A safe product of an amount and a unit is computed exactly. -/
theorem mulNat_ofDecimal_of_lt
    (h : Nat.ofDigitChars 10 amount 0 * factor < 2 ^ 53) :
    (ofDecimal false amount [] 0).mulNat factor =
      .int ((Nat.ofDigitChars 10 amount 0 * factor : Nat) : Int) := by
  have hvalue : Nat.ofDigitChars 10 amount 0 ≤ Nat.ofDigitChars 10 amount 0 * factor :=
    Nat.le_mul_of_pos_right _ hfactor
  rw [ofDecimal_digits hamount (by omega), mulNat_int, Int.natCast_mul]
  rw [← Int.natCast_mul, Int.natAbs_natCast]
  omega

/-- A product of an amount and a unit that is not safe is not computed as a safe one. -/
theorem isHuge_mulNat_ofDecimal
    (h : 2 ^ 53 ≤ Nat.ofDigitChars 10 amount 0 * factor) :
    IsHuge ((ofDecimal false amount [] 0).mulNat factor) := by
  by_cases hvalue : 2 ^ 53 ≤ Nat.ofDigitChars 10 amount 0
  · exact (isHuge_ofDecimal hvalue).mulNat hfactor
  · have hmul (n : Nat) : Number.mulNat (.int n) factor = ofInt ((n * factor : Nat) : Int) := by
      simp [Number.mulNat, ratio?, ofInt]
    rw [ofDecimal_digits hamount (by omega), hmul]
    exact isHuge_ofInt (by omega)

end Amounts

/-! ### Reading -/

/-- A text that writes safe seconds is read. -/
theorem read?_of_writes {text : String} {seconds : Nat} (h : Writes text seconds)
    (hsafe : (seconds : Int) ≤ maxSafe) : read? text = some (.int seconds) := by
  obtain ⟨amount, unit, htext, hne, hdigits, rfl⟩ := h
  have hletter : [unit.letter].takeWhile Char.isDigit = [] := by simp [unit.isDigit_letter]
  have hseconds := mulNat_ofDecimal_of_lt hdigits unit.one_le_size (natCast_le_maxSafe.mp hsafe)
  rw [read?, htext, digitRun_append hdigits hletter]
  simp only [hne, if_false, TimeUnit.ofText?_letter, Option.bind_some, hseconds]
  exact if_pos (isWholeIn_int.mpr ⟨Int.natCast_nonneg _, hsafe⟩)

/-- A text that is read writes the seconds read, and they are safe. -/
theorem writes_of_read? {text : String} {number : Number} (h : read? text = some number) :
    ∃ seconds : Nat, Writes text seconds ∧ (seconds : Int) ≤ maxSafe ∧ number = .int seconds := by
  unfold read? at h
  set run := digitRun text.toList with hrun
  obtain ⟨amount, rest⟩ := run
  have htext : amount ++ rest = text.toList := by
    simpa [← hrun] using digitRun_fst_append_snd text.toList
  have hdigits : ∀ c ∈ amount, c.isDigit = true := fun c hc => by
    have hmem : c ∈ (digitRun text.toList).1 := by rwa [← hrun]
    exact isDigit_of_mem_digitRun hmem
  by_cases hne : amount = []
  · simp [hne] at h
  simp only [hne, if_false] at h
  obtain ⟨unit, hunit, hnumber⟩ := Option.bind_eq_some_iff.mp h
  obtain rfl := TimeUnit.eq_of_ofText? hunit
  by_cases hsafe : Nat.ofDigitChars 10 amount 0 * unit.size < 2 ^ 53
  · rw [mulNat_ofDecimal_of_lt hdigits unit.one_le_size hsafe] at hnumber
    split_ifs at hnumber
    exact ⟨_, ⟨amount, unit, htext.symm, hne, hdigits, rfl⟩, natCast_le_maxSafe.mpr hsafe,
      (Option.some.inj hnumber).symm⟩
  · have huge := isHuge_mulNat_ofDecimal hdigits unit.one_le_size (Nat.le_of_not_lt hsafe)
    simp [huge.isWholeIn_maxSafe] at hnumber

/-- **Reading is exact.** A text is read exactly when it writes safe seconds, and these are
what is read. -/
theorem read?_eq_some_iff {text : String} {number : Number} :
    read? text = some number ↔
      ∃ seconds : Nat, Writes text seconds ∧ (seconds : Int) ≤ maxSafe ∧ number = .int seconds :=
  ⟨writes_of_read?, fun ⟨_, hwrites, hsafe, hnumber⟩ => hnumber ▸ read?_of_writes hwrites hsafe⟩

/-! ### Writing -/

/-- Seconds that a unit is found for are a whole number of it, and written as this number. -/
theorem write_of_find? {seconds : Nat} {unit : TimeUnit} (h : seconds ≤ 2 ^ 53)
    (hfind : TimeUnit.all.find? (fun unit => unit.measures (.int seconds)) = some unit) :
    seconds % unit.size = 0 ∧ write (.int seconds) =
      String.ofList (characters (.int (seconds / unit.size : Nat)) ++ [unit.letter]) := by
  have hmeasures := List.find?_some hfind
  simp only [TimeUnit.measures, decide_eq_true_eq] at hmeasures
  obtain ⟨-, hmod⟩ := hmeasures
  have hle : seconds / unit.size ≤ 2 ^ 53 := Nat.le_trans (Nat.div_le_self _ _) h
  refine ⟨by exact_mod_cast hmod, ?_⟩
  rw [write, hfind]
  dsimp only
  rw [divNat_int hmod (by rw [← Int.natCast_ediv, Int.natAbs_natCast]; exact hle),
    ← Int.natCast_ediv]

/-- Seconds are written as an amount of some unit. -/
theorem write_int {seconds : Nat} (h : seconds ≤ 2 ^ 53) :
    ∃ (amount : Nat) (unit : TimeUnit), seconds = amount * unit.size ∧
      write (.int seconds) = String.ofList (characters (.int amount) ++ [unit.letter]) := by
  cases hfind : TimeUnit.all.find? fun unit => unit.measures (.int seconds) with
  | none =>
    refine ⟨seconds, .second, (Nat.mul_one _).symm, ?_⟩
    rw [write, hfind]
    rfl
  | some unit =>
    obtain ⟨hmod, hwrite⟩ := write_of_find? h hfind
    exact ⟨seconds / unit.size, unit,
      (Nat.div_mul_cancel (Nat.dvd_of_mod_eq_zero hmod)).symm, hwrite⟩

/-- What is written writes the seconds given. -/
theorem writes_write {seconds : Nat} (h : seconds ≤ 2 ^ 53) :
    Writes (write (.int seconds)) seconds := by
  obtain ⟨amount, unit, hseconds, hwrite⟩ := write_int h
  have hamount : amount ≤ 2 ^ 53 :=
    Nat.le_trans (hseconds ▸ Nat.le_mul_of_pos_right amount unit.one_le_size) h
  refine ⟨characters (.int amount), unit, by rw [hwrite, String.toList_ofList],
    characters_int_ne_nil hamount, fun c => isDigit_of_mem_characters hamount, ?_⟩
  rw [ofDigitChars_characters hamount, hseconds]

/-- Safe seconds are read back from what is written. -/
theorem read?_write {seconds : Nat} (h : (seconds : Int) ≤ maxSafe) :
    read? (write (.int seconds)) = some (.int seconds) :=
  read?_of_writes (writes_write (Nat.le_of_lt (natCast_le_maxSafe.mp h))) h

/-- Different safe seconds are written differently. -/
theorem write_inj {seconds other : Nat} (hseconds : seconds < 2 ^ 53) (hother : other < 2 ^ 53)
    (h : write (.int seconds) = write (.int other)) : seconds = other := by
  have hread := read?_write (natCast_le_maxSafe.mpr hseconds)
  rw [h, read?_write (natCast_le_maxSafe.mpr hother)] at hread
  simp only [Option.some.injEq, Number.int.injEq, Int.natCast_inj] at hread
  exact hread.symm

/-! ### Reading back what was written -/

theorem TimeUnit.letter_inj {unit other : TimeUnit} (h : unit.letter = other.letter) :
    unit = other := by
  cases unit <;> cases other <;> first | rfl | exact absurd h (by decide)

/-- A text that ends in the letter of a unit writes the amount before it. -/
theorem writes_append_letter {amount : List Char} {unit : TimeUnit} {seconds : Nat}
    (h : Writes (String.ofList (amount ++ [unit.letter])) seconds) :
    (∀ c ∈ amount, c.isDigit = true) ∧
      seconds = Nat.ofDigitChars 10 amount 0 * unit.size := by
  obtain ⟨digits, other, htext, -, hdigits, hseconds⟩ := h
  rw [String.toList_ofList] at htext
  obtain ⟨rfl, hletter⟩ := List.append_inj' htext rfl
  obtain rfl := TimeUnit.letter_inj (List.singleton_inj.mp hletter)
  exact ⟨hdigits, hseconds⟩

/-- The amount of seconds in a unit that measures them is the whole quotient, or it is huge. -/
theorem divNat_cases {seconds size : Nat} (hsize : 1 ≤ size) (hdvd : seconds % size = 0) :
    Number.divNat (.int seconds) size = .int (seconds / size : Nat) ∨
      IsHuge (Number.divNat (.int seconds) size) := by
  rcases Nat.lt_or_ge (2 ^ 53) (seconds / size) with hlarge | hsmall
  · right
    have hle : 2 ^ 53 * size ≤ seconds := (Nat.le_div_iff_mul_le hsize).mp (Nat.le_of_lt hlarge)
    have hnat : ¬ ((seconds : ℤ) / (size : ℤ)).natAbs ≤ Nat.pow 2 53 := by
      rw [← Int.natCast_ediv, Int.natAbs_natCast, Nat.pow_eq]
      omega
    have hneg : decide ((seconds : ℤ) < 0) = false := by simp
    simp only [divNat, ratio?, Nat.one_mul, ofRatio]
    rw [if_neg fun h => hnat h.2, hneg, Int.natAbs_natCast]
    exact isHuge_nearest hsize hle
  · left
    rw [divNat_int (by exact_mod_cast hdvd), ← Int.natCast_ediv]
    rwa [← Int.natCast_ediv, Int.natAbs_natCast]

/-- A number whose digits are read as safe seconds is written exactly. -/
theorem eq_of_writes_characters {number : Number} {unit : TimeUnit} {seconds : Nat}
    (hfits : FractionFits number)
    (h : Writes (String.ofList (number.characters ++ [unit.letter])) seconds)
    (hsafe : (seconds : Int) ≤ maxSafe) :
    ∃ amount : Nat, number = .int amount ∧ amount * unit.size = seconds := by
  obtain ⟨hdigits, hseconds⟩ := writes_append_letter h
  obtain ⟨amount, rfl, hamount | ⟨-, hlarge⟩⟩ := exists_of_digits hfits hdigits
  · exact ⟨amount, rfl, by rw [hseconds, hamount]⟩
  · have hle := Nat.le_mul_of_pos_right (Nat.ofDigitChars 10 (characters (.int amount)) 0)
      unit.one_le_size
    have hlt := natCast_le_maxSafe.mp hsafe
    omega

/-- What is read from the text of a number of seconds is that number. -/
theorem eq_of_read?_write {number other : Number} (hfits : FractionFits number)
    (h : read? (write number) = some other) : other = number := by
  obtain ⟨seconds, hwrites, hsafe, rfl⟩ := writes_of_read? h
  unfold write at hwrites
  cases hfind : TimeUnit.all.find? fun unit => unit.measures number with
  | none =>
    rw [hfind] at hwrites
    have hsecond : Writes (String.ofList (number.characters ++ [TimeUnit.second.letter])) seconds :=
      hwrites
    obtain ⟨amount, rfl, hseconds⟩ := eq_of_writes_characters hfits hsecond hsafe
    rw [← hseconds, TimeUnit.size, Nat.mul_one]
  | some unit =>
    rw [hfind] at hwrites
    obtain ⟨total, rfl, hmod⟩ : ∃ total : Nat, number = .int total ∧ total % unit.size = 0 := by
      have hmeasures := List.find?_some hfind
      cases number with
      | int value =>
        obtain ⟨hpos, hmod⟩ := of_decide_eq_true hmeasures
        obtain ⟨total, rfl⟩ := Int.eq_ofNat_of_zero_le hpos.le
        exact ⟨total, rfl, by exact_mod_cast hmod⟩
      | frac | infinity | nan => cases hmeasures
    have hquotient := divNat_cases unit.one_le_size hmod
    have hquotientFits : FractionFits (Number.divNat (.int total) unit.size) :=
      fractionFits_ofRatio _ (Nat.mul_pos Nat.one_pos unit.one_le_size)
    obtain ⟨amount, hamount, rfl⟩ := eq_of_writes_characters hquotientFits hwrites hsafe
    rw [hamount] at hquotient
    rcases hquotient with hexact | hinfinite | ⟨n, hlarge, hint⟩
    · obtain rfl : amount = total / unit.size := by exact_mod_cast Number.int.inj hexact
      rw [Nat.div_mul_cancel (Nat.dvd_of_mod_eq_zero hmod)]
    · cases hinfinite
    · obtain rfl : amount = n := by exact_mod_cast Number.int.inj hint
      have hle := Nat.le_mul_of_pos_right amount unit.one_le_size
      have hlt := natCast_le_maxSafe.mp hsafe
      omega

end Retention.Duration
