import Retention.Proofs.Number.Numeral

/-!
# Shortest decimals

The decimal that a double is written with lies in the interval of reals that round to the double. A
text of digits alone is a whole number. So a fraction is never written with digits alone, since the
interval of a fraction that is a double holds no whole number; and a whole number from `2 ^ 53` on is
not written as a smaller one that is below `2 ^ 53`.

A double has a decimal of at most seventeen digits in its interval, since the grid of seventeen
digits is finer than the doubles.

## Main definitions

* `Decimal.value`, `Binary.value`: the values of decimals and of doubles.
* `Binary.low`, `Binary.high`: the ends of the interval of reals that round to a double.

## Main results

* `Decimal.value_of_digits`: a text of digits alone is the value.
* `mem_interval_of_onGrid`, `exists_onGrid`: the search finds decimals in the interval, and finds one
  on a grid that is fine enough.
* `exists_not_isDigit_shortest`, `le_ofDigitChars_shortest`: the texts of fractions and of large
  whole numbers.
* `exists_of_digits`: the numbers that are written with digits alone.
-/

namespace Retention.Number

/-- The value of a decimal. -/
def Decimal.value (decimal : Decimal) : ℚ := decimal.digits * 10 ^ decimal.exponent

/-- The value of a double. -/
def Binary.value (x : Binary) : ℚ := x.significand * 2 ^ x.exponent

/-- How far the interval of a double reaches below it, in quarters of its last place: half as far as
above it where the doubles below are closer together. -/
def Binary.below (x : Binary) : Nat :=
  if x.significand = Nat.pow 2 52 ∧ -1074 < x.exponent then 1 else 2

/-- The lower end of the interval of reals that round to a double. -/
def Binary.low (x : Binary) : ℚ := (4 * x.significand - x.below : Nat) * 2 ^ (x.exponent - 2)

/-- The upper end of that interval. -/
def Binary.high (x : Binary) : ℚ := (4 * x.significand + 2 : Nat) * 2 ^ (x.exponent - 2)

theorem Binary.below_le (x : Binary) : x.below ≤ 2 := by
  unfold below
  split <;> decide

theorem Binary.below_pos (x : Binary) : 0 < x.below := by
  unfold below
  split <;> decide

theorem Binary.value_eq (x : Binary) : x.value = 4 * x.significand * 2 ^ (x.exponent - 2) := by
  rw [value, zpow_sub₀ (by norm_num)]
  norm_num
  ring

/-- The interval ends half a last place above the double. -/
theorem Binary.high_eq (x : Binary) : x.high = x.value + 2 * 2 ^ (x.exponent - 2) := by
  rw [high, value_eq]
  push_cast
  ring

/-- The interval begins half a last place below the double or later. -/
theorem Binary.value_le_low_add (x : Binary) : x.value ≤ x.low + 2 * 2 ^ (x.exponent - 2) := by
  have hbelow := x.below_le
  have hle : ((4 * x.significand : Nat) : ℚ) ≤ (4 * x.significand - x.below + 2 : Nat) := by
    exact_mod_cast (by omega : 4 * x.significand ≤ 4 * x.significand - x.below + 2)
  rw [low, value_eq, ← add_mul]
  refine mul_le_mul_of_nonneg_right ?_ (two_zpow_pos _).le
  exact_mod_cast hle

/-! ### Texts of digits alone -/

theorem ofDigitChars_append_zeros (digits : List Char) (count : Nat) :
    Nat.ofDigitChars 10 (digits ++ List.replicate count '0') 0 =
      Nat.ofDigitChars 10 digits 0 * 10 ^ count := by
  induction count with
  | zero => simp
  | succ count ih =>
    rw [List.replicate_succ', ← List.append_assoc, Nat.ofDigitChars_append, ih]
    simp [Nat.ofDigitChars_cons, Nat.pow_succ]
    ring

/-- The digits without the zeros at their end, and those zeros. -/
theorem exists_append_zeros (digits : List Char) : ∃ count,
    digits = (digits.reverse.dropWhile (· = '0')).reverse ++ List.replicate count '0' := by
  refine ⟨(digits.reverse.takeWhile (· = '0')).length, ?_⟩
  have hzeros : (digits.reverse.takeWhile (· = '0')).reverse =
      List.replicate (digits.reverse.takeWhile (· = '0')).length '0' := by
    rw [List.eq_replicate_iff, List.length_reverse]
    refine ⟨rfl, fun c hc => ?_⟩
    simpa using List.mem_takeWhile_imp (List.mem_reverse.mp hc)
  rw [← hzeros, ← List.reverse_append, List.takeWhile_append_dropWhile, List.reverse_reverse]

/-- Digits that are laid out with digits alone are followed by zeros at most. -/
theorem write_eq_of_digits {digits : List Char} {point : ℤ}
    (h : ∀ c ∈ layout.write digits point, c.isDigit = true) :
    digits.length ≤ point ∧ layout.write digits point =
      digits ++ List.replicate (point - digits.length).toNat '0' := by
  unfold Layout.write at h ⊢
  dsimp only at h ⊢
  split at h
  · next hpoint =>
    rw [if_pos hpoint]
    exact ⟨hpoint.1, rfl⟩
  · split at h
    · exact absurd (h '.' (by simp)) (by decide)
    · split at h
      · exact absurd (h '.' (by simp)) (by decide)
      · exact absurd (h 'e' (by simp)) (by decide)

/-- A decimal whose text is digits alone has the value of the text. -/
theorem Decimal.value_of_digits {decimal : Decimal}
    (h : ∀ c ∈ decimal.text, c.isDigit = true) :
    decimal.value = Nat.ofDigitChars 10 decimal.text 0 := by
  unfold Decimal.text at h ⊢
  dsimp only at h ⊢
  obtain ⟨count, hdigits⟩ := exists_append_zeros (Nat.toDigits 10 decimal.digits)
  generalize (Nat.toDigits 10 decimal.digits).reverse.dropWhile (· = '0') = rest at h hdigits ⊢
  obtain ⟨hpoint, hwrite⟩ := write_eq_of_digits h
  have hlength := congrArg List.length hdigits
  rw [List.length_append, List.length_replicate] at hlength
  have hvalue : decimal.digits = Nat.ofDigitChars 10 rest.reverse 0 * 10 ^ count := by
    rw [← ofDigitChars_append_zeros, ← hdigits, Nat.ofDigitChars_ten_toDigits]
  obtain ⟨zeros, hzeros⟩ : ∃ zeros : Nat, (zeros : ℤ) = count + decimal.exponent :=
    ⟨(count + decimal.exponent).toNat, by omega⟩
  have hcount : (((Nat.toDigits 10 decimal.digits).length : ℤ) + decimal.exponent -
      rest.reverse.length).toNat = zeros := by omega
  rw [hwrite, hcount, ofDigitChars_append_zeros, Decimal.value, hvalue]
  push_cast
  rw [mul_assoc, ← zpow_natCast, ← zpow_add₀ (by norm_num), ← hzeros, zpow_natCast]

/-! ### The grid -/

section Grid

variable (x : Binary) (place : ℤ)

/-- A quarter of the last place of a double, in units that make the steps of the grid whole too. -/
def quarter : Nat := Nat.pow 2 (x.exponent - 2).toNat * Nat.pow 10 (-place).toNat

/-- A step of the grid in the same units. -/
def step : Nat := Nat.pow 2 (-(x.exponent - 2)).toNat * Nat.pow 10 place.toNat

/-- Whether a point of the grid lies in the interval, which has its ends if the significand is
even. -/
def inside (candidate : Nat) : Bool :=
  let low := (4 * x.significand - x.below) * quarter x place
  let high := (4 * x.significand + 2) * quarter x place
  if x.significand % 2 = 0 then low ≤ candidate * step x place ∧ candidate * step x place ≤ high
  else low < candidate * step x place ∧ candidate * step x place < high

/-- The point of the grid below a double. -/
def floorPoint : Nat := 4 * x.significand * quarter x place / step x place

variable {x place}

theorem le_of_inside {candidate : Nat} (h : inside x place candidate = true) :
    (4 * x.significand - x.below) * quarter x place ≤ candidate * step x place ∧
      candidate * step x place ≤ (4 * x.significand + 2) * quarter x place := by
  unfold inside at h
  dsimp only at h
  split at h
  · exact of_decide_eq_true h
  · exact (of_decide_eq_true h).imp Nat.le_of_lt Nat.le_of_lt

theorem inside_of_lt {candidate : Nat}
    (hlow : (4 * x.significand - x.below) * quarter x place < candidate * step x place)
    (hhigh : candidate * step x place < (4 * x.significand + 2) * quarter x place) :
    inside x place candidate = true := by
  unfold inside
  dsimp only
  split
  · exact decide_eq_true ⟨Nat.le_of_lt hlow, Nat.le_of_lt hhigh⟩
  · exact decide_eq_true ⟨hlow, hhigh⟩

/-- The search tries the two points next to the double, in some order. -/
theorem onGrid_eq (x : Binary) (place : ℤ) : ∃ near far,
    (near = floorPoint x place ∧ far = floorPoint x place + 1 ∨
      near = floorPoint x place + 1 ∧ far = floorPoint x place) ∧
    onGrid x place =
      if 0 < near ∧ inside x place near then some ⟨near, place⟩
      else if 0 < far ∧ inside x place far then some ⟨far, place⟩
      else none := by
  refine ⟨_, _, ?_, rfl⟩
  split
  · exact Or.inr ⟨rfl, rfl⟩
  · exact Or.inl ⟨rfl, rfl⟩

/-- What the search finds is on the grid and in the interval. -/
theorem inside_of_onGrid {decimal : Decimal} (h : onGrid x place = some decimal) :
    decimal.exponent = place ∧ inside x place decimal.digits = true := by
  obtain ⟨near, far, -, heq⟩ := onGrid_eq x place
  rw [heq] at h
  split_ifs at h with hnear hfar
  · obtain rfl := Option.some.inj h
    exact ⟨rfl, hnear.2⟩
  · obtain rfl := Option.some.inj h
    exact ⟨rfl, hfar.2⟩

/-- A search that finds nothing has tried both points next to the double. -/
theorem not_inside_of_onGrid (h : onGrid x place = none) :
    (0 < floorPoint x place → ¬ inside x place (floorPoint x place) = true) ∧
      ¬ inside x place (floorPoint x place + 1) = true := by
  obtain ⟨near, far, hpoints, heq⟩ := onGrid_eq x place
  rw [heq] at h
  split_ifs at h with hnear hfar
  rcases hpoints with ⟨rfl, rfl⟩ | ⟨rfl, rfl⟩
  · exact ⟨fun hpos hinside => hnear ⟨hpos, hinside⟩, fun hinside => hfar ⟨by omega, hinside⟩⟩
  · exact ⟨fun hpos hinside => hfar ⟨hpos, hinside⟩, fun hinside => hnear ⟨by omega, hinside⟩⟩

/-- Quarters and steps have one denominator, so they compare as the values do. -/
theorem exists_denominator (x : Binary) (place : ℤ) : ∃ scale : ℚ, 0 < scale ∧
    (quarter x place : ℚ) = 2 ^ (x.exponent - 2) * scale ∧
    (step x place : ℚ) = 10 ^ place * scale := by
  refine ⟨2 ^ (-(x.exponent - 2)).toNat * 10 ^ (-place).toNat, by positivity, ?_, ?_⟩
  · simp only [quarter, Nat.pow_eq, Nat.cast_mul, Nat.cast_pow, Nat.cast_ofNat]
    rw [pow_toNat (by norm_num) (x.exponent - 2), mul_assoc]
  · simp only [step, Nat.pow_eq, Nat.cast_mul, Nat.cast_pow, Nat.cast_ofNat]
    rw [pow_toNat (by norm_num) place]
    ring

/-- The value of what the search finds lies in the interval. -/
theorem mem_interval_of_onGrid {decimal : Decimal} (h : onGrid x place = some decimal) :
    x.low ≤ decimal.value ∧ decimal.value ≤ x.high := by
  obtain ⟨hexponent, hinside⟩ := inside_of_onGrid h
  obtain ⟨hlow, hhigh⟩ := le_of_inside hinside
  obtain ⟨scale, hscale, hquarter, hstep⟩ := exists_denominator x place
  rw [Binary.low, Binary.high, Decimal.value, hexponent]
  rw [← Nat.cast_le (α := ℚ), Nat.cast_mul, Nat.cast_mul, hquarter, hstep, ← mul_assoc, ← mul_assoc,
    mul_le_mul_iff_left₀ hscale] at hlow hhigh
  exact ⟨hlow, hhigh⟩

/-- The search finds a point on a grid that is finer than the interval is wide. -/
theorem exists_onGrid (hx : 0 < x.significand)
    (hfine : (10 : ℚ) ^ place < (2 + x.below : Nat) * 2 ^ (x.exponent - 2)) :
    ∃ decimal, onGrid x place = some decimal := by
  obtain ⟨scale, hscale, hquarter, hstep⟩ := exists_denominator x place
  have hlt : step x place < (2 + x.below) * quarter x place := by
    rw [← Nat.cast_lt (α := ℚ), Nat.cast_mul, hquarter, hstep, ← mul_assoc]
    exact mul_lt_mul_of_pos_right hfine hscale
  have hpos : 0 < quarter x place := Nat.pos_of_lt_mul_left hlt
  have hstepPos : 0 < step x place := by
    rw [← Nat.cast_pos (α := ℚ), hstep]
    positivity
  have hlow : (4 * x.significand - x.below) * quarter x place + x.below * quarter x place =
      4 * x.significand * quarter x place := by
    rw [← Nat.add_mul, Nat.sub_add_cancel (by have := x.below_le; omega)]
  have hbelow : 0 < x.below * quarter x place := Nat.mul_pos x.below_pos hpos
  have hwide : x.below * quarter x place ≤ 2 * quarter x place :=
    Nat.mul_le_mul_right _ x.below_le
  have hvalue : quarter x place ≤ x.significand * quarter x place :=
    Nat.le_mul_of_pos_left _ hx
  have hfloor : floorPoint x place * step x place ≤ 4 * x.significand * quarter x place :=
    Nat.div_mul_le_self _ _
  have hnext : 4 * x.significand * quarter x place < (floorPoint x place + 1) * step x place :=
    Nat.lt_mul_of_div_lt (Nat.lt_succ_self _) hstepPos
  by_contra hnone
  rw [← Option.isSome_iff_exists, Bool.not_eq_true, Option.isSome_eq_false_iff,
    Option.isNone_iff_eq_none] at hnone
  obtain ⟨hfloorOut, hnextOut⟩ := not_inside_of_onGrid hnone
  -- The double is between the two points, which are farther apart than the ends are.
  have hhigh : (4 * x.significand + 2) * quarter x place ≤
      (floorPoint x place + 1) * step x place :=
    Nat.le_of_not_lt fun hlt => hnextOut (inside_of_lt (by omega) hlt)
  rcases Nat.eq_zero_or_pos (floorPoint x place) with hzero | hfloorPos
  · rw [hzero] at hhigh
    simp only [Nat.add_mul, Nat.mul_assoc] at *
    omega
  · have hlowOut : floorPoint x place * step x place ≤
        (4 * x.significand - x.below) * quarter x place :=
      Nat.le_of_not_lt fun hlt => hfloorOut hfloorPos (inside_of_lt hlt (by
        simp only [Nat.add_mul] at *
        omega))
    simp only [Nat.add_mul] at *
    omega

end Grid

/-! ### The size of the grid -/

/-- The number of digits before the point is not more than the size of the ratio. -/
theorem ten_zpow_pointPlace_le {n d : Nat} (hn : 0 < n) (hd : 0 < d) :
    (10 : ℚ) ^ (pointPlace n d - 1) * d ≤ n := by
  unfold pointPlace
  split
  · next hle =>
    obtain ⟨k, hk⟩ : ∃ k, (Nat.toDigits 10 (n / d)).length = k + 1 :=
      Nat.exists_eq_add_one.mpr (List.length_pos_of_ne_nil Nat.toDigits_ne_nil)
    have hpow : 10 ^ k ≤ n / d := by
      rcases Nat.eq_zero_or_pos k with rfl | hpos
      · exact Nat.div_pos hle hd
      · exact Nat.le_of_not_lt fun hlt => by
          have := (Nat.length_toDigits_le_iff (by decide) hpos).mpr hlt
          omega
    have hmul : 10 ^ k * d ≤ n := (Nat.le_div_iff_mul_le hd).mp hpow
    rw [hk, Nat.cast_succ, add_sub_cancel_right, zpow_natCast]
    exact_mod_cast hmul
  · next hlt =>
    have hpow : (d - 1) / n < 10 ^ (Nat.toDigits 10 ((d - 1) / n)).length :=
      (Nat.length_toDigits_le_iff (by decide)
        (List.length_pos_of_ne_nil Nat.toDigits_ne_nil)).mp (Nat.le_refl _)
    have hmul : d - 1 < 10 ^ (Nat.toDigits 10 ((d - 1) / n)).length * n :=
      Nat.lt_mul_of_div_lt hpow hn
    generalize (Nat.toDigits 10 ((d - 1) / n)).length = k at hmul
    have hle : (d : ℚ) ≤ 10 ^ k * n := by exact_mod_cast (by omega : d ≤ 10 ^ k * n)
    calc (10 : ℚ) ^ (1 - (k : ℤ) - 1) * d = (10 ^ k)⁻¹ * d := by
          rw [sub_sub_cancel_left, zpow_neg, zpow_natCast]
      _ ≤ (10 ^ k)⁻¹ * (10 ^ k * n) := mul_le_mul_of_nonneg_left hle (by positivity)
      _ = n := by rw [inv_mul_cancel_left₀ (by positivity)]

/-- The grid of seventeen digits is finer than the interval of a double is wide. -/
theorem ten_zpow_lt {x : Binary} (hx : x.significand < 2 ^ 53) (hpos : 0 < x.significand)
    {point : ℤ} (hpoint : (10 : ℚ) ^ (point - 1) ≤ x.value) :
    (10 : ℚ) ^ (point - 17) < (2 + x.below : Nat) * 2 ^ (x.exponent - 2) := by
  have hquarter := two_zpow_pos (x.exponent - 2)
  have hwide : 4 * x.significand < 10 ^ 16 * (2 + x.below) := by
    unfold Binary.below
    split
    · next hleast =>
      rw [hleast.1]
      decide
    · omega
  calc (10 : ℚ) ^ (point - 17) = (10 ^ 16)⁻¹ * 10 ^ (point - 1) := by
        rw [← zpow_natCast, ← zpow_neg, ← zpow_add₀ (by norm_num)]
        congr 1
        omega
    _ ≤ (10 ^ 16)⁻¹ * (4 * x.significand * 2 ^ (x.exponent - 2)) :=
        mul_le_mul_of_nonneg_left (x.value_eq ▸ hpoint) (by positivity)
    _ < (10 ^ 16)⁻¹ * (10 ^ 16 * (2 + x.below : Nat) * 2 ^ (x.exponent - 2)) := by
        refine mul_lt_mul_of_pos_left (mul_lt_mul_of_pos_right ?_ hquarter) (by positivity)
        exact_mod_cast hwide
    _ = (2 + x.below : Nat) * 2 ^ (x.exponent - 2) := by
        rw [mul_assoc (10 ^ 16 : ℚ), inv_mul_cancel_left₀ (by norm_num)]

/-- The search goes through the grids of one to seventeen digits; only when it finds nothing the
number is written out. -/
theorem shortest_cases (n scale : Nat) :
    (∃ place, onGrid (Binary.ofScaled n scale) place = some (shortest n scale)) ∨
      shortest n scale = ⟨n, 0⟩ ∧
        onGrid (Binary.ofScaled n scale) (pointPlace n (Nat.pow 2 scale) - 17) = none := by
  unfold shortest
  dsimp only
  cases hfind : ((List.range 17).map fun k : Nat =>
      pointPlace n (Nat.pow 2 scale) - ((k : ℤ) + 1)).findSome? (onGrid (Binary.ofScaled n scale)) with
  | none =>
    exact Or.inr ⟨rfl, List.findSome?_eq_none_iff.mp hfind _
      (List.mem_map.mpr ⟨16, by decide, by norm_num⟩)⟩
  | some decimal =>
    obtain ⟨place, -, hplace⟩ := List.exists_of_findSome?_eq_some hfind
    exact Or.inl ⟨place, hplace⟩

/-! ### Fractions -/

section Fractions

variable {n scale : Nat}

/-- A number of at most fifty-three bits whose last bit is not below the last place of the smallest
doubles is a double. -/
theorem ofScaled_exact (hn : 0 < n) (hbits : n < 2 ^ 53) (hscale : scale ≤ 1074) :
    (Binary.ofScaled n scale).value = n * 2 ^ (-(scale : ℤ)) ∧
      (Binary.ofScaled n scale).exponent ≤ -scale ∧
      0 < (Binary.ofScaled n scale).significand ∧
      (Binary.ofScaled n scale).significand < 2 ^ 53 := by
  have hlog : n.log2 ≤ 52 := Nat.le_of_lt_succ ((Nat.log2_lt (by omega)).mpr hbits)
  obtain ⟨shift, hshift⟩ : ∃ shift : Nat,
      (shift : ℤ) = -(scale : ℤ) - max ((n.log2 : ℤ) - scale - 52) (-1074) :=
    ⟨(-(scale : ℤ) - max ((n.log2 : ℤ) - scale - 52) (-1074)).toNat, by omega⟩
  have hsignificand : (Binary.ofScaled n scale).significand = n * 2 ^ shift := by
    simp [Binary.ofScaled, ← hshift]
  have hexponent : (Binary.ofScaled n scale).exponent = -(scale : ℤ) - shift := by
    simp only [Binary.ofScaled]
    omega
  refine ⟨?_, by omega, ?_, ?_⟩
  · rw [Binary.value, hsignificand, hexponent]
    push_cast
    rw [mul_assoc, ← zpow_natCast, ← zpow_add₀ (by norm_num)]
    congr 2
    omega
  · rw [hsignificand]
    positivity
  · rw [hsignificand]
    calc n * 2 ^ shift < 2 ^ (n.log2 + 1) * 2 ^ shift :=
          Nat.mul_lt_mul_of_pos_right Nat.lt_log2_self (by positivity)
      _ = 2 ^ (n.log2 + 1 + shift) := (Nat.pow_add ..).symm
      _ ≤ 2 ^ 53 := Nat.pow_le_pow_right (by decide) (by omega)

/-- The decimal of a double lies in its interval. -/
theorem shortest_mem_interval (hn : 0 < n) (hbits : n < 2 ^ 53) (hscale : scale ≤ 1074) :
    (Binary.ofScaled n scale).low ≤ (shortest n scale).value ∧
      (shortest n scale).value ≤ (Binary.ofScaled n scale).high := by
  obtain ⟨hvalue, -, hpos, hlt⟩ := ofScaled_exact hn hbits hscale
  have hpoint : (10 : ℚ) ^ (pointPlace n (Nat.pow 2 scale) - 1) ≤
      (Binary.ofScaled n scale).value := by
    rw [hvalue, zpow_neg, zpow_natCast, ← div_eq_mul_inv, le_div_iff₀ (by positivity)]
    exact_mod_cast ten_zpow_pointPlace_le hn (Nat.two_pow_pos scale)
  obtain ⟨last, hlast⟩ := exists_onGrid hpos (ten_zpow_lt hlt hpos hpoint)
  rcases shortest_cases n scale with ⟨place, hplace⟩ | ⟨-, hnone⟩
  · exact mem_interval_of_onGrid hplace
  · rw [hlast] at hnone
    cases hnone

/-- A fraction that is a double is not written with digits alone. -/
theorem exists_not_isDigit_shortest (hodd : n % 2 = 1) (hbits : n < 2 ^ 53)
    (hscale : scale + 1 ≤ 1074) : ∃ c ∈ (shortest n (scale + 1)).text, ¬ c.isDigit = true := by
  by_contra! hdigits
  have hn : 0 < n := by omega
  obtain ⟨hlow, hhigh⟩ := shortest_mem_interval hn hbits hscale
  obtain ⟨hvalue, hexponent, -⟩ := ofScaled_exact hn hbits hscale
  rw [Decimal.value_of_digits hdigits] at hlow hhigh
  generalize Nat.ofDigitChars 10 (shortest n (scale + 1)).text 0 = whole at hlow hhigh
  generalize Binary.ofScaled n (scale + 1) = x at hlow hhigh hvalue hexponent
  -- In units of the last bit of the fraction, the whole number is less than one away from it.
  have hunit : 0 < (2 : ℚ) ^ (-((scale + 1 : Nat) : ℤ)) := two_zpow_pos _
  have hhalf : 4 * (2 : ℚ) ^ (x.exponent - 2) ≤ 2 ^ (-((scale + 1 : Nat) : ℤ)) := by
    calc 4 * (2 : ℚ) ^ (x.exponent - 2) = 2 ^ x.exponent := by
          rw [zpow_sub₀ (by norm_num)]
          norm_num
          ring
      _ ≤ _ := zpow_le_zpow_right₀ (by norm_num) hexponent
  have hwhole : (whole : ℚ) = whole * 2 ^ (scale + 1) * 2 ^ (-((scale + 1 : Nat) : ℤ)) := by
    rw [zpow_neg, zpow_natCast, mul_inv_cancel_right₀ (by positivity)]
  have habove : whole * 2 ^ (scale + 1) < n + 1 := by
    have hlt : (whole : ℚ) < (n + 1) * 2 ^ (-((scale + 1 : Nat) : ℤ)) := by
      linarith [x.high_eq]
    rw [hwhole, mul_lt_mul_iff_left₀ hunit] at hlt
    exact_mod_cast hlt
  have hbelow : n < whole * 2 ^ (scale + 1) + 1 := by
    have hlt : (n : ℚ) * 2 ^ (-((scale + 1 : Nat) : ℤ)) <
        whole + 2 ^ (-((scale + 1 : Nat) : ℤ)) := by
      linarith [x.value_le_low_add]
    rw [hwhole, ← add_one_mul, mul_lt_mul_iff_left₀ hunit] at hlt
    exact_mod_cast hlt
  rw [Nat.pow_succ, ← Nat.mul_assoc] at habove hbelow
  omega

end Fractions

/-! ### Large whole numbers -/

section Large

variable {n : Nat}

/-- The interval of a whole number from `2 ^ 53` on has no whole number below `2 ^ 53`. -/
theorem lt_low_of_le (hn : 2 ^ 53 ≤ n) : (2 : ℚ) ^ 53 - 1 < (Binary.ofScaled n 0).low := by
  have hlog : 53 ≤ n.log2 := (Nat.le_log2 (by omega)).mpr hn
  obtain ⟨drop, hdrop⟩ : ∃ drop : Nat, n.log2 = drop + 52 := ⟨n.log2 - 52, by omega⟩
  have hx : Binary.ofScaled n 0 = ⟨n / 2 ^ drop, drop⟩ := by
    have hexponent : max ((n.log2 : ℤ) - (0 : Nat) - 52) (-1074) = drop := by omega
    unfold Binary.ofScaled
    dsimp only
    rw [hexponent]
    simp
  have hsignificand : 2 ^ 52 ≤ n / 2 ^ drop := by
    rw [Nat.le_div_iff_mul_le (by positivity), ← Nat.pow_add, Nat.add_comm, ← hdrop]
    exact Nat.log2_self_le (by omega)
  have hbelow : 2 ^ 54 - 1 ≤ 4 * (n / 2 ^ drop) - (Binary.ofScaled n 0).below := by
    have hle := (Binary.ofScaled n 0).below_le
    rcases Nat.eq_or_lt_of_le hsignificand with heq | hlt
    · have hone : (Binary.ofScaled n 0).below = 1 :=
        if_pos ⟨by rw [hx]; exact heq.symm, by rw [hx]; dsimp only; omega⟩
      omega
    · omega
  have hquarter : (2 : ℚ)⁻¹ ≤ 2 ^ ((drop : ℤ) - 2) := by
    rw [← zpow_neg_one]
    exact zpow_le_zpow_right₀ (by norm_num) (by omega)
  rw [Binary.low, hx]
  rw [hx] at hbelow
  calc (2 : ℚ) ^ 53 - 1 < (2 ^ 54 - 1 : Nat) * 2⁻¹ := by norm_num
    _ ≤ _ := mul_le_mul (by exact_mod_cast hbelow) hquarter (by norm_num) (by positivity)

/-- A whole number from `2 ^ 53` on that is written with digits alone is not written as one below
`2 ^ 53`. -/
theorem le_ofDigitChars_shortest (hn : 2 ^ 53 ≤ n)
    (hdigits : ∀ c ∈ (shortest n 0).text, c.isDigit = true) :
    2 ^ 53 ≤ Nat.ofDigitChars 10 (shortest n 0).text 0 := by
  have hvalue : (2 : ℚ) ^ 53 - 1 < (shortest n 0).value := by
    rcases shortest_cases n 0 with ⟨place, hplace⟩ | ⟨hwhole, -⟩
    · exact lt_of_lt_of_le (lt_low_of_le hn) (mem_interval_of_onGrid hplace).1
    · have hle : (2 : ℚ) ^ 53 ≤ n := by exact_mod_cast hn
      simp only [hwhole, Decimal.value, zpow_zero, mul_one]
      linarith
  rw [Decimal.value_of_digits hdigits, sub_lt_iff_lt_add] at hvalue
  exact Nat.le_of_lt_succ (by exact_mod_cast hvalue)

end Large

/-! ### The characters of a number -/

/-- A number that is written with digits alone is a natural number, and up to `2 ^ 53` it is the one
that the digits denote. -/
theorem exists_of_digits {number : Number} (hfits : FractionFits number)
    (hdigits : ∀ c ∈ number.characters, c.isDigit = true) : ∃ n : Nat, number = .int n ∧
      (Nat.ofDigitChars 10 number.characters 0 = n ∨
        2 ^ 53 ≤ n ∧ 2 ^ 53 ≤ Nat.ofDigitChars 10 number.characters 0) := by
  cases number with
  | int value =>
    obtain ⟨n, rfl⟩ : ∃ n : Nat, value = n := by
      refine Int.eq_ofNat_of_zero_le (Int.not_lt.mp fun hneg => ?_)
      refine absurd (hdigits '-' ?_) (by decide)
      rw [characters, wholeText, if_pos hneg]
      split <;> simp
    refine ⟨n, rfl, ?_⟩
    rcases Nat.lt_or_ge (2 ^ 53) n with hlarge | hsmall
    · have hcharacters : characters (.int n) = (shortest n 0).text := by
        rw [characters, if_neg (by simp; omega), if_neg (by omega), Int.natAbs_natCast,
          List.nil_append]
      rw [hcharacters] at hdigits ⊢
      exact Or.inr ⟨by omega, le_ofDigitChars_shortest (by omega) hdigits⟩
    · exact Or.inl (ofDigitChars_characters hsmall)
  | frac numerator scale odd =>
    obtain ⟨hbits, hscale⟩ := hfits
    obtain ⟨c, hc, hnot⟩ := exists_not_isDigit_shortest (by omega) hbits hscale
    exact absurd (hdigits c (List.mem_append_right _ hc)) hnot
  | infinity negative =>
    cases negative with
    | false => exact absurd (hdigits 'I' (by decide)) (by decide)
    | true => exact absurd (hdigits '-' (by decide)) (by decide)
  | nan => exact absurd (hdigits 'N' (by decide)) (by decide)

end Retention.Number
