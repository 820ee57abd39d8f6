import Mathlib
import Retention.Number.Text

/-!
# The size of doubles

The exponent that a ratio is rounded at is the logarithm of the ratio, so its significand has at
most fifty-three bits, and a whole number that is rounded does not become small. A fraction that
comes out of rounding is a double: an odd significand of at most fifty-three bits, with its last bit
not below the last place of the smallest doubles.

## Main definitions

* `FractionFits`: a number that is a double if it is a fraction.

## Main results

* `two_zpow_floorLog2_le`, `lt_two_zpow_floorLog2`: the logarithm that rounding goes by.
* `fractionFits_ofText`, `fractionFits_add`: numbers that are read or added up are doubles.
-/

namespace Retention.Number

/-! ### Powers -/

/-- The part of a power that has a positive exponent, as the whole of it without the other part. -/
theorem pow_toNat {base : ℚ} (hbase : base ≠ 0) (e : ℤ) :
    base ^ e.toNat = base ^ e * base ^ (-e).toNat := by
  rw [← zpow_natCast base e.toNat, ← zpow_natCast base (-e).toNat, ← zpow_add₀ hbase]
  congr 1
  omega

theorem two_zpow_pos (e : ℤ) : (0 : ℚ) < 2 ^ e := zpow_pos (by norm_num) e

/-- Where the lower power of two is compared, a ratio is compared with the power itself. -/
theorem mul_pow_toNat_le_iff {n d : Nat} {e : ℤ} :
    d * 2 ^ e.toNat ≤ n * 2 ^ (-e).toNat ↔ (2 : ℚ) ^ e * d ≤ n := by
  have hpow : (0 : ℚ) < 2 ^ (-e).toNat := by positivity
  rw [← Nat.cast_le (α := ℚ)]
  push_cast
  rw [pow_toNat (by norm_num), ← mul_assoc, mul_le_mul_iff_left₀ hpow, mul_comm]

/-! ### The logarithm -/

section FloorLog2

variable {n d : Nat}

/-- A ratio is at least the power of two of its logarithm. -/
theorem two_zpow_floorLog2_le (hn : 0 < n) : (2 : ℚ) ^ floorLog2 n d * d ≤ n := by
  unfold floorLog2
  dsimp only
  split
  · next h => exact mul_pow_toNat_le_iff.mp h
  · -- The power is half of the one that the logarithms of both parts give.
    have hnumerator : (2 : ℚ) ^ (n.log2 : ℤ) ≤ n := by
      exact_mod_cast Nat.log2_self_le (Nat.ne_of_gt hn)
    have hdenominator : (d : ℚ) ≤ 2 ^ ((d.log2 : ℤ) + 1) := by
      exact_mod_cast Nat.le_of_lt Nat.lt_log2_self
    calc (2 : ℚ) ^ ((n.log2 : ℤ) - d.log2 - 1) * d
        ≤ 2 ^ ((n.log2 : ℤ) - d.log2 - 1) * 2 ^ ((d.log2 : ℤ) + 1) :=
          mul_le_mul_of_nonneg_left hdenominator (two_zpow_pos _).le
      _ = 2 ^ (n.log2 : ℤ) := by
          rw [← zpow_add₀ (by norm_num)]
          congr 1
          omega
      _ ≤ n := hnumerator

/-- A ratio is less than the next power of two. -/
theorem lt_two_zpow_floorLog2 (hd : 0 < d) : (n : ℚ) < 2 ^ (floorLog2 n d + 1) * d := by
  unfold floorLog2
  dsimp only
  split
  · have hnumerator : (n : ℚ) < 2 ^ ((n.log2 : ℤ) + 1) := by
      exact_mod_cast Nat.lt_log2_self
    have hdenominator : (2 : ℚ) ^ (d.log2 : ℤ) ≤ d := by
      exact_mod_cast Nat.log2_self_le (Nat.ne_of_gt hd)
    calc (n : ℚ) < 2 ^ ((n.log2 : ℤ) + 1) := hnumerator
      _ = 2 ^ ((n.log2 : ℤ) - d.log2 + 1) * 2 ^ (d.log2 : ℤ) := by
          rw [← zpow_add₀ (by norm_num)]
          congr 1
          omega
      _ ≤ 2 ^ ((n.log2 : ℤ) - d.log2 + 1) * d :=
          mul_le_mul_of_nonneg_left hdenominator (two_zpow_pos _).le
  · next h =>
    rw [sub_add_cancel]
    exact not_le.mp fun hle => h (mul_pow_toNat_le_iff.mpr hle)

end FloorLog2

/-! ### Rounding -/

/-- The nearest whole number is not below the whole part. -/
theorem div_le_roundDiv (n d : Nat) : n / d ≤ roundDiv n d := by
  unfold roundDiv
  split_ifs <;> omega

/-- The nearest whole number is not above a whole number that the ratio is not above. -/
theorem roundDiv_le {n d m : Nat} (hd : 0 < d) (h : n ≤ m * d) : roundDiv n d ≤ m := by
  have hdiv : n / d ≤ m := Nat.div_le_of_le_mul (by rwa [Nat.mul_comm])
  rcases Nat.lt_or_eq_of_le hdiv with hlt | heq
  · unfold roundDiv
    split_ifs <;> omega
  · have hmod : n % d = 0 := by
      have hsplit := Nat.div_add_mod n d
      rw [heq, Nat.mul_comm] at hsplit
      omega
    rw [roundDiv, hmod, if_pos (by omega), heq]

/-- A number is a double if it is a fraction. Nothing is asked of the other numbers. -/
def FractionFits : Number → Prop
  | frac numerator scale _ => numerator.natAbs < 2 ^ 53 ∧ scale + 1 ≤ 1074
  | int _ | infinity _ | nan => True

theorem fractionFits_ite {p : Prop} [Decidable p] {a b : Number} (ha : FractionFits a)
    (hb : FractionFits b) : FractionFits (if p then a else b) := by
  split
  · exact ha
  · exact hb

theorem fractionFits_ofScaled {m : ℤ} {k : Nat} (hm : m.natAbs ≤ 2 ^ 53) (hk : k ≤ 1074) :
    FractionFits (ofScaled m k) := by
  induction k generalizing m with
  | zero => trivial
  | succ k ih =>
    rw [ofScaled]
    split
    · exact ⟨by omega, hk⟩
    · exact ih (by omega) (by omega)

theorem natAbs_signed (negative : Bool) (magnitude : Nat) :
    (signed negative magnitude).natAbs = magnitude := by
  cases negative <;> simp [signed]

/-- A fraction that comes out of rounding is a double. -/
theorem fractionFits_nearest (negative : Bool) (n : Nat) {d : Nat} (hd : 0 < d) :
    FractionFits (nearest negative n d) := by
  unfold nearest
  generalize Nat.pow 2 1024 = bound
  split
  · trivial
  split
  · exact fractionFits_ite trivial trivial
  · next k hplace =>
    have hlast : lastPlace n d = -((k : ℤ) + 1) := by
      rw [hplace]
      rfl
    rw [lastPlace] at hlast
    refine fractionFits_ofScaled ?_ (by omega)
    rw [natAbs_signed]
    refine roundDiv_le hd ?_
    have hratio := lt_two_zpow_floorLog2 (n := n) hd
    have hexponent : floorLog2 n d + 1 + (k + 1 : Nat) ≤ (53 : Nat) := by omega
    have hle : ((n * 2 ^ (k + 1) : Nat) : ℚ) ≤ ((2 ^ 53 * d : Nat) : ℚ) := by
      push_cast
      calc (n : ℚ) * 2 ^ (k + 1) ≤ 2 ^ (floorLog2 n d + 1) * d * 2 ^ (k + 1) :=
            mul_le_mul_of_nonneg_right hratio.le (by positivity)
        _ = 2 ^ (floorLog2 n d + 1 + (k + 1 : Nat)) * d := by
            rw [zpow_add₀ (by norm_num) _ ((k + 1 : Nat) : ℤ), zpow_natCast]
            ring
        _ ≤ 2 ^ ((53 : Nat) : ℤ) * d := mul_le_mul_of_nonneg_right
            (zpow_le_zpow_right₀ (by norm_num) hexponent) (Nat.cast_nonneg d)
        _ = 2 ^ 53 * d := by rw [zpow_natCast]
    exact_mod_cast hle

theorem fractionFits_ofRatio (n : ℤ) {d : Nat} (hd : 0 < d) : FractionFits (ofRatio n d) := by
  unfold ofRatio
  split
  · trivial
  · exact fractionFits_nearest _ _ hd

theorem fractionFits_ofDecimal (negative : Bool) (whole fraction : List Char) (exponent : ℤ) :
    FractionFits (ofDecimal negative whole fraction exponent) := by
  unfold ofDecimal
  dsimp only
  split_ifs
  · trivial
  · trivial
  · trivial
  · exact fractionFits_ofRatio _ (by decide)
  · exact fractionFits_ofRatio _ (Nat.pow_pos (by decide))

theorem fractionFits_ofNumeral? {text : List Char} {number : Number}
    (h : ofNumeral? text = some number) : FractionFits number := by
  have hbase {base : Nat} {digits : List Char} (h : ofBase? base digits = some number) :
      FractionFits number := by
    unfold ofBase? at h
    split at h
    · cases h
    · obtain ⟨value, -, rfl⟩ := Option.map_eq_some_iff.mp h
      exact fractionFits_ofRatio _ (by decide)
  have hunsigned {negative : Bool} {rest : List Char}
      (h : ofNumeral?.unsigned negative rest = some number) : FractionFits number := by
    unfold ofNumeral?.unsigned at h
    split at h
    · rw [← Option.some.inj h]
      trivial
    · unfold ofUnsignedDecimal? at h
      dsimp only at h
      split at h
      · cases h
      · obtain ⟨exponent, -, rfl⟩ := Option.map_eq_some_iff.mp h
        exact fractionFits_ofDecimal _ _ _ _
  unfold ofNumeral? at h
  split at h
  all_goals first
    | exact hbase h
    | exact hunsigned h

/-- A number that is read from a text is a double. -/
theorem fractionFits_ofText (text : String) : FractionFits (ofText text) := by
  unfold ofText
  split
  · trivial
  · cases h : ofNumeral? (trimBlanks text.toList) with
    | none => trivial
    | some number => exact fractionFits_ofNumeral? h

theorem ratio?_pos {a : Number} {n : ℤ} {d : Nat} (h : a.ratio? = some (n, d)) : 0 < d := by
  cases a with
  | int value => cases h; decide
  | frac numerator scale _ =>
    cases h
    exact Nat.two_pow_pos _
  | infinity _ => cases h
  | nan => cases h

/-- A rounded sum is a double. -/
theorem fractionFits_add (a b : Number) : FractionFits (add a b) := by
  unfold add
  split
  · next ha hb => exact fractionFits_ofRatio _ (Nat.mul_pos (ratio?_pos ha) (ratio?_pos hb))
  · split
    · trivial
    · trivial
    · split <;> trivial
    · trivial
    · trivial
    · trivial

end Retention.Number
