import Retention.Proofs.Number.Numeral

/-!
# Rounding up

A double is a whole number over a power of two, so the least whole number not below it is the
ceiling of that ratio. A quotient below one is rounded to a double before it is rounded up, and this
does not change the outcome: the double is neither above one nor zero, as long as the divisor is a
whole number with a double of its own.

## Main results

* `ceil_ofScaled`: the ceiling of a number is that of its ratio.
* `ceil_divNat_int`: a positive quotient below one rounds up to one.
-/

namespace Retention.Number

/-- Over a power of two an odd number is not whole. -/
theorem ceil_odd_div {m : ℤ} (hodd : m % 2 = 1) (k : Nat) :
    ⌈(m : ℚ) / 2 ^ (k + 1)⌉ = m / 2 ^ (k + 1) + 1 := by
  have hpow : (0 : ℤ) < 2 ^ (k + 1) := by positivity
  have hsplit := Int.mul_ediv_add_emod m (2 ^ (k + 1))
  have hlt := Int.emod_lt_of_pos m hpow
  have hrest : 0 < m % 2 ^ (k + 1) := by
    refine lt_of_le_of_ne (Int.emod_nonneg m hpow.ne') fun hzero => ?_
    have hdvd : (2 : ℤ) ∣ m :=
      (dvd_pow_self 2 (Nat.succ_ne_zero k)).trans (Int.dvd_of_emod_eq_zero hzero.symm)
    omega
  rw [Int.ceil_eq_iff, lt_div_iff₀ (by positivity), div_le_iff₀ (by positivity)]
  constructor
  · have hlow : m / 2 ^ (k + 1) * 2 ^ (k + 1) < m := by linarith
    push_cast
    rw [add_sub_cancel_right]
    exact_mod_cast hlow
  · have hhigh : m ≤ (m / 2 ^ (k + 1) + 1) * 2 ^ (k + 1) := by linarith
    exact_mod_cast hhigh

/-- The least whole number not below a number is the ceiling of its ratio. -/
theorem ceil_ofScaled (m : ℤ) (k : Nat) : (ofScaled m k).ceil = .int ⌈(m : ℚ) / 2 ^ k⌉ := by
  induction k generalizing m with
  | zero => simp [ofScaled, ceil]
  | succ k ih =>
    rw [ofScaled]
    split
    · next hodd => simp [ceil, ceil_odd_div hodd]
    · next heven =>
      have htwo : m = m / 2 * 2 := by omega
      have hhalf : ((m / 2 : ℤ) : ℚ) / 2 ^ k = m / 2 ^ (k + 1) := by
        rw [div_eq_div_iff (by positivity) (by positivity)]
        have hcast : (m : ℚ) = (m / 2 : ℤ) * 2 := by exact_mod_cast htwo
        rw [hcast]
        ring
      rw [ih, hhalf]

/-- The last place of a ratio below one comes after fifty-three binary places. -/
theorem lastPlace_le {n d : Nat} (hn : 0 < n) (hlt : n < d) : lastPlace n d ≤ -53 := by
  have hpos : (0 : ℚ) < d := by exact_mod_cast hn.trans hlt
  have hpower : (2 : ℚ) ^ floorLog2 n d * d < 2 ^ (0 : ℤ) * d := by
    rw [zpow_zero, one_mul]
    exact lt_of_le_of_lt (two_zpow_floorLog2_le hn) (by exact_mod_cast hlt)
  have hlog : floorLog2 n d < 0 :=
    (zpow_lt_zpow_iff_right₀ (by norm_num)).mp ((mul_lt_mul_iff_left₀ hpos).mp hpower)
  rw [lastPlace]
  omega

/-- A positive ratio below one is rounded to a double above zero that is at most one. -/
theorem ceil_nearest {n d : Nat} (hn : 0 < n) (hlt : n < d) (hd : d ≤ 2 ^ 53) :
    (nearest false n d).ceil = .int 1 := by
  have hplace := lastPlace_le hn hlt
  obtain ⟨k, hk⟩ := Int.eq_negSucc_of_lt_zero (show lastPlace n d < 0 by omega)
  have hscale : 53 ≤ k + 1 := by
    rw [hk, Int.negSucc_eq] at hplace
    omega
  -- The significand counts units of which one has `2 ^ (k + 1)`; it counts at least one of them.
  have hlow : 1 ≤ roundDiv (n * 2 ^ (k + 1)) d := by
    refine Nat.le_trans ?_ (div_le_roundDiv _ _)
    rw [Nat.le_div_iff_mul_le (by omega), Nat.one_mul]
    calc d ≤ 2 ^ 53 := hd
      _ ≤ 2 ^ (k + 1) := Nat.pow_le_pow_right (by decide) hscale
      _ ≤ n * 2 ^ (k + 1) := Nat.le_mul_of_pos_left _ hn
  have hhigh : roundDiv (n * 2 ^ (k + 1)) d ≤ 2 ^ (k + 1) := by
    refine roundDiv_le (by omega) ?_
    rw [Nat.mul_comm]
    exact Nat.mul_le_mul_left _ hlt.le
  have hpow : (0 : ℚ) < 2 ^ (k + 1) := by positivity
  have hone : ⌈((roundDiv (n * 2 ^ (k + 1)) d : ℤ) : ℚ) / 2 ^ (k + 1)⌉ = 1 := by
    rw [Int.ceil_eq_iff, lt_div_iff₀ hpow, div_le_iff₀ hpow, Int.cast_one, sub_self, zero_mul,
      one_mul]
    exact ⟨by exact_mod_cast hlow, by exact_mod_cast hhigh⟩
  rw [nearest, if_neg hn.ne', hk]
  exact (ceil_ofScaled _ _).trans (congrArg int hone)

/-- A positive quotient below one rounds up to one. -/
theorem ceil_divNat_int {n : ℤ} {d : Nat} (hn : 0 < n) (hlt : n < d) (hd : d ≤ 2 ^ 53) :
    (divNat (.int n) d).ceil = .int 1 := by
  have hmod : n % d = n := Int.emod_eq_of_lt hn.le hlt
  have hneg : decide (n < 0) = false := decide_eq_false (not_lt.mpr hn.le)
  simp only [divNat, ratio?, Nat.one_mul]
  rw [ofRatio, if_neg (by omega), hneg]
  exact ceil_nearest (by omega) (by omega) hd

end Retention.Number
