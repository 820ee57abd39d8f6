/-!
# Numbers

Rules, policies and admin messages carry double-precision numbers. A finite one is
either a whole number or an odd numerator over a power of two, so two finite numbers
are equal exactly when they are the same term. The two zeros are one number here:
nothing the service writes or decides tells them apart.
-/

namespace Retention

/-- A double-precision number. `frac n k _` is the value `n / 2 ^ (k + 1)`. -/
inductive Number where
  | int (value : Int)
  | frac (numerator : Int) (scale : Nat) (odd : numerator % 2 = 1)
  | infinity (negative : Bool)
  | nan
deriving DecidableEq

namespace Number

instance : Inhabited Number := ⟨.int 0⟩

instance (n : Nat) : OfNat Number n := ⟨.int n⟩

/-- The largest whole number below which every whole number has its own double. -/
def maxSafe : Int := 9007199254740991

/-- The ratio a finite number stands for, with a positive denominator. -/
def ratio? : Number → Option (Int × Nat)
  | int value => some (value, 1)
  | frac numerator scale _ => some (numerator, Nat.pow 2 (scale + 1))
  | infinity _ | nan => none

/-- Numbers compare equal when they are the same number and not NaN. -/
def same : Number → Number → Bool
  | nan, _ => false
  | a, b => a = b

/-- Whether a number exceeds zero. -/
def isPositive : Number → Bool
  | int value => 0 < value
  | frac numerator _ _ => 0 < numerator
  | infinity negative => !negative
  | nan => false

/-- Whether a number is whole and lies between the two bounds, both included. -/
def isWholeIn (low high : Int) : Number → Bool
  | int value => low ≤ value ∧ value ≤ high
  | _ => false

/-- The least whole number that is not below a given one. -/
def ceil : Number → Number
  | frac numerator scale _ => int (numerator / (Nat.pow 2 (scale + 1) : Nat) + 1)
  | number => number

theorem same_self {a : Number} (h : a ≠ nan) : same a a = true := by
  cases a <;> simp_all [same]

theorem eq_of_same {a b : Number} (h : same a b = true) : a = b := by
  cases a <;> simp_all [same]

/-- Two numbers compare equal exactly when they are one number other than NaN. -/
theorem same_iff {a b : Number} : same a b = true ↔ a = b ∧ a ≠ nan := by
  constructor
  · intro h
    refine ⟨eq_of_same h, ?_⟩
    rintro rfl
    simp [same] at h
  · rintro ⟨rfl, h⟩
    exact same_self h

end Number

end Retention
