import Retention.Number

/-!
# Rounding to the nearest double

Arithmetic on numbers is exact arithmetic on ratios followed by one rounding: the
result is the double nearest to the exact value, of two equally near ones the one
whose significand is even, and an infinity from `2 ^ 1024` on. Whole numbers up to
`2 ^ 53` in magnitude need no rounding.
-/

namespace Retention.Number

/-- The whole number nearest to `n / d`; a half goes to the even neighbour. -/
def roundDiv (n d : Nat) : Nat :=
  if 2 * (n % d) < d then n / d
  else if d < 2 * (n % d) then n / d + 1
  else if n / d % 2 = 0 then n / d
  else n / d + 1

/-- The number `m / 2 ^ k`, its powers of two cancelled. -/
def ofScaled (m : Int) : Nat → Number
  | 0 => .int m
  | k + 1 => if odd : m % 2 = 1 then .frac m k odd else ofScaled (m / 2) k

/-- The greatest `e` with `2 ^ e ≤ n / d`, for positive `n` and `d`. -/
def floorLog2 (n d : Nat) : Int :=
  let e : Int := (n.log2 : Int) - (d.log2 : Int)
  if d * Nat.pow 2 e.toNat ≤ n * Nat.pow 2 (-e).toNat then e else e - 1

/-- The exponent of the last significand bit of a double of the size of `n / d`. -/
def lastPlace (n d : Nat) : Int := max (floorLog2 n d - 52) (-1074)

/-- A magnitude with a sign. -/
def signed (negative : Bool) (magnitude : Nat) : Int :=
  if negative then -(magnitude : Int) else magnitude

/-- The double nearest to `n / d` or, on request, to its negative. -/
def nearest (negative : Bool) (n d : Nat) : Number :=
  if n = 0 then .int 0
  else
    match lastPlace n d with
    | .ofNat k =>
      let magnitude := roundDiv n (d * Nat.pow 2 k) * Nat.pow 2 k
      if magnitude < Nat.pow 2 1024 then .int (signed negative magnitude) else .infinity negative
    | .negSucc k => ofScaled (signed negative (roundDiv (n * Nat.pow 2 (k + 1)) d)) (k + 1)

/-- The double nearest to the ratio `n / d`. -/
def ofRatio (n : Int) (d : Nat) : Number :=
  if n % d = 0 ∧ (n / d).natAbs ≤ Nat.pow 2 53 then .int (n / d)
  else nearest (n < 0) n.natAbs d

/-- The double nearest to a whole number. -/
def ofInt (n : Int) : Number := ofRatio n 1

/-- The rounded sum. -/
def add (a b : Number) : Number :=
  match a.ratio?, b.ratio? with
  | some (m, c), some (n, d) => ofRatio (m * d + n * c) (c * d)
  | _, _ =>
    match a, b with
    | .nan, _ | _, .nan => .nan
    | .infinity p, .infinity q => if p = q then .infinity p else .nan
    | .infinity p, _ | _, .infinity p => .infinity p
    | _, _ => .nan

/-- The rounded product with a whole number. -/
def mulNat (a : Number) (factor : Nat) : Number :=
  match a.ratio? with
  | some (m, c) => ofRatio (m * factor) c
  | none => a

/-- The rounded quotient by a positive whole number. -/
def divNat (a : Number) (d : Nat) : Number :=
  match a.ratio? with
  | some (m, c) => ofRatio m (c * d)
  | none => a

/-- Whole numbers up to `2 ^ 53` are doubles. -/
theorem ofInt_of_natAbs_le {n : Int} (h : n.natAbs ≤ Nat.pow 2 53) : ofInt n = .int n := by
  have h' : (n / ((1 : Nat) : Int)).natAbs ≤ Nat.pow 2 53 := by simpa using h
  unfold ofInt ofRatio
  rw [if_pos ⟨by simp, h'⟩]
  simp

/-- Sums of whole numbers are exact up to `2 ^ 53`. -/
theorem add_int {m n : Int} (h : (m + n).natAbs ≤ Nat.pow 2 53) :
    add (.int m) (.int n) = .int (m + n) := by
  have hadd : add (.int m) (.int n) = ofInt (m + n) := by simp [add, ratio?, ofInt]
  rw [hadd, ofInt_of_natAbs_le h]

end Retention.Number
