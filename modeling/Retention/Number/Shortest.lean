import Retention.Number.Rounding

/-!
# The shortest decimal that reads back

A double owns the interval of reals that round to it; the interval includes its ends
when the significand is even. Among the decimals inside it the ones with the fewest
digits are wanted, and of those the nearest to the double. For each number of digits
only the two grid points next to the double can be the nearest one inside, so the
search tries these two, first for one digit, then for two, and so on up to seventeen.
-/

namespace Retention.Number

/-- A positive double as a significand times a power of two. -/
structure Binary where
  significand : Nat
  exponent : Int

/-- The double of value `n / 2 ^ scale`, for positive `n`. -/
def Binary.ofScaled (n scale : Nat) : Binary :=
  let exponent := max ((n.log2 : Int) - scale - 52) (-1074)
  let shift := -(scale : Int) - exponent
  ⟨n * Nat.pow 2 shift.toNat / Nat.pow 2 (-shift).toNat, exponent⟩

/-- A positive decimal `digits * 10 ^ exponent`. -/
structure Decimal where
  digits : Nat
  exponent : Int
deriving DecidableEq, Inhabited

/-- The number of decimal digits before the point of `n / d`; at most zero below one tenth. -/
def pointPlace (n d : Nat) : Int :=
  if d ≤ n then ((Nat.toDigits 10 (n / d)).length : Int)
  else 1 - ((Nat.toDigits 10 ((d - 1) / n)).length : Int)

/-- The nearest point, on the grid of multiples of `10 ^ place`, inside the interval of
reals that round to `x`, if there is one. Everything is measured in quarters of the last
place of `x`, so that the ends of the interval are whole. -/
def onGrid (x : Binary) (place : Int) : Option Decimal :=
  let power := x.exponent - 2
  let quarter := Nat.pow 2 power.toNat * Nat.pow 10 (-place).toNat
  let step := Nat.pow 2 (-power).toNat * Nat.pow 10 place.toNat
  let value := 4 * x.significand * quarter
  let below := if x.significand = Nat.pow 2 52 ∧ -1074 < x.exponent then 1 else 2
  let low := (4 * x.significand - below) * quarter
  let high := (4 * x.significand + 2) * quarter
  let inside (candidate : Nat) : Bool :=
    if x.significand % 2 = 0 then low ≤ candidate * step ∧ candidate * step ≤ high
    else low < candidate * step ∧ candidate * step < high
  let floor := value / step
  let rest := value % step
  let upFirst : Bool := step < 2 * rest ∨ (step = 2 * rest ∧ floor % 2 = 1)
  let near := if upFirst then floor + 1 else floor
  let far := if upFirst then floor else floor + 1
  if 0 < near ∧ inside near then some ⟨near, place⟩
  else if 0 < far ∧ inside far then some ⟨far, place⟩
  else none

/-- The shortest decimal that reads back as `n / 2 ^ scale`. -/
def shortest (n scale : Nat) : Decimal :=
  let x := Binary.ofScaled n scale
  let point := pointPlace n (Nat.pow 2 scale)
  let grids := (List.range 17).map fun (k : Nat) => point - ((k : Int) + 1)
  (grids.findSome? (onGrid x)).getD ⟨n, 0⟩

end Retention.Number
