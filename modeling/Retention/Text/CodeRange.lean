import Retention.Text.Digit
import Retention.Text.Segment

/-!
# Ranges of code points

A property of characters is a table of ranges. A table is written in hexadecimal: `a-b` for
the code points from `a` to `b`, `a/b` for every second one of them, `a` for `a` alone.
-/

namespace Retention

/-- The code points from `first` to `last` in steps. -/
structure CodeRange where
  first : Nat
  last : Nat
  step : Nat

namespace CodeRange

/-- Whether a code point is in a range. -/
def contains (range : CodeRange) (point : Nat) : Bool :=
  range.first ≤ point && point ≤ range.last && (point - range.first) % range.step = 0

/-- The number that hexadecimal digits write. -/
def number? (digits : List Char) : Option Nat :=
  digits.foldlM (fun n c => (digitValue? c).map (16 * n + ·)) 0

/-- The numbers in a line, between blanks. -/
def numbers (line : String) : List Nat := (segments ' ' line.toList).filterMap number?

/-- The range that a word of a table writes. -/
def ofWord? (word : List Char) : Option CodeRange :=
  match segments '-' word, segments '/' word with
  | [first, last], _ => do some ⟨← number? first, ← number? last, 1⟩
  | _, [first, last] => do some ⟨← number? first, ← number? last, 2⟩
  | _, _ => (number? word).map fun point => ⟨point, point, 1⟩

/-- The ranges of a table, given by its lines. -/
def table (lines : List String) : List CodeRange :=
  lines.flatMap fun line => (segments ' ' line.toList).filterMap ofWord?

/-- Whether a table holds a code point. -/
def holds (table : List CodeRange) (point : Nat) : Bool := table.any (·.contains point)

/-- A range without steps holds just what lies between its ends. -/
theorem contains_iff {first last point : Nat} :
    (CodeRange.mk first last 1).contains point = true ↔ first ≤ point ∧ point ≤ last := by
  simp [contains, Nat.mod_one]

end CodeRange

end Retention
