/-!
# Punycode

A label of a host's name that is not ASCII is written in ASCII: its ASCII characters, a
hyphen, and where the others go in. Each of the others is a number, written in base 36 with
the lowest digit first, that says how far it lies behind the one before: every step goes to
the next place of the text, and from its end to the first place and the next code point. The
digits that can end a number change with the numbers read so far.
-/

namespace Retention.Punycode

/-- The value of a digit: letters first, then numerals. -/
def digit? (c : Char) : Option Nat :=
  if 'a' ≤ c ∧ c ≤ 'z' then some (c.toNat - 'a'.toNat)
  else if '0' ≤ c ∧ c ≤ '9' then some (c.toNat - '0'.toNat + 26)
  else none

/-- The number that no value on the way may exceed. -/
def largest : Nat := 0x7FFFFFFF

/-- A digit below the threshold of its position ends a number. -/
def threshold (position bias : Nat) : Nat := max 1 (min 26 (position - bias))

/-- How many positions a distance is divided over, and what is left of it. -/
def divided (distance positions : Nat) : Nat × Nat :=
  if 455 < distance then divided (distance / 35) (positions + 36) else (distance, positions)
termination_by distance
decreasing_by exact Nat.div_lt_self (by omega) (by omega)

/-- The bias after a distance that was read for a text of some size. -/
def adapted (distance size : Nat) (isFirst : Bool) : Nat :=
  let start := if isFirst then distance / 700 else distance / 2
  let (rest, positions) := divided (start + start / size) 0
  positions + 36 * rest / (rest + 38)

/-- A text with some of its code points in place. -/
structure Progress where
  text : List Nat
  /-- The place behind the last insertion. -/
  place : Nat
  /-- The last code point that was inserted. -/
  point : Nat
  bias : Nat

/-- The text with one more code point, at a place that is counted on through the text. -/
def Progress.insert? (progress : Progress) (place : Nat) : Option Progress :=
  let size := progress.text.length + 1
  let point := progress.point + place / size
  if largest < point then none
  else
    some {
      text := progress.text.insertIdx (place % size) point
      place := place % size + 1
      point := point
      bias := adapted (place - progress.place) size (progress.place = 0) }

/-- The text that some digits complete. The number being read has come to a place, the next
digit has a weight and a position in its number; a number must not be cut off. -/
def complete? (progress : Progress) (place weight position : Nat) :
    List Char → Option (List Nat)
  | [] => if position = 36 then some progress.text else none
  | c :: rest => do
    let digit ← digit? c
    let place := place + digit * weight
    let limit := threshold position progress.bias
    if largest < place then none
    else if digit < limit then
      let progress ← progress.insert? place
      complete? progress progress.place 1 36 rest
    else if largest < weight * (36 - limit) then none
    else complete? progress place (weight * (36 - limit)) (position + 36) rest

/-- The code points that an encoded label stands for. Its last hyphen ends what is taken as
it is. -/
def decode? (label : List Char) : Option (List Nat) :=
  let digits := (label.reverse.takeWhile (· ≠ '-')).reverse
  let taken := label.take (label.length - digits.length - 1)
  complete? ⟨taken.map Char.toNat, 0, 0x80, 72⟩ 0 1 36 digits

/-- A digit below 1 always ends a number, and one above 25 never does. -/
theorem threshold_mem (position bias : Nat) :
    1 ≤ threshold position bias ∧ threshold position bias ≤ 26 := by
  unfold threshold
  omega

end Retention.Punycode
