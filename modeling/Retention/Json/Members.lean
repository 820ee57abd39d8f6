import Retention.Entries
import Retention.Json

/-!
# The members of an object as it is read

An object is read member by member. A key that comes again keeps its first place and
takes its last value. Keys that are array indexes come first, in ascending order; the
other keys follow in the order of their first places.
-/

namespace Retention.Json

/-- The array index a key spells: a number up to `2 ^ 32 - 2` without a leading zero. -/
def arrayIndex? (key : Text) : Option Nat :=
  let digits := key.shown.toList
  if digits = [] ∨ !digits.all Char.isDigit ∨ 10 < digits.length then none
  else
    let index := Nat.ofDigitChars 10 digits 0
    if index ≤ 4294967294 ∧ Nat.toDigits 10 index = digits then some index else none

/-- Whether one key's array index is at most another's. -/
def indexLe (a b : Text × Json) : Bool :=
  (arrayIndex? a.1).getD 0 ≤ (arrayIndex? b.1).getD 0

/-- The members with the array indexes in front. -/
def arrange (members : List (Text × Json)) : List (Text × Json) :=
  let isIndex (member : Text × Json) : Bool := (arrayIndex? member.1).isSome
  (members.filter isIndex).mergeSort indexLe ++ members.filter (fun member => !isIndex member)

/-- The object that reading some members in turn makes. -/
def ofMembers (members : List (Text × Json)) : Json :=
  object (arrange (members.foldl (fun read member => Entries.put member.1 member.2 read) []))

end Retention.Json
