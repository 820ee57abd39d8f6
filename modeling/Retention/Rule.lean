import Retention.Number

/-!
# Garbage-collection rules

A rule says which cells of a column family may be collected: those older than an age,
those beyond a number of versions, or a combination of further rules. A composite rule
without a mode merely wraps one rule.
-/

namespace Retention

/-- How a composite rule combines its rules. -/
inductive Mode where
  | union
  | intersection
deriving DecidableEq

/-- The word for a mode. -/
def Mode.word : Mode → String
  | .union => "union"
  | .intersection => "intersection"

/-- A word with its ASCII letters in lower case. No other character has one of these
letters of a mode as its lower case. -/
def lowerCase (word : String) : List Char := word.toList.map Char.toLower

/-- The mode a word names, in any letter case. -/
def Mode.ofWord? (word : String) : Option Mode :=
  [Mode.union, Mode.intersection].find? fun mode => lowerCase word = mode.word.toList

/-- A garbage-collection rule. -/
inductive Rule where
  | maxAge (seconds : Number)
  | maxVersions (count : Number)
  | composite (mode : Option Mode) (rules : List Rule)

instance : Inhabited Rule := ⟨.composite none []⟩

end Retention
