import Retention.Text.Units

/-!
# The order of a listing

Column families are listed by name. Letters are first compared without regard to case:
the underscore, the hyphen and the point come before the digits, and these before the
letters. Names that differ in case alone are ordered at their first difference, lower
case first.
-/

namespace Retention.Listing

/-- The place of a character among names, case aside. Characters that occur in no family
id follow in the order of their code points. -/
def weight (c : Char) : Nat :=
  if c = '_' then 0
  else if c = '-' then 1
  else if c = '.' then 2
  else if c.isDigit then 3 + (c.toNat - '0'.toNat)
  else if c.isAlpha then 13 + (c.toLower.toNat - 'a'.toNat)
  else 39 + c.toNat

/-- Upper case follows lower case. -/
def caseWeight (c : Char) : Nat := if c.isUpper then 1 else 0

/-- Whether one name may stand before another in a listing. -/
def nameLe (a b : String) : Bool :=
  let weights (name : String) : List Nat := name.toList.map weight
  let cases (name : String) : List Nat := name.toList.map caseWeight
  if weights a = weights b then unitsLe (cases a) (cases b)
  else unitsLe (weights a) (weights b)

end Retention.Listing
