import Retention.Text.Composition
import Retention.Text.Direction
import Retention.Text.Joining
import Retention.Text.Punycode
import Retention.Text.Standing

/-!
# Names of hosts

A host is named by labels between points, in ASCII and without regard to the case of letters.
A label that begins with `xn--` is encoded: it has to be the encoding of a text that is not
ASCII alone and that stands for itself.
-/

namespace Retention.Http.Host

/-- What follows `xn--` in an encoded label. -/
def encoding? : List Char → Option (List Char)
  | 'x' :: 'n' :: '-' :: '-' :: rest => some rest
  | _ => none

/-- Whether the text of an encoded label stands for itself: it is not ASCII alone, each of its
characters stands for itself, it is composed and does not begin with a mark, and its joiners
or else its directions fit. -/
def isEncodable (text : List Nat) : Bool :=
  text.any (0x80 ≤ ·) && text.all isStanding && Composition.isComposed text &&
    !text.head?.any Mark.isMark && (Joining.isEffective? text).getD (Direction.agree text)

/-- Whether a label can be part of a name. -/
def isLabel (label : List Char) : Bool :=
  match encoding? label with
  | none => true
  | some encoded => (encoding? encoded).isNone && (Punycode.decode? encoded).any isEncodable

/-- Whether a name can be the name of a host. -/
def isName (name : List Char) : Bool :=
  !name.contains '[' && !name.contains ']' &&
    (segments '.' (name.map Char.toLower)).all isLabel

/-- A label that is not encoded is left as it is. -/
theorem isLabel_of_encoding?_eq_none {label : List Char} (h : encoding? label = none) :
    isLabel label = true := by
  simp [isLabel, h]

end Retention.Http.Host
