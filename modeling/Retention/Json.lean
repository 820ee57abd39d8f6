import Retention.Number
import Retention.Text

/-!
# JSON values

A JSON value is a tree. An object keeps its members as a list of keys and values, in the
order in which they are met when the object is read member by member; that order decides
which of several unknown keys is named first and how a value is written back.
-/

namespace Retention

/-- A JSON value. -/
inductive Json where
  | null
  | bool (value : Bool)
  | number (value : Number)
  | string (text : Text)
  | array (items : List Json)
  | object (members : List (Text × Json))

namespace Json

instance : Inhabited Json := ⟨.null⟩

/-- The members of an object; other values have none. -/
def members : Json → List (Text × Json)
  | object members => members
  | _ => []

/-- The object with some members whose keys are whole. -/
def record (members : List (String × Json)) : Json :=
  object (members.map fun (key, value) => (.whole key, value))

/-- The keys of an object in order. -/
def keys (value : Json) : List Text := value.members.map Prod.fst

/-- The value of the member with a given key. -/
def member? (value : Json) (key : Text) : Option Json := value.members.lookup key

/-- Whether an object has a member with a given key. -/
def has (value : Json) (key : Text) : Bool := (value.member? key).isSome

/-- Whether a value is an object. -/
def isObject : Json → Bool
  | object _ => true
  | _ => false

/-- Whether a value is null. -/
def isNull : Json → Bool
  | null => true
  | _ => false

/-- Whether a value counts as set: null, false, zero, NaN and the empty text do not. -/
def isTruthy : Json → Bool
  | null => false
  | bool value => value
  | number value => !(value.same 0) && value ≠ .nan
  | string text => text ≠ .whole ""
  | array _ | object _ => true

end Json

end Retention
