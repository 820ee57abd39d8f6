import Retention.Json
import Retention.Number.Text

/-!
# JSON as text

Writing a value without spaces, and showing a value in a sentence. In written strings
only the quotation mark, the backslash, the controls below U+0020 and the surrogates that
stand alone are escaped. Numbers that are not finite are written as null. In a sentence a
string stands for itself, an array shows its items between commas, and an object is opaque,
if it can be shown at all.
-/

namespace Retention.Json

/-- A hexadecimal digit. -/
private def hexChar (n : Nat) : Char := Nat.digitChar n

/-- The characters that write one character of a string. -/
def escape (c : Char) : List Char :=
  if c = '"' then ['\\', '"']
  else if c = '\\' then ['\\', '\\']
  else if c.toNat = 0x8 then ['\\', 'b']
  else if c.toNat = 0x9 then ['\\', 't']
  else if c.toNat = 0xA then ['\\', 'n']
  else if c.toNat = 0xC then ['\\', 'f']
  else if c.toNat = 0xD then ['\\', 'r']
  else if c.toNat < 0x20 then ['\\', 'u', '0', '0', hexChar (c.toNat / 16), hexChar (c.toNat % 16)]
  else [c]

/-- The characters that write one code point of a string. -/
def escapePoint (point : Nat) : List Char :=
  if point.isValidChar then escape (Text.character point)
  else ['\\', 'u'] ++ [0x1000, 0x100, 0x10, 1].map fun place => hexChar (point / place % 16)

/-- A string between quotation marks. -/
def quote (text : Text) : String :=
  String.ofList ('"' :: text.points.flatMap escapePoint ++ ['"'])

/-- A number; one that is not finite is written as null. -/
def renderNumber (number : Number) : String :=
  match number with
  | .nan | .infinity _ => "null"
  | _ => number.text

mutual

/-- The text of a value, without spaces. -/
def render : Json → String
  | null => "null"
  | bool value => if value then "true" else "false"
  | number value => renderNumber value
  | string text => quote text
  | array items => "[" ++ ",".intercalate (renderItems items) ++ "]"
  | object members => "\x7b" ++ ",".intercalate (renderMembers members) ++ "\x7d"
termination_by structural value => value

/-- The texts of some items. -/
def renderItems : List Json → List String
  | [] => []
  | item :: rest => render item :: renderItems rest
termination_by structural items => items

/-- The texts of some members. -/
def renderMembers : List (Text × Json) → List String
  | [] => []
  | (key, value) :: rest => (quote key ++ ":" ++ render value) :: renderMembers rest
termination_by structural members => members

end

mutual

/-- A value as its own text gives it back: numbers that are not finite are null. -/
def written : Json → Json
  | number .nan | number (.infinity _) => null
  | array items => array (writtenItems items)
  | object members => object (writtenMembers members)
  | value => value
termination_by structural value => value

/-- Some items as their own texts give them back. -/
def writtenItems : List Json → List Json
  | [] => []
  | item :: rest => written item :: writtenItems rest
termination_by structural items => items

/-- Some members as their own texts give them back. -/
def writtenMembers : List (Text × Json) → List (Text × Json)
  | [] => []
  | (key, value) :: rest => (key, written value) :: writtenMembers rest
termination_by structural members => members

end

/-- What an object shows of itself in a sentence: it is opaque. A member of its own by the
name of `toString` takes the way to show it away. -/
def opaqueObject (members : List (Text × Json)) : Option Text :=
  match members.lookup (.whole "toString") with
  | some _ => none
  | none => some "[object Object]"

mutual

/-- A value shown in a sentence, where objects show themselves in a given way; nothing if one
of them cannot be shown. -/
def shownWith (object? : List (Text × Json) → Option Text) : Json → Option Text
  | null => some "null"
  | bool value => some (if value then "true" else "false" : String)
  | number value => some value.text
  | string text => some text
  | array items => (itemsShownWith object? items).map (Text.join ",")
  | object members => object? members
termination_by structural value => value

/-- The items of an array shown in a sentence; null shows nothing. -/
def itemsShownWith (object? : List (Text × Json) → Option Text) : List Json → Option (List Text)
  | [] => some []
  | null :: rest => (itemsShownWith object? rest).map (Text.whole "" :: ·)
  | item :: rest => do
    let first ← shownWith object? item
    let others ← itemsShownWith object? rest
    some (first :: others)
termination_by structural items => items

end

/-- A value shown in a sentence, if it can be. -/
def shown? (value : Json) : Option Text := value.shownWith opaqueObject

end Retention.Json
