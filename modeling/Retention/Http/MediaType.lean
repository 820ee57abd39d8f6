import Retention.Http.Target

/-!
# Media types

A content type is a media type, possibly followed by parameters: each after a semicolon, a
token, an equals sign and a value, which is a token or stands between quotation marks. One
that does not follow this form says nothing about the content.
-/

namespace Retention.Http

/-- The characters of tokens. -/
def isTokenChar (c : Char) : Bool := c.isAlphanum || "!#$%&'*+-.^_`|~".toList.contains c

/-- A text without the spaces at its front. -/
def dropSpaces (text : List Char) : List Char := text.dropWhile (· = ' ')

/-- A token at the front of a text, and the rest. -/
def token? (text : List Char) : Option (List Char × List Char) :=
  let token := text.takeWhile isTokenChar
  if token = [] then none else some (token, text.dropWhile isTokenChar)

/-- Whether a character may stand for itself between quotation marks. -/
def isQuotedChar (c : Char) : Bool :=
  c ≠ '"' && c ≠ '\\' && (0x20 ≤ c.toNat ∧ c.toNat ≤ 0x7E ∨ 0x80 ≤ c.toNat ∧ c.toNat ≤ 0xFF)

/-- The text up to a closing quotation mark with its escapes resolved, and the rest. -/
def quoted? : List Char → Option (List Char × List Char)
  | [] => none
  | '"' :: rest => some ([], rest)
  | '\\' :: c :: rest =>
    if 0x20 ≤ c.toNat ∧ c.toNat ≤ 0x7E then
      (quoted? rest).map fun (text, after) => (c :: text, after)
    else none
  | c :: rest =>
    if isQuotedChar c then (quoted? rest).map fun (text, after) => (c :: text, after)
    else none

/-- A parameter value at the front of a text, and the rest. -/
def parameterValue? : List Char → Option (List Char × List Char)
  | '"' :: rest => quoted? rest
  | text => token? text

/-- The parameters of a media type: as many as a bound allows, which is the length of the
text. -/
def mediaParameters? : Nat → List Char → Option (List (List Char × List Char))
  | _, [] => some []
  | 0, _ => none
  | bound + 1, ';' :: rest => do
    let (key, afterKey) ← token? (dropSpaces rest)
    match dropSpaces afterKey with
    | '=' :: rest => do
      let (value, afterValue) ← parameterValue? (dropSpaces rest)
      let others ← mediaParameters? bound (dropSpaces afterValue)
      some ((key.map Char.toLower, value) :: others)
    | _ => none
  | _, _ => none

/-- A media type in lower case, and its parameters. -/
structure MediaType where
  name : List Char
  parameters : List (List Char × List Char)

namespace MediaType

/-- The media type of a content type; blanks around it do not matter. -/
def read? (text : String) : Option MediaType :=
  let trimmed := text.toList.dropWhile isSurrounding
  let trimmed := (trimmed.reverse.dropWhile isSurrounding).reverse
  let name := trimmed.takeWhile (· ≠ ';')
  let name := (dropSpaces (dropSpaces name).reverse).reverse
  let rest := trimmed.dropWhile (· ≠ ';')
  (mediaParameters? rest.length rest).map fun parameters => ⟨name.map Char.toLower, parameters⟩
where
  /-- The blanks that may surround a header. -/
  isSurrounding (c : Char) : Bool := c = ' ' || c = '\t'

/-- Whether a media type is that of JSON text. -/
def isJson (type : MediaType) : Bool := type.name = "application/json".toList

/-- The character set of a media type in lower case; the last one given counts. -/
def charset (type : MediaType) : List Char :=
  let given := (type.parameters.reverse.lookup "charset".toList).getD []
  if given = [] then "utf-8".toList else given.map Char.toLower

end MediaType

end Retention.Http
