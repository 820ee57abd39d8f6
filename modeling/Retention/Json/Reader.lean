import Retention.Json.Members
import Retention.Number.Text
import Retention.Text.Digit

/-!
# Reading JSON text

A text is cut into tokens, one code point at a time, and the tokens build a value on a
stack of containers that are still open. Both machines take their input from left to
right, so reading ends with the input. Blanks are the space, the tab and the two line
ends; a number, a name or a string is one token. Surrogates, escaped or not, may stand in
strings only.
-/

namespace Retention.Json

/-- A token of JSON text. -/
inductive Token where
  | openArray
  | closeArray
  | openObject
  | closeObject
  | comma
  | colon
  | value (value : Json)

/-- What the cutting of tokens is in the middle of. Text read so far is reversed, and in
a string it is a sequence of code points, surrogates not yet paired. -/
inductive Scan where
  | between
  | word (read : List Char)
  | string (read : List Nat)
  | escape (read : List Nat)
  | unicode (read : List Nat) (digits : Nat) (value : Nat)

/-- The blanks between tokens. -/
def isGap (c : Char) : Bool := c = ' ' || c = '\t' || c = '\n' || c = '\r'

/-- The characters of numbers and names. -/
def isWordChar (c : Char) : Bool := c.isAlphanum || c = '-' || c = '+' || c = '.'

/-- The number a JSON numeral denotes: no leading zero, digits on both sides of a point. -/
def numeral? (text : List Char) : Option Number :=
  let (negative, unsigned) :=
    match text with
    | '-' :: rest => (true, rest)
    | rest => (false, rest)
  let (whole, afterWhole) := Number.digitRun unsigned
  let (fraction, rest) := Number.fractionPart afterWhole
  let bare : Bool := afterWhole.head? = some '.' && fraction.isEmpty
  if whole = [] ∨ (whole.head? = some '0' ∧ 1 < whole.length) ∨ bare then none
  else (Number.exponentPart? rest).map (Number.ofDecimal negative whole fraction)

/-- The value of a word: a name or a numeral. -/
def word? (text : List Char) : Option Json :=
  if text = "null".toList then some null
  else if text = "true".toList then some (bool true)
  else if text = "false".toList then some (bool false)
  else (numeral? text).map number

/-- The token a character is by itself. -/
def mark? (c : Char) : Option Token :=
  if c = '[' then some .openArray
  else if c = ']' then some .closeArray
  else if c.toNat = 0x7B then some .openObject
  else if c.toNat = 0x7D then some .closeObject
  else if c = ',' then some .comma
  else if c = ':' then some .colon
  else none

/-- The code point a one-character escape stands for. -/
def escaped? (c : Char) : Option Nat :=
  if c = '"' ∨ c = '\\' ∨ c = '/' then some c.toNat
  else if c = 'b' then some 0x8
  else if c = 'f' then some 0xC
  else if c = 'n' then some 0xA
  else if c = 'r' then some 0xD
  else if c = 't' then some 0x9
  else none

/-- What a character does between tokens. -/
def scanBetween (c : Char) : Option (Scan × List Token) :=
  if isGap c then some (.between, [])
  else if c = '"' then some (.string [], [])
  else if isWordChar c then some (.word [c], [])
  else (mark? c).map fun token => (.between, [token])

/-- One code point further: the new state and the tokens that are complete. Outside of
strings a surrogate counts as its replacement, which no token has. -/
def Scan.step (scan : Scan) (point : Nat) : Option (Scan × List Token) :=
  let c := Text.character point
  match scan with
  | .between => scanBetween c
  | .word read =>
    if isWordChar c then some (.word (c :: read), [])
    else do
      let value ← word? read.reverse
      let (scan, tokens) ← scanBetween c
      some (scan, .value value :: tokens)
  | .string read =>
    if c = '"' then some (.between, [.value (.string (.ofPoints read.reverse))])
    else if c = '\\' then some (.escape read, [])
    else if point < 0x20 then none
    else some (.string (point :: read), [])
  | .escape read =>
    if c = 'u' then some (.unicode read 0 0, [])
    else (escaped? c).map fun point => (.string (point :: read), [])
  | .unicode read digits value => do
    let digit ← digitValue? c
    let value := 16 * value + digit
    some (if digits = 3 then .string (value :: read) else .unicode read (digits + 1) value, [])

/-- The tokens of some code points, after those already read, which are given in reverse. -/
def tokens? (scan : Scan) (done : List Token) : List Nat → Option (List Token)
  | [] =>
    match scan with
    | .between => some done.reverse
    | .word read => (word? read.reverse).map fun value => (.value value :: done).reverse
    | _ => none
  | point :: rest =>
    match scan.step point with
    | none => none
    | some (scan, read) => tokens? scan (read.reverse ++ done) rest

/-- A container that is still open, with what it holds so far in reverse; an entry is an
object whose last key waits for its value. -/
inductive Frame where
  | array (items : List Json)
  | object (members : List (Text × Json))
  | entry (members : List (Text × Json)) (key : Text)

/-- What may come next. -/
inductive Expect where
  | value
  | itemOrEnd
  | key
  | keyOrEnd
  | colon
  | separator
  | nothing

/-- A value under construction. -/
structure Build where
  frames : List Frame
  expect : Expect
  result : Option Json

/-- The start of a value. -/
def Build.start : Build := ⟨[], .value, none⟩

/-- A complete value goes into the innermost open container, or is the result. -/
def Build.accept (value : Json) : List Frame → Option Build
  | [] => some ⟨[], .nothing, some value⟩
  | .array items :: frames => some ⟨.array (value :: items) :: frames, .separator, none⟩
  | .entry members key :: frames =>
    some ⟨.object ((key, value) :: members) :: frames, .separator, none⟩
  | .object _ :: _ => none

/-- One token further. -/
def Build.step (build : Build) (token : Token) : Option Build :=
  let value (token : Token) : Option Build :=
    match token with
    | .openArray => some ⟨.array [] :: build.frames, .itemOrEnd, none⟩
    | .openObject => some ⟨.object [] :: build.frames, .keyOrEnd, none⟩
    | .value value => Build.accept value build.frames
    | _ => none
  let close (token : Token) : Option Build :=
    match token, build.frames with
    | .closeArray, .array items :: frames => Build.accept (.array items.reverse) frames
    | .closeObject, .object members :: frames => Build.accept (ofMembers members.reverse) frames
    | _, _ => none
  let key (token : Token) : Option Build :=
    match token, build.frames with
    | .value (.string key), .object members :: frames =>
      some ⟨.entry members key :: frames, .colon, none⟩
    | _, _ => none
  match build.expect with
  | .value => value token
  | .itemOrEnd =>
    match token with
    | .closeArray => close token
    | _ => value token
  | .key => key token
  | .keyOrEnd =>
    match token with
    | .closeObject => close token
    | _ => key token
  | .colon =>
    match token with
    | .colon => some ⟨build.frames, .value, none⟩
    | _ => none
  | .separator =>
    match token, build.frames with
    | .comma, .array _ :: _ => some ⟨build.frames, .value, none⟩
    | .comma, .object _ :: _ => some ⟨build.frames, .key, none⟩
    | _, _ => close token
  | .nothing => none

/-- The value of a JSON text, or nothing when the text is malformed. -/
def read? (text : Text) : Option Json := do
  let tokens ← tokens? .between [] text.points
  let build ← tokens.foldlM Build.step Build.start
  build.result

end Retention.Json
