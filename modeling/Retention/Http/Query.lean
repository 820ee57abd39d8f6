import Retention.Http.Target
import Retention.Text.Percent

/-!
# Queries

A query is a list of parameters between ampersands, of which the first thousand count. A
parameter has a key and a value, with an equals sign between them. Keys may have brackets:
`a[b]` names a place inside `a`, and `[a]` is another key for `a` itself. A name has a plain
value when one key gives it once and without a place inside, and the other keys for it give
nothing but the empty value.
-/

namespace Retention.Http

/-- The number of parameters that count. -/
def parameterLimit : Nat := 1000

/-- A query with its encoded brackets written out. -/
def showBrackets : List Char → List Char
  | '%' :: '5' :: 'B' :: rest | '%' :: '5' :: 'b' :: rest => '[' :: showBrackets rest
  | '%' :: '5' :: 'D' :: rest | '%' :: '5' :: 'd' :: rest => ']' :: showBrackets rest
  | c :: rest => c :: showBrackets rest
  | [] => []

/-- A key or a value with its plus signs as spaces and its escapes decoded; with a
malformed escape the escapes stand for themselves. -/
def decodeComponent (text : List Char) : List Char :=
  let spaced := text.map fun c => if c = '+' then ' ' else c
  (Percent.decode? spaced).getD spaced

/-- The key and the value of a parameter whose key ends in a bracket, if there is one. -/
def splitAtBracket : List Char → Option (List Char × List Char)
  | ']' :: '=' :: rest => some ([']'], rest)
  | c :: rest => (splitAtBracket rest).map fun (key, value) => (c :: key, value)
  | [] => none

/-- A parameter of a query. -/
structure Parameter where
  key : List Char
  value : List Char

/-- A parameter: its key ends at the first closing bracket before an equals sign, or else
at the first equals sign. -/
def Parameter.ofText (text : List Char) : Parameter :=
  match splitAtBracket text with
  | some (key, value) => ⟨decodeComponent key, decodeComponent value⟩
  | none =>
    let (key, value) := splitAtMark '=' text
    ⟨decodeComponent key, decodeComponent (value.getD [])⟩

/-- The parameters of a query. -/
def parameters (query : List Char) : List Parameter :=
  ((segments '&' (showBrackets query)).take parameterLimit).map Parameter.ofText

/-- The text in a bracket that is already open, with as many more open in it, and what
follows the bracket that closes it. -/
def closeBracket? : Nat → List Char → Option (List Char × List Char)
  | _, [] => none
  | 0, ']' :: rest => some ([], rest)
  | depth, c :: rest =>
    let depth := if c = '[' then depth + 1 else if c = ']' then depth - 1 else depth
    (closeBracket? depth rest).map fun (inside, after) => (c :: inside, after)

/-- The name that a key begins with, and whether the key goes on to a place inside it. A
key that begins with a bracket has its name in the bracket, if that is ever closed. -/
def nameOfKey (key : List Char) : List Char × Bool :=
  match key with
  | '[' :: rest =>
    match closeBracket? 0 rest with
    | some (name, after) => (name, after.contains '[')
    | none => (key, false)
  | _ => (key.takeWhile (· ≠ '['), key.contains '[')

/-- What is given to a name: nothing, a plain value, or anything else. -/
inductive Given where
  | nothing
  | plain (value : List Char)
  | other
deriving DecidableEq

/-- What is given so far together with what the next key gives. Once something is given, the
empty value adds nothing to it. -/
def Given.merge : Given → Given → Given
  | nothing, next => next
  | given, nothing | given, plain [] => given
  | _, _ => other

/-- What a key gives to a name, with all the values that come with the key. -/
def givenByKey (name key : List Char) (values : List (List Char)) : Given :=
  let (own, isInside) := nameOfKey key
  if own ≠ name then .nothing
  else
    match values, isInside with
    | [value], false => .plain value
    | _, _ => .other

/-- What some parameters give to a name, key after key in the order in which they first come. -/
def given (name : List Char) (parameters : List Parameter) : Given :=
  (parameters.map Parameter.key).eraseDups.foldl (fun given key =>
    let values := (parameters.filter fun parameter => parameter.key = key).map Parameter.value
    given.merge (givenByKey name key values)) .nothing

/-- The plain value that a query gives to a name. -/
def plainValue? (name : List Char) (query : List Char) : Option (List Char) :=
  match given name (parameters query) with
  | .plain value => some value
  | _ => none

end Retention.Http
