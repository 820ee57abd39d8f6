import Retention.Http.Host
import Retention.Http.Target
import Retention.Text.Blank
import Retention.Text.Percent

/-!
# Addresses

A request target is nearly always a path and a query. It may also be a whole address: a
scheme, the authority that is asked, and only then the path. A target that is not plain is
read as an address: blanks around it are dropped, backslashes before the query are slashes,
and, unless only a path is left, characters that do not belong into an address are escaped.
An address without a usable authority or path leads nowhere.
-/

namespace Retention.Http

/-- A target that starts with a slash and needs no further reading. -/
def isPlain (text : List Char) : Bool :=
  text.head? = some '/' &&
    !text.any fun c => ['\t', '\n', '\x0c', '\r', ' ', '#', '\u00a0', '\ufeff'].contains c

namespace Address

/-- Whether a character at either end of an address is dropped. -/
def isEdge (c : Char) : Bool := c.toNat ≤ 0x20 || c = '\u00a0' || c = '\ufeff'

/-- An address without what is dropped at its ends. -/
def trim (text : List Char) : List Char :=
  ((text.dropWhile isEdge).reverse.dropWhile isEdge).reverse

/-- An address with slashes for the backslashes before its query and fragment. -/
def straighten (text : List Char) : List Char :=
  let isBefore (c : Char) : Bool := c ≠ '?' && c ≠ '#'
  ((text.takeWhile isBefore).map fun c => if c = '\\' then '/' else c) ++ text.dropWhile isBefore

/-- Whether a text is a path, possibly with a query, that is taken as it is. -/
def isPath (text : List Char) : Bool :=
  text.head? = some '/' && text.take 3 ≠ ['/', '/', '/'] && !text.contains '#' &&
    !(text.takeWhile (· ≠ '?')).contains '@' && !text.any isBlank

/-- The escapes of the characters that do not belong into an address. -/
def escapes : List (Char × String) :=
  [('\t', "%09"), ('\n', "%0A"), ('\r', "%0D"), (' ', "%20"), ('"', "%22"), ('\x27', "%27"),
    ('<', "%3C"), ('>', "%3E"), ('\\', "%5C"), ('^', "%5E"), ('\x60', "%60"), ('\x7b', "%7B"),
    ('|', "%7C"), ('\x7d', "%7D")]

/-- A text with those characters escaped. -/
def escape (text : List Char) : List Char :=
  text.flatMap fun c => ((escapes.lookup c).map String.toList).getD [c]

/-- The characters of schemes. -/
def isSchemeChar (c : Char) : Bool := c.isAlphanum || c = '.' || c = '+' || c = '-'

/-- The scheme that a text begins with, and what follows its colon. -/
def scheme? (text : List Char) : Option (List Char × List Char) :=
  match text.takeWhile isSchemeChar, text.dropWhile isSchemeChar with
  | first :: others, ':' :: rest => some (first :: others, rest)
  | _, _ => none

/-- The schemes whose authority stands after two slashes. -/
def slashed : List String := ["http", "https", "ftp", "gopher", "file", "ws", "wss"]

/-- The schemes whose addresses are read as they are and have no authority. -/
def verbatim : List String := ["javascript"]

/-- Whether a scheme is one of some schemes. -/
def isOneOf (schemes : List String) (scheme : List Char) : Bool :=
  schemes.contains (String.ofList scheme)

/-- What an address holds after its scheme and its authority. -/
structure Remainder where
  text : List Char
  /-- Whether a path may be left out. -/
  mayMissPath : Bool
  /-- Whether the characters that do not belong into an address are escaped. -/
  isEscaped : Bool

/-- The target in a remainder, unless a path is missing. -/
def Remainder.target? (remainder : Remainder) : Option Target :=
  let target := Target.ofParts <|
    if remainder.isEscaped then escape remainder.text else remainder.text
  if target.path ≠ [] then some target
  else if remainder.mayMissPath then some ⟨['/'], target.query⟩
  else none

/-- Whether a text begins with two slashes, a user, an at sign and something of a host. -/
def namesUser (text : List Char) : Bool :=
  let isName (c : Char) : Bool := c ≠ '@' && c ≠ '/'
  match text with
  | '/' :: '/' :: rest =>
    match rest.takeWhile isName, rest.dropWhile isName with
    | _ :: _, '@' :: c :: _ => isName c
    | _, _ => false
  | _ => false

/-- Whether a character cannot be part of a host. -/
def isForeign (c : Char) : Bool := " \"%';<>\\^`|\x7b\x7d".toList.contains c

/-- A host without the number that may follow its last colon. -/
def dropNumber (host : List Char) : List Char :=
  match host.reverse.dropWhile Char.isDigit with
  | ':' :: name => name.reverse
  | _ => host

/-- The longest name of a host; what is longer names none. -/
def longestName : Nat := 255

/-- What follows a host, and whether a host is named at all. A host in brackets is followed
by a slash in any case; in another one a further colon ends the name of the host. -/
def afterHost? (host rest : List Char) : Option (Bool × List Char) :=
  if host.head? = some '[' ∧ host.getLast? = some ']' then
    some (true, if rest.head? = some '/' then rest else '/' :: rest)
  else
    let name := host.takeWhile (· ≠ ':')
    let extra := host.dropWhile (· ≠ ':')
    let rest := if extra = [] then rest else '/' :: extra ++ rest
    if name = [] ∨ longestName < name.length then some (false, rest)
    else if Host.isName name then some (true, rest)
    else none

/-- What follows the authority at the front of a text, and whether it names a host. A user
stands before the last at sign and has to be decodable. -/
def afterAuthority? (text : List Char) : Option (Bool × List Char) :=
  let isInside (c : Char) : Bool := c ≠ '/' && c ≠ '?' && c ≠ '#'
  let authority := text.takeWhile isInside
  let place := (authority.reverse.takeWhile (· ≠ '@')).reverse
  let user := authority.take (authority.length - place.length - 1)
  let host := place.takeWhile fun c => !isForeign c
  let rest := place.dropWhile (fun c => !isForeign c) ++ text.dropWhile isInside
  (Percent.decode? user).bind fun _ => afterHost? (dropNumber host) rest

/-- What an address holds after its scheme and its authority, if these are usable. A path may
be left out after a host whose scheme is written with two slashes. -/
def remainder? (text : List Char) : Option Remainder :=
  match scheme? text with
  | none =>
    if namesUser text then
      (afterAuthority? (text.drop 2)).map fun (hasHost, rest) => ⟨rest, hasHost, true⟩
    else some ⟨text, false, true⟩
  | some (scheme, rest) =>
    let small := scheme.map Char.toLower
    if isOneOf verbatim small then some ⟨rest, false, false⟩
    else
      let named (authority : List Char) : Option Remainder :=
        (afterAuthority? authority).map fun (hasHost, rest) =>
          ⟨rest, hasHost && isOneOf slashed small, true⟩
      match rest with
      | '/' :: '/' :: authority => named authority
      | _ => if isOneOf slashed scheme then some ⟨rest, false, true⟩ else named rest

end Address

/-- The target of a text, unless it leads nowhere. -/
def Target.ofText? (text : String) : Option Target :=
  if text = "" then some ⟨['/'], []⟩
  else if isPlain text.toList then some (ofParts text.toList)
  else
    let address := Address.straighten (Address.trim text.toList)
    if Address.isPath address then some (ofParts address)
    else (Address.remainder? address).bind Address.Remainder.target?

end Retention.Http
