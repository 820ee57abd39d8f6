import Retention.Http.MediaType
import Retention.Http.RequestLine
import Retention.Json.Reader
import Retention.Text.Encoding

/-!
# Requests

A request has a method, a target and perhaps content. A request line has to carry the first
two. Content is read as JSON when its
type says so, and then it has to be an array or an object, in a known encoding of Unicode and of
limited length. Content of another type is ignored.
-/

namespace Retention.Http

/-- The methods that are told apart: those that something may be answered to, all others, and
words that are no methods. -/
inductive Method where
  | get
  | head
  | put
  | post
  | delete
  | options
  | other
  | unknown
deriving DecidableEq

namespace Method

/-- The words for methods that nothing is answered to. -/
def others : List String :=
  ["ACL", "BIND", "CHECKOUT", "COPY", "LINK", "LOCK", "M-SEARCH", "MERGE", "MKACTIVITY",
    "MKCALENDAR", "MKCOL", "MOVE", "NOTIFY", "PATCH", "PROPFIND", "PROPPATCH", "PURGE", "QUERY",
    "REBIND", "REPORT", "SEARCH", "SOURCE", "SUBSCRIBE", "TRACE", "UNBIND", "UNLINK", "UNLOCK",
    "UNSUBSCRIBE"]

/-- The method that a word names, in any letter case. -/
def ofWord (word : String) : Method :=
  match word.map Char.toUpper with
  | "GET" => get
  | "HEAD" => head
  | "PUT" => put
  | "POST" => post
  | "DELETE" => delete
  | "OPTIONS" => options
  | word => if others.contains word then other else unknown

end Method

/-- The content of a request: its text and the type it is said to have. -/
structure Content where
  text : String
  type : String

/-- A request. -/
structure Request where
  method : Method
  target : String
  content : Option Content

/-- Why content cannot be read. -/
inductive ContentFault where
  | malformed
  | tooLarge
  | charset
deriving DecidableEq

/-- The status that a content fault is answered with. -/
def ContentFault.status : ContentFault → Nat
  | malformed => 400
  | tooLarge => 413
  | charset => 415

namespace Content

/-- The most bytes that content may have. -/
def byteLimit : Nat := 102400

/-- The object without members, which stands for content that is not there. -/
def empty : Json := .object []

/-- The value of a JSON text that is an array or an object. -/
def readContainer (text : Text) : Except ContentFault Json :=
  match (text.shown.toList.dropWhile Json.isGap).head? with
  | none => .error .malformed
  | some first =>
    if first = '[' ∨ first.toNat = 0x7B then
      match Json.read? text with
      | some value => .ok value
      | none => .error .malformed
    else .error .malformed

/-- The value of content whose type is JSON. A character set that does not even claim to be
an encoding of Unicode is refused before the length is looked at. -/
def readJson (type : MediaType) (text : String) : Except ContentFault Json :=
  if type.charset.take 4 ≠ "utf-".toList then .error .charset
  else if byteLimit < text.utf8ByteSize then .error .tooLarge
  else
    match Encoding.ofName? type.charset with
    | none => .error .charset
    | some encoding =>
      match encoding.decode text with
      | .whole "" => .ok empty
      | text => readContainer text

/-- The value of content. -/
def read (content : Content) : Except ContentFault Json :=
  match MediaType.read? content.type with
  | none => .ok empty
  | some type => if type.isJson then readJson type content.text else .ok empty

end Content

/-- Whether a request has a method and a target that a request line can carry. -/
def Request.isCarried (request : Request) : Bool :=
  request.method ≠ .unknown && RequestLine.isTarget request.target.toList

/-- The value of a request's content. A request without content has the object without
members, and so has every request to a service that reads no content. -/
def Request.value (request : Request) (readsJson : Bool) : Except ContentFault Json :=
  match request.content with
  | some content => if readsJson then content.read else .ok Content.empty
  | none => .ok Content.empty

end Retention.Http
