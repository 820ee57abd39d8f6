import Retention.Json.Printer
import Retention.Policy
import Retention.Shape

/-!
# The admin API's rule messages

The admin API holds the rule of a column family as a message whose members may be left
out, null or set, several at once. As a policy the message means its union if one is set,
else its intersection, else its age, else a positive number of versions, else nothing. An
age has seconds, which may come as a number, as text or as an object that prints its
digits, and nanoseconds; rules know whole seconds only, so a fraction rounds up. Some values
are no numbers because they cannot be printed at all.
-/

namespace Retention

namespace Age

/-- The nanoseconds in a second. -/
def nanosPerSecond : Nat := 1000000000

/-- What an object prints: a whole number of sixty-four bits prints the digits in its member
`$long`. -/
def printedObject (members : List (Text × Json)) : Option Text :=
  match members.lookup (.whole "$long") with
  | some digits => digits.shown?
  | none => Json.opaqueObject members

/-- The text that a value prints, if it prints one. -/
def printed? (value : Json) : Option Text := value.shownWith printedObject

/-- The number that a value prints. -/
def printedNumber (value : Json) : Except ShapeFault Number :=
  match printed? value with
  | some text => .ok (Number.ofText text.shown)
  | none => .error .hidden

/-- The number that a value counts as. -/
def amount : Json → Except ShapeFault Number
  | .null => .ok 0
  | .bool value => .ok (if value then 1 else 0)
  | .number value => .ok value
  | value => printedNumber value

/-- The seconds of an age, read from their text. -/
def seconds (age : Json) : Except ShapeFault Number :=
  match age.member? "seconds" with
  | none | some .null => .ok 0
  | some (.object members) =>
    match printedObject members with
    | some text => .ok (Number.ofText text.shown)
    | none => .error .hiddenSeconds
  | some value => printedNumber value

/-- The nanoseconds of an age. -/
def nanos (age : Json) : Except ShapeFault Number :=
  match age.member? "nanos" with
  | none => .ok 0
  | some value => amount value

/-- The whole seconds of an age: its nanoseconds are rounded up to whole seconds when there
are any. -/
def wholeSeconds (age : Json) : Except ShapeFault Number := do
  let seconds ← seconds age
  let nanos ← nanos age
  pure (if nanos.isPositive then seconds.add (nanos.divNat nanosPerSecond).ceil else seconds)

end Age

namespace Policy

mutual

/-- The message that sets a policy. -/
def toMessage : Policy → Json
  | noGc => .object []
  | maxAge seconds =>
    .object [("maxAge", .object [("seconds", .number seconds), ("nanos", .number 0)])]
  | maxVersions count => .object [("maxNumVersions", .number count)]
  | combined mode children =>
    .object [(mode.word, .object [("rules", .array (toMessages children))])]
termination_by structural policy => policy

/-- The messages that set some policies. -/
def toMessages : List Policy → List Json
  | [] => []
  | policy :: rest => toMessage policy :: toMessages rest
termination_by structural policies => policies

end

/-- The policy of a message without a union or an intersection. -/
def ofLeaf (members : List (Text × Json)) : Except ShapeFault Policy :=
  match (members.lookup (.whole "maxAge")).filter Json.isTruthy with
  | some age => (Age.wholeSeconds age).map maxAge
  | none =>
    match members.lookup (.whole "maxNumVersions") with
    | some (.number count) => .ok (if count.isPositive then maxVersions count else noGc)
    | _ => .ok noGc

mutual

/-- The policy that a message means. A value that is no message but not null either means
that nothing is collected. -/
def ofMessage : Json → Except ShapeFault Policy
  | .null => .error .nullMessage
  | .object members =>
    match (branch? .union members).or (branch? .intersection members) with
    | some policy => policy
    | none => ofLeaf members
  | _ => .ok noGc
termination_by structural message => message

/-- The combination that some members of a message set, if they set one of the mode. -/
def branch? (mode : Mode) : List (Text × Json) → Option (Except ShapeFault Policy)
  | [] => none
  | (key, value) :: rest =>
    if key = .whole mode.word then combined? mode value else branch? mode rest
termination_by structural members => members

/-- The combination that the value of such a member sets. -/
def combined? (mode : Mode) : Json → Option (Except ShapeFault Policy)
  | .object members => some ((ofRules mode members).map (combined mode))
  | value => if value.isTruthy then some (.ok (combined mode [])) else none
termination_by structural value => value

/-- The policies of the rules among some members. -/
def ofRules (mode : Mode) : List (Text × Json) → Except ShapeFault (List Policy)
  | [] => .ok []
  | (key, value) :: rest => if key = .whole "rules" then ofList mode value else ofRules mode rest
termination_by structural members => members

/-- The policies of a list of messages; null is a list without any. -/
def ofList (mode : Mode) : Json → Except ShapeFault (List Policy)
  | .null => .ok []
  | .array items => ofMessages items
  | _ => .error (.rulesNotList mode)
termination_by structural value => value

/-- The policies that some messages mean. -/
def ofMessages : List Json → Except ShapeFault (List Policy)
  | [] => .ok []
  | message :: rest =>
    match ofMessage message with
    | .error fault => .error fault
    | .ok policy => (ofMessages rest).map (policy :: ·)
termination_by structural messages => messages

end

end Policy

end Retention
