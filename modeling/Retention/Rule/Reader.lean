import Retention.Duration
import Retention.Rule
import Retention.Rule.Error

/-!
# Reading a rule

A JSON object with the key `rules` is a composite rule: it has no key but `mode` and
`rules`, and its rules are an array of exactly one rule without a mode and of two or more
with one. Every other object is a single rule with exactly one of the keys `max_age` and
`max_version`. The checks of a node come before those of the nodes below it, and the
nodes below are checked in order; the first failing check is the error.
-/

namespace Retention.Rule

/-- The largest number of versions a rule may keep. -/
def maxVersionCount : Int := 2147483647

/-- What a node of a rule text is once its own checks have passed: a single rule, or a
composite rule whose rules are still to be read. -/
inductive Node where
  | single (rule : Rule)
  | composite (mode : Option Mode)

/-- The first key that is not allowed is a fault. -/
def checkKeys (allowed : List Text) (members : List (Text × Json)) :
    Except RuleFault Unit :=
  match members.find? fun member => !allowed.contains member.1 with
  | some member => .error (.unknownKey member.1)
  | none => .ok ()

/-- The mode a JSON value names. -/
def readMode (value : Json) : Except RuleFault Mode :=
  match value with
  | .string (.whole word) => (Mode.ofWord? word).elim (.error (.mode value)) .ok
  | _ => .error (.mode value)

/-- The number of rules must suit the mode. -/
def checkCount (mode : Option Mode) (count : Nat) : Except RuleFault Unit :=
  match mode with
  | none => if count = 1 then .ok () else .error (.ruleCount false count)
  | some _ => if 2 ≤ count then .ok () else .error (.ruleCount true count)

/-- The checks of a composite node. -/
def readComposite (members : List (Text × Json)) (rules : Json) : Except RuleFault Node := do
  checkKeys ["mode", "rules"] members
  match rules with
  | .array items => do
    let mode ←
      match members.lookup (.whole "mode") with
      | none => pure none
      | some value => some <$> readMode value
    checkCount mode items.length
    pure (.composite mode)
  | _ => throw .notArray

/-- The age a JSON value writes. -/
def readAge (value : Json) : Except RuleFault Number :=
  match value with
  | .string (.whole text) => (Duration.read? text).elim (.error (.duration value)) .ok
  | _ => .error (.duration value)

/-- The number of versions a JSON value gives. -/
def readCount (value : Json) : Except RuleFault Number :=
  match value with
  | .number count =>
    if count.isWholeIn 1 maxVersionCount then .ok count else .error (.versionCount value)
  | _ => .error (.versionCount value)

/-- The checks of a single rule. -/
def readSingle (members : List (Text × Json)) : Except RuleFault Node := do
  checkKeys ["max_age", "max_version"] members
  match members.lookup (.whole "max_age"), members.lookup (.whole "max_version") with
  | some _, some _ => throw .conflictingFields
  | some value, none => (fun seconds => .single (.maxAge seconds)) <$> readAge value
  | none, some value => (fun count => .single (.maxVersions count)) <$> readCount value
  | none, none => throw .missingField

/-- The checks of one node. -/
def readNode (members : List (Text × Json)) : Except RuleFault Node :=
  match members.lookup (.whole "rules") with
  | some rules => readComposite members rules
  | none => readSingle members

mutual

/-- The rule a JSON value writes, or its first error. The rules inside a composite rule are not
at the top level; they are held to the same grammar there. -/
def read : Json → (isTopLevel : Bool := true) → Except RuleError Rule
  | .object members, _ =>
    match readNode members with
    | .error fault => .error ⟨[], fault⟩
    | .ok (.single rule) => .ok rule
    | .ok (.composite mode) => (readRules members).map (Rule.composite mode)
  | _, _ => .error ⟨[], .notObject⟩
termination_by structural value => value

/-- The rules in the member `rules`. -/
def readRules : List (Text × Json) → Except RuleError (List Rule)
  | [] => .ok []
  | (key, value) :: rest => if key = .whole "rules" then readItems value else readRules rest
termination_by structural members => members

/-- The rules in an array. -/
def readItems : Json → Except RuleError (List Rule)
  | .array items => readAll 0 items
  | _ => .ok []
termination_by structural value => value

/-- The rules at a position and after it. -/
def readAll (position : Nat) : List Json → Except RuleError (List Rule)
  | [] => .ok []
  | item :: rest =>
    match read item false with
    | .error error => .error (error.under position)
    | .ok rule => (readAll (position + 1) rest).map (rule :: ·)
termination_by structural items => items

end

end Retention.Rule
