import Retention.Json.Printer

/-!
# Errors in a rule text

A rule text is a tree of JSON objects, and an error names the node that is wrong and what
is wrong with it. A node is addressed by the positions of the rules on the way to it; when
the fault lies in one member of the node, the path of the error goes on to that member.
-/

namespace Retention

/-- What can be wrong with a node of a rule text. -/
inductive RuleFault where
  | notObject
  | notArray
  | unknownKey (key : Text)
  | conflictingFields
  | missingField
  | ruleCount (hasMode : Bool) (count : Nat)
  | mode (value : Json)
  | duration (value : Json)
  | versionCount (value : Json)

/-- A fault at a node of a rule text. -/
structure RuleError where
  node : List Nat
  fault : RuleFault

namespace RuleFault

/-- The member of the node that a fault lies in, if it lies in one. -/
def member? : RuleFault → Option String
  | notArray | ruleCount _ _ => some "rules"
  | mode _ => some "mode"
  | duration _ => some "max_age"
  | versionCount _ => some "max_version"
  | notObject | unknownKey _ | conflictingFields | missingField => none

/-- The code a fault is reported under. -/
def code : RuleFault → String
  | notObject | notArray => "INVALID_NODE"
  | unknownKey _ => "UNKNOWN_KEY"
  | conflictingFields => "CONFLICTING_LEAF_FIELDS"
  | missingField => "MISSING_LEAF_FIELD"
  | ruleCount _ _ => "INVALID_RULE_COUNT"
  | mode _ => "INVALID_MODE"
  | duration _ => "INVALID_DURATION"
  | versionCount _ => "INVALID_VERSION_COUNT"

/-- What a node should have been, for the faults that say so. -/
def expected? : RuleFault → Option String
  | notObject => some "object"
  | notArray => some "array"
  | ruleCount hasMode _ => some (if hasMode then "at least 2" else "exactly 1")
  | _ => none

/-- The value that a fault is about. -/
def value? : RuleFault → Option Json
  | mode value | duration value | versionCount value => some value
  | _ => none

/-- A fault in words, without its place. -/
def text : RuleFault → Text
  | notObject => "expected a JSON object"
  | notArray => "expected a JSON array"
  | unknownKey key => "unknown key `" ++ key ++ "`"
  | conflictingFields => "a rule can only have one of `max_age` or `max_version`"
  | missingField => "need `max_age` or `max_version` for the rule"
  | ruleCount false count =>
    "when `mode` is not specified, `rules` must have exactly 1 rule (got " ++ count.repr ++ ")"
  | ruleCount true count =>
    "`rules` need at least 2 rules when `mode` is specified (got " ++ count.repr ++ ")"
  | mode value =>
    "`mode` must be either `union` or `intersection` (got " ++ value.render ++ ")"
  | duration value =>
    "invalid duration " ++ value.render ++ ", expected <integer><s|m|h> such as \"168h\""
  | versionCount value =>
    "`max_version` must be an integer of at least 1 (got " ++ value.render ++ ")"

end RuleFault

namespace RuleError

/-- The same error seen from the node above, whose rule at a position holds it. -/
def under (position : Nat) (error : RuleError) : RuleError :=
  { error with node := position :: error.node }

/-- The steps of the path to an error. -/
def steps (error : RuleError) : List String :=
  error.node.map (fun position => "rules[" ++ position.repr ++ "]") ++ error.fault.member?.toList

/-- The path to an error; it is empty for the root. -/
def path (error : RuleError) : String := ".".intercalate error.steps

/-- An error in words, after its path. -/
def message (error : RuleError) : Text :=
  if error.steps = [] then error.fault.text else error.path ++ ": " ++ error.fault.text

end RuleError

end Retention
