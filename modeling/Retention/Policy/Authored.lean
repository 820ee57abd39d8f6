import Retention.Policy.Compile
import Retention.Rule.Reader

/-!
# Policies as rule text

Every policy that a rule compiles to can be written as rule text again, and reading that
text gives the policy back. A combination of one child is written as a wrapper. A
combination without children and an absence of collection below the root have no text.
The canonical form of a policy is the policy of its own text.
-/

namespace Retention

/-- Why a policy has no rule text. -/
inductive Unwritable where
  | noChildren (mode : Mode)
  | nestedNoGc

/-- The reason in words. -/
def Unwritable.message : Unwritable → String
  | .noChildren mode => mode.word ++ " policy has no child rules"
  | .nestedNoGc => "no_gc cannot be nested inside a union or intersection"

namespace Policy

mutual

/-- The rule text of a policy that collects something. -/
def writeRule : Policy → Except Unwritable Json
  | noGc => .error .nestedNoGc
  | maxAge seconds => .ok (.object [("max_age", .string (Duration.write seconds))])
  | maxVersions count => .ok (.object [("max_version", .number count)])
  | combined mode children =>
    if children.isEmpty then .error (.noChildren mode)
    else
      (writeRules children).map fun rules =>
        match rules with
        | [rule] => .object [("rules", .array [rule])]
        | rules => .object [("mode", .string mode.word), ("rules", .array rules)]
termination_by structural policy => policy

/-- The rule texts of some policies. -/
def writeRules : List Policy → Except Unwritable (List Json)
  | [] => .ok []
  | policy :: rest =>
    match writeRule policy with
    | .error reason => .error reason
    | .ok rule => (writeRules rest).map (rule :: ·)
termination_by structural policies => policies

end

/-- The rule text of a policy; there is none when nothing is collected. -/
def write (policy : Policy) : Except Unwritable (Option Json) :=
  match policy with
  | noGc => .ok none
  | policy => some <$> writeRule policy

/-- Why a policy has no canonical form. -/
inductive CanonicalError where
  | unwritable (reason : Unwritable)
  | rule (error : RuleError)

/-- The policy that the text of a policy compiles to. -/
def canonical (policy : Policy) : Except CanonicalError Policy :=
  match policy.write with
  | .error reason => .error (.unwritable reason)
  | .ok none => .ok .noGc
  | .ok (some text) =>
    match Rule.read text with
    | .error error => .error (.rule error)
    | .ok rule => .ok rule.compile

end Policy

end Retention
