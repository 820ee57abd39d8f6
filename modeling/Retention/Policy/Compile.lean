import Retention.Policy

/-!
# From rules to policies

A rule compiles to the policy of the same shape, except that a composite rule without a
mode stands for the first rule it wraps. Without a rule nothing is collected.
-/

namespace Retention

mutual

/-- The policy of a rule. -/
def Rule.compile : Rule → Policy
  | .maxAge seconds => .maxAge seconds
  | .maxVersions count => .maxVersions count
  | .composite none rules => Rule.compileFirst rules
  | .composite (some mode) rules => .combined mode (Rule.compileAll rules)
termination_by structural rule => rule

/-- The policy of the first rule; without one nothing is collected. -/
def Rule.compileFirst : List Rule → Policy
  | [] => .noGc
  | rule :: _ => rule.compile
termination_by structural rules => rules

/-- The policies of some rules. -/
def Rule.compileAll : List Rule → List Policy
  | [] => []
  | rule :: rest => rule.compile :: Rule.compileAll rest
termination_by structural rules => rules

end

/-- The policy of a rule that may be absent. -/
def Policy.ofRule? (rule : Option Rule) : Policy := rule.elim .noGc Rule.compile

theorem Rule.compileAll_eq_map (rules : List Rule) :
    Rule.compileAll rules = rules.map Rule.compile := by
  induction rules with
  | nil => rfl
  | cons rule rest ih => simp [Rule.compileAll, ih]

end Retention
