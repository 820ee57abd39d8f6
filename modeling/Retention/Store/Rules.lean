import Retention.Store

/-!
# The store in terms of rules

Rule texts are validated and compiled before the store is asked for anything, so a rule
text with an error changes nothing. A policy that is read is given as the rule text of its
own. A column family that is not there counts as one without a policy when it is read.
-/

namespace Retention

/-- The policy of a rule text; without one, or when it is null, nothing is collected. -/
def Policy.ofText (rules : Option Json) : Except Failure Policy :=
  match rules with
  | none | some .null => .ok .noGc
  | some text =>
    match Rule.read text with
    | .error error => .error (.rule error)
    | .ok rule => .ok rule.compile

/-- The rule text of a policy that has one. -/
def Policy.text (policy : Policy) : Except Failure (Option Json) :=
  policy.write.mapError Failure.unwritable

/-- The canonical form of a policy that has one. -/
def Policy.normal (policy : Policy) : Except Failure Policy :=
  policy.canonical.mapError Failure.ofCanonical

/-- The policy that a column family should have beside the one it has. -/
structure Drift where
  drifted : Bool
  desired : Policy
  live : Policy

namespace Store

/-- The policy of a rule text is set; the result is the policy the family then has. -/
def apply (store : Store) (target : FamilyRef) (rules : Option Json) (options : CallOptions) :
    Step World Policy := do
  let policy ← Step.ofExcept (Policy.ofText rules)
  store.setPolicy target policy options

/-- The policy of a column family, which has none if it is not there. -/
def live (store : Store) (target : FamilyRef) (options : CallOptions) : Step World Policy :=
  ((fun policy => policy.getD .noGc) <$> store.getPolicy target options).recover fun failure =>
    if failure.hasStoreCode .notFound then pure .noGc else Step.fail failure

/-- The rule text of a column family's policy, if it has one. -/
def read (store : Store) (target : FamilyRef) (options : CallOptions) :
    Step World (Option Json) := do
  let policy ← store.live target options
  Step.ofExcept policy.text

/-- A column family is no longer managed: its policy is reset, or left as it is. -/
def release (store : Store) (target : FamilyRef) (mode : DeletionMode) (options : CallOptions) :
    Step World Unit :=
  match mode with
  | .abandon => pure ()
  | .default => do
    let _ ← store.setPolicy target .noGc options
    pure ()

/-- The rule texts of some policies, by column family. -/
def texts : List (Text × Policy) → Except Failure (List (Text × Json))
  | [] => .ok []
  | (family, policy) :: rest => do
    let text ← policy.text
    let others ← texts rest
    pure (text.toList.map (fun rules => (family, rules)) ++ others)

/-- The rule texts of the column families of a table that have a policy. -/
def listRules (store : Store) (table : Text) (options : CallOptions) :
    Step World (List (Text × Json)) := do
  let policies ← store.listPolicies table options
  Step.ofExcept (texts policies)

/-- Whether two policies differ in their canonical forms. -/
def differs (desired live : Policy) : Except Failure Bool := do
  let desired ← desired.normal
  let live ← live.normal
  pure (!desired.same live)

/-- The policy of a rule text compared with the policy a column family has. -/
def drift (store : Store) (target : FamilyRef) (rules : Option Json) (options : CallOptions) :
    Step World Drift := do
  let desired ← Step.ofExcept (Policy.ofText rules)
  let live ← store.live target options
  let drifted ← Step.ofExcept (differs desired live)
  pure ⟨drifted, desired, live⟩

end Store

end Retention
