import Retention.Proofs.Policy.Canonical
import Retention.Proofs.Store.Live

/-!
# Setting, reading and comparing agree

Where no fault waits, a policy that was set is the one that is read and the one that other rules are
compared with, whatever tree it is. It crosses the wire as a message and is read back from it, and
what is compared are canonical forms, so neither may lose anything: two rule texts are told apart
exactly when their policies are two.

What setting a policy ends with is what the admin API shows in its answer. That is the policy that
was set, unless another answer was prepared; the family is given its policy in either case.

## Main definitions

* `Store.Holds`: what is read of a family and compared with it where it holds a policy.

## Main results

* `Store.holds_of_given`: a family that was given the policy of a rule text holds it.
* `Store.apply_agrees`: setting the policy of a rule text.
* `Store.not_agrees_of_prepared`: an answer that was prepared may show another policy.
-/

namespace Retention.Store

open World

variable {store : Store} {target : FamilyRef} {timeout : Option Json} {policy : Policy}
  {world before after : World}

/-- A family holds a policy. What is read is the policy's text, and there is none exactly when the
policy collects nothing. A comparison with a rule text ends with this policy as the live one, and
finds that it has drifted exactly when the policy of the text is another. -/
structure Holds (store : Store) (world : World) (target : FamilyRef) (policy : Policy) : Prop where
  read : ∀ timeout, ∃ text seen,
    store.read target ⟨none, timeout⟩ world = (.ok text, seen) ∧ policy.write = .ok text ∧
      (text = none ↔ policy = .noGc)
  drift : ∀ timeout rules desired, Policy.ofText rules = .ok desired → ∃ drifted compared,
    store.drift target rules ⟨none, timeout⟩ world = (.ok ⟨drifted, desired, policy⟩, compared) ∧
      (drifted = false ↔ policy = desired)

/-- Where no fault waits, a family holds the policy that it is seen to have, if that is the policy of
a rule text. -/
theorem holds_of_liveOf (store : Store) (hfaults : world.faults = [])
    (hcheck : target.check = .ok ()) (hauthored : policy.Authored)
    (hlive : liveOf (world.family? target) = .ok policy) : store.Holds world target policy := by
  have hseen (timeout : Option Json) :
      ∃ seen, store.live target ⟨none, timeout⟩ world = (.ok policy, seen) :=
    (live_of_faults_nil store target timeout hfaults).mpr ⟨hcheck, hlive⟩
  constructor
  · intro timeout
    obtain ⟨text, hwrite, hnone⟩ := hauthored.exists_write
    obtain ⟨seen, hseen⟩ := hseen timeout
    have htext : policy.text = .ok text := mapError_eq_ok_iff.mpr hwrite
    refine ⟨text, seen, (Step.bind_of_ok hseen _).trans ?_, hwrite, hnone⟩
    rw [htext]
    rfl
  · intro timeout rules desired hdesired
    obtain ⟨drifted, hdiffers, hsame⟩ := (Policy.authored_of_ofText hdesired).differs_eq hauthored
    obtain ⟨seen, hseen⟩ := hseen timeout
    exact ⟨drifted, seen, drift_eq_ok_iff.mpr ⟨hdesired, hseen, hdiffers⟩, hsame⟩

/-- A family that was given the policy of a rule text holds it wherever the tables stay the same. -/
theorem holds_of_given (store : Store) (hfaults : after.faults = [])
    (hcheck : target.check = .ok ()) (hauthored : policy.Authored)
    (hgiven : before.Given after target policy.toMessage) : store.Holds after target policy := by
  refine holds_of_liveOf store hfaults hcheck hauthored ?_
  rw [hgiven.family?_self]
  exact liveOf_given hauthored.sendable

/-- **Setting, reading and comparing agree.** Where no fault waits, a rule text that is accepted is
applied to any family that its table has under names that follow their patterns. The result is the
policy of the text, or what a prepared answer shows. The other families are as they were, and the
family holds the policy of the text in every world with the tables that were left, as long as no
fault waits there. -/
theorem apply_agrees {rules : Option Json} {held : Json} (store : Store) (timeout : Option Json)
    (hfaults : world.faults = []) (hcheck : target.check = .ok ())
    (hentry : world.ownFamily? target = some held) (hrules : Policy.ofText rules = .ok policy) :
    ∃ result after, store.apply target rules ⟨none, timeout⟩ world = (result, after) ∧
      result = world.reply.elim (.ok policy) (policyShown target.family policy) ∧
      (∀ other, other ≠ target → after.family? other = world.family? other ∧
        after.ownFamily? other = world.ownFamily? other) ∧
      after.faults = [] ∧
      ∀ later : World, later.faults = [] → later.tables = after.tables →
        store.Holds later target policy := by
  have hauthored := Policy.authored_of_ofText hrules
  obtain ⟨after, hset, hafter, hgiven⟩ := exists_setPolicy_of_faults_nil store timeout hfaults hcheck
    hentry hauthored.sendable
  refine ⟨_, after, ?_, rfl, fun other hne => ?_, hafter, fun later hlater htables => ?_⟩
  · rw [← hset, apply, hrules]
    rfl
  · exact ⟨hgiven.family?_of_ne hne, hgiven.ownFamily?_of_ne hne⟩
  · exact holds_of_given store hlater hcheck hauthored (hgiven.congr rfl htables)

/-! ### Small worlds -/

/-- A family of some table. -/
def someFamily : FamilyRef := ⟨"projects/pp/instances/ii/tables/t", "f"⟩

/-- A world whose only table has that family without a policy, and an answer that was prepared, if
any. -/
def worldShowing (reply : Option Json) : World :=
  { World.empty false "now" "correlation" with
    tables := [(someFamily.table, .object [(someFamily.family, .object [])])], reply := reply }

/-- Rules for an age and a number of versions under a mode. -/
def bothRules (mode : String) : Json :=
  .object [("mode", .string mode), ("rules", .array [.object [("max_age", .string "5s")],
    .object [("max_version", .number 2)]])]

/-- A union is set and read, and it differs from the intersection of the same rules. -/
theorem apply_agrees_union : ∃ after text seen compared,
    Store.apply ⟨none⟩ someFamily (some (bothRules "union")) ⟨none, none⟩ (worldShowing none) =
        (.ok (.combined .union [.maxAge 5, .maxVersions 2]), after) ∧
      Store.read ⟨none⟩ someFamily ⟨none, none⟩ after = (.ok (some text), seen) ∧
      Store.drift ⟨none⟩ someFamily (some (bothRules "intersection")) ⟨none, none⟩ after =
        (.ok ⟨true, .combined .intersection [.maxAge 5, .maxVersions 2],
          .combined .union [.maxAge 5, .maxVersions 2]⟩, compared) := by
  have hfaults : (worldShowing none).faults = [] := rfl
  have hentry : (worldShowing none).ownFamily? someFamily = some (.object []) := rfl
  have hunion : Policy.ofText (some (bothRules "union")) =
      .ok (.combined .union [.maxAge 5, .maxVersions 2]) := rfl
  have hother : Policy.ofText (some (bothRules "intersection")) =
      .ok (.combined .intersection [.maxAge 5, .maxVersions 2]) := rfl
  obtain ⟨result, after, happly, hresult, -, hafter, hlater⟩ :=
    apply_agrees ⟨none⟩ none hfaults rfl hentry hunion
  obtain ⟨hread, hdrift⟩ := hlater after hafter rfl
  obtain ⟨text, seen, hread, -, hnone⟩ := hread none
  obtain ⟨drifted, compared, hdrift, hsame⟩ := hdrift none _ _ hother
  rw [hresult] at happly
  cases text with
  | none => cases hnone.mp rfl
  | some text =>
    cases drifted with
    | false => cases hsame.mp rfl
    | true => exact ⟨after, text, seen, compared, happly, hread, hdrift⟩

/-- An answer that shows the family with seven versions. -/
def sevenVersions : Json :=
  Families.shownTable (.object [(someFamily.family,
    .object [("gcRule", .object [("maxNumVersions", .number 7)])])])

/-- When another answer was prepared, setting a policy ends with the policy that the answer shows. -/
theorem not_agrees_of_prepared : ∃ after,
    (worldShowing (some sevenVersions)).faults = [] ∧ someFamily.check = .ok () ∧
      (worldShowing (some sevenVersions)).ownFamily? someFamily = some (.object []) ∧
      Policy.ofText (some (.object [("max_age", .string "5s")])) = .ok (.maxAge 5) ∧
      Store.apply ⟨none⟩ someFamily (some (.object [("max_age", .string "5s")])) ⟨none, none⟩
        (worldShowing (some sevenVersions)) = (.ok (.maxVersions 7), after) :=
  ⟨_, rfl, rfl, rfl, rfl, rfl⟩

end Retention.Store
