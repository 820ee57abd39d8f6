import Retention.Proofs.Service.WriteBack
import Retention.Proofs.Store.Listing

/-!
# Missing families

A family is asked for by the name under which its table shows it. When neither the table nor a
family of that name is there, the answer is a failure that says so. But a name that every object
knows is found in a table without a family of that name as well: it is taken for a family without a
rule, and nothing is said to be missing.

## Main definitions

* `Families.own?`: the family that a table itself shows under an id.
* `Families.Inherits`: an id that is found in a table although it is not one of its families.
* `Policy.CollectsNothing`: a family without a rule, or with one that collects nothing.

## Main results

* `Store.saysMissing_policyIn_iff`, `Store.policyIn_eq_none_iff`: a family among those of its table.
* `Store.missing_family_reported`: which families are reported as missing, and which have no policy.
* `Store.inherited_name_not_missing`: a family that is missing and not reported so.
-/

namespace Retention

namespace Families

variable {id : Text} {families family : Json}

/-- The family that a table itself shows under an id. -/
def own? (id : Text) (families : Json) : Option Json :=
  ((entries families).lookup id).filter Json.isTruthy

/-- An id under which a table shows nothing of its own, but which is found in every object. -/
def Inherits (id : Text) (families : Json) : Prop :=
  families.isNull = false ∧ (entries families).lookup id = none ∧ id ∈ inherited

theorem Inherits.find? (h : Inherits id families) :
    Families.find? id families = some (.object []) := by
  obtain ⟨hnull, hlookup, hinherited⟩ := h
  rw [Families.find?, hnull, hlookup, List.contains_iff_mem.mpr hinherited]
  rfl

/-- An id that is not inherited is found as the table itself shows it. -/
theorem find?_of_not_inherits (h : ¬Inherits id families) :
    (find? id families).filter Json.isTruthy = own? id families := by
  rw [find?, own?]
  cases hnull : families.isNull with
  | true =>
    obtain rfl : families = .null := by cases families <;> first | rfl | cases hnull
    rfl
  | false =>
    cases hlookup : (entries families).lookup id with
    | some family => rfl
    | none =>
      have hnot : inherited.contains id = false := by
        rw [← Bool.not_eq_true, List.contains_iff_mem]
        exact fun hinherited => h ⟨hnull, hlookup, hinherited⟩
      rw [hnot]
      rfl

theorem not_inherits_of_own? (h : own? id families = some family) : ¬Inherits id families := by
  rintro ⟨-, hlookup, -⟩
  rw [own?, hlookup] at h
  cases h

end Families

/-- A family collects nothing when it has no rule, or one that means so. -/
def Policy.CollectsNothing (family : Json) : Prop :=
  (family.member? "gcRule").filter Json.isTruthy = none ∨
    ∃ rule, (family.member? "gcRule").filter Json.isTruthy = some rule ∧
      Policy.ofMessage rule = .ok .noGc

theorem Policy.ofFamily_eq_noGc_iff {family : Json} (hset : family.isTruthy = true) :
    Policy.ofFamily family = .ok .noGc ↔ Policy.CollectsNothing family := by
  have hnull : family.isNull = false := by cases family <;> first | rfl | cases hset
  rw [Policy.ofFamily, hnull, CollectsNothing]
  change Policy.ofMessageOr .noGc _ = _ ↔ _
  rw [Policy.ofMessageOr]
  cases (family.member? "gcRule").filter Json.isTruthy <;> simp

namespace Store

variable {store : Store} {target : FamilyRef} {id : Text} {families family : Json}
  {world : World}

/-- A failure that says that something is missing. -/
def SaysMissing {α : Type} (result : Except Failure α) : Prop :=
  ∃ failure, result = .error failure ∧ failure.hasStoreCode .notFound = true

/-! ### A family among those of its table -/

theorem policyIn_of_inherits (h : Families.Inherits id families) :
    policyIn id families = .ok none := by
  rw [policyIn, h.find?]
  rfl

theorem policyIn_of_own?_eq_none (hown : Families.own? id families = none)
    (h : ¬Families.Inherits id families) :
    policyIn id families = .error (familyNotFound id) := by
  rw [policyIn, Families.find?_of_not_inherits h, hown]

theorem policyIn_of_own? (h : Families.own? id families = some family) :
    policyIn id families = ((Policy.ofFamily family).mapError Failure.shape).map fun policy =>
      if policy.isNoGc then none else some policy := by
  rw [policyIn, Families.find?_of_not_inherits (Families.not_inherits_of_own? h), h]

theorem saysMissing_policyIn_iff : SaysMissing (policyIn id families) ↔
    Families.own? id families = none ∧ ¬Families.Inherits id families := by
  constructor
  · rintro ⟨failure, hfailure, hcode⟩
    refine ⟨?_, fun hinherits => ?_⟩
    · cases hown : Families.own? id families with
      | none => rfl
      | some family =>
        rw [policyIn_of_own? hown] at hfailure
        cases hpolicy : Policy.ofFamily family with
        | error fault =>
          rw [hpolicy] at hfailure
          obtain rfl : Failure.shape fault = failure := Except.error.inj hfailure
          cases hcode
        | ok policy =>
          rw [hpolicy] at hfailure
          cases hfailure
    · rw [policyIn_of_inherits hinherits] at hfailure
      cases hfailure
  · rintro ⟨hown, hnot⟩
    exact ⟨_, policyIn_of_own?_eq_none hown hnot, rfl⟩

theorem policyIn_eq_none_iff : policyIn id families = .ok none ↔
    (∃ family, Families.own? id families = some family ∧ Policy.CollectsNothing family) ∨
      Families.Inherits id families := by
  by_cases hinherits : Families.Inherits id families
  · exact iff_of_true (policyIn_of_inherits hinherits) (Or.inr hinherits)
  cases hown : Families.own? id families with
  | none => simp [policyIn_of_own?_eq_none hown hinherits, hinherits]
  | some family =>
    have hset : family.isTruthy = true := (Option.filter_eq_some_iff.mp hown).2
    have hnone {policy : Policy} :
        (if policy.isNoGc then none else some policy) = none ↔ policy = .noGc := by
      rw [← Policy.isNoGc_eq_true_iff]
      split <;> simp [*]
    rw [policyIn_of_own? hown, exceptMap_eq_ok_iff]
    simp only [mapError_eq_ok_iff, hnone, exists_eq_right, Policy.ofFamily_eq_noGc_iff hset,
      Option.some.injEq, exists_eq_left', hinherits, or_false]

/-! ### Asking for a family -/

section Quiet

variable {options : CallOptions} (hwaits : options.Waits) (hfaults : world.faults = [])

include hwaits hfaults

/-- Where no fault waits and the caller does, a family is asked for in the tables of the world once
its names have passed. -/
theorem getPolicy_fst_of_faults_nil (store : Store) (target : FamilyRef) :
    (store.getPolicy target options world).1 = target.check >>= fun _ =>
      (world.tables.lookup target.table).elim
        (.error (Failure.ofCall "getTable" (World.tableMissing target.table)))
        (policyIn target.family) := by
  rw [(heeds_getPolicy store target).eq_of_waits hwaits, getPolicy_fst, families_fst,
    World.not_struck hfaults]
  cases world.tables.lookup target.table <;> rfl

/-- **What is said of a missing family.** Where no fault waits and the caller does, an id of a family
is reported as missing when there is no table of that name, or when the table has no family of its
own under the id and the id is not one that every object knows. There is no policy, and nothing is
reported, when the family collects nothing; and so it is with an id that every object knows. -/
theorem missing_family_reported (store : Store) (hid : isFamilyId target.family = true) :
    (SaysMissing (store.getPolicy target options world).1 ↔
      (∃ name, TableName.check target.table = .ok name) ∧
        (world.tables.lookup target.table = none ∨
          ∃ families, world.tables.lookup target.table = some families ∧
            Families.own? target.family families = none ∧
            ¬Families.Inherits target.family families)) ∧
    ((store.getPolicy target options world).1 = .ok none ↔
      (∃ name, TableName.check target.table = .ok name) ∧
        ∃ families, world.tables.lookup target.table = some families ∧
          ((∃ family, Families.own? target.family families = some family ∧
            Policy.CollectsNothing family) ∨ Families.Inherits target.family families)) := by
  rw [getPolicy_fst_of_faults_nil hwaits hfaults]
  cases hname : TableName.check target.table with
  | error failure =>
    have hcheck : target.check = .error failure := by rw [FamilyRef.check, hname]; rfl
    rw [hcheck]
    have hnone : ¬∃ name : TableName, (.error failure : Except Failure TableName) = .ok name := by
      rintro ⟨_, ⟨⟩⟩
    refine ⟨iff_of_false ?_ fun h => hnone h.1, iff_of_false ?_ fun h => hnone h.1⟩
    · rintro ⟨other, hother, hcode⟩
      obtain rfl : failure = other := Except.error.inj hother
      cases (hasStoreCode_of_check hcheck).symm.trans hcode
    · rintro ⟨⟩
  | ok name =>
    have hcheck : target.check = .ok () := by
      rw [FamilyRef.check, hname]
      exact if_pos hid
    rw [hcheck]
    cases hlookup : world.tables.lookup target.table with
    | none =>
      refine ⟨iff_of_true ⟨_, rfl, rfl⟩ ⟨⟨name, rfl⟩, Or.inl rfl⟩, iff_of_false ?_ ?_⟩
      · rintro ⟨⟩
      · rintro ⟨-, _, ⟨⟩, -⟩
    | some families =>
      refine ⟨saysMissing_policyIn_iff.trans ?_, policyIn_eq_none_iff.trans ?_⟩ <;> simp

end Quiet

/-- A table with one family lacks another, and the one has a rule that collects nothing. -/
theorem missing_family_reported_other :
    SaysMissing (getPolicy ⟨none⟩ ⟨someFamily.table, "g"⟩ .none (worldHolding (.object []))).1 ∧
      (getPolicy ⟨none⟩ someFamily .none (worldHolding (.object []))).1 = .ok none := by
  have hwaits : CallOptions.none.Waits := CallOptions.waits_none
  have hfaults : (worldHolding (.object [])).faults = [] := rfl
  have hother : isFamilyId (FamilyRef.mk someFamily.table "g").family = true := rfl
  have hown : isFamilyId someFamily.family = true := rfl
  have hnot : ¬Families.Inherits "g"
      (.object [(someFamily.family, .object [("gcRule", .object [])])]) := by
    rintro ⟨-, -, hinherited⟩
    exact absurd hinherited (by decide)
  exact ⟨(missing_family_reported hwaits hfaults ⟨none⟩ hother).1.mpr
      ⟨⟨_, rfl⟩, Or.inr ⟨_, rfl, rfl, hnot⟩⟩,
    (missing_family_reported hwaits hfaults ⟨none⟩ hown).2.mpr
      ⟨⟨_, rfl⟩, _, rfl, Or.inl ⟨_, rfl, Or.inr ⟨_, rfl, rfl⟩⟩⟩⟩

/-- **A name that every object knows.** A table without a family of such a name is asked for it: it
is missing, and it is not reported so. -/
theorem inherited_name_not_missing :
    isFamilyId "constructor" = true ∧ (worldHolding .null).faults = [] ∧
      (∃ families, (worldHolding .null).tables.lookup someFamily.table = some families ∧
        (Families.entries families).lookup (.whole "constructor") = none) ∧
      ¬SaysMissing
        (getPolicy ⟨none⟩ ⟨someFamily.table, "constructor"⟩ .none (worldHolding .null)).1 ∧
      (getPolicy ⟨none⟩ ⟨someFamily.table, "constructor"⟩ .none (worldHolding .null)).1 =
        .ok none := by
  have hresult : (getPolicy ⟨none⟩ ⟨someFamily.table, "constructor"⟩ .none
      (worldHolding .null)).1 = .ok none := rfl
  refine ⟨rfl, rfl, ⟨_, rfl, rfl⟩, fun ⟨failure, hfailure, _⟩ => ?_, hresult⟩
  cases hresult.symm.trans hfailure

end Store

end Retention
