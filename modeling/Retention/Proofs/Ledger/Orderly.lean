import Retention.Proofs.Families
import Retention.Proofs.Ledger
import Retention.Reconcile

/-!
# The record of each family

Giving a family rules from outside and releasing it change the record of that family and no other,
as long as every family has one record at most and ids tell the records apart. Both go on being so.

## Main definitions

* `Recorded`: what is recorded of a family.
* `Ledger.recorded?`: what a ledger says of a family.
* `Ledger.Orderly`: a ledger with one active record for each family that it has a record of.

## Main results

* `Ledger.Orderly.upsert`, `Ledger.Orderly.releaseFamily`: a ledger stays orderly.
* `Ledger.Orderly.recorded?_upsert`, `Ledger.Orderly.recorded?_releaseFamily`: what becomes of the
  records.
* `Ledger.Orderly.mem_managed_iff`: the families that are managed.
-/

namespace Retention

open Reconciler (target)

/-- What is recorded of a family: its rules, how it is to be released, and whether it was. -/
structure Recorded where
  rules : Json
  mode : DeletionMode
  released : Bool

namespace PolicyRecord

/-- What a record says of its family. -/
def recorded (record : PolicyRecord) : Recorded :=
  ⟨record.rules, record.deletionMode, record.released⟩

theorem isFor_iff {record : PolicyRecord} {family : FamilyRef} :
    record.isFor family.table family.family = true ↔ target record = family := by
  rw [isFor, Bool.and_eq_true, decide_eq_true_eq, decide_eq_true_eq]
  constructor
  · rintro ⟨htable, hfamily⟩
    exact FamilyRef.ext htable hfamily
  · rintro rfl
    exact ⟨rfl, rfl⟩

end PolicyRecord

namespace Ledger

variable {ledger : Ledger} {family other : FamilyRef} {record : PolicyRecord}
  {change : PolicyRecord → PolicyRecord} {rules : Json} {mode : DeletionMode}

/-- What a ledger says of a family, if it has a record of it. -/
def recorded? (ledger : Ledger) (family : FamilyRef) : Option Recorded :=
  (ledger.find? family.table family.family).map PolicyRecord.recorded

/-- Every family has at most one record; ids tell the records apart and are not given out again; and
every record is enabled and stands for a family that is to have its policy. -/
structure Orderly (ledger : Ledger) : Prop where
  families_nodup : (ledger.tables.policies.map target).Nodup
  ids_nodup : (ledger.tables.policies.map PolicyRecord.id).Nodup
  ids_given : ∀ record ∈ ledger.tables.policies,
    ∃ number ≤ ledger.policyCount, record.id = policyId number
  active : ∀ record ∈ ledger.tables.policies, record.enabled = true ∧ record.desired = .present

theorem policyId_inj {number other : Nat} : policyId number = policyId other ↔ number = other := by
  constructor
  · intro h
    have hrepr : "policy-" ++ number.repr = "policy-" ++ other.repr := Text.whole.inj h
    exact Nat.repr_injective (String.append_right_inj _ |>.mp hrepr)
  · rintro rfl
    rfl

/-- A ledger without records is orderly. -/
theorem orderly_of_policies_nil (h : ledger.tables.policies = []) : ledger.Orderly := by
  constructor <;> simp [h]

/-! ### Records of a family -/

theorem target_of_find? (h : ledger.find? family.table family.family = some record) :
    record ∈ ledger.tables.policies ∧ target record = family := by
  have hfor := List.find?_some h
  exact ⟨List.mem_of_find?_eq_some h, PolicyRecord.isFor_iff.mp hfor⟩

theorem target_ne_of_find? (h : ledger.find? family.table family.family = none) :
    ∀ record ∈ ledger.tables.policies, target record ≠ family := fun record hrecord heq =>
  List.find?_eq_none.mp h record hrecord (PolicyRecord.isFor_iff.mpr heq)

/-- Where every family has one record at most, a record is the one that is found for its family. -/
theorem find?_of_mem (h : (ledger.tables.policies.map target).Nodup)
    (hrecord : record ∈ ledger.tables.policies) :
    ledger.find? (target record).table (target record).family = some record := by
  cases hfind : ledger.find? (target record).table (target record).family with
  | none => exact absurd rfl (target_ne_of_find? hfind record hrecord)
  | some found =>
    obtain ⟨hmem, htarget⟩ := target_of_find? hfind
    rw [List.inj_on_of_nodup_map h hmem hrecord htarget]

/-! ### Changing the record of a family -/

/-- Some records with that of a family changed. -/
def changeAt (family : FamilyRef) (change : PolicyRecord → PolicyRecord) :
    List PolicyRecord → List PolicyRecord :=
  List.map fun record => if target record = family then change record else record

/-- A change that leaves a record's family, its id and its activity as they are. -/
structure Preserving (change : PolicyRecord → PolicyRecord) : Prop where
  target_eq : ∀ record, target (change record) = target record
  id_eq : ∀ record, (change record).id = record.id
  enabled_eq : ∀ record, (change record).enabled = record.enabled
  present : ∀ record, record.desired = .present → (change record).desired = .present

theorem map_changeAt {α : Type} {key : PolicyRecord → α}
    (h : ∀ record, key (change record) = key record) (policies : List PolicyRecord) :
    (changeAt family change policies).map key = policies.map key := by
  rw [changeAt, List.map_map]
  refine List.map_congr_left fun record _ => ?_
  rw [Function.comp_apply]
  split
  · exact h record
  · rfl

/-- A ledger stays orderly when the record of a family is changed. -/
theorem Orderly.changeAt (h : ledger.Orderly) (hchange : Preserving change) (family : FamilyRef) :
    (ledger.withPolicies (changeAt family change)).Orderly where
  families_nodup := by
    rw [withPolicies, map_changeAt hchange.target_eq]
    exact h.families_nodup
  ids_nodup := by
    rw [withPolicies, map_changeAt hchange.id_eq]
    exact h.ids_nodup
  ids_given := fun record hrecord => by
    obtain ⟨before, hbefore, rfl⟩ := List.mem_map.mp hrecord
    obtain ⟨number, hle, hid⟩ := h.ids_given before hbefore
    refine ⟨number, hle, ?_⟩
    split
    · exact (hchange.id_eq before).trans hid
    · exact hid
  active := fun record hrecord => by
    obtain ⟨before, hbefore, rfl⟩ := List.mem_map.mp hrecord
    obtain ⟨henabled, hpresent⟩ := h.active before hbefore
    split
    · exact ⟨(hchange.enabled_eq before).trans henabled, hchange.present before hpresent⟩
    · exact ⟨henabled, hpresent⟩

/-- Only the record of that family is changed. -/
theorem recorded?_changeAt (htarget : ∀ record, target (change record) = target record) :
    (ledger.withPolicies (changeAt family change)).recorded? other =
      if other = family then
        (ledger.find? other.table other.family).map fun record => (change record).recorded
      else ledger.recorded? other := by
  have hfor : (fun record => PolicyRecord.isFor other.table other.family record) ∘
      (fun record => if target record = family then change record else record) =
      fun record => record.isFor other.table other.family := by
    funext record
    rw [Function.comp_apply, Bool.eq_iff_iff, PolicyRecord.isFor_iff, PolicyRecord.isFor_iff]
    split
    · rw [htarget]
    · rfl
  have hfind : (ledger.withPolicies (changeAt family change)).find? other.table other.family =
      (ledger.find? other.table other.family).map fun record =>
        if target record = family then change record else record := by
    rw [find?, withPolicies, changeAt, List.find?_map, hfor]
    rfl
  rw [recorded?, hfind, Option.map_map, recorded?]
  split
  · next heq =>
    refine Option.map_congr fun record hrecord => ?_
    rw [Function.comp_apply, if_pos ((target_of_find? hrecord).2.trans heq)]
  · next hne =>
    refine Option.map_congr fun record hrecord => ?_
    rw [Function.comp_apply, if_neg fun heq => hne ((target_of_find? hrecord).2.symm.trans heq)]

/-! ### Rules from outside -/

/-- A record that takes over rules from outside. -/
def takenOver (rules : Json) (mode : DeletionMode) (record : PolicyRecord) : PolicyRecord :=
  { record with
    rules := rules, deletionMode := mode, desired := .present, lastApplied := true,
    released := false }

theorem preserving_takenOver (rules : Json) (mode : DeletionMode) :
    Preserving (takenOver rules mode) :=
  ⟨fun _ => rfl, fun _ => rfl, fun _ => rfl, fun _ _ => rfl⟩

/-- Where every family has one record at most, the first one is the only one. -/
theorem changeFirst_eq {policies : List PolicyRecord} (h : (policies.map target).Nodup) :
    changeFirst family.table family.family change policies = changeAt family change policies := by
  induction policies with
  | nil => rfl
  | cons record rest ih =>
    rw [List.map_cons, List.nodup_cons] at h
    rw [changeFirst, changeAt, List.map_cons]
    by_cases hown : target record = family
    · have hrest : rest.map (fun other => if target other = family then change other else other) =
          rest := by
        rw [List.map_congr_left fun other hother => if_neg fun heq => h.1 ?_, List.map_id']
        exact List.mem_map.mpr ⟨other, hother, heq.trans hown.symm⟩
      rw [if_pos (PolicyRecord.isFor_iff.mpr hown), if_pos hown, hrest]
    · rw [if_neg fun hfor => hown (PolicyRecord.isFor_iff.mp hfor), if_neg hown, ih h.2]
      rfl

/-- The record of a family that has one takes the rules over. -/
theorem upsert_of_some (h : (ledger.tables.policies.map target).Nodup)
    (hfind : ledger.find? family.table family.family = some record) :
    ledger.upsert family.table family.family rules mode =
      ledger.withPolicies (Ledger.changeAt family (takenOver rules mode)) := by
  have hfirst : changeFirst family.table family.family (takenOver rules mode)
      ledger.tables.policies =
      Ledger.changeAt family (takenOver rules mode) ledger.tables.policies :=
    changeFirst_eq h
  rw [Ledger.upsert, hfind, withPolicies, withPolicies, ← hfirst]
  rfl

/-- The record that a family without one is given. -/
def firstRecord (family : FamilyRef) (rules : Json) (mode : DeletionMode) (id : Text) :
    PolicyRecord :=
  ⟨id, family.table, family.family, rules, mode, .present, true, true, false⟩

theorem upsert_of_none (hfind : ledger.find? family.table family.family = none) :
    ledger.upsert family.table family.family rules mode =
      ledger.insertPolicy (firstRecord family rules mode) := by
  rw [Ledger.upsert, hfind]
  rfl

/-- A ledger stays orderly when a family is given rules from outside. -/
theorem Orderly.upsert (h : ledger.Orderly) (family : FamilyRef) (rules : Json)
    (mode : DeletionMode) : (ledger.upsert family.table family.family rules mode).Orderly := by
  cases hfind : ledger.find? family.table family.family with
  | some record =>
    rw [upsert_of_some h.families_nodup hfind]
    exact h.changeAt (preserving_takenOver rules mode) family
  | none =>
    have hpolicies : (ledger.insertPolicy (firstRecord family rules mode)).tables.policies =
        ledger.tables.policies ++
          [firstRecord family rules mode (policyId (ledger.policyCount + 1))] := rfl
    rw [upsert_of_none hfind]
    constructor
    · rw [hpolicies, List.map_append, List.map_singleton, ← List.concat_eq_append,
        List.nodup_concat]
      refine ⟨fun hmem => ?_, h.families_nodup⟩
      obtain ⟨other, hother, heq⟩ := List.mem_map.mp hmem
      exact target_ne_of_find? hfind other hother heq
    · -- The number that the new id is made of has not been given out.
      rw [hpolicies, List.map_append, List.map_singleton, ← List.concat_eq_append,
        List.nodup_concat]
      refine ⟨fun hmem => ?_, h.ids_nodup⟩
      obtain ⟨other, hother, heq⟩ := List.mem_map.mp hmem
      obtain ⟨number, hle, hid⟩ := h.ids_given other hother
      have hnumber := policyId_inj.mp (hid.symm.trans heq)
      omega
    · intro other hother
      rcases List.mem_append.mp (hpolicies ▸ hother) with hother | hother
      · obtain ⟨number, hle, hid⟩ := h.ids_given other hother
        exact ⟨number, Nat.le_succ_of_le hle, hid⟩
      · rw [List.mem_singleton.mp hother]
        exact ⟨_, Nat.le_refl _, rfl⟩
    · intro other hother
      rcases List.mem_append.mp (hpolicies ▸ hother) with hother | hother
      · exact h.active other hother
      · rw [List.mem_singleton.mp hother]
        exact ⟨rfl, rfl⟩

/-- A family that is given rules from outside is recorded with them, as not released. -/
theorem Orderly.recorded?_upsert (h : ledger.Orderly) :
    (ledger.upsert family.table family.family rules mode).recorded? other =
      if other = family then some ⟨rules, mode, false⟩ else ledger.recorded? other := by
  cases hfind : ledger.find? family.table family.family with
  | some record =>
    rw [upsert_of_some h.families_nodup hfind, recorded?_changeAt (preserving_takenOver rules mode).target_eq]
    split
    · next heq =>
      rw [heq, hfind]
      rfl
    · rfl
  | none =>
    have hnew : (firstRecord family rules mode (policyId (ledger.policyCount + 1))).isFor
        other.table other.family = true ↔ family = other := PolicyRecord.isFor_iff
    have hinsert : (ledger.insertPolicy (firstRecord family rules mode)).find? other.table
        other.family = (ledger.find? other.table other.family).or (if other = family then
          some (firstRecord family rules mode (policyId (ledger.policyCount + 1))) else none) := by
      refine List.find?_append.trans (congrArg _ ?_)
      rw [List.find?_singleton]
      by_cases heq : other = family
      · rw [if_pos heq, if_pos (hnew.mpr heq.symm)]
      · rw [if_neg heq, if_neg fun hfor => heq (hnew.mp hfor).symm]
    rw [upsert_of_none hfind, recorded?, hinsert, recorded?]
    split
    · next heq =>
      rw [heq, hfind]
      rfl
    · rw [Option.or_none]

/-! ### Releases -/

/-- A record that is released. -/
def letGo (record : PolicyRecord) : PolicyRecord := { record with released := true }

theorem preserving_letGo : Preserving letGo :=
  ⟨fun _ => rfl, fun _ => rfl, fun _ => rfl, fun _ => id⟩

/-- Where ids tell the records apart, the record of a family is released by its id. -/
theorem Orderly.markReleased_eq (h : ledger.Orderly)
    (hfind : ledger.find? family.table family.family = some record) :
    ledger.markReleased record.id = ledger.withPolicies (Ledger.changeAt family letGo) := by
  obtain ⟨hrecord, rfl⟩ := target_of_find? hfind
  have hsame : ∀ other ∈ ledger.tables.policies,
      (if other.id = record.id then letGo other else other) =
        if target other = target record then letGo other else other := fun other hother => by
    have hiff : other.id = record.id ↔ target other = target record :=
      ⟨fun heq => congrArg target (List.inj_on_of_nodup_map h.ids_nodup hother hrecord heq),
        fun heq => congrArg PolicyRecord.id
          (List.inj_on_of_nodup_map h.families_nodup hother hrecord heq)⟩
    simp only [hiff]
  rw [Ledger.markReleased, withPolicies, withPolicies, Ledger.changeAt, ← List.map_congr_left hsame]
  rfl

/-- The ledger with the record of a family released, if there is one. -/
def releaseFamily (family : FamilyRef) (ledger : Ledger) : Ledger :=
  match ledger.find? family.table family.family with
  | some record => ledger.markReleased record.id
  | none => ledger

/-- A ledger stays orderly when a family is released. -/
theorem Orderly.releaseFamily (h : ledger.Orderly) (family : FamilyRef) :
    (ledger.releaseFamily family).Orderly := by
  unfold Ledger.releaseFamily
  split
  · next record hfind =>
    rw [h.markReleased_eq hfind]
    exact h.changeAt preserving_letGo family
  · exact h

/-- A family that is released is recorded as before, but as released. -/
theorem Orderly.recorded?_releaseFamily (h : ledger.Orderly) :
    (ledger.releaseFamily family).recorded? other =
      if other = family then
        (ledger.recorded? family).map fun recorded => { recorded with released := true }
      else ledger.recorded? other := by
  unfold Ledger.releaseFamily
  split
  · next record hfind =>
    rw [h.markReleased_eq hfind, recorded?_changeAt preserving_letGo.target_eq]
    split
    · next heq =>
      rw [heq, recorded?, hfind]
      rfl
    · rfl
  · next hfind =>
    split
    · next heq =>
      rw [heq, recorded?, hfind]
      rfl
    · rfl

/-! ### Managed families -/

/-- Every family is managed at most once. -/
theorem Orderly.nodup_managed (h : ledger.Orderly) : (ledger.managed.map target).Nodup :=
  nodup_map_managed h.families_nodup

/-- A family is managed when there is a record of it that was not released. -/
theorem Orderly.mem_managed_iff (h : ledger.Orderly) : family ∈ ledger.managed.map target ↔
    ∃ recorded, ledger.recorded? family = some recorded ∧ recorded.released = false := by
  constructor
  · intro hfamily
    obtain ⟨record, hrecord, rfl⟩ := List.mem_map.mp hfamily
    obtain ⟨hmem, hmanaged⟩ := mem_managed.mp hrecord
    refine ⟨record.recorded, by rw [recorded?, find?_of_mem h.families_nodup hmem]; rfl, ?_⟩
    rw [PolicyRecord.isManaged, Bool.and_eq_true, Bool.not_eq_true'] at hmanaged
    exact hmanaged.2
  · rintro ⟨recorded, hrecorded, hreleased⟩
    obtain ⟨record, hfind, rfl⟩ := Option.map_eq_some_iff.mp hrecorded
    obtain ⟨hmem, rfl⟩ := target_of_find? hfind
    refine List.mem_map_of_mem (mem_managed.mpr ⟨hmem, ?_⟩)
    rw [PolicyRecord.isManaged, (h.active record hmem).1, Bool.true_and, Bool.not_eq_true']
    exact hreleased

end Ledger

end Retention
