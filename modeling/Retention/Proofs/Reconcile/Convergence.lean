import Retention.Proofs.Reconcile.Family
import Retention.Proofs.Reconcile.Run

/-!
# Reconciling reaches the desired state

A run without failures leaves every managed family as its record wants it, and leaves all other
families as they are. Reconciling a record touches its own family alone, and its own policy row, so
what it has reached is still there when the run ends: no other record of the run stands for the same
family or has the same id.

Of the faults that strike in such a run one kind matters: a fault that hides the table of a record
just when the run comes to it. It can mask that the record's family has drifted, or make one that is
in sync be set once more.

## Main definitions

* `Reconciler.Reconciled`: what reconciling one record has done when it succeeded.
* `Reconciler.Visited`: a run comes to a record and leaves it alone before that and afterwards.
* `Reconciler.Hidden`, `Reconciler.Masked`: a record whose table or whose drift a run does not see.
* `Reconciler.Reached`: a record has what it asks for.
* `Reconciler.Steady`: a record whose family a run leaves as it is.

## Main results

* `Reconciler.reconciled_of_reconcileRecord`: a record that succeeded has what it asks for, and
  nothing else was touched.
* `Reconciler.reached_of_reconcileAll`, `Reconciler.family?_of_reconcileAll`: what a run without
  failures has reached, and what it leaves as it is.
* `Reconciler.reconcileAll_converges`: both together.
* `Reconciler.not_converges_of_hidden`: what may become of families whose table a fault has hidden.
-/

namespace Retention.Reconciler

open World

variable {reconciler : Reconciler} {record : PolicyRecord} {records : List PolicyRecord}
  {before reached next after : World} {finding : Finding}

/-! ### One record -/

/-- What reconciling one record has done when it succeeded: it has touched no other family and no
row with another id, and it has done to its own what the record asks for. -/
structure Reconciled (reconciler : Reconciler) (before after : World) (record : PolicyRecord) :
    Prop where
  family?_of_ne : ∀ other, other ≠ target record → after.family? other = before.family? other
  rowsOf_of_ne : ∀ id, id ≠ record.id →
    after.ledger.tables.rowsOf id = before.ledger.tables.rowsOf id
  inSync : record.desired = .present →
    ¬before.HidesNext ∨ Policy.ofText record.rules? ≠ .ok .noGc ∨ reconciler.InSync before record →
      reconciler.InSync after record
  family?_of_inSync : record.desired = .present → reconciler.InSync before record →
    ¬before.HidesNext ∨ Policy.ofText record.rules? = .ok .noGc →
      after.family? (target record) = before.family? (target record)
  reset : record.desired = .absent → record.deletionMode = .default →
    ∃ family, after.family? (target record) = some family ∧ Policy.ofFamily family = .ok .noGc
  abandoned : record.desired = .absent → record.deletionMode = .abandon →
    after.family? (target record) = before.family? (target record)
  exists_row : before.ledger.tables.rowsOf record.id = [record] →
    ∃ row, after.ledger.tables.rowsOf record.id = [row] ∧
      ((record.desired = .present ∧ ∃ applied, row = { record with lastApplied := applied }) ∨
        (record.desired = .absent ∧ row = { record with released := true }))

/-- Creating a history row asks for no table. -/
theorem hidesNext_of_createHistory {start : HistoryStart} {result : Except Failure Text}
    (h : createHistory start before = (result, after)) (hhides : after.HidesNext) :
    before.HidesNext := by
  have hfaults : after.faults = (Fault.strike .createHistory before.faults).2 := by
    have hexecute := faults_execute .pool (.createHistory start) (Ledger.createHistory start) before
    rwa [show execute _ _ _ _ = (result, after) from h] at hexecute
  rwa [HidesNext, hfaults, Fault.strike_fst_of_ne (by decide)] at hhides

/-- A record's row after the work: one that is to be present is at most marked as applied, and one
that is not is marked as released. -/
theorem Worked.row (h : Worked reconciler record false before finding after) :
    (record.desired = .present ∧ ∃ applied,
        (if finding.action = .noop then record else marked finding.action record) =
          { record with lastApplied := applied }) ∨
      (record.desired = .absent ∧
        (if finding.action = .noop then record else marked finding.action record) =
          { record with released := true }) := by
  cases h with
  | noop hpresent => exact Or.inl ⟨hpresent, record.lastApplied, rfl⟩
  | applied hpresent => exact Or.inl ⟨hpresent, true, rfl⟩
  | released habsent =>
    have hnoop : releaseAction record.deletionMode ≠ .noop := by
      cases record.deletionMode <;> decide
    have happly : releaseAction record.deletionMode ≠ .apply := by
      cases record.deletionMode <;> decide
    exact Or.inr ⟨habsent, (if_neg hnoop).trans (if_neg happly)⟩
  | drifted _ hdryRun | pending _ hdryRun => cases hdryRun

/-- **One record.** A record that succeeded has what it asks for, and nothing else was touched. -/
theorem reconciled_of_reconcileRecord
    (h : reconciler.reconcileRecord record false before = (.ok true, after)) :
    Reconciled reconciler before after record := by
  obtain ⟨history, started, worked, finding, hcreate, hwork, hside, hledger⟩ :=
    reconcileRecord_eq_true h
  rcases createHistory_cases hcreate with ⟨honly, ⟨_, ⟨⟩, -⟩ | ⟨-, hstarted⟩⟩
  have hworked := worked_of_work hwork
  have hbefore (family : FamilyRef) : started.family? family = before.family? family :=
    family?_congr honly.tables_eq family
  have hafter (family : FamilyRef) : after.family? family = worked.family? family :=
    family?_congr hside.tables_eq family
  have hshown (hseen : ¬before.HidesNext) : ¬started.HidesNext := fun hhides =>
    hseen (hidesNext_of_createHistory hcreate hhides)
  have hrows (id : Text) : after.ledger.tables.rowsOf id =
      if finding.action ≠ .noop ∧ id = record.id then
        (before.ledger.tables.rowsOf id).map (marked finding.action)
      else before.ledger.tables.rowsOf id := by
    rw [hledger]
    refine (rowsOf_concluded before.now started.ledger id).trans ?_
    rw [hstarted]
    simp only [Bool.false_or, decide_eq_false_iff_not]
    rfl
  have hsame (hpresent : record.desired = .present) (hsync : reconciler.InSync before record)
      (hseen : ¬before.HidesNext ∨ Policy.ofText record.rules? = .ok .noGc) :
      after.family? (target record) = before.family? (target record) := by
    rw [hafter, hworked.family?_of_inSync hpresent (hsync.congr (hbefore _))
      (hseen.imp_left hshown), hbefore]
  constructor
  case family?_of_ne => exact fun other hne => by rw [hafter, hworked.family?_of_ne hne, hbefore]
  case rowsOf_of_ne => exact fun id hne => by rw [hrows, if_neg fun hmarked => hne hmarked.2]
  case inSync =>
    intro hpresent hseen
    by_cases hrules : Policy.ofText record.rules? = .ok .noGc ∧ reconciler.InSync before record
    · exact hrules.2.congr (hsame hpresent hrules.2 (Or.inr hrules.1))
    · have hseenStarted : ¬started.HidesNext ∨ Policy.ofText record.rules? ≠ .ok .noGc := by
        obtain hseen | hother | hsync := hseen
        · exact Or.inl (hshown hseen)
        · exact Or.inr hother
        · exact Or.inr fun hnone => hrules ⟨hnone, hsync⟩
      exact (hworked.inSync hpresent hseenStarted).congr (hafter _)
  case family?_of_inSync => exact hsame
  case reset =>
    intro habsent hmode
    rw [hafter]
    exact hworked.reset habsent hmode
  case abandoned =>
    intro habsent hmode
    rw [hafter, hworked.family?_of_abandoned habsent hmode, hbefore]
  case exists_row =>
    intro hown
    refine ⟨if finding.action = .noop then record else marked finding.action record, ?_,
      hworked.row⟩
    rw [hrows, hown]
    by_cases hnoop : finding.action = .noop <;> simp [hnoop]

/-! ### A run without failures -/

/-- What every record of a run without failures leaves as it is, the run leaves as it is. -/
theorem eq_of_reconcileRecords {α : Type} {read : World → α}
    (h : reconciler.reconcileRecords false records before = (.ok 0, after))
    (hsame : ∀ record ∈ records, ∀ first second, Reconciled reconciler first second record →
      read second = read first) : read after = read before := by
  induction records generalizing before with
  | nil =>
    obtain ⟨-, rfl⟩ := Prod.mk.inj h
    rfl
  | cons record rest ih =>
    obtain ⟨next, hrecord, hrest⟩ := reconcileRecords_cons_eq_zero h
    rw [ih hrest fun other hother => hsame other (List.mem_cons_of_mem _ hother)]
    exact hsame record List.mem_cons_self _ _ (reconciled_of_reconcileRecord hrecord)

/-- A family is left as it is when no record of the run stands for it. -/
theorem family?_of_reconcileRecords {family : FamilyRef}
    (h : reconciler.reconcileRecords false records before = (.ok 0, after))
    (hne : ∀ record ∈ records, target record ≠ family) :
    after.family? family = before.family? family :=
  eq_of_reconcileRecords h fun record hrecord _ _ hreconciled =>
    hreconciled.family?_of_ne family (Ne.symm (hne record hrecord))

/-- The rows with an id that no record of the run has are left as they are. -/
theorem rowsOf_of_reconcileRecords {id : Text}
    (h : reconciler.reconcileRecords false records before = (.ok 0, after))
    (hne : ∀ record ∈ records, record.id ≠ id) :
    after.ledger.tables.rowsOf id = before.ledger.tables.rowsOf id :=
  eq_of_reconcileRecords h fun record hrecord _ _ hreconciled =>
    hreconciled.rowsOf_of_ne id (Ne.symm (hne record hrecord))

/-- A run comes to a record, and it leaves the record's family and its row alone before that and
afterwards. -/
structure Visited (reconciler : Reconciler) (before reached next after : World)
    (record : PolicyRecord) : Prop where
  reconciled : Reconciled reconciler reached next record
  reached_family?_eq : reached.family? (target record) = before.family? (target record)
  reached_rowsOf_eq :
    reached.ledger.tables.rowsOf record.id = before.ledger.tables.rowsOf record.id
  after_family?_eq : after.family? (target record) = next.family? (target record)
  after_rowsOf_eq : after.ledger.tables.rowsOf record.id = next.ledger.tables.rowsOf record.id

/-- When a run comes to a record, the next call for a table fails as if the table were missing. -/
def Hidden (reconciler : Reconciler) (before : World) (record : PolicyRecord) : Prop :=
  ∃ reached, Turn reconciler false before record reached ∧ reached.HidesNext

/-- A record whose drift a run does not see: its rules ask for no policy, its family is not in sync,
and when the run comes to it, the call for its table fails as if the table were missing. -/
structure Masked (reconciler : Reconciler) (before : World) (record : PolicyRecord) : Prop where
  rules_eq : Policy.ofText record.rules? = .ok .noGc
  not_inSync : ¬reconciler.InSync before record
  hidden : Hidden reconciler before record

/-- A record has what it asks for: the family of one that is to be present is in sync, unless its
drift was masked, and its row is still managed; the family of one that is not is reset or left as it
is, as its mode says, and its row is released. -/
structure Reached (reconciler : Reconciler) (before after : World) (record : PolicyRecord) :
    Prop where
  inSync : record.desired = .present → ¬Masked reconciler before record →
    reconciler.InSync after record
  managed : record.desired = .present → ∃ row applied,
    after.ledger.tables.rowsOf record.id = [row] ∧ row = { record with lastApplied := applied } ∧
      row.isManaged = true
  reset : record.desired = .absent → record.deletionMode = .default →
    ∃ family, after.family? (target record) = some family ∧ Policy.ofFamily family = .ok .noGc
  abandoned : record.desired = .absent → record.deletionMode = .abandon →
    after.family? (target record) = before.family? (target record)
  released : record.desired = .absent →
    after.ledger.tables.rowsOf record.id = [{ record with released := true }]

/-- A record whose family a run leaves as it is: the family is in sync and seen to be so, or it is
abandoned. It is seen as long as no fault hides its table when the run comes to the record; a family
that is to have no policy is taken for one without a policy even then. -/
inductive Steady (reconciler : Reconciler) (before : World) (record : PolicyRecord) : Prop
  | inSync (hdesired : record.desired = .present) (hsync : reconciler.InSync before record)
      (hseen : ¬Hidden reconciler before record ∨ Policy.ofText record.rules? = .ok .noGc)
  | abandoned (hdesired : record.desired = .absent) (hmode : record.deletionMode = .abandon)

section Run

variable {summary : Summary} (hfamilies : (before.ledger.managed.map target).Nodup)
  (hids : (before.ledger.tables.policies.map PolicyRecord.id).Nodup)
  (h : reconciler.reconcileAll false before = (.ok summary, after)) (hfailed : summary.failed = 0)

include hfamilies hids h hfailed

/-- A run without failures comes to every managed record, when no two of them stand for the same
family or have the same id. -/
theorem exists_visited (hrecord : record ∈ before.ledger.managed) : ∃ reached next,
    Turn reconciler false before record reached ∧
      Visited reconciler before reached next after record := by
  have hnodup := Ledger.nodup_map_managed hids
  obtain ⟨found, hfind, honly, hledger, hrun⟩ := reconcileAll_eq_zero h hfailed
  obtain ⟨front, rest, hmanaged⟩ := List.append_of_mem hrecord
  rw [hmanaged] at hfind hrun
  rw [hmanaged, List.map_append, List.map_cons, List.nodup_append, List.nodup_cons]
    at hfamilies hnodup
  obtain ⟨-, ⟨hlater, -⟩, hearlier⟩ := hfamilies
  obtain ⟨-, ⟨hlaterId, -⟩, hearlierId⟩ := hnodup
  obtain ⟨reached, hfront, htail⟩ := reconcileRecords_append_eq_zero hrun
  obtain ⟨next, hsucceeds, hrest⟩ := reconcileRecords_cons_eq_zero htail
  have hfamily : reached.family? (target record) = found.family? (target record) :=
    family?_of_reconcileRecords hfront fun other hother =>
      hearlier _ (List.mem_map_of_mem hother) _ List.mem_cons_self
  have hrows : reached.ledger.tables.rowsOf record.id = found.ledger.tables.rowsOf record.id :=
    rowsOf_of_reconcileRecords hfront fun other hother =>
      hearlierId _ (List.mem_map_of_mem hother) _ List.mem_cons_self
  refine ⟨reached, next, ⟨front, rest, 0, found, hfind, hfront⟩,
    reconciled_of_reconcileRecord hsucceeds, hfamily.trans (family?_congr honly.tables_eq _),
    hrows.trans (by rw [hledger]), ?_, ?_⟩
  · exact family?_of_reconcileRecords hrest fun other hother heq =>
      hlater (heq ▸ List.mem_map_of_mem hother)
  · exact rowsOf_of_reconcileRecords hrest fun other hother heq =>
      hlaterId (heq ▸ List.mem_map_of_mem hother)

/-- Every managed record has what it asks for after a run without failures. -/
theorem reached_of_reconcileAll (hrecord : record ∈ before.ledger.managed) :
    Reached reconciler before after record := by
  obtain ⟨hmem, hmanaged⟩ := Ledger.mem_managed.mp hrecord
  obtain ⟨reached, next, hturn, hvisited⟩ := exists_visited hfamilies hids h hfailed hrecord
  have hreconciled := hvisited.reconciled
  obtain ⟨row, hnext, hrow⟩ := hreconciled.exists_row
    (hvisited.reached_rowsOf_eq.trans (LedgerTables.rowsOf_eq_singleton hids hmem))
  have hafter := hvisited.after_rowsOf_eq.trans hnext
  constructor
  case inSync =>
    intro hpresent hseen
    refine (hreconciled.inSync hpresent ?_).congr hvisited.after_family?_eq
    by_contra hnot
    obtain ⟨hhides, hrules, hdrifted⟩ : reached.HidesNext ∧
        Policy.ofText record.rules? = .ok .noGc ∧ ¬reconciler.InSync reached record := by
      simpa only [not_or, not_not, ne_eq] using hnot
    exact hseen ⟨hrules, fun hsync => hdrifted (hsync.congr hvisited.reached_family?_eq),
      reached, hturn, hhides⟩
  case managed =>
    intro hpresent
    obtain ⟨-, applied, rfl⟩ | ⟨habsent, -⟩ := hrow
    · exact ⟨_, applied, hafter, rfl, hmanaged⟩
    · cases habsent.symm.trans hpresent
  case reset =>
    intro habsent hmode
    rw [hvisited.after_family?_eq]
    exact hreconciled.reset habsent hmode
  case abandoned =>
    intro habsent hmode
    rw [hvisited.after_family?_eq, hreconciled.abandoned habsent hmode,
      hvisited.reached_family?_eq]
  case released =>
    intro habsent
    obtain ⟨hpresent, -⟩ | ⟨-, rfl⟩ := hrow
    · cases habsent.symm.trans hpresent
    · exact hafter

/-- A run without failures leaves a family as it is when there are only steady records for it. -/
theorem family?_of_reconcileAll {family : FamilyRef} (hsteady : ∀ record ∈ before.ledger.managed,
    target record = family → Steady reconciler before record) :
    after.family? family = before.family? family := by
  by_cases hown : ∃ record ∈ before.ledger.managed, target record = family
  · obtain ⟨record, hrecord, rfl⟩ := hown
    obtain ⟨reached, next, hturn, hvisited⟩ := exists_visited hfamilies hids h hfailed hrecord
    rw [hvisited.after_family?_eq, ← hvisited.reached_family?_eq]
    cases hsteady record hrecord rfl with
    | inSync hpresent hsync hseen =>
      exact hvisited.reconciled.family?_of_inSync hpresent
        (hsync.congr hvisited.reached_family?_eq)
        (hseen.imp_left fun hshown hhides => hshown ⟨reached, hturn, hhides⟩)
    | abandoned habsent hmode => exact hvisited.reconciled.abandoned habsent hmode
  · obtain ⟨found, -, honly, -, hrun⟩ := reconcileAll_eq_zero h hfailed
    rw [family?_of_reconcileRecords hrun fun record hrecord heq => hown ⟨record, hrecord, heq⟩,
      family?_congr honly.tables_eq]

end Run

/-! ### Small worlds -/

/-- A managed record of a family of one table. -/
def recordOf (id family : Text) (rules : Json) (mode : DeletionMode) (desired : DesiredState) :
    PolicyRecord :=
  ⟨id, "projects/pp/instances/ii/tables/t", family, rules, mode, desired, true, false, false⟩

/-- A world with that table, some records and some faults. -/
def worldWith (families : List (Text × Json)) (records : List PolicyRecord) (faults : List Fault) :
    World :=
  { World.empty false "now" "correlation" with
    tables := [("projects/pp/instances/ii/tables/t", .object families)],
    ledger := { Ledger.empty false with tables := ⟨records, [], []⟩ }, faults := faults }

/-- Such a world after its managed records were found. -/
def foundIn (families : List (Text × Json)) (records : List PolicyRecord) (faults : List Fault) :
    World :=
  { worldWith families records faults with traffic := [.statement .pool .findManaged] }

/-- A reconciler whose calls have no timeout. -/
def patient : Reconciler := ⟨⟨none⟩, none⟩

/-- A family that keeps two versions. -/
def twoVersions : Json := .object [("gcRule", .object [("maxNumVersions", .number 2)])]

/-- A record whose family is to have no policy. -/
def bare : PolicyRecord := recordOf "policy-1" "f" .null .default .present

/-- In such a world the records are managed as they are listed. -/
theorem managed_worldWith (families : List (Text × Json)) (faults : List Fault)
    {records : List PolicyRecord} (hmanaged : ∀ record ∈ records, record.isManaged = true)
    (hsorted : records.Pairwise fun a b => Ledger.recordLe a b = true) :
    (worldWith families records faults).ledger.managed = records := by
  change (records.filter PolicyRecord.isManaged).mergeSort Ledger.recordLe = records
  rw [List.filter_eq_self.mpr hmanaged, List.mergeSort_of_pairwise hsorted]

/-- They are found as they are listed. -/
theorem findManaged_worldWith {records : List PolicyRecord} (families : List (Text × Json))
    {faults : List Fault} (hmanaged : ∀ record ∈ records, record.isManaged = true)
    (hsorted : records.Pairwise fun a b => Ledger.recordLe a b = true)
    (hfaults : .findManaged ∉ faults.map Fault.point) :
    findManaged (worldWith families records faults) =
      (.ok records, foundIn families records faults) := by
  refine (ask_of_notMem .findManaged Ledger.managed hfaults).trans ?_
  rw [managed_worldWith families faults hmanaged hsorted]
  rfl

/-- They are reconciled as they are listed. -/
theorem reconcileAll_worldWith (records : List PolicyRecord) {families : List (Text × Json)}
    {faults : List Fault} {outcome : Except Failure Nat}
    (hmanaged : ∀ record ∈ records, record.isManaged = true)
    (hsorted : records.Pairwise fun a b => Ledger.recordLe a b = true)
    (hfaults : .findManaged ∉ faults.map Fault.point)
    (hrun : patient.reconcileRecords false records (foundIn families records faults) =
      (outcome, after)) :
    (worldWith families records faults).ledger.managed = records ∧
      patient.reconcileAll false (worldWith families records faults) =
        (outcome.map fun failed => ⟨records.length, failed⟩, after) :=
  ⟨managed_worldWith families faults hmanaged hsorted,
    reconcileAll_of_ok (findManaged_worldWith families hmanaged hsorted hfaults) hrun⟩

/-- **Reconciling reaches the desired state.** When no two managed records stand for the same family
and ids tell the records apart, a run without failures gives every managed record what it asks for,
wherever faults strike, and leaves every family as it is for which there are only steady records. -/
theorem reconcileAll_converges {summary : Summary}
    (hfamilies : (before.ledger.managed.map target).Nodup)
    (hids : (before.ledger.tables.policies.map PolicyRecord.id).Nodup)
    (h : reconciler.reconcileAll false before = (.ok summary, after)) (hfailed : summary.failed = 0) :
    (∀ record ∈ before.ledger.managed, Reached reconciler before after record) ∧
      ∀ family, (∀ record ∈ before.ledger.managed, target record = family →
        Steady reconciler before record) → after.family? family = before.family? family :=
  ⟨fun _ hrecord => reached_of_reconcileAll hfamilies hids h hfailed hrecord,
    fun _ hsteady => family?_of_reconcileAll hfamilies hids h hfailed hsteady⟩

/-- A record that is to be present and one that is not, and a fault that would hide a table from a
further call: the family of the one is in sync afterwards, that of the other has no policy, and a
third is as it was. -/
theorem reconcileAll_converges_two : ∃ before after absent other,
    absent = recordOf "policy-2" "g" .null .default .absent ∧ other = ⟨bare.table, "h"⟩ ∧
      before = worldWith [("f", twoVersions), ("g", twoVersions), ("h", twoVersions)] [bare, absent]
        [⟨.getTable, 1, .plain "gone" (some (.number 5))⟩] ∧
      patient.reconcileAll false before = (.ok ⟨2, 0⟩, after) ∧ patient.InSync after bare ∧
      (∃ family, after.family? (target absent) = some family ∧ Policy.ofFamily family = .ok .noGc) ∧
      after.ledger.tables.rowsOf absent.id = [{ absent with released := true }] ∧
      after.family? other = before.family? other := by
  obtain ⟨absent, habsent⟩ : ∃ record, record = recordOf "policy-2" "g" .null .default .absent :=
    ⟨_, rfl⟩
  obtain ⟨other, hother⟩ : ∃ other : FamilyRef, other = ⟨bare.table, "h"⟩ := ⟨_, rfl⟩
  obtain ⟨families, hfamilies⟩ : ∃ families : List (Text × Json),
    families = [(.whole "f", twoVersions), (.whole "g", twoVersions), (.whole "h", twoVersions)] :=
    ⟨_, rfl⟩
  obtain ⟨faults, hfaults⟩ : ∃ faults : List Fault,
    faults = [⟨.getTable, 1, .plain "gone" (some (.number 5))⟩] := ⟨_, rfl⟩
  obtain ⟨next, after, hfirst, hsecond⟩ : ∃ next after,
      patient.reconcileRecord bare false (foundIn families [bare, absent] faults) =
        (.ok true, next) ∧ patient.reconcileRecord absent false next = (.ok true, after) := by
    subst habsent hfamilies hfaults
    exact ⟨_, _, rfl, rfl⟩
  have hlisted : (∀ record ∈ [bare, absent], record.isManaged = true) ∧
      [bare, absent].Pairwise (fun a b => Ledger.recordLe a b = true) ∧
      FaultPoint.findManaged ∉ faults.map Fault.point := by
    subst habsent hfaults
    exact ⟨by simp; exact ⟨rfl, rfl⟩, by simp; rfl, by decide⟩
  obtain ⟨hall, hsorted, hnofault⟩ := hlisted
  have hfind := findManaged_worldWith families hall hsorted hnofault
  obtain ⟨hmanaged, hall⟩ := reconcileAll_worldWith [bare, absent] hall hsorted hnofault
    (reconcileRecords_cons_of_ok hfirst (reconcileRecords_cons_of_ok hsecond rfl))
  have htargets : ([bare, absent].map target).Nodup ∧
      ([bare, absent].map PolicyRecord.id).Nodup := by
    subst habsent
    decide
  obtain ⟨hreached, hsteady⟩ :=
    reconcileAll_converges (by rw [hmanaged]; exact htargets.1) htargets.2 hall rfl
  rw [hmanaged] at hreached hsteady
  -- The fault lets the call for the first record pass.
  have hseen : ¬Masked patient (worldWith families [bare, absent] faults) bare := by
    rintro ⟨-, -, reached, hturn, failure, hstrike, -⟩
    have hdistinct := List.nodup_cons.mp (List.Nodup.of_map target htargets.1)
    rw [hturn.eq_found hfind hdistinct.1, hfaults] at hstrike
    cases hstrike
  have hone := hreached bare List.mem_cons_self
  have htwo := hreached absent (List.mem_cons_of_mem _ List.mem_cons_self)
  refine ⟨_, after, absent, other, habsent, hother, by rw [hfamilies, hfaults], hall,
    hone.inSync rfl hseen, htwo.reset (by rw [habsent]; rfl) (by rw [habsent]; rfl),
    htwo.released (by rw [habsent]; rfl), hsteady other fun record hrecord hown => ?_⟩
  -- No record stands for the third family.
  have hapart : ∀ record ∈ [bare, absent], target record ≠ other := by
    subst habsent hother
    decide
  exact absurd hown (hapart record hrecord)

/-- A call for a table that fails as if the table were missing. -/
def tableGone : Fault := ⟨.getTable, 0, .plain "gone" (some (.number 5))⟩

/-- When a fault hides its table, a family that is to have no policy may keep one. -/
theorem not_inSync_of_hidden :
    (worldWith [("f", twoVersions)] [bare] [tableGone]).ledger.managed = [bare] ∧
      ∃ after, patient.reconcileAll false (worldWith [("f", twoVersions)] [bare] [tableGone]) =
        (.ok ⟨1, 0⟩, after) ∧ ¬patient.InSync after bare := by
  obtain ⟨after, hrun, hafter⟩ : ∃ after,
      patient.reconcileRecord bare false (foundIn [("f", twoVersions)] [bare] [tableGone]) =
        (.ok true, after) ∧ ¬patient.InSync after bare := by
    refine ⟨_, rfl, ?_⟩
    rintro ⟨drift, compared, hdrift, hsame⟩
    obtain rfl : ⟨true, .noGc, .maxVersions 2⟩ = drift := Except.ok.inj (congrArg Prod.fst hdrift)
    cases hsame
  obtain ⟨hmanaged, hall⟩ := reconcileAll_worldWith [bare] (by simp; rfl)
    (List.pairwise_singleton _ _) (by decide) (reconcileRecords_cons_of_ok hrun rfl)
  exact ⟨hmanaged, after, hall, hafter⟩

/-- A record whose family is to keep what is younger than five seconds. -/
def aged : PolicyRecord :=
  recordOf "policy-1" "f" (.object [("max_age", .string "5s")]) .default .present

/-- A family with that policy, where the seconds of its age are a text. -/
def fiveSeconds : Json :=
  .object [("gcRule", .object [("maxAge", .object [("seconds", .string "5")])])]

/-- When a fault hides its table, a family in sync may be given its policy in another form. -/
theorem family?_ne_of_hidden :
    (worldWith [("f", fiveSeconds)] [aged] [tableGone]).ledger.managed = [aged] ∧
      patient.InSync (worldWith [("f", fiveSeconds)] [aged] [tableGone]) aged ∧
      ∃ after, patient.reconcileAll false (worldWith [("f", fiveSeconds)] [aged] [tableGone]) =
        (.ok ⟨1, 0⟩, after) ∧ after.family? (target aged) ≠
          (worldWith [("f", fiveSeconds)] [aged] [tableGone]).family? (target aged) := by
  obtain ⟨history, started, finding, done, hcreate, hattempt, happly⟩ :
      ∃ history started finding done,
        createHistory (start aged false "now") (foundIn [("f", fiveSeconds)] [aged] [tableGone]) =
          (.ok history, started) ∧
        patient.attempt aged false history started = (.ok finding, done) ∧
        finding.action = .apply :=
    ⟨_, _, ⟨.apply, true, .object [("max_age", .string "5s")]⟩, _, rfl, rfl, rfl⟩
  obtain ⟨hmanaged, hall⟩ := reconcileAll_worldWith [aged] (by simp; rfl)
    (List.pairwise_singleton _ _) (by decide)
    (reconcileRecords_cons_of_ok (reconcileRecord_of_attempt hcreate hattempt) rfl)
  refine ⟨hmanaged, ⟨_, _, rfl, rfl⟩, _, hall, ?_⟩
  -- The family was given the message of its policy, in which the seconds are a number.
  obtain ⟨worked, hwork, hside, -⟩ := attempt_eq_ok hattempt
  obtain ⟨desired, hdesired, hgiven⟩ := (worked_of_work hwork).given_of_apply happly
  have hread : Policy.ofText aged.rules? = .ok (.maxAge 5) := rfl
  obtain rfl : .maxAge 5 = desired := Except.ok.inj (hread.symm.trans hdesired)
  have hdone : (count finding.action .success done).2.family? (target aged) =
      worked.family? (target aged) := family?_congr hside.tables_eq _
  rw [hdone, hgiven]
  intro heq
  cases Option.some.inj heq

/-- What is said of hidden tables cannot be dropped: a fault that hides one makes a run without
failures leave a family that has drifted, or change one that is in sync. -/
theorem not_converges_of_hidden :
    ((worldWith [("f", twoVersions)] [bare] [tableGone]).ledger.managed = [bare] ∧
      ∃ after, patient.reconcileAll false (worldWith [("f", twoVersions)] [bare] [tableGone]) =
        (.ok ⟨1, 0⟩, after) ∧ ¬patient.InSync after bare) ∧
    ((worldWith [("f", fiveSeconds)] [aged] [tableGone]).ledger.managed = [aged] ∧
      patient.InSync (worldWith [("f", fiveSeconds)] [aged] [tableGone]) aged ∧
      ∃ after, patient.reconcileAll false (worldWith [("f", fiveSeconds)] [aged] [tableGone]) =
        (.ok ⟨1, 0⟩, after) ∧ after.family? (target aged) ≠
          (worldWith [("f", fiveSeconds)] [aged] [tableGone]).family? (target aged)) :=
  ⟨not_inSync_of_hidden, family?_ne_of_hidden⟩

end Retention.Reconciler
