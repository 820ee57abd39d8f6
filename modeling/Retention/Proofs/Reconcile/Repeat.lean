import Retention.Proofs.Reconcile.Idle
import Retention.Proofs.Reconcile.Series

/-!
# Reconciling again

After a run without failures the managed records are those that are to be present, and their families
are in sync. When no fault waits any more, a further run finds just these records, says of each that
there was nothing to do, and leaves everything else as it is.

## Main definitions

* `Reconciler.unapplied`: a record without the mark that it was applied.

## Main results

* `Reconciler.policies_of_reconcileRecords`: what a run without failures makes of the policy rows.
* `Reconciler.managed_of_reconcileAll`: the records that are managed after such a run.
* `Reconciler.reconcileAll_repeats`: the run after it.
* `Reconciler.not_repeats_of_hidden`: what a further run may find when a fault has hidden a table.
-/

namespace Retention.Reconciler

open World

variable {reconciler : Reconciler} {record : PolicyRecord} {records : List PolicyRecord}
  {before between after : World}

/-! ### The policy rows -/

/-- A record without the mark that it was applied. -/
def unapplied (record : PolicyRecord) : PolicyRecord := { record with lastApplied := false }

/-- A run without failures changes policy rows one by one, and leaves them their ids. -/
theorem policies_of_reconcileRecords
    (h : reconciler.reconcileRecords false records before = (.ok 0, after)) :
    ∃ change : PolicyRecord → PolicyRecord, (∀ row, (change row).id = row.id) ∧
      after.ledger.tables.policies = before.ledger.tables.policies.map change := by
  induction records generalizing before with
  | nil =>
    obtain ⟨-, rfl⟩ := Prod.mk.inj h
    exact ⟨id, fun _ => rfl, (List.map_id _).symm⟩
  | cons record rest ih =>
    obtain ⟨next, hrecord, hrest⟩ := reconcileRecords_cons_eq_zero h
    obtain ⟨change, hid, hpolicies⟩ := ih hrest
    obtain ⟨history, started, worked, finding, hcreate, -, -, hledger⟩ :=
      reconcileRecord_eq_true hrecord
    have hnext := policies_of_concluded hcreate hledger
    split at hnext
    · exact ⟨change, hid, by rw [hpolicies, hnext]⟩
    · refine ⟨change ∘ fun row => if row.id = record.id then marked finding.action row else row,
        fun row => ?_, by rw [hpolicies, hnext, List.map_map]⟩
      rw [Function.comp_apply, hid]
      split
      · exact id_marked _ row
      · rfl

/-- Where rows have ids of their own, each one becomes the one row with its id. -/
theorem rowsOf_map {tables later : LedgerTables} {change : PolicyRecord → PolicyRecord}
    (hids : (tables.policies.map PolicyRecord.id).Nodup) (hid : ∀ row, (change row).id = row.id)
    (hpolicies : later.policies = tables.policies.map change) (hrecord : record ∈ tables.policies) :
    later.rowsOf record.id = [change record] := by
  have hlater : later.policies.map PolicyRecord.id = tables.policies.map PolicyRecord.id := by
    rw [hpolicies, List.map_map]
    exact List.map_congr_left fun row _ => hid row
  rw [← hid record]
  exact LedgerTables.rowsOf_eq_singleton (hlater ▸ hids)
    (hpolicies ▸ List.mem_map_of_mem hrecord)

section Rows

variable {summary : Summary} (hfamilies : (before.ledger.managed.map target).Nodup)
  (hids : (before.ledger.tables.policies.map PolicyRecord.id).Nodup)
  (h : reconciler.reconcileAll false before = (.ok summary, after)) (hfailed : summary.failed = 0)

include hfamilies hids h hfailed

/-- What a run without failures makes of the policy rows: a row is managed afterwards when it was so
and is to be present, and it is then the same but for the mark that it was applied. -/
theorem exists_change_of_reconcileAll : ∃ change : PolicyRecord → PolicyRecord,
    after.ledger.tables.policies = before.ledger.tables.policies.map change ∧
      ∀ row ∈ before.ledger.tables.policies,
        (change row).isManaged = (decide (row.desired = .present) && row.isManaged) ∧
          (row.isManaged = true → row.desired = .present →
            unapplied (change row) = unapplied row) := by
  obtain ⟨found, -, -, hledger, hrun⟩ := reconcileAll_eq_zero h hfailed
  obtain ⟨change, hid, hpolicies⟩ := policies_of_reconcileRecords hrun
  rw [hledger] at hpolicies
  refine ⟨change, hpolicies, fun row hmem => ?_⟩
  have hrow : after.ledger.tables.rowsOf row.id = [change row] :=
    rowsOf_map hids hid hpolicies hmem
  cases hmanaged : row.isManaged with
  | false =>
    -- No record of the run has the id of a row that is not managed.
    have hne : ∀ other ∈ before.ledger.managed, other.id ≠ row.id := by
      intro other hother heq
      obtain ⟨hotherMem, hotherManaged⟩ := Ledger.mem_managed.mp hother
      obtain rfl := List.inj_on_of_nodup_map hids hotherMem hmem heq
      rw [hmanaged] at hotherManaged
      cases hotherManaged
    have hsame := rowsOf_of_reconcileRecords hrun hne
    rw [hledger, LedgerTables.rowsOf_eq_singleton hids hmem, hrow] at hsame
    rw [List.singleton_inj.mp hsame, hmanaged, Bool.and_false]
    exact ⟨rfl, nofun⟩
  | true =>
    have hrecord := reached_of_reconcileAll hfamilies hids h hfailed
      (Ledger.mem_managed.mpr ⟨hmem, hmanaged⟩)
    cases hdesired : row.desired with
    | present =>
      obtain ⟨kept, applied, hkept, heq, hstill⟩ := hrecord.managed hdesired
      obtain rfl : change row = kept := List.singleton_inj.mp (hrow.symm.trans hkept)
      exact ⟨hstill, fun _ _ => by rw [heq]; rfl⟩
    | absent =>
      rw [List.singleton_inj.mp (hrow.symm.trans (hrecord.released hdesired))]
      exact ⟨Bool.and_false _, nofun⟩

/-- After a run without failures the managed records are those that are to be present, apart from the
mark that they were applied. -/
theorem managed_of_reconcileAll : (after.ledger.managed.map unapplied).Perm
    ((before.ledger.managed.filter fun record => record.desired = .present).map unapplied) := by
  obtain ⟨change, hpolicies, hchange⟩ := exists_change_of_reconcileAll hfamilies hids h hfailed
  have hstill : ∀ row ∈ before.ledger.tables.policies, (PolicyRecord.isManaged ∘ change) row =
      (decide (row.desired = .present) && row.isManaged) := fun row hmem => (hchange row hmem).1
  have hafter : (after.ledger.tables.policies.filter PolicyRecord.isManaged).map unapplied =
      ((before.ledger.tables.policies.filter PolicyRecord.isManaged).filter fun record =>
        record.desired = .present).map unapplied := by
    rw [hpolicies, List.filter_map, List.filter_filter, List.map_map, List.filter_congr hstill]
    refine List.map_congr_left fun row hrow => ?_
    obtain ⟨hmem, hkept⟩ := List.mem_filter.mp hrow
    rw [Bool.and_eq_true, decide_eq_true_eq] at hkept
    exact (hchange row hmem).2 hkept.2 hkept.1
  -- Both lists are sorted from what is kept of the rows.
  refine ((List.mergeSort_perm _ _).map unapplied).trans ?_
  rw [hafter]
  exact (((List.mergeSort_perm _ _).filter _).map unapplied).symm

end Rows

/-! ### A further run -/

/-- **Reconciling again.** When no two managed records stand for the same family and ids tell the
records apart, let a run have no failures and leave no fault waiting, and let no fault have hidden
the drift of a record that is to be present. Then a further run finds the records that are to be
present and no others. It says of each of them that there was nothing to do; it makes no call that
changes a family, and leaves tables, policy rows and the outbox as they are. -/
theorem reconcileAll_repeats {summary : Summary}
    (hfamilies : (before.ledger.managed.map target).Nodup)
    (hids : (before.ledger.tables.policies.map PolicyRecord.id).Nodup)
    (hseen : ∀ record ∈ before.ledger.managed, record.desired = .present →
      ¬Masked reconciler before record)
    (h : reconciler.reconcileAll false before = (.ok summary, between))
    (hfailed : summary.failed = 0) (hfaults : between.faults = []) :
    (between.ledger.managed.map unapplied).Perm ((before.ledger.managed.filter fun record =>
        record.desired = .present).map unapplied) ∧
      ∃ after, reconciler.reconcileAll false between =
          (.ok ⟨(before.ledger.managed.filter fun record => record.desired = .present).length, 0⟩,
            after) ∧
        Unmoved between after ∧ List.Forall₂ Idled between.ledger.managed
          (between.ledger.tables.addedRows after.ledger.tables) := by
  have hinSync : ∀ record ∈ before.ledger.managed, record.desired = .present →
      reconciler.InSync between record := fun record hrecord hpresent =>
    (reached_of_reconcileAll hfamilies hids h hfailed hrecord).inSync hpresent
      (hseen record hrecord hpresent)
  have hmanaged := managed_of_reconcileAll hfamilies hids h hfailed
  have hall : ∀ record ∈ between.ledger.managed,
      record.desired = .present ∧ reconciler.InSync between record := by
    intro record hrecord
    obtain ⟨earlier, hearlier, heq⟩ :=
      List.mem_map.mp (hmanaged.subset (List.mem_map_of_mem hrecord))
    obtain ⟨hmem, hpresent⟩ : earlier ∈ before.ledger.managed ∧ earlier.desired = .present := by
      simpa using hearlier
    have hsame : (unapplied record).desired = .present ∧
        reconciler.InSync between (unapplied record) := by
      rw [← heq]
      exact ⟨hpresent, hinSync earlier hmem hpresent⟩
    exact hsame
  obtain ⟨after, hagain, hmoved, hidled⟩ := reconcileAll_of_inSync hfaults hall
  have hlength : between.ledger.managed.length =
      (before.ledger.managed.filter fun record => record.desired = .present).length := by
    simpa using hmanaged.length_eq
  rw [hlength] at hagain
  exact ⟨hmanaged, after, hagain, hmoved, hidled⟩

/-- A run over one record that is given its policy though a fault hides its table, and over one that
is released: the next run finds the first one alone, and there is nothing to do. -/
theorem reconcileAll_repeats_hidden : ∃ before between after absent,
    absent = recordOf "policy-2" "g" .null .abandon .absent ∧
      before = worldWith [("f", fiveSeconds)] [aged, absent] [tableGone] ∧
      patient.reconcileAll false before = (.ok ⟨2, 0⟩, between) ∧ between.faults = [] ∧
      patient.reconcileAll false between = (.ok ⟨1, 0⟩, after) ∧ Unmoved between after := by
  obtain ⟨absent, habsent⟩ : ∃ record, record = recordOf "policy-2" "g" .null .abandon .absent :=
    ⟨_, rfl⟩
  obtain ⟨next, between, hfirst, hsecond, hnone⟩ : ∃ next between,
      patient.reconcileRecord aged false
          (foundIn [("f", fiveSeconds)] [aged, absent] [tableGone]) = (.ok true, next) ∧
        patient.reconcileRecord absent false next = (.ok true, between) ∧ between.faults = [] := by
    subst habsent
    exact ⟨_, _, rfl, rfl, rfl⟩
  obtain ⟨hmanaged, hall⟩ := reconcileAll_worldWith [aged, absent]
    (by subst habsent; simp; exact ⟨rfl, rfl⟩) (by subst habsent; simp; rfl)
    (by decide) (reconcileRecords_cons_of_ok hfirst (reconcileRecords_cons_of_ok hsecond rfl))
  have hkeys : ([aged, absent].map target).Nodup ∧ ([aged, absent].map PolicyRecord.id).Nodup := by
    subst habsent
    decide
  have hseen : ∀ record ∈ [aged, absent], record.desired = .present →
      Policy.ofText record.rules? ≠ .ok .noGc := by
    intro record hrecord hpresent
    rcases List.mem_cons.mp hrecord with rfl | hrecord
    · intro hnoGc
      cases Except.ok.inj ((rfl : Policy.ofText aged.rules? = .ok (.maxAge 5)).symm.trans hnoGc)
    · rw [List.mem_singleton.mp hrecord, habsent] at hpresent
      cases hpresent
  have hkept : ([aged, absent].filter fun record => record.desired = .present).length = 1 := by
    subst habsent
    rfl
  obtain ⟨-, after, hagain, hmoved, -⟩ := reconcileAll_repeats (by rw [hmanaged]; exact hkeys.1)
    hkeys.2 (fun record hrecord hpresent hmasked =>
      hseen record (hmanaged ▸ hrecord) hpresent hmasked.rules_eq) hall rfl hnone
  rw [hmanaged, hkept] at hagain
  exact ⟨_, between, after, absent, habsent, rfl, hall, hnone, hagain, hmoved⟩

/-- A drift that was masked is left to the second run: when a fault has hidden its table, a family
that is to have no policy is set by that run only. -/
theorem not_repeats_of_hidden : ∃ between after,
    (worldWith [("f", twoVersions)] [bare] [tableGone]).ledger.managed = [bare] ∧
      patient.reconcileAll false (worldWith [("f", twoVersions)] [bare] [tableGone]) =
        (.ok ⟨1, 0⟩, between) ∧ between.faults = [] ∧
      patient.reconcileAll false between = (.ok ⟨1, 0⟩, after) ∧
      between.modifications.length = 0 ∧ after.modifications.length = 1 := by
  obtain ⟨between, after, hfirst, hpolicies, hnone, hsecond, hbetween, hafter⟩ :
      ∃ between after,
        patient.reconcileRecord bare false (foundIn [("f", twoVersions)] [bare] [tableGone]) =
          (.ok true, between) ∧ between.ledger.tables.policies = [bare] ∧ between.faults = [] ∧
        patient.reconcileRecord bare false { between with
          traffic := between.traffic ++ [.statement .pool .findManaged] } = (.ok true, after) ∧
        between.modifications.length = 0 ∧ after.modifications.length = 1 :=
    ⟨_, _, rfl, rfl, rfl, rfl, rfl, rfl⟩
  obtain ⟨hmanaged, hall⟩ := reconcileAll_worldWith [bare] (by simp; rfl)
    (List.pairwise_singleton _ _) (by decide) (reconcileRecords_cons_of_ok hfirst rfl)
  exact ⟨between, after, hmanaged, hall, hnone, reconcileAll_single rfl hpolicies hnone hsecond,
    hbetween, hafter⟩

end Retention.Reconciler
