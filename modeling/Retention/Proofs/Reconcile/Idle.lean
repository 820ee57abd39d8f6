import Retention.Proofs.Reconcile.Healing

/-!
# Runs with nothing to do

Where no fault waits and every managed record is to be present and has its family in sync, a run
succeeds for all of them and leaves everything but the history as it is: no call changes a family,
no policy record is touched, and no event goes out. The history says that nothing was done.

## Main definitions

* `World.modifications`: the calls that change a family.
* `World.Unmoved`: only the history and what is asked may be different.
* `Reconciler.Idled`: a history row of a record about which nothing was done.

## Main results

* `Reconciler.reconcileAll_of_inSync`: a run over families that are in sync.
-/

namespace Retention

namespace World

/-- The calls that change a family, in order. -/
def modifications (world : World) : List AdminCall := world.calls.filter AdminCall.isModification

/-- No table has changed, and no call was made that changes one. -/
structure Unmodified (before after : World) : Prop where
  tables_eq : after.tables = before.tables
  modifications_eq : after.modifications = before.modifications

instance : Std.Refl Unmodified := ⟨fun _ => ⟨rfl, rfl⟩⟩

instance : IsTrans World Unmodified := ⟨fun _ _ _ h h' =>
  ⟨h'.tables_eq.trans h.tables_eq, h'.modifications_eq.trans h.modifications_eq⟩⟩

/-- Besides, the policy records and the outbox are as they were. -/
structure Unmoved (before after : World) : Prop extends Unmodified before after where
  policies_eq : after.ledger.tables.policies = before.ledger.tables.policies
  outbox_eq : after.ledger.tables.outbox = before.ledger.tables.outbox

theorem Unmoved.refl (world : World) : Unmoved world world := ⟨⟨rfl, rfl⟩, rfl, rfl⟩

theorem Unmoved.trans {first second third : World} (h : Unmoved first second)
    (h' : Unmoved second third) : Unmoved first third :=
  ⟨IsTrans.trans _ _ _ h.toUnmodified h'.toUnmodified, h'.policies_eq.trans h.policies_eq,
    h'.outbox_eq.trans h.outbox_eq⟩

theorem AdminSame.unmodified {before after : World} (h : AdminSame before after) :
    Unmodified before after :=
  ⟨h.tables_eq, by rw [modifications, h.calls_eq, modifications]⟩

/-- Asking for a table changes none. -/
theorem unmodified_getTable (table : Text) (timeout limit : Option Json) :
    (Store.send ⟨none, timeout⟩ (.getTable table limit) (showTable table)).Keeps Unmodified := by
  have hnote : (noteCall (.getTable table limit)).Keeps Unmodified := Step.keeps_modify fun world =>
    ⟨rfl, by rw [modifications, List.filter_append]; exact List.append_nil _⟩
  have hshow : (showTable table).Keeps Unmodified :=
    have hstrike : (strike .getTable).Keeps Unmodified := fun world =>
      (ledgerOnly_strike _ world).unmodified
    hstrike.bind fun _ world => by split <;> exact Std.Refl.refl _
  exact hnote.bind fun _ => hshow.mapFailure _

end World

namespace Reconciler

open World

variable {reconciler : Reconciler} {record : PolicyRecord} {records : List PolicyRecord}
  {before : World}

/-- A history row says that a record succeeded and that there was nothing to do. -/
structure Idled (record : PolicyRecord) (row : HistoryRow) : Prop where
  policy_eq : row.policy = record.id
  action_eq : row.action = some .noop
  driftDetected_eq : row.driftDetected = false
  status_eq : row.status = .success
  error_eq : row.error = none

/-- Where no fault waits, the work on a family that is in sync finds nothing to do. -/
theorem work_of_inSync (hfaults : before.Faultless) (hpresent : record.desired = .present)
    (hsync : reconciler.InSync before record) : ∃ expected after,
      reconciler.work record false before = (.ok ⟨.noop, false, expected⟩, after) ∧
        Unmodified before after := by
  obtain ⟨hcheck, desired, live, hdesired, hpolicy, hdiffers⟩ := inSync_iff.mp hsync
  obtain ⟨text, htext⟩ := (Policy.authored_of_ofText hdesired).exists_text
  obtain ⟨compared, hseen⟩ := (Store.live_of_faults_nil reconciler.store (target record)
    reconciler.timeout hfaults).mpr ⟨hcheck, hpolicy⟩
  have hdrift : reconciler.store.drift (target record) record.rules? reconciler.options before =
      (.ok ⟨false, desired, live⟩, compared) :=
    Store.drift_eq_ok_iff.mpr ⟨hdesired, hseen, hdiffers⟩
  have hwork : reconciler.work record false = reconciler.converge record false := by
    rw [work, hpresent]
  rw [hwork]
  exact ⟨_, compared, converge_of_not_drifted hdrift htext rfl,
    (Store.keeps_drift (unmodified_getTable _ _ _) _).of_eq hdrift⟩

/-- Where no fault waits, a record that is in sync succeeds, and only its history row is new. -/
theorem reconcileRecord_of_inSync (hfaults : before.Faultless) (hpresent : record.desired = .present)
    (hsync : reconciler.InSync before record) : ∃ row after,
      reconciler.reconcileRecord record false before = (.ok true, after) ∧ after.Faultless ∧
        Unmoved before after ∧ before.ledger.Extends after.ledger [row] [] ∧ Idled record row := by
  have hworks {started : World} (honly : LedgerOnly before started) :=
    work_of_inSync (Faultless.mono hfaults honly.faults_sublist) hpresent
      (hsync.congr (family?_congr honly.tables_eq _))
  obtain ⟨after, hrun⟩ := exists_reconcileRecord hfaults fun started honly => by
    obtain ⟨_, worked, hwork, -⟩ := hworks honly
    exact ⟨_, worked, hwork⟩
  obtain ⟨history, started, worked, finding, hcreate, hwork, hside, hledger⟩ :=
    reconcileRecord_eq_true hrun
  have honly := (createHistory_cases hcreate).1
  obtain ⟨expected, _, hnoop, hworked⟩ := hworks honly
  obtain ⟨⟨⟩, rfl⟩ := Prod.mk.inj (hwork.symm.trans hnoop)
  have hused := ((adminOnly_work reconciler record false).of_eq hwork).faults_sublist
  have hextends := extends_of_concluded hcreate hledger
  have hmodified : Unmodified before after := IsTrans.trans _ _ _ honly.unmodified
    (IsTrans.trans _ _ _ hworked hside.unmodified)
  exact ⟨_, after, hrun,
    Faultless.mono hfaults (hside.faults_sublist.trans (hused.trans honly.faults_sublist)),
    ⟨hmodified, policies_of_concluded hcreate hledger, hextends.outbox.trans (List.append_nil _)⟩,
    hextends, rfl, rfl, rfl, rfl, rfl⟩

theorem reconcileRecords_of_inSync (hfaults : before.Faultless)
    (hall : ∀ record ∈ records, record.desired = .present ∧ reconciler.InSync before record) :
    ∃ rows after, reconciler.reconcileRecords false records before = (.ok 0, after) ∧
      Unmoved before after ∧ before.ledger.Extends after.ledger rows [] ∧
      List.Forall₂ Idled records rows := by
  induction records generalizing before with
  | nil => exact ⟨[], before, rfl, Unmoved.refl before, .refl _, .nil⟩
  | cons record rest ih =>
    obtain ⟨hpresent, hsync⟩ := hall record List.mem_cons_self
    obtain ⟨row, next, hrecord, hnext, hmoved, hadded, hidled⟩ :=
      reconcileRecord_of_inSync hfaults hpresent hsync
    obtain ⟨rows, after, hrest, hmoved', hadded', hidled'⟩ := ih hnext fun other hother => by
      obtain ⟨hpresent, hsync⟩ := hall other (List.mem_cons_of_mem _ hother)
      exact ⟨hpresent, hsync.congr (family?_congr hmoved.tables_eq _)⟩
    exact ⟨row :: rows, after, reconcileRecords_cons_of_ok hrecord hrest, hmoved.trans hmoved',
      hadded.trans hadded', .cons hidled hidled'⟩

/-- **Nothing to do.** Where no fault waits and every managed record is to be present and is in sync,
a run succeeds for all records, says so in one history row for each, and leaves families, policy
records and the outbox as they are. -/
theorem reconcileAll_of_inSync (hfaults : before.Faultless)
    (hall : ∀ record ∈ before.ledger.managed,
      record.desired = .present ∧ reconciler.InSync before record) :
    ∃ after, reconciler.reconcileAll false before = (.ok ⟨before.ledger.managed.length, 0⟩, after) ∧
      Unmoved before after ∧ List.Forall₂ Idled before.ledger.managed
        (before.ledger.tables.addedRows after.ledger.tables) := by
  obtain ⟨found, hfind, honly, hledger⟩ := exists_ask .findManaged Ledger.managed hfaults
  obtain ⟨rows, after, hrun, hmoved, hadded, hidled⟩ :=
    reconcileRecords_of_inSync (Faultless.mono hfaults honly.faults_sublist) fun record hrecord => by
      obtain ⟨hpresent, hsync⟩ := hall record hrecord
      exact ⟨hpresent, hsync.congr (family?_congr honly.tables_eq _)⟩
  have hmovedFound : Unmoved before found :=
    ⟨honly.unmodified, by rw [hledger], by rw [hledger]⟩
  rw [hledger] at hadded
  exact ⟨after, reconcileAll_of_ok hfind hrun, hmovedFound.trans hmoved,
    by rwa [hadded.addedRows_eq]⟩

end Reconciler

end Retention
