import Retention.Proofs.Ledger
import Retention.Proofs.Store.Drift
import Retention.Proofs.Store.Side
import Retention.Proofs.Transaction
import Retention.Reconcile

/-!
# What reconciling one record can do

Reconciling a record goes one of three ways. No history row can be created, and nothing is done.
Or the row is created, but the work or the transaction that ends it fails: then the row is all that
was added to the ledger, and it may say that the record failed. Or everything passes, and the ledger
is what the statements of the transaction make of it.

## Main definitions

* `Reconciler.concluded`: the ledger after the statements that end a record's work.
* `Reconciler.Course`: the ways in which reconciling a record can go.

## Main results

* `Reconciler.reconcileRecord_eq_true`: what is known of a record that succeeded.
* `Reconciler.course_of_reconcileRecord`: every run of a record goes one of these ways.
* `Reconciler.Course.atRest`: the world is at rest again after a record.
-/

namespace Retention.Reconciler

open World

/-! ### The work -/

/-- The work on a record's family leaves alone what its calls do. In a dry run it sets nothing. -/
theorem keeps_work {relation : World → World → Prop} [Std.Refl relation] [IsTrans World relation]
    {reconciler : Reconciler} {record : PolicyRecord} {dryRun : Bool}
    (hget : (Store.send reconciler.options
      (.getTable (target record).table (reconciler.store.timeout reconciler.options))
      (showTable (target record).table)).Keeps relation)
    (hset : dryRun = false → ∀ message, (Store.send reconciler.options
      (.modifyFamilies (target record).table (target record).family message
        (reconciler.store.timeout reconciler.options))
      (modifyFamily (target record).table (target record).family message)).Keeps relation) :
    (reconciler.work record dryRun).Keeps relation := by
  unfold work
  split
  · refine (Store.keeps_drift hget _).bind fun drift => (Step.keeps_ofExcept _).bind fun _ => ?_
    split
    · exact Step.keeps_pure _
    · split
      · exact Step.keeps_pure _
      · next hwet =>
        exact (Store.keeps_apply (hset (by simpa using hwet)) _).bind fun _ =>
          (Step.keeps_ofExcept _).bind fun _ => Step.keeps_pure _
  · unfold release
    split
    · exact Step.keeps_pure _
    · next hwet =>
      exact (Store.keeps_release (hset (by simpa using hwet)) _).bind fun _ => Step.keeps_pure _

/-- The work on a record's family touches the admin API alone. -/
theorem adminOnly_work (reconciler : Reconciler) (record : PolicyRecord) (dryRun : Bool) :
    (reconciler.work record dryRun).Keeps AdminOnly :=
  keeps_work (Store.adminOnly_send _ _ (adminOnly_showTable _))
    fun _ _ => Store.adminOnly_send _ _ (adminOnly_modifyFamily _ _ _)

/-- What the work on a record's family has done, by what it found. -/
inductive Worked (reconciler : Reconciler) (record : PolicyRecord) (dryRun : Bool)
    (before : World) : Finding → World → Prop
  | noop {drift : Drift} {expected : Option Json} {after : World}
      (hdesired : record.desired = .present)
      (hdrift : reconciler.store.drift (target record) record.rules? reconciler.options before =
        (.ok drift, after)) (hexpected : drift.desired.text = .ok expected)
      (hdrifted : drift.drifted = false) :
      Worked reconciler record dryRun before ⟨.noop, false, expected.getD .null⟩ after
  | drifted {drift : Drift} {expected : Option Json} {after : World}
      (hdesired : record.desired = .present) (hdryRun : dryRun = true)
      (hdrift : reconciler.store.drift (target record) record.rules? reconciler.options before =
        (.ok drift, after)) (hexpected : drift.desired.text = .ok expected)
      (hdrifted : drift.drifted = true) :
      Worked reconciler record dryRun before ⟨.drift, true, expected.getD .null⟩ after
  | applied {drift : Drift} {expected rules : Option Json} {applied : Policy}
      {compared after : World}
      (hdesired : record.desired = .present) (hdryRun : dryRun = false)
      (hdrift : reconciler.store.drift (target record) record.rules? reconciler.options before =
        (.ok drift, compared)) (hexpected : drift.desired.text = .ok expected)
      (hdrifted : drift.drifted = true)
      (hset : reconciler.store.setPolicy (target record) drift.desired reconciler.options compared =
        (.ok applied, after)) (hrules : applied.text = .ok rules) :
      Worked reconciler record dryRun before ⟨.apply, true, rules.getD .null⟩ after
  | pending (hdesired : record.desired = .absent) (hdryRun : dryRun = true) :
      Worked reconciler record dryRun before ⟨.drift, true, .null⟩ before
  | released {after : World} (hdesired : record.desired = .absent) (hdryRun : dryRun = false)
      (hrelease : reconciler.store.release (target record) record.deletionMode reconciler.options
        before = (.ok (), after)) :
      Worked reconciler record dryRun before ⟨releaseAction record.deletionMode, false, .null⟩ after

/-- Work that ends with a finding has done what it found. -/
theorem worked_of_work {reconciler : Reconciler} {record : PolicyRecord} {dryRun : Bool}
    {before after : World} {finding : Finding}
    (h : reconciler.work record dryRun before = (.ok finding, after)) :
    Worked reconciler record dryRun before finding after := by
  cases hdesired : record.desired with
  | present =>
    have hwork : reconciler.work record dryRun = reconciler.converge record dryRun := by
      rw [work, hdesired]
    rw [hwork] at h
    obtain ⟨drift, compared, hdrift, hrest⟩ := Step.bind_eq_ok_iff.mp h
    obtain ⟨expected, hexpected, hfound⟩ := Step.ofExcept_bind_eq_ok_iff.mp hrest
    split at hfound
    · next hdrifted =>
      obtain ⟨⟨⟩, rfl⟩ := Prod.mk.inj hfound
      exact .noop hdesired hdrift hexpected (by simpa using hdrifted)
    · next hdrifted =>
      have hdrifted : drift.drifted = true := by simpa using hdrifted
      split at hfound
      · next hdryRun =>
        obtain ⟨⟨⟩, rfl⟩ := Prod.mk.inj hfound
        exact .drifted hdesired hdryRun hdrift hexpected hdrifted
      · next hdryRun =>
        obtain ⟨applied, _, happly, hended⟩ := Step.bind_eq_ok_iff.mp hfound
        obtain ⟨rules, hrules, ⟨⟩⟩ := Step.ofExcept_bind_eq_ok_iff.mp hended
        obtain ⟨policy, hpolicy, hset⟩ := Store.apply_eq_ok_iff.mp happly
        -- What is set is what the comparison was made with.
        obtain rfl : policy = drift.desired :=
          Except.ok.inj (hpolicy.symm.trans (Store.drift_eq_ok_iff.mp hdrift).1)
        exact .applied hdesired (by simpa using hdryRun) hdrift hexpected hdrifted hset hrules
  | absent =>
    have hwork : reconciler.work record dryRun = reconciler.release record dryRun := by
      rw [work, hdesired]
    rw [hwork, release] at h
    split at h
    · next hdryRun =>
      obtain ⟨⟨⟩, rfl⟩ := Prod.mk.inj h
      exact .pending hdesired hdryRun
    · next hdryRun =>
      obtain ⟨_, _, hrelease, ⟨⟩⟩ := Step.bind_eq_ok_iff.mp h
      exact .released hdesired (by simpa using hdryRun) hrelease

/-! ### The statements that end the work -/

/-- A record that something was done about, as its policy row then says. -/
def marked (action : Action) (record : PolicyRecord) : PolicyRecord :=
  if action = .apply then { record with lastApplied := true }
  else { record with released := true }

theorem id_marked (action : Action) (record : PolicyRecord) :
    (marked action record).id = record.id := by
  unfold marked
  split <;> rfl

/-- The end of a record that succeeded. -/
def success (finding : Finding) (now : Text) : HistoryEnd :=
  ⟨some finding.action, finding.driftDetected, .success, now, none⟩

/-- The ledger after the statements that end a record's work. -/
def concluded (record : PolicyRecord) (history : Text) (dryRun : Bool) (finding : Finding)
    (now : Text) (ledger : Ledger) : Ledger :=
  let ended := ledger.completeHistory history (success finding now)
  if dryRun || finding.action = .noop then ended
  else
    (if finding.action = .apply then ended.markApplied record.id
      else ended.markReleased record.id).publish (event record finding now)

variable {record : PolicyRecord} {history : Text} {dryRun : Bool} {finding : Finding}
  {world after : World}

/-- These statements change tables only. -/
theorem concluded_eq (now : Text) (ledger : Ledger) :
    concluded record history dryRun finding now ledger = { ledger with
      tables := (concluded record history dryRun finding now ledger).tables } := by
  unfold concluded
  split
  · rfl
  · split <;> rfl

/-- When nothing was done, the history row is all that these statements end. -/
theorem concluded_of_quiet (h : (dryRun || finding.action = .noop) = true) (now : Text)
    (ledger : Ledger) : concluded record history dryRun finding now ledger =
      ledger.completeHistory history (success finding now) := by
  rw [concluded, if_pos h]

/-- When something was done, the record is marked and an event goes out as well. -/
theorem concluded_of_not_quiet (h : ¬(dryRun || finding.action = .noop) = true) (now : Text)
    (ledger : Ledger) : concluded record history dryRun finding now ledger =
      ((ledger.completeHistory history (success finding now)).withPolicies (List.map fun other =>
        if other.id = record.id then marked finding.action other else other)).publish
          (event record finding now) := by
  rw [concluded, if_neg h]
  unfold marked
  split <;> rfl

/-- The policy rows with an id after these statements: those of the record are marked if anything was
done. -/
theorem rowsOf_concluded (now : Text) (ledger : Ledger) (id : Text) :
    (concluded record history dryRun finding now ledger).tables.rowsOf id =
      if (dryRun || finding.action = .noop) = false ∧ id = record.id then
        (ledger.tables.rowsOf id).map (marked finding.action)
      else ledger.tables.rowsOf id := by
  by_cases hquiet : (dryRun || finding.action = .noop) = true
  · rw [concluded_of_quiet hquiet, if_neg fun hdone => by simp [hquiet] at hdone]
    rfl
  · rw [concluded_of_not_quiet hquiet]
    refine (LedgerTables.filter_map_of_id (id_marked finding.action) record.id).trans ?_
    simp only [hquiet, true_and]
    rfl

/-- The statements that end the work change tables only. -/
theorem tablesOnly_conclusion (record : PolicyRecord) (history : Text) (dryRun : Bool)
    (finding : Finding) : (conclusion record history dryRun finding).Keeps TablesOnly := by
  have hmoment : moment.Keeps TablesOnly := fun _ => Std.Refl.refl _
  have hpublish (now : Text) : (publish (event record finding now)).Keeps TablesOnly :=
    fun world => tablesOnly_change (fun _ => rfl) world
  refine hmoment.bind fun now => (tablesOnly_change fun _ => rfl).bind fun _ => ?_
  split
  · exact Step.keeps_pure _
  · dsimp only
    split
    · exact (tablesOnly_change fun _ => rfl).bind fun _ => hpublish now
    · exact (tablesOnly_change fun _ => rfl).bind fun _ => hpublish now

/-- When all of these statements pass, each has had its effect. -/
theorem ledger_conclusion (h : conclusion record history dryRun finding world = (.ok (), after)) :
    after.ledger = concluded record history dryRun finding world.now world.ledger := by
  obtain ⟨now, _, ⟨⟩, hnow⟩ := Step.bind_eq_ok_iff.mp h
  obtain ⟨_, ended, hcomplete, hended⟩ := Step.bind_eq_ok_iff.mp hnow
  have hledger : ended.ledger =
      world.ledger.completeHistory history (success finding world.now) := ledger_change hcomplete
  rw [concluded, ← hledger]
  split at hended
  · next hquiet =>
    obtain ⟨-, rfl⟩ := Prod.mk.inj hended
    rw [if_pos hquiet]
  · next hquiet =>
    rw [if_neg hquiet]
    dsimp only at hended
    split at hended
    · next happly =>
      obtain ⟨_, marked, hmark, hpublish⟩ := Step.bind_eq_ok_iff.mp hended
      rw [ledger_change hpublish, ledger_change hmark, if_pos happly]
    · next happly =>
      obtain ⟨_, marked, hmark, hpublish⟩ := Step.bind_eq_ok_iff.mp hended
      rw [ledger_change hpublish, ledger_change hmark, if_neg happly]

/-! ### Failing -/

/-- What becomes of the ledger when a record fails: nothing, or its history row says so. -/
def FailureNoted (history : Option Text) (before after : Ledger) : Prop :=
  after = before ∨ ∃ id outcome, history = some id ∧ outcome.status = .failed ∧
    after = before.completeHistory id outcome

/-- Writing down a failure touches the ledger alone, and there at most the history row. -/
theorem recordFailure_cases {message : Text} {result : Except Failure Unit}
    (h : recordFailure history message world = (result, after)) :
    LedgerOnly world after ∧ FailureNoted (some history) world.ledger after.ledger := by
  obtain ⟨outcome, houtcome⟩ : ∃ outcome : HistoryEnd,
      outcome = ⟨none, false, .failed, world.now, some message⟩ := ⟨_, rfl⟩
  have hrun : recordFailure history message world =
      (completeHistory .pool history outcome).recover
        (fun failure => said failure >>= fun _ => pure ()) world := by rw [houtcome]; rfl
  rw [hrun] at h
  cases hcomplete : completeHistory .pool history outcome world with
  | mk ended stopped =>
    have honly : LedgerOnly world stopped := (ledgerOnly_change _ _ _).of_eq hcomplete
    cases ended with
    | ok _ =>
      rw [Step.recover_of_ok hcomplete] at h
      obtain ⟨-, rfl⟩ := Prod.mk.inj h
      exact ⟨honly, Or.inr ⟨history, outcome, rfl, by rw [houtcome], ledger_change hcomplete⟩⟩
    | error failure =>
      rw [Step.recover_of_error hcomplete] at h
      have hsaid : (said failure >>= fun _ => (pure () : Step World Unit)).Keeps Eq :=
        (Step.keeps_ofExcept _).bind fun _ => Step.keeps_pure _
      obtain rfl : stopped = after := hsaid.of_eq h
      exact ⟨honly, Or.inl (ledger_change_of_error hcomplete)⟩

theorem adminSame_of_count {action : Action} {status : Status}
    {result : Except Failure Unit} (h : count action status world = (result, after)) :
    AdminSame world after ∧ after.ledger = world.ledger := by
  obtain ⟨-, rfl⟩ := Prod.mk.inj h
  exact ⟨⟨rfl, rfl, rfl, rfl, rfl, rfl, List.Sublist.refl _⟩, rfl⟩

/-- A record that fails leaves the admin API as it is, and in the ledger at most its history row
changes. -/
theorem fail_cases {history : Option Text} {failure : Failure} {result : Except Failure Unit}
    (h : fail record history failure world = (result, after)) :
    AdminSame world after ∧ FailureNoted history world.ledger after.ledger := by
  obtain ⟨ended, stopped, hsaid⟩ : ∃ ended stopped, said failure world = (ended, stopped) :=
    ⟨_, _, rfl⟩
  obtain rfl : world = stopped := (Step.keeps_ofExcept _ : (said failure).Keeps Eq).of_eq hsaid
  cases ended with
  | error other =>
    rw [fail, Step.bind_of_error hsaid] at h
    obtain ⟨-, rfl⟩ := Prod.mk.inj h
    exact ⟨AdminSame.refl _, Or.inl rfl⟩
  | ok message =>
    rw [fail, Step.bind_of_ok hsaid] at h
    cases history with
    | none =>
      obtain ⟨hside, hledger⟩ := adminSame_of_count h
      exact ⟨hside, Or.inl hledger⟩
    | some history =>
      dsimp only at h
      cases hrecord : recordFailure history message world with
      | mk noted stopped =>
        obtain ⟨honly, hnoted⟩ := recordFailure_cases hrecord
        cases noted with
        | error other =>
          rw [Step.bind_of_error hrecord] at h
          obtain ⟨-, rfl⟩ := Prod.mk.inj h
          exact ⟨honly.toAdminSame, hnoted⟩
        | ok _ =>
          rw [Step.bind_of_ok hrecord] at h
          obtain ⟨hside, hledger⟩ := adminSame_of_count h
          exact ⟨honly.toAdminSame.trans hside, hledger ▸ hnoted⟩

/-! ### Starting -/

/-- A history row is created when the statement passes, and else nothing changes. -/
theorem createHistory_cases {start : HistoryStart} {result : Except Failure Text}
    (h : createHistory start world = (result, after)) :
    LedgerOnly world after ∧
      ((∃ failure, result = .error failure ∧ after.ledger = world.ledger) ∨
        (result = .ok (world.ledger.createHistory start).1 ∧
          after.ledger = (world.ledger.createHistory start).2)) :=
  ⟨(ledgerOnly_execute _ _ _).of_eq h, execute_cases _ _ _ h⟩

theorem atRest_of_createHistory {start : HistoryStart} {result : Except Failure Text}
    (hrest : world.AtRest) (h : createHistory start world = (result, after)) : after.AtRest := by
  rcases createHistory_cases h with ⟨honly, ⟨_, -, hledger⟩ | ⟨-, hledger⟩⟩
  · exact hrest.mono (by rw [hledger, hrest.savepoint_eq]) (by rw [hledger]) honly.faults_sublist
  · exact hrest.mono (by rw [hledger]; exact hrest.savepoint_eq) (by rw [hledger]; rfl)
      honly.faults_sublist

/-! ### The course of a record -/

/-- The ways in which reconciling a record can go. -/
inductive Course (reconciler : Reconciler) (record : PolicyRecord) (dryRun : Bool)
    (before after : World) : Except Failure Bool → Prop
  | unstarted {result : Except Failure Bool} (hresult : result ≠ .ok true)
      (hside : AdminSame before after) (hledger : after.ledger = before.ledger) :
      Course reconciler record dryRun before after result
  | failed {result : Except Failure Bool} {history : Text} {started worked : World}
      {outcome : Except Failure Finding} (hresult : result ≠ .ok true)
      (hstart : createHistory (start record dryRun before.now) before = (.ok history, started))
      (hwork : reconciler.work record dryRun started = (outcome, worked))
      (hside : AdminSame worked after)
      (hnoted : FailureNoted (some history) started.ledger after.ledger) :
      Course reconciler record dryRun before after result
  | succeeded {history : Text} {started worked : World} {finding : Finding}
      (hstart : createHistory (start record dryRun before.now) before = (.ok history, started))
      (hwork : reconciler.work record dryRun started = (.ok finding, worked))
      (hside : AdminSame worked after)
      (hledger : after.ledger =
        { concluded record history dryRun finding before.now started.ledger with
          savepoint := none }) :
      Course reconciler record dryRun before after (.ok true)

variable {reconciler : Reconciler}

/-- The statements that end the work do the same to the tables whether or not a transaction is
open. -/
theorem concluded_openTransaction (now : Text) (ledger : Ledger) :
    { concluded record history dryRun finding now ledger.openTransaction with savepoint := none } =
      { concluded record history dryRun finding now ledger with savepoint := none } := by
  unfold concluded
  split
  · rfl
  · split <;> rfl

/-- The work and the transaction that ends it both pass. -/
theorem attempt_eq_ok {started done : World}
    (h : reconciler.attempt record dryRun history started = (.ok finding, done)) :
    ∃ worked, reconciler.work record dryRun started = (.ok finding, worked) ∧
      AdminSame worked done ∧ done.ledger =
        { concluded record history dryRun finding started.now started.ledger with
          savepoint := none } := by
  obtain ⟨found, worked, hwork, hrest⟩ := Step.bind_eq_ok_iff.mp h
  obtain ⟨_, done, hdone, ⟨⟩⟩ := Step.bind_eq_ok_iff.mp hrest
  obtain ⟨opened, closing, hopened, hledger, hbody, hclosing, hafter⟩ := transaction_eq_ok hdone
  have hadmin := (adminOnly_work reconciler record dryRun).of_eq hwork
  have htables := (tablesOnly_conclusion record history dryRun finding).of_eq hbody
  refine ⟨worked, hwork,
    (hopened.trans (htables.toLedgerOnly.trans hclosing)).toAdminSame, ?_⟩
  rw [hafter, ledger_conclusion hbody, hledger, hopened.now_eq, hadmin.now_eq, hadmin.ledger_eq,
    concluded_openTransaction]

/-- The work fails, or the transaction that should end it does; then the ledger is as it was. -/
theorem attempt_eq_error {started done : World} {failure : Failure} (hrest : started.AtRest)
    (h : reconciler.attempt record dryRun history started = (.error failure, done)) :
    ∃ outcome worked, reconciler.work record dryRun started = (outcome, worked) ∧
      AdminSame worked done ∧ done.ledger = started.ledger := by
  rcases Step.bind_eq_error_iff.mp h with hwork | ⟨found, worked, hwork, htransaction⟩
  · have hadmin := (adminOnly_work reconciler record dryRun).of_eq hwork
    exact ⟨_, done, hwork, AdminSame.refl _, hadmin.ledger_eq⟩
  · have hadmin := (adminOnly_work reconciler record dryRun).of_eq hwork
    have hworked : worked.AtRest := hrest.mono (by rw [hadmin.ledger_eq, hrest.savepoint_eq])
      (by rw [hadmin.ledger_eq]) hadmin.faults_sublist
    rcases Step.bind_eq_error_iff.mp htransaction with hfailed | ⟨_, _, _, hpure⟩
    · obtain ⟨hledger, honly⟩ :=
        transaction_eq_error hworked (tablesOnly_conclusion record history dryRun found) hfailed
      exact ⟨_, worked, hwork, honly.toAdminSame, hledger.trans hadmin.ledger_eq⟩
    · cases hpure

/-- A record whose work and transaction pass succeeds. -/
theorem reconcileRecord_of_attempt {started done : World}
    (hcreate : createHistory (start record dryRun world.now) world = (.ok history, started))
    (hattempt : reconciler.attempt record dryRun history started = (.ok finding, done)) :
    reconciler.reconcileRecord record dryRun world =
      (.ok true, (count finding.action .success done).2) := by
  have hmoment : moment world = (.ok world.now, world) := rfl
  have hcreated := Step.attempt_eq_ok_iff.mpr hcreate
  have hattempted := Step.attempt_eq_ok_iff.mpr hattempt
  exact ((Step.bind_of_ok hmoment _).trans (Step.bind_of_ok hcreated _)).trans
    (Step.bind_of_ok hattempted _)

/-- A record with a history row whose work or transaction fails goes on with that failure. -/
theorem reconcileRecord_of_attempt_error {started stopped : World} {failure : Failure}
    (hcreate : createHistory (start record dryRun world.now) world = (.ok history, started))
    (hattempt : reconciler.attempt record dryRun history started = (.error failure, stopped)) :
    reconciler.reconcileRecord record dryRun world =
      (fail record (some history) failure >>= fun _ => pure false) stopped := by
  have hmoment : moment world = (.ok world.now, world) := rfl
  have hcreated := Step.attempt_eq_ok_iff.mpr hcreate
  have hattempted := Step.attempt_eq_ok_iff.mpr hattempt
  exact ((Step.bind_of_ok hmoment _).trans (Step.bind_of_ok hcreated _)).trans
    (Step.bind_of_ok hattempted _)

/-- How the parts of reconciling a record ended. -/
theorem reconcileRecord_cases {result : Except Failure Bool}
    (h : reconciler.reconcileRecord record dryRun world = (result, after)) :
    (∃ failure started ended, createHistory (start record dryRun world.now) world =
        (.error failure, started) ∧ fail record none failure started = (ended, after) ∧
        result ≠ .ok true) ∨
      ∃ history started, createHistory (start record dryRun world.now) world =
          (.ok history, started) ∧
        ((∃ failure stopped ended, reconciler.attempt record dryRun history started =
            (.error failure, stopped) ∧ fail record (some history) failure stopped =
            (ended, after) ∧ result ≠ .ok true) ∨
          ∃ finding done, reconciler.attempt record dryRun history started = (.ok finding, done) ∧
            count finding.action .success done = (.ok (), after) ∧ result = .ok true) := by
  have hfail {history : Option Text} {failure : Failure} {stopped : World}
      (h : (fail record history failure >>= fun _ => pure false) stopped = (result, after)) :
      ∃ ended, fail record history failure stopped = (ended, after) ∧ result ≠ .ok true := by
    cases hended : fail record history failure stopped with
    | mk ended failed =>
      cases ended with
      | error other =>
        rw [Step.bind_of_error hended] at h
        obtain ⟨rfl, rfl⟩ := Prod.mk.inj h
        exact ⟨_, rfl, by simp⟩
      | ok _ =>
        rw [Step.bind_of_ok hended] at h
        obtain ⟨rfl, rfl⟩ := Prod.mk.inj h
        exact ⟨_, rfl, by simp⟩
  cases hcreate : createHistory (start record dryRun world.now) world with
  | mk created started =>
    cases created with
    | error failure =>
      have hmoment : moment world = (.ok world.now, world) := rfl
      have hrun : reconciler.reconcileRecord record dryRun world =
          (fail record none failure >>= fun _ => pure false) started :=
        (Step.bind_of_ok hmoment _).trans
          (Step.bind_of_ok (Step.attempt_eq_ok_iff.mpr hcreate) _)
      obtain ⟨ended, hended, hresult⟩ := hfail (hrun ▸ h)
      exact Or.inl ⟨failure, started, ended, rfl, hended, hresult⟩
    | ok history =>
      refine Or.inr ⟨history, started, rfl, ?_⟩
      cases hattempt : reconciler.attempt record dryRun history started with
      | mk attempted done =>
        cases attempted with
        | error failure =>
          rw [reconcileRecord_of_attempt_error hcreate hattempt] at h
          obtain ⟨ended, hended, hresult⟩ := hfail h
          exact Or.inl ⟨failure, done, ended, rfl, hended, hresult⟩
        | ok finding =>
          obtain ⟨rfl, rfl⟩ := Prod.mk.inj
            ((reconcileRecord_of_attempt hcreate hattempt).symm.trans h)
          exact Or.inr ⟨finding, done, rfl, rfl, rfl⟩

/-- A record that succeeded has gone through all of it. -/
theorem reconcileRecord_eq_true
    (h : reconciler.reconcileRecord record dryRun world = (.ok true, after)) :
    ∃ history started worked finding,
      createHistory (start record dryRun world.now) world = (.ok history, started) ∧
      reconciler.work record dryRun started = (.ok finding, worked) ∧ AdminSame worked after ∧
      after.ledger = { concluded record history dryRun finding world.now started.ledger with
        savepoint := none } := by
  obtain ⟨_, _, _, -, -, hresult⟩ | ⟨history, started, hcreate,
    ⟨_, _, _, -, -, hresult⟩ | ⟨finding, done, hattempt, hcount, -⟩⟩ := reconcileRecord_cases h
  · exact absurd rfl hresult
  · exact absurd rfl hresult
  · obtain ⟨worked, hwork, hside, hledger⟩ := attempt_eq_ok hattempt
    obtain ⟨hcounted, hsame⟩ := adminSame_of_count hcount
    refine ⟨history, started, worked, finding, hcreate, hwork, hside.trans hcounted, ?_⟩
    rw [hsame, hledger, (createHistory_cases hcreate).1.now_eq]

/-- **The course of a record.** From a world at rest, reconciling a record goes one of the three
ways. -/
theorem course_of_reconcileRecord (hrest : world.AtRest) {result : Except Failure Bool}
    (h : reconciler.reconcileRecord record dryRun world = (result, after)) :
    Course reconciler record dryRun world after result := by
  obtain ⟨failure, started, ended, hcreate, hfail, hresult⟩ | ⟨history, started, hcreate,
    ⟨failure, stopped, ended, hattempt, hfail, hresult⟩ | ⟨_, _, -, -, rfl⟩⟩ :=
    reconcileRecord_cases h
  · rcases createHistory_cases hcreate with ⟨honly, ⟨_, -, hledger⟩ | ⟨⟨⟩, -⟩⟩
    rcases fail_cases hfail with ⟨hside, hnoted | ⟨_, _, ⟨⟩, -⟩⟩
    exact .unstarted hresult (honly.toAdminSame.trans hside) (hnoted.trans hledger)
  · have hstarted := atRest_of_createHistory hrest hcreate
    obtain ⟨outcome, worked, hwork, hstopped, hledger⟩ := attempt_eq_error hstarted hattempt
    obtain ⟨hside, hnoted⟩ := fail_cases hfail
    exact .failed hresult hcreate hwork (hstopped.trans hside) (hledger ▸ hnoted)
  · obtain ⟨history, started, worked, finding, hcreate, hwork, hside, hledger⟩ :=
      reconcileRecord_eq_true h
    exact .succeeded hcreate hwork hside hledger

end Retention.Reconciler
