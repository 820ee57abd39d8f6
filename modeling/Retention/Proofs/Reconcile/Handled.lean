import Retention.Proofs.Failing
import Retention.Proofs.Reconcile.Outbox

/-!
# How each record of a run goes

Where faults have words, no record ends a run: each one gets no history row, or fails after it had
one, or succeeds. A record asks for one history row and counts once, and without a history row no
call is made for it. Its row succeeds when the record does; else the row fails, or it is left
running when it could not even be written down that it failed.

## Main definitions

* `World.starts`: the history rows that were asked for.
* `Reconciler.Report`: how a record went, and what that counts as.
* `Reconciler.Went`: how the parts of reconciling a record ended.
* `Reconciler.Handled`: what a run does for a record, by how it went.

## Main results

* `Reconciler.exists_handled`: a record is handled.
* `Reconciler.Went.adds`: the history row of a record.
-/

namespace Retention

/-- The start of the history row that a statement asks for, if it asks for one. -/
def Traffic.start? : Traffic → Option HistoryStart
  | .statement _ (.createHistory start) => some start
  | _ => none

/-! ### The history rows that were asked for -/

namespace World

/-- The history rows that were asked for, in order. -/
def starts (world : World) : List HistoryStart := world.traffic.filterMap Traffic.start?

/-- No further history row was asked for. -/
def SameStarts (before after : World) : Prop := after.starts = before.starts

instance : Std.Refl SameStarts := ⟨fun _ => rfl⟩

instance : IsTrans World SameStarts := ⟨fun _ _ _ h h' => Eq.trans h' h⟩

variable {world before after : World}

theorem AdminOnly.sameStarts (h : AdminOnly before after) : SameStarts before after := by
  rw [SameStarts, starts, h.traffic_eq, starts]

theorem sameStarts_noteTraffic {traffic : Traffic} (h : traffic.start? = none) :
    (noteTraffic traffic).Keeps SameStarts := Step.keeps_modify fun world => by
  rw [SameStarts, starts, List.filterMap_append, List.filterMap_cons_none h, List.filterMap_nil,
    List.append_nil, starts]

theorem sameStarts_strike (point : FaultPoint) : (strike point).Keeps SameStarts := fun world => by
  rw [strike_snd]
  rfl

/-- A statement that asks for no history row. -/
theorem sameStarts_change {channel : Channel} {statement : Statement}
    (h : (Traffic.statement channel statement).start? = none) (effect : Ledger → Ledger) :
    (change channel statement effect).Keeps SameStarts :=
  (sameStarts_noteTraffic h).bind fun _ => (sameStarts_strike _).bind fun _ _ => rfl

theorem sameStarts_transaction {α : Type} {body : Step World α} (h : body.Keeps SameStarts) :
    (session.transaction body).Keeps SameStarts := by
  refine Session.keeps_transaction ?_ (sameStarts_change rfl _) h (sameStarts_change rfl _)
    (sameStarts_change rfl _) fun world => ?_
  · exact (sameStarts_noteTraffic rfl).bind fun _ => sameStarts_strike _
  · change (world.traffic ++ [Traffic.release]).filterMap Traffic.start? = world.starts
    rw [List.filterMap_append]
    exact List.append_nil _

/-- A new history row is asked for, whether or not the statement passes. -/
theorem starts_createHistory {start : HistoryStart} {result : Except Failure Text}
    (h : createHistory start world = (result, after)) : after.starts = world.starts ++ [start] := by
  have htraffic : after.traffic = world.traffic ++ [.statement .pool (.createHistory start)] := by
    rw [createHistory, execute_apply] at h
    split at h <;> rw [← (Prod.mk.inj h).2]
  rw [starts, htraffic, List.filterMap_append]
  rfl

end World

namespace Reconciler

open World

variable {reconciler : Reconciler} {record : PolicyRecord} {dryRun : Bool} {history : Text}
  {finding : Finding} {world before after : World}

/-! ### The parts of reconciling a record -/

/-- The work on a record's family fails with words. -/
theorem speaks_work (reconciler : Reconciler) (record : PolicyRecord) (dryRun : Bool) :
    Store.Speaks (reconciler.work record dryRun) := by
  unfold work
  split
  · refine (Store.speaks_drift _ _ _ _).bind fun drift => (Store.speaks_text _).bind fun _ => ?_
    split
    · exact Step.failsWith_pure _
    · split
      · exact Step.failsWith_pure _
      · exact (Store.speaks_apply _ _ _ _).bind fun _ =>
          (Store.speaks_text _).bind fun _ => Step.failsWith_pure _
  · unfold release
    split
    · exact Step.failsWith_pure _
    · exact (Store.speaks_release _ _ _ _).bind fun _ => Step.failsWith_pure _

theorem failsWith_conclusion (record : PolicyRecord) (history : Text) (dryRun : Bool)
    (finding : Finding) :
    (conclusion record history dryRun finding).FailsWith Spoken Failure.HasWords := by
  have hmoment : moment.FailsWith Spoken Failure.HasWords := fun _ h => ⟨h, nofun⟩
  have hpublish (event : OutboxEvent) : (publish event).FailsWith Spoken Failure.HasWords :=
    fun world => failsWith_change _ _ _ world
  refine hmoment.bind fun now => (failsWith_change _ _ _).bind fun _ => ?_
  split
  · exact Step.failsWith_pure _
  · dsimp only
    split
    · exact (failsWith_change _ _ _).bind fun _ => hpublish _
    · exact (failsWith_change _ _ _).bind fun _ => hpublish _

/-- The work and the transaction that ends it fail with words. -/
theorem failsWith_attempt (reconciler : Reconciler) (record : PolicyRecord) (dryRun : Bool)
    (history : Text) :
    (reconciler.attempt record dryRun history).FailsWith Spoken Failure.HasWords := by
  have hwork : (reconciler.work record dryRun).FailsWith Spoken Failure.HasWords :=
    fun world hspoken =>
      ⟨hspoken.mono (adminOnly_work reconciler record dryRun world).faults_sublist,
      (speaks_work reconciler record dryRun world trivial).2⟩
  exact hwork.bind fun finding =>
    (failsWith_transaction (failsWith_conclusion record history dryRun finding)).bind fun _ =>
      Step.failsWith_pure finding

theorem sameStarts_attempt (reconciler : Reconciler) (record : PolicyRecord) (dryRun : Bool)
    (history : Text) : (reconciler.attempt record dryRun history).Keeps SameStarts := by
  have hwork : (reconciler.work record dryRun).Keeps SameStarts :=
    fun world => (adminOnly_work reconciler record dryRun world).sameStarts
  have hmoment : moment.Keeps SameStarts := fun _ => rfl
  have hpublish (event : OutboxEvent) : (publish event).Keeps SameStarts :=
    fun world => sameStarts_change rfl _ world
  have hconclusion (finding : Finding) :
      (conclusion record history dryRun finding).Keeps SameStarts := by
    refine hmoment.bind fun now => (sameStarts_change rfl _).bind fun _ => ?_
    split
    · exact Step.keeps_pure _
    · dsimp only
      split
      · exact (sameStarts_change rfl _).bind fun _ => hpublish _
      · exact (sameStarts_change rfl _).bind fun _ => hpublish _
  exact hwork.bind fun finding =>
    (sameStarts_transaction (hconclusion finding)).bind fun _ => Step.keeps_pure finding

/-- The work and the transaction that ends it do not count anything. -/
theorem counters_attempt {result : Except Failure Finding}
    (h : reconciler.attempt record dryRun history before = (result, after)) :
    after.counters = before.counters ∧ after.now = before.now := by
  have hwork := adminOnly_work reconciler record dryRun before
  rcases hworked : reconciler.work record dryRun before with ⟨failure | finding, worked⟩
  · rw [attempt, Step.bind_of_error hworked] at h
    rw [hworked] at hwork
    rw [← (Prod.mk.inj h).2]
    exact ⟨hwork.counters_eq, hwork.now_eq⟩
  · rw [attempt, Step.bind_of_ok hworked] at h
    rw [hworked] at hwork
    have hkeeps : (session.transaction (conclusion record history dryRun finding) >>= fun _ =>
        (pure finding : Step World Finding)).Keeps LedgerOnly :=
      (ledgerOnly_transaction fun world =>
        (tablesOnly_conclusion record history dryRun finding world).toLedgerOnly).bind fun _ =>
          Step.keeps_pure finding
    have honly := hkeeps.of_eq h
    exact ⟨honly.counters_eq.trans hwork.counters_eq, honly.now_eq.trans hwork.now_eq⟩

/-! ### How a record went -/

/-- How a record went: it got no history row, or it failed after it had one, which may or may not
have been written down, or it succeeded with an action. -/
inductive Report where
  | unstarted
  | failed (noted : Bool)
  | succeeded (action : Action)

namespace Report

/-- Whether the record succeeded. -/
def isSuccess : Report → Bool
  | succeeded _ => true
  | _ => false

/-- What the record is counted as. -/
def outcome (record : PolicyRecord) : Report → Outcome
  | succeeded action => ⟨action, .success⟩
  | _ => ⟨intended record, .failed⟩

/-- How the record's history row is left, if it has one. -/
def status? : Report → Option Status
  | unstarted => none
  | failed noted => some (if noted then .failed else .running)
  | succeeded _ => some .success

theorem outcome_status (record : PolicyRecord) (report : Report) :
    (report.outcome record).status = .failed ↔ report.isSuccess = false := by
  cases report <;> simp [outcome, isSuccess]

end Report

/-- A world in which one more outcome was counted. -/
def counted (outcome : Outcome) (world : World) : World :=
  { world with counters := world.counters.count outcome }

/-- The end of a history row whose record has failed. -/
def failure (now message : Text) : HistoryEnd := ⟨none, false, .failed, now, some message⟩

/-- How the parts of reconciling a record ended, by how the record went. -/
inductive Went (reconciler : Reconciler) (record : PolicyRecord) (dryRun : Bool) (before : World) :
    Report → World → Prop
  | unstarted {cause : Failure} {started : World}
      (hcreate : createHistory (start record dryRun before.now) before = (.error cause, started)) :
      Went reconciler record dryRun before .unstarted (counted ⟨intended record, .failed⟩ started)
  | failed {history message : Text} {started stopped noted : World} {cause : Failure}
      {ended : Except Failure Unit}
      (hcreate : createHistory (start record dryRun before.now) before = (.ok history, started))
      (hattempt : reconciler.attempt record dryRun history started = (.error cause, stopped))
      (hwords : cause.words = .ok message)
      (hnoted :
        completeHistory .pool history (failure stopped.now message) stopped = (ended, noted)) :
      Went reconciler record dryRun before (.failed ended.toBool)
        (counted ⟨intended record, .failed⟩ noted)
  | succeeded {history : Text} {started done : World} {finding : Finding}
      (hcreate : createHistory (start record dryRun before.now) before = (.ok history, started))
      (hattempt : reconciler.attempt record dryRun history started = (.ok finding, done)) :
      Went reconciler record dryRun before (.succeeded finding.action)
        (counted ⟨finding.action, .success⟩ done)

/-- What a run does for a record. It asks for one history row, and makes no call without one; it
counts one outcome, that of the result. -/
structure Handled (reconciler : Reconciler) (record : PolicyRecord) (dryRun : Bool) (before : World)
    (report : Report) (after : World) : Prop where
  result_eq : reconciler.reconcileRecord record dryRun before = (.ok report.isSuccess, after)
  went : Went reconciler record dryRun before report after
  starts_eq : after.starts = before.starts ++ [start record dryRun before.now]
  calls_eq : report = .unstarted → after.calls = before.calls
  counters_eq : after.counters = before.counters.count (report.outcome record)
  now_eq : after.now = before.now

section Words

variable {cause : Failure} {message : Text}

theorem said_of_words (h : cause.words = .ok message) (world : World) :
    said cause world = (.ok message, world) := by
  rw [said, h]
  rfl

/-- A record that got no history row is counted as failed. -/
theorem fail_unstarted (h : cause.words = .ok message) (world : World) :
    fail record none cause world = (.ok (), counted ⟨intended record, .failed⟩ world) :=
  Step.bind_of_ok (said_of_words h world) _

/-- Where faults have words, nothing comes of a failure to write down that a record failed. -/
theorem recordFailure_of_spoken {ended : Except Failure Unit} (hspoken : world.Spoken)
    (h : completeHistory .pool history (failure world.now message) world = (ended, after)) :
    recordFailure history message world = (.ok (), after) := by
  have hmoment : moment world = (.ok world.now, world) := rfl
  refine (Step.bind_of_ok hmoment _).trans ?_
  cases ended with
  | ok _ => exact Step.recover_of_ok h
  | error other =>
    obtain ⟨words, hwords⟩ := (failsWith_change _ _ _).of_eq hspoken h
    exact (Step.recover_of_error h).trans (Step.bind_of_ok (said_of_words hwords after) _)

/-- A record with a history row that has failed is counted as failed. -/
theorem fail_started {ended : Except Failure Unit} (hspoken : world.Spoken)
    (hwords : cause.words = .ok message)
    (h : completeHistory .pool history (failure world.now message) world = (ended, after)) :
    fail record (some history) cause world =
      (.ok (), counted ⟨intended record, .failed⟩ after) :=
  (Step.bind_of_ok (said_of_words hwords world) _).trans
    (Step.bind_of_ok (recordFailure_of_spoken hspoken h) _)

end Words

/-- A record that went in some way is reported so. -/
theorem Went.result_eq {report : Report} (hspoken : before.Spoken)
    (h : Went reconciler record dryRun before report after) :
    reconciler.reconcileRecord record dryRun before = (.ok report.isSuccess, after) := by
  cases h with
  | unstarted hcreate =>
    have hmoment : moment before = (.ok before.now, before) := rfl
    obtain ⟨message, hwords⟩ := (failsWith_execute _ _ _).of_eq hspoken hcreate
    exact ((Step.bind_of_ok hmoment _).trans
      (Step.bind_of_ok (Step.attempt_eq_ok_iff.mpr hcreate) _)).trans
        (Step.bind_of_ok (fail_unstarted hwords _) _)
  | failed hcreate hattempt hwords hnoted =>
    have hstarted := (failsWith_execute _ _ _).inv_of_eq hspoken hcreate
    have hstopped := (failsWith_attempt _ _ _ _).inv_of_eq hstarted hattempt
    exact (reconcileRecord_of_attempt_error hcreate hattempt).trans
      (Step.bind_of_ok (fail_started hstopped hwords hnoted) _)
  | succeeded hcreate hattempt => exact reconcileRecord_of_attempt hcreate hattempt

/-- Counting touches nothing else. -/
theorem starts_counted (outcome : Outcome) (world : World) :
    (counted outcome world).starts = world.starts := rfl

/-- **Every record is handled.** Where faults have words, no record ends a run. -/
theorem exists_handled (reconciler : Reconciler) (record : PolicyRecord) (dryRun : Bool)
    (hspoken : before.Spoken) :
    ∃ report after, Handled reconciler record dryRun before report after ∧ after.Spoken := by
  cases hcreate : createHistory (start record dryRun before.now) before with
  | mk created started =>
    have hspoken' := (failsWith_execute _ _ _).inv_of_eq hspoken hcreate
    have hstarts := starts_createHistory hcreate
    have hadmin := (createHistory_cases hcreate).1
    cases created with
    | error cause =>
      have hwent : Went reconciler record dryRun before _ _ := .unstarted hcreate
      exact ⟨_, _, ⟨hwent.result_eq hspoken, hwent, hstarts, fun _ => hadmin.calls_eq,
        congrArg (Counters.count _) hadmin.counters_eq, hadmin.now_eq⟩, hspoken'⟩
    | ok history =>
      cases hattempt : reconciler.attempt record dryRun history started with
      | mk attempted stopped =>
        have hstopped := (failsWith_attempt _ _ _ _).inv_of_eq hspoken' hattempt
        have hkept := (sameStarts_attempt reconciler record dryRun history).of_eq hattempt
        obtain ⟨hcounters, hnow⟩ := counters_attempt hattempt
        cases attempted with
        | error cause =>
          obtain ⟨message, hwords⟩ := (failsWith_attempt _ _ _ _).of_eq hspoken' hattempt
          cases hnoted : completeHistory .pool history (failure stopped.now message) stopped with
          | mk ended noted =>
            have honly : LedgerOnly stopped noted := (ledgerOnly_change _ _ _).of_eq hnoted
            have hsame : noted.starts = stopped.starts := (sameStarts_change rfl _).of_eq hnoted
            have hended : noted.Spoken := (failsWith_change _ _ _).inv_of_eq hstopped hnoted
            have hwent : Went reconciler record dryRun before _ _ :=
              .failed hcreate hattempt hwords hnoted
            refine ⟨_, _, ⟨hwent.result_eq hspoken, hwent, ?_, nofun, ?_, ?_⟩, hended⟩
            · rw [starts_counted, hsame, hkept, hstarts]
            · exact congrArg (Counters.count _)
                ((honly.counters_eq.trans hcounters).trans hadmin.counters_eq)
            · exact (honly.now_eq.trans hnow).trans hadmin.now_eq
        | ok finding =>
          have hwent : Went reconciler record dryRun before _ _ := .succeeded hcreate hattempt
          refine ⟨_, _, ⟨hwent.result_eq hspoken, hwent, ?_, nofun, ?_, hnow.trans hadmin.now_eq⟩,
            hstopped⟩
          · rw [starts_counted, hkept, hstarts]
          · exact congrArg (Counters.count _) (hcounters.trans hadmin.counters_eq)

/-! ### The history row of a record -/

/-- From a world at rest, a record adds its history row, left as the report says, and no other. -/
theorem Went.adds {report : Report} (hrest : before.AtRest)
    (h : Went reconciler record dryRun before report after) :
    after.AtRest ∧ ∃ rows : List HistoryRow, rows.map HistoryRow.status = report.status?.toList ∧
      ∀ id, ∃ events, Ledger.Adds id before.ledger after.ledger
        (if record.id = id then rows else []) events := by
  cases h with
  | @unstarted cause started hcreate =>
    rcases createHistory_cases hcreate with ⟨-, ⟨_, -, hledger⟩ | ⟨⟨⟩, -⟩⟩
    have hafter : (counted ⟨intended record, .failed⟩ started).ledger = before.ledger := hledger
    refine ⟨?_, [], rfl, fun id => ⟨[], ?_⟩⟩
    · obtain ⟨hsavepoint, hkeeps, hpasses⟩ := atRest_of_createHistory hrest hcreate
      exact ⟨hsavepoint, hkeeps, hpasses⟩
    · rw [hafter, ite_self]
      exact Ledger.Adds.refl id _
  | @failed history message started stopped noted cause ended hcreate hattempt _ hnoted =>
    have hstarted := atRest_of_createHistory hrest hcreate
    obtain ⟨_, worked, hwork, hside, hledger⟩ := attempt_eq_error hstarted hattempt
    have hadmin := (adminOnly_work reconciler record dryRun).of_eq hwork
    have honly : LedgerOnly stopped noted := (ledgerOnly_change _ _ _).of_eq hnoted
    have hfaults := honly.faults_sublist.trans (hside.faults_sublist.trans hadmin.faults_sublist)
    cases ended with
    | error other =>
      have hafter : (counted ⟨intended record, .failed⟩ noted).ledger = started.ledger :=
        (ledger_change_of_error hnoted).trans hledger
      exact ⟨hstarted.mono (by rw [hafter, hstarted.savepoint_eq]) (by rw [hafter]) hfaults, _, rfl,
        fun id => ⟨[], adds_of_created hcreate hafter id⟩⟩
    | ok _ =>
      have hafter : (counted ⟨intended record, .failed⟩ noted).ledger =
          started.ledger.completeHistory history (failure stopped.now message) := by
        have hended : noted.ledger = _ := ledger_change hnoted
        rwa [hledger] at hended
      have houtbox : (counted ⟨intended record, .failed⟩ noted).ledger.tables.outbox =
          started.ledger.tables.outbox ++ [] := by
        rw [hafter, List.append_nil]
        rfl
      exact ⟨hstarted.mono (by rw [hafter]; exact hstarted.savepoint_eq) (by rw [hafter]; rfl)
        hfaults, _, rfl, fun id => ⟨_, adds_of_ended hcreate (by rw [hafter]; rfl)
          (congrArg (·.tables.history) hafter) houtbox id⟩⟩
  | @succeeded history started done finding hcreate hattempt =>
    obtain ⟨worked, hwork, hside, hledger⟩ := attempt_eq_ok hattempt
    have hafter : (counted ⟨finding.action, .success⟩ done).ledger =
        { concluded record history dryRun finding before.now started.ledger with
          savepoint := none } := by
      rw [← (createHistory_cases hcreate).1.now_eq]
      exact hledger
    refine ⟨?_, _, rfl, fun id => ⟨_, adds_of_concluded hcreate hafter id⟩⟩
    exact atRest_of_reconcileRecord hrest (reconcileRecord_of_attempt hcreate hattempt)

end Reconciler

end Retention
