import Retention.Proofs.Pool
import Retention.Proofs.Reconcile.Convergence
import Retention.Proofs.Reconcile.Handled

/-!
# The failure that is reported

A transaction that is aborted is taken back, and then it ends with the failure that aborted it. When
taking it back fails in turn, that later failure takes the place of the one that aborted it. What a
record's history row says of a failure inside its transaction goes the same way: it is the failure
that the transaction ended with, put into words.

## Main definitions

* `Reconciler.FailsWithin`: a record fails inside the transaction that ends its work.
* `World.takenBack`, `World.reported`: what an aborted transaction leaves and ends with.

## Main results

* `Reconciler.FailsWithin.traffic_eq`: what is sent to write the failure of such a record down.
* `Reconciler.FailsWithin.reconcileRecord_eq`: the record when that passes.
* `Reconciler.aborted_transaction_reports`: the failure that is reported and written down.
* `Reconciler.cause_lost_when_rollback_fails`: the failure that aborted a transaction may be lost.
-/

namespace Retention

namespace World

variable {channel : Channel} {statement : Statement}

/-- The world after an aborted transaction was taken back and its connection given up. -/
def takenBack (stopped : World) : World := session.release (session.rollback stopped).2

/-- The failure that an aborted transaction ends with, once it was taken back: its cause, or the
failure to take it back. -/
def reported (cause : Failure) (stopped : World) : Failure :=
  Session.reported cause (session.rollback stopped).1

/-- A statement is sent whether or not it passes. -/
theorem traffic_change (effect : Ledger → Ledger) (world : World) :
    (change channel statement effect world).2.traffic =
      world.traffic ++ [.statement channel statement] := by
  rw [change, execute_apply]
  split <;> rfl

end World

namespace Reconciler

open World

variable {reconciler : Reconciler} {record : PolicyRecord} {dryRun : Bool}
  {before stopped world : World} {history message : Text} {cause : Failure}

/-! ### Writing a failure down -/

theorem recordFailure_snd (history message : Text) (world : World) :
    (recordFailure history message world).2 =
      (completeHistory .pool history (failure world.now message) world).2 := by
  have hsaid (other : Failure) : Step.Keeps Eq
      (said other >>= fun _ => (pure () : Step World Unit)) :=
    (Step.keeps_ofExcept _).bind fun _ => Step.keeps_pure _
  exact Step.recover_snd hsaid world

/-- When a record fails, the failure in words is sent to its history row. -/
theorem traffic_fail (hwords : cause.words = .ok message) (world : World) :
    (fail record (some history) cause world).2.traffic =
      world.traffic ++ [.statement .pool (.completeHistory history (failure world.now message))] := by
  have hcount : Step.Keeps (fun before after : World => after.traffic = before.traffic)
      (count (intended record) .failed) := fun _ => rfl
  have hsent : (recordFailure history message world).2.traffic = _ :=
    (congrArg World.traffic (recordFailure_snd history message world)).trans (traffic_change _ world)
  rw [fail, Step.bind_of_ok (said_of_words hwords world), ← hsent]
  dsimp only
  rw [Step.bind_apply]
  rcases recordFailure history message world with ⟨_ | _, noted⟩
  · rfl
  · exact hcount noted

/-- A record fails inside the transaction that ends its work: it has a history row, its work has
passed and the transaction has a connection, and then it is aborted with a cause. -/
inductive FailsWithin (reconciler : Reconciler) (record : PolicyRecord) (dryRun : Bool)
    (before : World) (history : Text) (cause : Failure) (stopped : World) : Prop
  | intro {started worked connected : World} {finding : Finding}
      (hcreate : createHistory (start record dryRun before.now) before = (.ok history, started))
      (hwork : reconciler.work record dryRun started = (.ok finding, worked))
      (hconnect : session.connect worked = (.ok (), connected))
      (haborted : session.Aborted (conclusion record history dryRun finding) connected cause stopped)

namespace FailsWithin

variable (h : FailsWithin reconciler record dryRun before history cause stopped)

include h

/-- Such a record goes on with the failure that its transaction ended with. -/
theorem reconcileRecord_eq_fail :
    reconciler.reconcileRecord record dryRun before =
      (fail record (some history) (reported cause stopped) >>= fun _ => pure false)
        (takenBack stopped) ∧ (takenBack stopped).now = before.now := by
  cases h with
  | @intro started worked connected finding hcreate hwork hconnect haborted =>
    have htransaction := Session.transaction_of_aborted hconnect haborted
    have hattempt : reconciler.attempt record dryRun history started =
        (.error (reported cause stopped), takenBack stopped) :=
      (Step.bind_of_ok hwork _).trans (Step.bind_of_error htransaction _)
    refine ⟨reconcileRecord_of_attempt_error hcreate hattempt, ?_⟩
    exact (counters_attempt hattempt).2.trans (createHistory_cases hcreate).1.now_eq

variable (hwords : (reported cause stopped).words = .ok message)

include hwords

/-- What is sent last for such a record is the end of its history row, with the failure that its
transaction ended with. -/
theorem traffic_eq : (reconciler.reconcileRecord record dryRun before).2.traffic =
    (takenBack stopped).traffic ++
      [.statement .pool (.completeHistory history (failure before.now message))] := by
  obtain ⟨hrun, hnow⟩ := h.reconcileRecord_eq_fail
  rw [hrun, Step.bind_snd (fun _ => Step.keeps_pure false), traffic_fail hwords, hnow]

/-- When that passes, the history row has the failure, and the record is counted as failed. -/
theorem reconcileRecord_eq {noted : World}
    (hnoted : completeHistory .pool history (failure before.now message) (takenBack stopped) =
      (.ok (), noted)) :
    reconciler.reconcileRecord record dryRun before =
        (.ok false, counted ⟨intended record, .failed⟩ noted) ∧
      noted.ledger =
        (takenBack stopped).ledger.completeHistory history (failure before.now message) := by
  obtain ⟨hrun, hnow⟩ := h.reconcileRecord_eq_fail
  refine ⟨?_, ledger_change hnoted⟩
  rw [← hnow] at hnoted
  have hrecorded : recordFailure history message (takenBack stopped) = (.ok (), noted) :=
    Step.recover_of_ok hnoted
  have hfailed : fail record (some history) (reported cause stopped) (takenBack stopped) =
      (.ok (), counted ⟨intended record, .failed⟩ noted) :=
    (Step.bind_of_ok (said_of_words hwords _) _).trans (Step.bind_of_ok hrecorded _)
  exact hrun.trans (Step.bind_of_ok hfailed _)

end FailsWithin

/-- **The failure that is reported.** A transaction on a pool that has a connection and is aborted
ends with its cause, unless taking it back fails: then it ends with that failure. Where a record
fails inside the transaction that ends its work, the words of the failure that this ended with are
sent to the record's history row, and when that passes they stand there. -/
theorem aborted_transaction_reports {α : Type} (faults : PoolFaults) (callback : Pool.Callback α)
    (log ended : List PoolCall) (cause : Failure) (reconciler : Reconciler) (record : PolicyRecord)
    (dryRun : Bool) (before stopped : World) (history message : Text) :
    (faults.connect = none →
      (Pool.session faults).Aborted callback.run (log ++ [.connect]) cause ended →
      ((Pool.session faults).transaction callback.run log).1 =
        .error (faults.rollback.getD cause)) ∧
    (FailsWithin reconciler record dryRun before history cause stopped →
      (reported cause stopped).words = .ok message →
      (reconciler.reconcileRecord record dryRun before).2.traffic = (takenBack stopped).traffic ++
        [.statement .pool (.completeHistory history (failure before.now message))] ∧
      ∀ noted, completeHistory .pool history (failure before.now message) (takenBack stopped) =
          (.ok (), noted) →
        reconciler.reconcileRecord record dryRun before =
            (.ok false, counted ⟨intended record, .failed⟩ noted) ∧
          noted.ledger =
            (takenBack stopped).ledger.completeHistory history (failure before.now message)) := by
  refine ⟨fun hconnect haborted => ?_, fun h hwords =>
    ⟨h.traffic_eq hwords, fun noted hnoted => h.reconcileRecord_eq hwords hnoted⟩⟩
  rw [Pool.transaction_of_aborted hconnect haborted]

/-- A record that lets go of its family as it is. -/
def letGo : PolicyRecord := recordOf "policy-1" "e" .null .abandon .absent

/-- A lost commit is reported as such, and stands in the history row of the record. -/
theorem aborted_transaction_reports_lost_commit :
    ((Pool.session ⟨none, none, some (.plain "lost" none), none⟩).transaction
      (Pool.Callback.done (.ok ())).run []).1 = .error (.plain "lost" none) ∧
    ∃ noted, patient.reconcileRecord letGo false
        (worldWith [] [letGo] [⟨.commit, 0, .plain "lost" none⟩]) =
          (.ok false, counted ⟨.release, .failed⟩ noted) ∧
      noted.ledger.tables.history.map HistoryRow.error = [some (.whole "lost")] := by
  have hreports (ended : List PoolCall) (stopped : World) :=
    aborted_transaction_reports ⟨none, none, some (.plain "lost" none), none⟩
      (Pool.Callback.done (.ok ())) [] ended (.plain "lost" none) patient letGo false
      (worldWith [] [letGo] [⟨.commit, 0, .plain "lost" none⟩]) stopped (Ledger.historyId 1) "lost"
  have hpool := (hreports _ (worldWith [] [] [])).1 rfl (.closing rfl rfl rfl)
  obtain ⟨-, hrecord⟩ := (hreports [] _).2 (.intro rfl rfl rfl (.closing rfl rfl rfl)) rfl
  obtain ⟨hresult, hledger⟩ := hrecord _ rfl
  exact ⟨hpool, _, hresult, by rw [hledger]; rfl⟩

/-- **The cause may be lost.** When an aborted transaction cannot be taken back either, it is not the
failure that aborted it which is reported, and not the one that stands in the history row. -/
theorem cause_lost_when_rollback_fails :
    (∃ stopped, (Pool.session ⟨none, none, none, some (.plain "gone" none)⟩).Aborted
      (Pool.Callback.done (.error (.plain "broken" none)) : Pool.Callback Unit).run [.connect]
      (.plain "broken" none) stopped) ∧
    ((Pool.session ⟨none, none, none, some (.plain "gone" none)⟩).transaction
      (Pool.Callback.done (.error (.plain "broken" none)) : Pool.Callback Unit).run []).1 ≠
        .error (.plain "broken" none) ∧
    (∃ stopped, FailsWithin patient letGo false (worldWith [] [letGo]
      [⟨.commit, 0, .plain "lost" none⟩, ⟨.rollback, 0, .plain "gone" none⟩])
      (Ledger.historyId 1) (.plain "lost" none) stopped) ∧
    (patient.reconcileRecord letGo false (worldWith [] [letGo]
      [⟨.commit, 0, .plain "lost" none⟩,
        ⟨.rollback, 0, .plain "gone" none⟩])).2.ledger.tables.history.map HistoryRow.error =
      [some (.whole "gone")] := by
  refine ⟨⟨_, .body rfl rfl⟩, ?_, ⟨_, .intro rfl rfl rfl (.closing rfl rfl rfl)⟩, rfl⟩
  have hgone : ((Pool.session ⟨none, none, none, some (.plain "gone" none)⟩).transaction
      (Pool.Callback.done (.error (.plain "broken" none)) : Pool.Callback Unit).run []).1 =
        .error (.plain "gone" none) := rfl
  rw [hgone]
  simp

end Reconciler

end Retention
