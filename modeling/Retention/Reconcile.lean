import Retention.Store.Rules

/-!
# Reconciling

Every managed record is reconciled with the column family it stands for. A family that is
to have its policy is given it when it has drifted; a family that is not is released. Each
record gets a history row first. When its work is done, one transaction ends the history
row, marks the record and puts an event into the outbox, so that the three go together. A
record that fails is written down as failed, and the next record is taken up.

In a dry run nothing but the history is written.
-/

namespace Retention

/-- What was done about a record, and the rules its family is now expected to have; they
are null when there are none. -/
structure Finding where
  action : Action
  driftDetected : Bool
  rules : Json

/-- How many records were taken up, and how many of them failed. -/
structure Summary where
  processed : Nat
  failed : Nat

/-- The store, and the timeout of the calls that reconciling makes. -/
structure Reconciler where
  store : Store
  timeout : Option Json

namespace Reconciler

/-- The options of the calls that reconciling makes. -/
def options (reconciler : Reconciler) : CallOptions := ⟨none, reconciler.timeout⟩

/-- The column family that a record stands for. -/
def target (record : PolicyRecord) : FamilyRef := ⟨record.table, record.family⟩

/-- A family that is to have its policy is given it if it has drifted. -/
def converge (reconciler : Reconciler) (record : PolicyRecord) (dryRun : Bool) :
    Step World Finding := do
  let drift ← reconciler.store.drift (target record) record.rules? reconciler.options
  let expected ← Step.ofExcept drift.desired.text
  if !drift.drifted then
    pure ⟨.noop, false, expected.getD .null⟩
  else if dryRun then
    pure ⟨.drift, true, expected.getD .null⟩
  else do
    let applied ← reconciler.store.apply (target record) record.rules? reconciler.options
    let rules ← Step.ofExcept applied.text
    pure ⟨.apply, true, rules.getD .null⟩

/-- The action of releasing a family in a given mode. -/
def releaseAction : DeletionMode → Action
  | .default => .release
  | .abandon => .abandon

/-- A family that is not to have its policy is released. -/
def release (reconciler : Reconciler) (record : PolicyRecord) (dryRun : Bool) :
    Step World Finding :=
  if dryRun then pure ⟨.drift, true, .null⟩
  else do
    reconciler.store.release (target record) record.deletionMode reconciler.options
    pure ⟨releaseAction record.deletionMode, false, .null⟩

/-- The work on a record's family. -/
def work (reconciler : Reconciler) (record : PolicyRecord) (dryRun : Bool) :
    Step World Finding :=
  match record.desired with
  | .present => reconciler.converge record dryRun
  | .absent => reconciler.release record dryRun

/-- The event that announces what was done about a record. -/
def event (record : PolicyRecord) (finding : Finding) (now : Text) : OutboxEvent where
  kind := if finding.action = .apply then .applied else .released
  policy := record.id
  table := record.table
  family := record.family
  action := finding.action
  deletionMode := record.deletionMode
  rules := finding.rules.written
  completedAt := now

/-- The statements that end a record's work: its history row has succeeded, and if
anything was done, the record is marked and an event goes out. -/
def conclusion (record : PolicyRecord) (history : Text) (dryRun : Bool) (finding : Finding) :
    Step World Unit := do
  let now ← World.moment
  World.completeHistory .transaction history
    ⟨some finding.action, finding.driftDetected, .success, now, none⟩
  if dryRun || finding.action = .noop then pure ()
  else do
    if finding.action = .apply then World.updateLastApplied .transaction record.id now
    else World.markReleased .transaction record.id now
    World.publish (event record finding now)

/-- What follows the history row of a record: the work, and its end in one transaction. -/
def attempt (reconciler : Reconciler) (record : PolicyRecord) (dryRun : Bool)
    (history : Text) : Step World Finding := do
  let finding ← reconciler.work record dryRun
  World.session.transaction (conclusion record history dryRun finding)
  pure finding

/-- The history row that a record starts with. -/
def start (record : PolicyRecord) (dryRun : Bool) (now : Text) : HistoryStart :=
  ⟨record.id, record.table, record.family, now, .running, dryRun⟩

/-- What is said about a failure; that it cannot be put into words is a failure again. -/
def said (failure : Failure) : Step World Text :=
  Step.ofExcept (failure.words.mapError Failure.shape)

/-- The history row of a record has failed; that this is written down may fail as well, and then
it is left at that. -/
def recordFailure (history message : Text) : Step World Unit := do
  let now ← World.moment
  (World.completeHistory .pool history ⟨none, false, .failed, now, some message⟩).recover
    fun failure => do
      let _ ← said failure
      pure ()

/-- One more outcome is counted. -/
def count (action : Action) (status : Status) : Step World Unit :=
  Step.modify fun world => { world with counters := world.counters.count ⟨action, status⟩ }

/-- The action that a failed record is counted under. -/
def intended (record : PolicyRecord) : Action :=
  match record.desired with
  | .present => .apply
  | .absent => .release

/-- A record has failed before it had a history row, or after that. -/
def fail (record : PolicyRecord) (history : Option Text) (failure : Failure) :
    Step World Unit := do
  let message ← said failure
  match history with
  | none => pure ()
  | some history => recordFailure history message
  count (intended record) .failed

/-- A record is reconciled; the result says whether that succeeded. -/
def reconcileRecord (reconciler : Reconciler) (record : PolicyRecord) (dryRun : Bool) :
    Step World Bool := do
  let now ← World.moment
  match ← (World.createHistory (start record dryRun now)).attempt with
  | .error failure => do
    fail record none failure
    pure false
  | .ok history => do
    match ← (reconciler.attempt record dryRun history).attempt with
    | .error failure => do
      fail record (some history) failure
      pure false
    | .ok finding => do
      count finding.action .success
      pure true

/-- Some records are reconciled one after another; the result says how many failed. -/
def reconcileRecords (reconciler : Reconciler) (dryRun : Bool) :
    List PolicyRecord → Step World Nat
  | [] => pure 0
  | record :: rest => do
    let succeeded ← reconciler.reconcileRecord record dryRun
    let failed ← reconcileRecords reconciler dryRun rest
    pure ((if succeeded then 0 else 1) + failed)

/-- All managed records are reconciled. A failure without words ends that at its record. -/
def reconcileAll (reconciler : Reconciler) (dryRun : Bool) : Step World Summary := do
  let records ← World.findManaged
  let failed ← reconciler.reconcileRecords dryRun records
  pure ⟨records.length, failed⟩

end Reconciler

end Retention
