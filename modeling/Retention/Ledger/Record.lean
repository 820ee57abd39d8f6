import Retention.Json

/-!
# Records of the ledger

The ledger holds one policy record for each managed column family, a history row for each
time a record was reconciled, and an outbox of events for those who follow the policies.
Moments are kept as texts. A record keeps only whether its policy was ever applied and
whether it was released.
-/

namespace Retention

/-- What becomes of a family's policy when it is no longer managed: it is reset, or it is
left as it is. -/
inductive DeletionMode where
  | default
  | abandon
deriving DecidableEq

namespace DeletionMode

/-- The word for a deletion mode. -/
def word : DeletionMode → String
  | default => "default"
  | abandon => "abandon"

/-- The deletion mode that a word names exactly. -/
def ofWord? (text : String) : Option DeletionMode :=
  [DeletionMode.default, DeletionMode.abandon].find? fun mode => mode.word = text

end DeletionMode

/-- Whether a managed family is to have its policy. -/
inductive DesiredState where
  | present
  | absent
deriving DecidableEq

/-- The word for a desired state. -/
def DesiredState.word : DesiredState → String
  | present => "present"
  | absent => "absent"

/-- A managed column family: its rule text, null for none, and how it is released. -/
structure PolicyRecord where
  id : Text
  table : Text
  family : Text
  rules : Json
  deletionMode : DeletionMode
  desired : DesiredState
  enabled : Bool
  lastApplied : Bool
  released : Bool

namespace PolicyRecord

/-- A record is managed while it is enabled and not released. -/
def isManaged (record : PolicyRecord) : Bool := record.enabled && !record.released

/-- The rule text of a record that has one. -/
def rules? (record : PolicyRecord) : Option Json :=
  if record.rules.isNull then none else some record.rules

/-- Whether a record is that of a column family. -/
def isFor (table family : Text) (record : PolicyRecord) : Bool :=
  record.table = table && record.family = family

end PolicyRecord

/-- What reconciling a record came to. -/
inductive Action where
  | apply
  | noop
  | drift
  | release
  | abandon
deriving DecidableEq

/-- The word for an action. -/
def Action.word : Action → String
  | apply => "apply"
  | noop => "noop"
  | drift => "drift"
  | release => "release"
  | abandon => "abandon"

/-- How reconciling a record stands. -/
inductive Status where
  | running
  | success
  | failed
deriving DecidableEq

/-- The word for a status. -/
def Status.word : Status → String
  | running => "running"
  | success => "success"
  | failed => "failed"

/-- What is known when a record starts to be reconciled. -/
structure HistoryStart where
  policy : Text
  table : Text
  family : Text
  startedAt : Text
  status : Status
  dryRun : Bool

/-- What is known when reconciling a record has ended. -/
structure HistoryEnd where
  action : Option Action
  driftDetected : Bool
  status : Status
  completedAt : Text
  error : Option Text

/-- An error text as it is kept: the empty one is none. -/
def HistoryEnd.error? (outcome : HistoryEnd) : Option Text :=
  outcome.error.filter fun text => text ≠ ""

/-- A row of the history. -/
structure HistoryRow where
  id : Text
  policy : Text
  table : Text
  family : Text
  action : Option Action
  driftDetected : Bool
  status : Status
  error : Option Text
  dryRun : Bool
  completed : Bool

/-- The kinds of events. -/
inductive EventKind where
  | applied
  | released
deriving DecidableEq

/-- The word for a kind of event. -/
def EventKind.word : EventKind → String
  | applied => "gc_policy.applied"
  | released => "gc_policy.released"

/-- An event of the outbox: what was done with a record. The rules are null when there are
none. -/
structure OutboxEvent where
  kind : EventKind
  policy : Text
  table : Text
  family : Text
  action : Action
  deletionMode : DeletionMode
  rules : Json
  completedAt : Text

/-- The aggregate that events are about. -/
def OutboxEvent.aggregate : String := "ColumnFamilyGcPolicy"

/-- The content of an event. -/
def OutboxEvent.payload (event : OutboxEvent) : Json :=
  .object
    [("policy_id", .string event.policy), ("table_ref", .string event.table),
      ("column_family_id", .string event.family), ("action", .string event.action.word),
      ("deletion_mode", .string event.deletionMode.word), ("gc_rules", event.rules),
      ("completed_at", .string event.completedAt)]

end Retention
