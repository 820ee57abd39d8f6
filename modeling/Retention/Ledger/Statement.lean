import Retention.Json.Printer
import Retention.Ledger.Record

/-!
# Statements

The statements that the service sends to the ledger, with their text and parameters. Rule
texts and event contents are sent as JSON text. A statement says how many rows it expects:
any number, exactly one, at most one that matters, or none.
-/

namespace Retention

/-- How a caller takes the rows of a statement. -/
inductive Taking where
  | any
  | one
  | oneOrNone
  | none
deriving DecidableEq

/-- A statement of the service. -/
inductive Statement where
  | ping
  | «begin»
  | commit
  | rollback
  | findManaged
  | findByFamily (table family : Text)
  | upsert (table family : Text) (rules : Json) (mode : DeletionMode) (moment : Text)
  | updateLastApplied (id moment : Text)
  | markReleased (id moment : Text)
  | createHistory (start : HistoryStart)
  | completeHistory (id : Text) (outcome : HistoryEnd)
  | publish (event : OutboxEvent) (correlation : Text)

namespace Statement

/-- The text of a statement, with single spaces. -/
def sql : Statement → String
  | ping => "SELECT 1"
  | .begin => "BEGIN"
  | commit => "COMMIT"
  | rollback => "ROLLBACK"
  | findManaged =>
    "SELECT * FROM gc_policy.column_family_policies" ++
      " WHERE enabled = true AND released_at IS NULL ORDER BY table_ref, column_family_id"
  | findByFamily _ _ =>
    "SELECT * FROM gc_policy.column_family_policies" ++
      " WHERE table_ref = $1 AND column_family_id = $2"
  | upsert _ _ _ _ _ =>
    "INSERT INTO gc_policy.column_family_policies" ++
      " (table_ref, column_family_id, gc_rules, deletion_mode, desired_state, last_applied_at)" ++
      " VALUES ($1, $2, $3, $4, 'present', $5)" ++
      " ON CONFLICT (table_ref, column_family_id) DO UPDATE SET gc_rules = EXCLUDED.gc_rules," ++
      " deletion_mode = EXCLUDED.deletion_mode, desired_state = 'present'," ++
      " last_applied_at = EXCLUDED.last_applied_at, released_at = NULL, updated_at = NOW()" ++
      " RETURNING *"
  | updateLastApplied _ _ =>
    "UPDATE gc_policy.column_family_policies" ++
      " SET last_applied_at = $2, updated_at = NOW() WHERE id = $1"
  | markReleased _ _ =>
    "UPDATE gc_policy.column_family_policies" ++
      " SET released_at = $2, updated_at = NOW() WHERE id = $1"
  | createHistory _ =>
    "INSERT INTO gc_policy.reconcile_history" ++
      " (policy_id, table_ref, column_family_id, started_at, status, dry_run)" ++
      " VALUES ($1, $2, $3, $4, $5, $6) RETURNING id"
  | completeHistory _ _ =>
    "UPDATE gc_policy.reconcile_history" ++
      " SET action = $2, drift_detected = $3, status = $4, completed_at = $5," ++
      " error_message = $6 WHERE id = $1"
  | publish _ _ =>
    "INSERT INTO gc_policy.outbox" ++
      " (aggregate_id, aggregate_type, event_type, payload, correlation_id)" ++
      " VALUES ($1, $2, $3, $4, $5)"

/-- A text or null. -/
def textOrNull (text : Option Text) : Json := text.elim .null .string

/-- A JSON value as the text it is sent as; null is sent as null. -/
def sent (value : Json) : Json := if value.isNull then .null else .string value.render

/-- The parameters of a statement that has any. -/
def params? : Statement → Option (List Json)
  | ping | .begin | commit | rollback | findManaged => Option.none
  | findByFamily table family => some [.string table, .string family]
  | upsert table family rules mode moment =>
    some [.string table, .string family, sent rules, .string mode.word, .string moment]
  | updateLastApplied id moment | markReleased id moment =>
    some [.string id, .string moment]
  | createHistory start =>
    some [.string start.policy, .string start.table, .string start.family,
      .string start.startedAt, .string start.status.word, .bool start.dryRun]
  | completeHistory id outcome =>
    some [.string id, textOrNull (outcome.action.map fun action => action.word),
      .bool outcome.driftDetected, .string outcome.status.word, .string outcome.completedAt,
      textOrNull outcome.error?]
  | publish event correlation =>
    some [.string event.policy, .string OutboxEvent.aggregate, .string event.kind.word,
      .string event.payload.render, .string correlation]

/-- How the service takes the rows of a statement. -/
def taking : Statement → Taking
  | findManaged => .any
  | findByFamily _ _ => .oneOrNone
  | upsert _ _ _ _ _ | createHistory _ => .one
  | ping | .begin | commit | rollback | updateLastApplied _ _ | markReleased _ _
  | completeHistory _ _ | publish _ _ => .none

end Statement

end Retention
