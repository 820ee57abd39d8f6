import Retention.Ledger.Record
import Retention.Text.Units

/-!
# The ledger

Three tables: policy records, history and outbox. Opening a transaction keeps the tables as
they are; taking the transaction back restores them, as often as it is asked, and
committing it forgets them. The numbers that new ids are made of are never taken back.

A savepoint belongs to the connection that made it and goes when the connection is given
up. A ledger may also keep it, so that the next connection can still go back to it.
-/

namespace Retention

/-- The tables of a ledger. -/
structure LedgerTables where
  policies : List PolicyRecord
  history : List HistoryRow
  outbox : List OutboxEvent

/-- The tables, those of an open transaction's start, and how many ids were given out. -/
structure Ledger where
  tables : LedgerTables
  savepoint : Option LedgerTables
  policyCount : Nat
  historyCount : Nat
  keepsSavepoint : Bool

namespace Ledger

/-- The ledger without any rows. -/
def empty (keepsSavepoint : Bool) : Ledger := ⟨⟨[], [], []⟩, none, 0, 0, keepsSavepoint⟩

/-- The id of a policy record. -/
def policyId (number : Nat) : Text := "policy-" ++ number.repr

/-- The id of a history row. -/
def historyId (number : Nat) : Text := "history-" ++ number.repr

/-- Records are managed in the order of their tables and then of their families. -/
def recordLe (a b : PolicyRecord) : Bool :=
  if a.table = b.table then textLe a.family b.family else textLe a.table b.table

/-- The managed records in order. -/
def managed (ledger : Ledger) : List PolicyRecord :=
  (ledger.tables.policies.filter PolicyRecord.isManaged).mergeSort recordLe

/-- The record of a column family. -/
def find? (table family : Text) (ledger : Ledger) : Option PolicyRecord :=
  ledger.tables.policies.find? fun record => record.isFor table family

/-- The ledger with its policy records changed. -/
def withPolicies (change : List PolicyRecord → List PolicyRecord) (ledger : Ledger) : Ledger :=
  { ledger with tables := { ledger.tables with policies := change ledger.tables.policies } }

/-- The ledger with its history changed. -/
def withHistory (change : List HistoryRow → List HistoryRow) (ledger : Ledger) : Ledger :=
  { ledger with tables := { ledger.tables with history := change ledger.tables.history } }

/-- A new record, with an id of its own. -/
def insertPolicy (record : Text → PolicyRecord) (ledger : Ledger) : Ledger :=
  let number := ledger.policyCount + 1
  { ledger.withPolicies (· ++ [record (policyId number)]) with policyCount := number }

/-- Some rows with the first one of a column family changed. -/
def changeFirst (table family : Text) (change : PolicyRecord → PolicyRecord) :
    List PolicyRecord → List PolicyRecord
  | [] => []
  | record :: rest =>
    if record.isFor table family then change record :: rest
    else record :: changeFirst table family change rest

/-- A column family has been given a rule text from outside: its record takes it over and
is managed from now on. -/
def upsert (table family : Text) (rules : Json) (mode : DeletionMode) (ledger : Ledger) :
    Ledger :=
  match ledger.find? table family with
  | some _ =>
    ledger.withPolicies <| changeFirst table family fun record =>
      { record with
        rules := rules, deletionMode := mode, desired := .present, lastApplied := true,
        released := false }
  | none =>
    ledger.insertPolicy fun id => ⟨id, table, family, rules, mode, .present, true, true, false⟩

/-- The record with a given id has been applied. Ids are a primary key, so it is one at most. -/
def markApplied (id : Text) : Ledger → Ledger :=
  withPolicies <| List.map fun record =>
    if record.id = id then { record with lastApplied := true } else record

/-- The record with a given id has been released. -/
def markReleased (id : Text) : Ledger → Ledger :=
  withPolicies <| List.map fun record =>
    if record.id = id then { record with released := true } else record

/-- A new history row, and its id. -/
def createHistory (start : HistoryStart) (ledger : Ledger) : Text × Ledger :=
  let number := ledger.historyCount + 1
  let row : HistoryRow :=
    ⟨historyId number, start.policy, start.table, start.family, none, false, start.status, none,
      start.dryRun, false⟩
  (historyId number, { ledger.withHistory (· ++ [row]) with historyCount := number })

/-- The history row with a given id has ended. -/
def completeHistory (id : Text) (outcome : HistoryEnd) : Ledger → Ledger :=
  withHistory <| List.map fun row =>
    if row.id = id then
      { row with
        action := outcome.action, driftDetected := outcome.driftDetected, status := outcome.status,
        error := outcome.error?, completed := true }
    else row

/-- One more event in the outbox. -/
def publish (event : OutboxEvent) (ledger : Ledger) : Ledger :=
  { ledger with tables := { ledger.tables with outbox := ledger.tables.outbox ++ [event] } }

/-- A transaction has been opened. -/
def openTransaction (ledger : Ledger) : Ledger := { ledger with savepoint := some ledger.tables }

/-- The open transaction stands. -/
def commit (ledger : Ledger) : Ledger := { ledger with savepoint := none }

/-- The open transaction is taken back; without one nothing changes. -/
def rollback (ledger : Ledger) : Ledger :=
  { ledger with tables := ledger.savepoint.getD ledger.tables }

/-- The connection of a transaction is given up. -/
def giveUp (ledger : Ledger) : Ledger :=
  if ledger.keepsSavepoint then ledger else { ledger with savepoint := none }

end Ledger

end Retention
