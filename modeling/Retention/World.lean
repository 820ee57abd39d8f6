import Retention.Entries
import Retention.Fault
import Retention.Ledger
import Retention.Ledger.Statement
import Retention.Metrics
import Retention.Table.Call
import Retention.Table.Families
import Retention.Transaction

/-!
# The world of the service

Everything outside the service that its work can touch or see: the tables behind the admin
API, the ledger, the counters, the faults that wait, and a record of every call in order. A
call is recorded first; then a fault may strike; only then does it take effect.

The present moment and the next correlation id are given with the world.
-/

namespace Retention

/-- The way a statement takes: on its own, or on the connection of a transaction. -/
inductive Channel where
  | pool
  | transaction
deriving DecidableEq

/-- What goes over to the ledger. -/
inductive Traffic where
  | connect
  | statement (channel : Channel) (statement : Statement)
  | release
  | close

/-- The state of everything around the service. -/
structure World where
  tables : List (Text × Json)
  reply : Option Json
  calls : List AdminCall
  cancelled : Nat
  ledger : Ledger
  traffic : List Traffic
  faults : List Fault
  counters : Counters
  now : Text
  correlation : Text

/-- The kind of call that a statement is. -/
def Statement.point : Statement → FaultPoint
  | ping => .ping
  | .begin => .begin
  | commit => .commit
  | rollback => .rollback
  | findManaged => .findManaged
  | findByFamily _ _ => .findByFamily
  | upsert _ _ _ _ _ => .upsert
  | updateLastApplied _ _ => .updateLastApplied
  | markReleased _ _ => .markReleased
  | createHistory _ => .createHistory
  | completeHistory _ _ => .completeHistory
  | publish _ _ => .publish

namespace World

/-- A world without tables, rows, calls or faults. -/
def empty (keepsSavepoint : Bool) (now correlation : Text) : World :=
  ⟨[], none, [], 0, Ledger.empty keepsSavepoint, [], [], Counters.empty, now, correlation⟩

/-- A call of a kind is made, and a fault may strike. -/
def strike (point : FaultPoint) : Step World Unit := fun world =>
  match Fault.strike point world.faults with
  | (some failure, faults) => (.error failure, { world with faults := faults })
  | (none, faults) => (.ok (), { world with faults := faults })

/-- An admin call is recorded. -/
def noteCall (call : AdminCall) : Step World Unit :=
  Step.modify fun world => { world with calls := world.calls ++ [call] }

/-- Something that goes over to the ledger is recorded. -/
def noteTraffic (traffic : Traffic) : Step World Unit :=
  Step.modify fun world => { world with traffic := world.traffic ++ [traffic] }

/-- The present moment. -/
def moment : Step World Text := fun world => (.ok world.now, world)

/-! ### The admin API -/

/-- The failure of a call for a table that does not exist. -/
def tableMissing (table : Text) : Failure :=
  .plain ("5 NOT_FOUND: Table not found: " ++ table) (some (.number 5))

/-- The failure of a call for a column family that does not exist. -/
def familyMissing (family : Text) : Failure :=
  .plain ("5 NOT_FOUND: Column family not found: " ++ family) (some (.number 5))

/-- The admin API shows a table. -/
def showTable (table : Text) : Step World Json := do
  strike .getTable
  fun world =>
    match world.tables.lookup table with
    | none => (.error (tableMissing table), world)
    | some families => (.ok (Families.shownTable families), world)

/-- The admin API replaces the rule of a column family and shows the table, unless another
answer was prepared for it. -/
def modifyFamily (table family : Text) (message : Json) : Step World Json := do
  strike .modifyFamilies
  fun world =>
    match world.tables.lookup table with
    | none => (.error (tableMissing table), world)
    | some families =>
      match Families.replace? family message families with
      | none => (.error (familyMissing family), world)
      | some changed =>
        (.ok (world.reply.getD (Families.shownTable changed)),
          { world with tables := Entries.put table changed world.tables, reply := none })

/-- The admin API resolves the project that the service's credentials belong to. -/
def resolveProject : Step World Unit := do
  noteCall .getProjectId
  strike .getProjectId

/-- The connection to the admin API is closed. -/
def closeAdmin : Step World Unit := do
  noteCall .close
  strike .closeAdmin

/-! ### The ledger -/

/-- A statement is sent to the ledger, and does there what it does. -/
def execute {α : Type} (channel : Channel) (statement : Statement)
    (effect : Ledger → α × Ledger) : Step World α := do
  noteTraffic (.statement channel statement)
  strike statement.point
  fun world =>
    match effect world.ledger with
    | (value, ledger) => (.ok value, { world with ledger := ledger })

/-- A statement that only asks. -/
def ask {α : Type} (statement : Statement) (answer : Ledger → α) : Step World α :=
  execute .pool statement fun ledger => (answer ledger, ledger)

/-- A statement that only changes the ledger. -/
def change (channel : Channel) (statement : Statement) (effect : Ledger → Ledger) :
    Step World Unit :=
  execute channel statement fun ledger => ((), effect ledger)

/-- The ledger answers at all. -/
def ping : Step World Unit := change .pool .ping id

/-- The managed records in order. -/
def findManaged : Step World (List PolicyRecord) := ask .findManaged Ledger.managed

/-- The record of a column family. -/
def findByFamily (table family : Text) : Step World (Option PolicyRecord) :=
  ask (.findByFamily table family) (Ledger.find? table family)

/-- A column family has been given a rule text from outside. -/
def upsert (table family : Text) (rules : Json) (mode : DeletionMode) : Step World Unit := do
  let now ← moment
  change .pool (.upsert table family rules mode now) (Ledger.upsert table family rules mode)

/-- A record has been applied. -/
def updateLastApplied (channel : Channel) (id now : Text) : Step World Unit :=
  change channel (.updateLastApplied id now) (Ledger.markApplied id)

/-- A record has been released. -/
def markReleased (channel : Channel) (id now : Text) : Step World Unit :=
  change channel (.markReleased id now) (Ledger.markReleased id)

/-- A new history row; the step ends with its id. -/
def createHistory (start : HistoryStart) : Step World Text :=
  execute .pool (.createHistory start) (Ledger.createHistory start)

/-- A history row has ended. -/
def completeHistory (channel : Channel) (id : Text) (outcome : HistoryEnd) :
    Step World Unit :=
  change channel (.completeHistory id outcome) (Ledger.completeHistory id outcome)

/-- An event is put into the outbox. -/
def publish (event : OutboxEvent) : Step World Unit := fun world =>
  change .transaction (.publish event world.correlation) (Ledger.publish event) world

/-- The connections to the ledger are closed. -/
def closePool : Step World Unit := do
  noteTraffic .close
  strike .closePool

/-- What a transaction does to the world besides its body. -/
def session : Session World where
  connect := do
    noteTraffic .connect
    strike .connect
  «begin» := change .transaction .begin Ledger.openTransaction
  commit := change .transaction .commit Ledger.commit
  rollback := change .transaction .rollback Ledger.rollback
  release world :=
    { world with traffic := world.traffic ++ [.release], ledger := world.ledger.giveUp }

end World

end Retention
