import Retention.Ledger.Rows
import Retention.Transaction

/-!
# A pool of connections

The log of everything that goes over a pool of database connections, when it is given
beforehand what each call comes to. A query is sent on its own or on the connection of a
transaction. A transaction on the pool has queries for a body; a query may be watched, so
that its failure does not end the body.
-/

namespace Retention

/-- A call to the pool. -/
inductive PoolCall where
  | connect
  | query (onConnection : Bool) (sql : Text) (params : Option (List Json))
  | release
  | close

/-- A query, how its rows are taken, and what it comes to. -/
structure PoolQuery where
  taking : Taking
  sql : Text
  params : Option (List Json)
  answer : Except Failure (List Json)
  watched : Bool

/-- The failures of a transaction's own calls. -/
structure PoolFaults where
  connect : Option Failure
  «begin» : Option Failure
  commit : Option Failure
  rollback : Option Failure

namespace Pool

/-- A step over the log of a pool. -/
abbrev PoolStep (α : Type) := Step (List PoolCall) α

/-- A call is logged. -/
def note (call : PoolCall) : PoolStep Unit := Step.modify (· ++ [call])

/-- A call is logged and comes to what is given for it. -/
def call (call : PoolCall) (fault : Option Failure) : PoolStep Unit := do
  note call
  match fault with
  | some failure => Step.fail failure
  | none => pure ()

/-- A query is sent and its rows are taken. -/
def query (onConnection : Bool) (query : PoolQuery) : PoolStep Json := do
  note (.query onConnection query.sql query.params)
  let rows ← Step.ofExcept query.answer
  Step.ofExcept (query.taking.ofRows rows)

/-- One of a transaction's own statements. -/
def command (sql : Text) (fault : Option Failure) : PoolStep Unit :=
  call (.query true sql none) fault

/-- What a transaction does besides its body. -/
def session (faults : PoolFaults) : Session (List PoolCall) where
  connect := call .connect faults.connect
  «begin» := command "BEGIN" faults.begin
  commit := command "COMMIT" faults.commit
  rollback := command "ROLLBACK" faults.rollback
  release log := log ++ [.release]

/-- What a query in the body of a transaction comes to; a watched one does not fail. -/
def member (query : PoolQuery) : PoolStep (Except Failure Json) := do
  if query.watched then (Pool.query true query).attempt
  else
    let value ← Pool.query true query
    pure (.ok value)

/-- The queries of a body in turn, and then possibly a failure of its own. -/
def body (queries : List PoolQuery) (failure : Option Failure) :
    PoolStep (List (Except Failure Json)) := do
  let results ← queries.mapM member
  match failure with
  | some failure => Step.fail failure
  | none => pure results

/-- A body of queries as one transaction. -/
def transaction (faults : PoolFaults) (queries : List PoolQuery) (failure : Option Failure) :
    PoolStep (List (Except Failure Json)) :=
  (session faults).transaction (body queries failure)

/-- The pool is closed. -/
def close (fault : Option Failure) : PoolStep Unit := call .close fault

end Pool

end Retention
