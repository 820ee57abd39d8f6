import Retention.Failure

/-!
# Faults

A call to the admin API or to the ledger may fail for reasons of its own. A schedule of
faults says which calls do: a fault waits at one kind of call, lets a number of them pass
and then strikes once.
-/

namespace Retention

/-- The kinds of calls that a fault can wait at. -/
inductive FaultPoint where
  | getTable
  | modifyFamilies
  | getProjectId
  | closeAdmin
  | connect
  | «begin»
  | commit
  | rollback
  | closePool
  | ping
  | findManaged
  | findByFamily
  | upsert
  | updateLastApplied
  | markReleased
  | createHistory
  | completeHistory
  | publish
deriving DecidableEq

/-- A fault that waits at a kind of call. -/
structure Fault where
  point : FaultPoint
  skip : Nat
  failure : Failure

namespace Fault

/-- A call of a kind is made: the first fault that waits there strikes, or lets one more
call pass. The result is the failure that struck and the faults that still wait. -/
def strike (point : FaultPoint) : List Fault → Option Failure × List Fault
  | [] => (none, [])
  | fault :: rest =>
    if fault.point = point then
      match fault.skip with
      | 0 => (some fault.failure, rest)
      | skip + 1 => (none, { fault with skip := skip } :: rest)
    else
      let (struck, others) := strike point rest
      (struck, fault :: others)

/-- Without faults nothing strikes. -/
@[simp] theorem strike_nil (point : FaultPoint) : strike point [] = (none, []) := rfl

end Fault

end Retention
