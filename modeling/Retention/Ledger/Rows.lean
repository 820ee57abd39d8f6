import Retention.Failure
import Retention.Ledger.Statement

/-!
# Rows

The rows that a statement gives, as its caller takes them.
-/

namespace Retention

/-- The failure of a statement that should have given exactly one row. -/
def Failure.rowCount (count : Nat) : Failure :=
  .plain ("Expected exactly one row, got " ++ count.repr) none

/-- What a caller gets from some rows: all of them, the one there has to be, the first one
or null, or nothing. -/
def Taking.ofRows (taking : Taking) (rows : List Json) : Except Failure Json :=
  match taking with
  | any => .ok (.array rows)
  | one =>
    match rows with
    | [row] => .ok row
    | rows => .error (.rowCount rows.length)
  | oneOrNone => .ok (rows.head?.getD .null)
  | none => .ok .null

/-- What the service makes of the answer to a statement: a new history row's id, nothing
where no rows are taken, and otherwise the answer. -/
def Statement.result (statement : Statement) (answer : Json) : Except Failure Json :=
  match statement, answer with
  | createHistory _, .null => .error (.shape .nullRow)
  | createHistory _, row => .ok ((row.member? "id").getD .null)
  | findManaged, answer | findByFamily _ _, answer | upsert _ _ _ _ _, answer => .ok answer
  | _, _ => .ok .null

end Retention
