import Retention.Json

/-!
# Calls of the admin API

The service asks for a table, or changes the rule of one column family; it also asks for
the project that its credentials belong to and closes the connection. A table call goes
out with a timeout, if there is one, and with the wish never to be sent again. A timeout is
passed on as it is given.
-/

namespace Retention

/-- A call of the admin API. -/
inductive AdminCall where
  | getTable (table : Text) (timeout : Option Json)
  | modifyFamilies (table family : Text) (message : Json) (timeout : Option Json)
  | getProjectId
  | close

namespace AdminCall

/-- The name of a call. -/
def method : AdminCall → String
  | getTable _ _ => "getTable"
  | modifyFamilies _ _ _ _ => "modifyColumnFamilies"
  | getProjectId => "getProjectId"
  | close => "close"

/-- What a table call asks for. -/
def request? : AdminCall → Option Json
  | getTable table _ =>
    some (.object [("name", .string table), ("view", .string "SCHEMA_VIEW")])
  | modifyFamilies table family message _ =>
    let update : Json := .object [("gcRule", message)]
    let modification : Json := .object [("id", .string family), ("update", update)]
    some (.object [("name", .string table), ("modifications", .array [modification])])
  | getProjectId | close => none

/-- The options of a call that is never sent again. -/
def sentOnce (timeout : Option Json) : Json :=
  .object (("retry", .null) :: timeout.toList.map fun limit => ("timeout", limit))

/-- The options that a table call goes out with. -/
def options? : AdminCall → Option Json
  | getTable _ timeout | modifyFamilies _ _ _ timeout => some (sentOnce timeout)
  | getProjectId | close => none

/-- Whether a call is one of the two table calls. -/
def isTableCall : AdminCall → Bool
  | getTable _ _ | modifyFamilies _ _ _ _ => true
  | getProjectId | close => false

/-- Whether a call changes a family. -/
def isModification : AdminCall → Bool
  | modifyFamilies _ _ _ _ => true
  | _ => false

end AdminCall

end Retention
