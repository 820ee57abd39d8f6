import Retention.Failure
import Retention.Table.Name

/-!
# Checked names

Before a table or a column family is asked for, its name is held against the pattern that
such names follow.
-/

namespace Retention

/-- The failure of an argument that does not follow its pattern. -/
def Failure.badArgument (argument : String) (text : Text) (pattern : String) : Failure :=
  .store .invalidArgument
    ("Invalid argument " ++ argument ++ " (" ++ text ++ "), must match `" ++ pattern ++ "`") none

/-- The table that a resource name names. -/
def TableName.check (text : Text) : Except Failure TableName :=
  match TableName.read? text with
  | some name => .ok name
  | none => .error (.badArgument "table" text TableName.pattern)

/-- A column family id must follow its pattern. -/
def checkFamilyId (text : Text) : Except Failure Unit :=
  if isFamilyId text then .ok ()
  else .error (.badArgument "column_family_id" text familyPattern)

/-- Both names of a column family must follow their patterns, the table's first. -/
def FamilyRef.check (target : FamilyRef) : Except Failure Unit := do
  let _ ← TableName.check target.table
  checkFamilyId target.family

end Retention
