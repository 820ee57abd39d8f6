import Retention.Text
import Retention.Text.Segment

/-!
# Names of tables and column families

A table is named by its project, its instance and its own name, joined into one resource
name. Each part is made of a restricted alphabet without the separator, so a resource name
has one reading. Column family ids have an alphabet and a greatest length.
-/

namespace Retention

/-- The parts of a table's resource name. -/
structure TableName where
  project : Text
  «instance» : Text
  table : Text
deriving DecidableEq

/-- A column family of a table, both by name. -/
structure FamilyRef where
  table : Text
  family : Text
deriving DecidableEq

namespace TableName

/-- Lower-case letters, digits and the hyphen. -/
def isScopeChar (c : Char) : Bool := c.isLower || c.isDigit || c = '-'

/-- A project or instance name: it starts with a letter, ends with a letter or digit, and
has at least two characters. -/
def isScope : List Char → Bool
  | [] | [_] => false
  | first :: rest =>
    first.isLower && rest.all isScopeChar && rest.getLast?.any fun c => c.isLower || c.isDigit

/-- The first character of a table name or family id. -/
def isNameStart (c : Char) : Bool := c.isAlphanum || c = '_'

/-- The further characters of a table name or family id. -/
def isNameChar (c : Char) : Bool := c.isAlphanum || c = '_' || c = '-' || c = '.'

/-- A table name or family id of any length. -/
def isName : List Char → Bool
  | [] => false
  | first :: rest => isNameStart first && rest.all isNameChar

/-- The resource name of a table. -/
def write (name : TableName) : Text :=
  "projects/" ++ name.project ++ "/instances/" ++ name.instance ++ "/tables/" ++ name.table

/-- The pattern that resource names are held to, as it is shown to callers. -/
def pattern : String :=
  "^projects\\/([a-z][-a-z0-9]*[a-z0-9])\\/instances\\/([a-z][-a-z0-9]*[a-z0-9])" ++
    "\\/tables\\/([_a-zA-Z0-9][-_.a-zA-Z0-9]*)$"

/-- The table that some segments of a resource name name. -/
def ofSegments? : List (List Char) → Option TableName
  | [projects, project, instances, «instance», tables, table] =>
    if projects = "projects".toList ∧ instances = "instances".toList ∧ tables = "tables".toList ∧
        isScope project ∧ isScope «instance» ∧ isName table then
      some ⟨String.ofList project, String.ofList «instance», String.ofList table⟩
    else none
  | _ => none

/-- The table that a resource name names. -/
def read? : Text → Option TableName
  | .whole text => ofSegments? (segments '/' text.toList)
  | .broken _ => none

end TableName

/-- The pattern that column family ids are held to, as it is shown to callers. -/
def familyPattern : String := "^[_a-zA-Z0-9][-_.a-zA-Z0-9]\x7b0,63\x7d$"

/-- Whether a text is a column family id: a name of at most sixty-four characters. -/
def isFamilyId : Text → Bool
  | .whole text => TableName.isName text.toList && text.toList.length ≤ 64
  | .broken _ => false

end Retention
