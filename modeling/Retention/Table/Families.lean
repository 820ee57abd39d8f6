import Retention.Entries
import Retention.Table.Message

/-!
# The column families of a table

The admin API shows a table as a message whose member `columnFamilies` is an object from
family ids to families, or null; a family is an object whose member `gcRule` holds its rule
message. Some names are found in every object, whether or not the table has such a family; they
stand for a family without a rule.
-/

namespace Retention

namespace Families

/-- The names that are found in every object. -/
def inherited : List Text :=
  ["constructor", "__defineGetter__", "__defineSetter__", "hasOwnProperty", "__lookupGetter__",
    "__lookupSetter__", "isPrototypeOf", "propertyIsEnumerable", "toString", "valueOf",
    "__proto__", "toLocaleString"]

/-- The message that shows a table with given column families. -/
def shownTable (families : Json) : Json := .object [("columnFamilies", families)]

/-- The column families that a message shows. -/
def ofTable : Json → Except ShapeFault Json
  | .null => .error .nullTable
  | table => .ok ((table.member? "columnFamilies").getD .null)

/-- The column families of a shown table are those it was shown with. -/
@[simp] theorem ofTable_shownTable (families : Json) :
    ofTable (shownTable families) = .ok families := rfl

/-- Column families with their ids; in a list they are numbered. -/
def entries : Json → List (Text × Json)
  | .array families =>
    families.zipIdx.map fun (family, number) => (.whole (toString number), family)
  | families => families.members

/-- The family found under an id. -/
def find? (id : Text) (families : Json) : Option Json :=
  if families.isNull then none
  else
    ((entries families).lookup id).or
      (if inherited.contains id then some (.object []) else none)

/-- A family of the table itself is found as it is. -/
theorem find?_of_lookup {id : Text} {members : List (Text × Json)} {family : Json}
    (h : members.lookup id = some family) :
    find? id (.object members) = some family := by
  simp [find?, entries, Json.isNull, Json.members, h]

/-- The families with the rule message of one that exists replaced. -/
def replace? (id : Text) (message families : Json) : Option Json :=
  match families with
  | .object members =>
    (members.lookup id).map fun _ =>
      .object (Entries.put id (.object [("gcRule", message)]) members)
  | _ => none

/-- The family whose rule message was replaced is found with the new one. -/
theorem find?_of_replace? {id : Text} {message families changed : Json}
    (h : replace? id message families = some changed) :
    find? id changed = some (.object [("gcRule", message)]) := by
  unfold replace? at h
  split at h
  · obtain ⟨_, -, rfl⟩ := Option.map_eq_some_iff.mp h
    exact find?_of_lookup (Entries.lookup_put_self _ _ _)
  · simp at h

end Families

namespace Policy

/-- The policy of a rule message that may be missing or not set; then it is the other. -/
def ofMessageOr (other : Policy) (message : Option Json) : Except ShapeFault Policy :=
  match message.filter Json.isTruthy with
  | some message => ofMessage message
  | none => .ok other

/-- The policy of a family; without a rule message nothing is collected. -/
def ofFamily (family : Json) : Except ShapeFault Policy :=
  if family.isNull then .error .nullFamily else ofMessageOr .noGc (family.member? "gcRule")

end Policy

end Retention
