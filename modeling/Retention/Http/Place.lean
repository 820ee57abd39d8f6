import Retention.Http.Request
import Retention.Table.Name
import Retention.Text.Percent

/-!
# Places

The paths that the service answers at. Fixed segments are compared without regard to the
case of ASCII letters; named segments are decoded. One slash may follow a path.
-/

namespace Retention.Http

/-- What a path addresses. -/
inductive Place where
  | health
  | readiness
  | metrics
  | validation
  | policies (table : TableName)
  | policy (table : TableName) (family : Text)

/-- Where a path leads: nowhere, to a place whose name cannot be decoded, or to a place. -/
inductive Location where
  | nowhere
  | malformed
  | found (place : Place)

namespace Place

/-- Whether a segment is a fixed word. -/
def isWord (word : String) (segment : List Char) : Bool :=
  segment.map Char.toLower = word.toList

/-- The names in some segments, if none is empty: each decoded, or nothing if one of them
cannot be. -/
def names? (encoded : List (List Char)) : Option (Option (List String)) :=
  if encoded.contains [] then none
  else some ((encoded.mapM Percent.decode?).map fun names => names.map String.ofList)

/-- The segments after the first slash, without the empty one after a last slash. -/
def pathSegments (path : List Char) : Option (List (List Char)) :=
  match segments '/' path with
  | [] :: rest =>
    match rest.reverse with
    | [] :: first :: others => some (first :: others).reverse
    | _ => some rest
  | _ => none

/-- The location of a place that some encoded names address. -/
def located (encoded : List (List Char)) (place : List String → Option Place) : Location :=
  match names? encoded with
  | none => .nowhere
  | some none => .malformed
  | some (some names) => (place names).elim .nowhere .found

/-- Where some segments lead. -/
def ofSegments : List (List Char) → Location
  | [a] =>
    if isWord "health" a then .found health
    else if isWord "metrics" a then .found metrics
    else .nowhere
  | [a, b] =>
    if isWord "health" a && isWord "ready" b then .found readiness
    else if isWord "gc-rules" a && isWord "validate" b then .found validation
    else .nowhere
  | [a, project, b, «instance», c, table, d] =>
    if isWord "projects" a && isWord "instances" b && isWord "tables" c &&
        isWord "gc-policies" d then
      located [project, «instance», table] fun
        | [project, «instance», table] => some (policies ⟨project, «instance», table⟩)
        | _ => none
    else .nowhere
  | [a, project, b, «instance», c, table, d, family, e] =>
    if isWord "projects" a && isWord "instances" b && isWord "tables" c &&
        isWord "families" d && isWord "gc-policy" e then
      located [project, «instance», table, family] fun
        | [project, «instance», table, family] =>
          some (policy ⟨project, «instance», table⟩ family)
        | _ => none
    else .nowhere
  | _ => .nowhere

/-- Where a path leads. -/
def ofPath (path : List Char) : Location := (pathSegments path).elim .nowhere ofSegments

end Place

end Retention.Http
