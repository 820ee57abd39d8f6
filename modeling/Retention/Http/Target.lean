import Retention.Text.Segment

/-!
# Request targets

A request target is a path, then possibly a query after a question mark, then possibly a
fragment after a number sign. The fragment is not part of the request.
-/

namespace Retention.Http

/-- A text up to a mark, and what follows the mark if it is there. -/
def splitAtMark (mark : Char) : List Char → List Char × Option (List Char)
  | [] => ([], none)
  | c :: rest =>
    if c = mark then ([], some rest)
    else
      let (before, after) := splitAtMark mark rest
      (c :: before, after)

/-- The path and the query of a request target. -/
structure Target where
  path : List Char
  query : List Char

/-- The parts of a request target; without a query it has the empty one. -/
def Target.ofParts (text : List Char) : Target :=
  let (path, query) := splitAtMark '?' (splitAtMark '#' text).1
  ⟨path, query.getD []⟩

/-- A text without the mark is all before it. -/
theorem splitAtMark_of_notMem {mark : Char} {text : List Char} (h : mark ∉ text) :
    splitAtMark mark text = (text, none) := by
  induction text with
  | nil => rfl
  | cons c rest ih =>
    have hc : c ≠ mark := fun e => h (by simp [e])
    have hrest : mark ∉ rest := fun m => h (List.mem_cons_of_mem c m)
    simp [splitAtMark, hc, ih hrest]

/-- The text before a mark and the text after it are found again. -/
theorem splitAtMark_append_cons {mark : Char} {before : List Char} (h : mark ∉ before)
    (after : List Char) :
    splitAtMark mark (before ++ mark :: after) = (before, some after) := by
  induction before with
  | nil => simp [splitAtMark]
  | cons c rest ih =>
    have hc : c ≠ mark := fun e => h (by simp [e])
    have hrest : mark ∉ rest := fun m => h (List.mem_cons_of_mem c m)
    simp [splitAtMark, hc, ih hrest]

end Retention.Http
