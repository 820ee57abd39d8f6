import Retention.Proofs.Text.Segment
import Retention.Rule.Error

/-!
# The paths of rule errors

The path to a fault is a text. It is read step by step from a value: `rules[i]` leads to an item of
the array in the member `rules`, every other step leads to the member with that key. The steps are
what stands between the dots, and the empty path leads nowhere but to the whole value.

Since the steps are read back from the text, two faults with one path lie at the same node and in
the same member of it.

## Main definitions

* `Json.at?`: where a path leads in a value.

## Main results

* `RuleError.at?_path`: the path to a fault is read as its steps.
* `RuleError.path_eq_iff`: places that differ have paths that differ.
-/

namespace Retention

/-! ### Reading paths -/

/-- The step to the item at a position of the rules. -/
def itemStep (position : Nat) : List Char := ("rules[" ++ position.repr ++ "]").toList

/-- The position that a step names, if it is a step to an item of the rules. -/
def position? (step : List Char) : Option Nat :=
  let position := Nat.ofDigitChars 10 (step.drop 6).dropLast 0
  if step = itemStep position then some position else none

namespace Json

/-- Where one step leads. -/
def step? (value : Json) (step : List Char) : Option Json :=
  match position? step with
  | none => value.member? (String.ofList step)
  | some position =>
    match value.member? (.whole "rules") with
    | some (.array items) => items[position]?
    | _ => none

/-- Where some steps lead. -/
def along? : List (List Char) → Json → Option Json
  | [], value => some value
  | step :: rest, value => (value.step? step).bind (along? rest)

/-- Where a path leads: its steps stand between the dots, and the empty path has none. -/
def at? (value : Json) (path : String) : Option Json :=
  along? (if path = "" then [] else segments '.' path.toList) value

end Json

/-! ### Steps -/

theorem itemStep_eq (position : Nat) :
    itemStep position = "rules[".toList ++ Nat.toDigits 10 position ++ [']'] := by
  rw [itemStep, String.toList_append, String.toList_append, Nat.toList_repr]
  rfl

theorem position?_itemStep (position : Nat) : position? (itemStep position) = some position := by
  have hdigits : (itemStep position).drop 6 = Nat.toDigits 10 position ++ [']'] := by
    rw [itemStep_eq]
    rfl
  have hposition : Nat.ofDigitChars 10 ((itemStep position).drop 6).dropLast 0 = position := by
    rw [hdigits, List.dropLast_concat, Nat.ofDigitChars_ten_toDigits]
  rw [position?, hposition, if_pos rfl]

/-- A text that does not end in a bracket is no step to an item. -/
theorem position?_eq_none {step : List Char} (h : step.getLast? ≠ some ']') :
    position? step = none := by
  refine if_neg fun hstep => h ?_
  rw [hstep, itemStep_eq, List.getLast?_concat]

/-- A step to an item leads to it. -/
theorem Json.step?_itemStep {members : List (Text × Json)} {items : List Json}
    (h : members.lookup (.whole "rules") = some (.array items)) (position : Nat) :
    (Json.object members).step? (itemStep position) = items[position]? := by
  have hmember : (Json.object members).member? (.whole "rules") = some (.array items) := h
  rw [Json.step?, position?_itemStep, hmember]

/-- A step that does not end in a bracket leads to a member. -/
theorem Json.step?_word {word : String} (h : word.toList.getLast? ≠ some ']') (value : Json) :
    value.step? word.toList = value.member? word := by
  rw [Json.step?, position?_eq_none h, String.ofList_toList]

namespace RuleError

/-- The steps to a fault in characters. -/
theorem map_toList_steps (error : RuleError) :
    error.steps.map String.toList =
      error.node.map itemStep ++ error.fault.member?.toList.map String.toList := by
  rw [steps, List.map_append, List.map_map]
  rfl

/-- The key of a member that a fault lies in has no bracket at its end and no dot. -/
theorem word_of_member? {fault : RuleFault} {key : String} (h : fault.member? = some key) :
    key.toList.getLast? ≠ some ']' ∧ '.' ∉ key.toList ∧ key.toList ≠ [] := by
  cases fault <;> cases h <;> decide

theorem dot_notMem_itemStep (position : Nat) : '.' ∉ itemStep position := by
  intro hmem
  have hdigits : '.' ∈ Nat.toDigits 10 position := by simpa [itemStep_eq] using hmem
  exact absurd (Nat.isDigit_of_mem_toDigits (by decide) (by decide) hdigits) (by decide)

/-- No step to a fault has a dot in it or is empty. -/
theorem step_of_mem {error : RuleError} {step : List Char}
    (h : step ∈ error.steps.map String.toList) : '.' ∉ step ∧ step ≠ [] := by
  rw [map_toList_steps, List.mem_append] at h
  obtain hitem | hword := h
  · obtain ⟨position, -, rfl⟩ := List.mem_map.mp hitem
    refine ⟨dot_notMem_itemStep position, ?_⟩
    rw [itemStep_eq]
    exact List.cons_ne_nil _ _
  · obtain ⟨key, hkey, rfl⟩ := List.mem_map.mp hword
    exact (word_of_member? (Option.mem_toList.mp hkey)).2

/-- The steps to a fault stand between the dots of its path. -/
theorem segments_path (error : RuleError) :
    (if error.path = "" then [] else segments '.' error.path.toList) =
      error.steps.map String.toList := by
  obtain hnil | hne := eq_or_ne error.steps []
  · rw [path, hnil]
    rfl
  have hmapped : error.steps.map String.toList ≠ [] := List.map_eq_nil_iff.not.mpr hne
  have hsegments : segments '.' error.path.toList = error.steps.map String.toList := by
    rw [path, String.toList_intercalate]
    exact segments_intercalate hmapped fun _ hstep => (step_of_mem hstep).1
  rw [if_neg, hsegments]
  -- an empty path would have one segment, an empty one
  intro hempty
  rw [hempty] at hsegments
  have hmem : [] ∈ error.steps.map String.toList := hsegments ▸ List.mem_singleton_self []
  exact (step_of_mem hmem).2 rfl

/-- The path to a fault is read as the steps to its node and to the member it lies in. -/
theorem at?_path (error : RuleError) (value : Json) :
    value.at? error.path =
      Json.along? (error.node.map itemStep ++ error.fault.member?.toList.map String.toList)
        value := by
  rw [Json.at?, segments_path, map_toList_steps]

/-- The node of a fault is read off the steps to it. -/
theorem filterMap_position?_steps (error : RuleError) :
    (error.steps.map String.toList).filterMap position? = error.node := by
  have hnode : (error.node.map itemStep).filterMap position? = error.node := by
    rw [List.filterMap_map]
    exact (List.filterMap_congr fun position _ => position?_itemStep position).trans
      List.filterMap_some
  have hword : (error.fault.member?.toList.map String.toList).filterMap position? = [] := by
    rw [List.filterMap_eq_nil_iff]
    intro step hstep
    obtain ⟨key, hkey, rfl⟩ := List.mem_map.mp hstep
    exact position?_eq_none (word_of_member? (Option.mem_toList.mp hkey)).1
  rw [map_toList_steps, List.filterMap_append, hnode, hword, List.append_nil]

/-- Two faults have one path exactly when they lie at one node and in the same member of it, if in
any. -/
theorem path_eq_iff {first second : RuleError} :
    first.path = second.path ↔
      first.node = second.node ∧ first.fault.member? = second.fault.member? := by
  constructor
  · intro h
    have hsteps : first.steps.map String.toList = second.steps.map String.toList := by
      rw [← segments_path, ← segments_path, h]
    have hnode : first.node = second.node := by
      rw [← filterMap_position?_steps, ← filterMap_position?_steps, hsteps]
    refine ⟨hnode, ?_⟩
    rw [map_toList_steps, map_toList_steps, hnode, List.append_cancel_left_eq] at hsteps
    have hmembers := List.map_injective_iff.mpr (fun _ _ => String.toList_inj.mp) hsteps
    refine Option.ext fun key => ?_
    rw [← Option.mem_toList, hmembers, Option.mem_toList]
  · rintro ⟨hnode, hmember⟩
    rw [path, path, steps, steps, hnode, hmember]

end RuleError

end Retention
