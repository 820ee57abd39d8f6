import Retention.Proofs.Policy.Decoding

/-!
# Places in a message and in its policy

A place in a tree of combinations is reached step by step: each step names the mode of a combination
and the position of one of its rules. What stands at a place of the policy that a message means is
what the message at the same place of that message means. So whatever is said of single messages
holds at every depth, and it does not matter what stands around them.

## Main definitions

* `Policy.at?`: the part of a policy at a place.
* `Policy.MessageAt`: the part of a message at a place.

## Main results

* `Policy.at?_eq_some_iff`: a message means its policy place by place.
-/

namespace Retention.Policy

/-- A member that is left out, or whose value does not count as set. -/
def Unset (members : List (Text × Json)) (key : String) : Prop :=
  ∀ value, members.lookup (.whole key) = some value → value.isTruthy = false

/-- The messages that count as the rules of a message: those of its union, and those of its
intersection where no union is set. -/
def Decides (members : List (Text × Json)) (mode : Mode) (items : List Json) : Prop :=
  HasRules members mode items ∧ (mode = .intersection → Unset members Mode.union.word)

/-- The part of a message at a place. -/
inductive MessageAt (part : Json) : List (Mode × Nat) → Json → Prop
  | here : MessageAt part [] part
  | inside {members : List (Text × Json)} {mode : Mode} {items : List Json} {position : Nat}
      {place : List (Mode × Nat)} {item : Json} (hrules : Decides members mode items)
      (hitem : items[position]? = some item) (hpart : MessageAt part place item) :
      MessageAt part ((mode, position) :: place) (.object members)

/-- The part of a policy at a place. -/
def at? : List (Mode × Nat) → Policy → Option Policy
  | [], policy => some policy
  | (mode, position) :: place, .combined own children =>
    if own = mode then children[position]?.bind (at? place) else none
  | _ :: _, _ => none

variable {members : List (Text × Json)} {mode : Mode} {items : List Json} {children : List Policy}
  {message : Json} {policy part : Policy}

theorem Unset.of_none {key : String} (h : members.lookup (.whole key) = none) :
    Unset members key := by
  intro _ hvalue
  rw [h] at hvalue
  cases hvalue

/-! ### Combinations -/

/-- A value makes a combination exactly when it counts as set. -/
theorem combined?_eq_none_iff {value : Json} :
    combined? mode value = none ↔ value.isTruthy = false := by
  cases value with
  | object => simp [combined?, Json.isTruthy]
  | null | number | string | array => simp [combined?]
  | bool value => cases value <;> simp [combined?, Json.isTruthy]

/-- A member that is not set makes no combination. -/
theorem branch?_eq_none_iff : branch? mode members = none ↔ Unset members mode.word := by
  rw [branch?_eq, Unset, Option.bind_eq_none_iff]
  simp only [combined?_eq_none_iff]

/-- A message without a combination means a leaf. -/
theorem ofMessage_eq_ofLeaf (h : ∀ mode : Mode, Unset members mode.word) :
    ofMessage (.object members) = ofLeaf members := by
  rw [ofMessage, branch?_eq_none_iff.mpr (h .union), branch?_eq_none_iff.mpr (h .intersection),
    Option.or_none]

/-- What a message means comes from its union, from its intersection where no union is set, or from
a leaf where neither is. -/
theorem ofMessage_object_sources (h : ofMessage (.object members) = .ok policy) :
    branch? .union members = some (.ok policy) ∨
      (Unset members Mode.union.word ∧ branch? .intersection members = some (.ok policy)) ∨
      (∀ mode : Mode, Unset members mode.word) ∧ ofLeaf members = .ok policy := by
  rw [ofMessage] at h
  split at h
  · next hset =>
    rw [h] at hset
    rcases Option.or_eq_some_iff.mp hset with hunion | ⟨hnone, hintersection⟩
    · exact Or.inl hunion
    · exact Or.inr (Or.inl ⟨branch?_eq_none_iff.mp hnone, hintersection⟩)
  · next hnone =>
    obtain ⟨hunion, hintersection⟩ := Option.or_eq_none_iff.mp hnone
    refine Or.inr (Or.inr ⟨fun mode => ?_, h⟩)
    cases mode with
    | union => exact branch?_eq_none_iff.mp hunion
    | intersection => exact branch?_eq_none_iff.mp hintersection

/-- The rules under a mode make a combination of what they mean. -/
theorem HasRules.branch?_eq (h : HasRules members mode items) :
    branch? mode members = some ((ofMessages items).map (combined mode)) := by
  obtain ⟨content, hcontent, hrules⟩ := h
  have hofRules : ofRules mode content = ofMessages items := by
    rw [ofRules_eq, hrules]
    rfl
  rw [Policy.branch?_eq, hcontent, ← hofRules]
  rfl

/-- A message means the combination of what the rules that count mean. -/
theorem Decides.ofMessage_eq (h : Decides members mode items) :
    ofMessage (.object members) = (ofMessages items).map (combined mode) := by
  obtain ⟨hrules, hunset⟩ := h
  rw [ofMessage]
  cases mode with
  | union => rw [hrules.branch?_eq, Option.some_or]
  | intersection =>
    rw [branch?_eq_none_iff.mpr (hunset rfl), hrules.branch?_eq, Option.none_or]

/-- What a member sets is a combination under its mode. -/
theorem exists_combined_of_branch? (h : branch? mode members = some (.ok policy)) :
    ∃ children, policy = .combined mode children := by
  rw [branch?_eq] at h
  obtain ⟨value, -, hvalue⟩ := Option.bind_eq_some_iff.mp h
  obtain ⟨children, hcombined, -⟩ := combined?_cases hvalue
  exact ⟨children, hcombined⟩

/-- The children of a combination that a member sets come from the rules under its mode. -/
theorem hasRules_of_branch? {own : Mode}
    (h : branch? own members = some (.ok (.combined mode children))) (hne : children ≠ []) :
    own = mode ∧ ∃ items, HasRules members mode items ∧ ofMessages items = .ok children := by
  rw [branch?_eq] at h
  obtain ⟨value, hlookup, hvalue⟩ := Option.bind_eq_some_iff.mp h
  obtain ⟨_, hcombined, hempty | ⟨_, items, rfl, hrules, hitems⟩⟩ := combined?_cases hvalue
  · cases hcombined
    exact absurd hempty hne
  · cases hcombined
    exact ⟨rfl, items, ⟨_, hlookup, hrules⟩, ofMessages_eq_ok_iff.mpr hitems⟩

/-- A combination with children comes from the rules of a message that count. -/
theorem exists_decides (h : ofMessage message = .ok (.combined mode children))
    (hne : children ≠ []) : ∃ members items, message = .object members ∧
      Decides members mode items ∧ ofMessages items = .ok children := by
  cases message with
  | object members =>
    obtain hunion | ⟨hunset, hintersection⟩ | ⟨-, hleaf⟩ := ofMessage_object_sources h
    · obtain ⟨rfl, items, hrules, hitems⟩ := hasRules_of_branch? hunion hne
      exact ⟨members, items, rfl, ⟨hrules, nofun⟩, hitems⟩
    · obtain ⟨rfl, items, hrules, hitems⟩ := hasRules_of_branch? hintersection hne
      exact ⟨members, items, rfl, ⟨hrules, fun _ => hunset⟩, hitems⟩
    · obtain ⟨_, _, -, heq⟩ | ⟨_, -, heq⟩ | heq := ofLeaf_cases hleaf <;> cases heq
  | _ => cases h

/-! ### Places -/

/-- A step into a policy leads to a child of a combination with the mode of the step. -/
theorem at?_cons_eq_some_iff {position : Nat} {place : List (Mode × Nat)} :
    policy.at? ((mode, position) :: place) = some part ↔ ∃ children child,
      policy = .combined mode children ∧ children[position]? = some child ∧
        child.at? place = some part := by
  cases policy with
  | combined own children =>
    rw [at?]
    split
    · next hmode =>
      subst hmode
      rw [Option.bind_eq_some_iff]
      constructor
      · rintro ⟨child, hchild, hpart⟩
        exact ⟨children, child, rfl, hchild, hpart⟩
      · rintro ⟨_, child, ⟨⟩, hchild, hpart⟩
        exact ⟨child, hchild, hpart⟩
    · next hmode =>
      refine iff_of_false nofun ?_
      rintro ⟨_, _, ⟨⟩, -⟩
      exact hmode rfl
  | noGc | maxAge | maxVersions =>
    refine iff_of_false nofun ?_
    rintro ⟨_, _, ⟨⟩, -⟩

/-- The message at a position means the child at that position. -/
theorem getElem?_ofMessages (h : ofMessages items = .ok children) (position : Nat) :
    items[position]?.map ofMessage = children[position]?.map .ok := by
  have hmap : items.map ofMessage = children.map .ok := by
    rw [← List.forall₂_eq_eq_eq, List.forall₂_map_left_iff, List.forall₂_map_right_iff]
    exact ofMessages_eq_ok_iff.mp h
  rw [← List.getElem?_map, hmap, List.getElem?_map]

/-- **Place by place.** What stands at a place of the policy that a message means is what the
message at that place means. -/
theorem at?_eq_some_iff {place : List (Mode × Nat)} (h : ofMessage message = .ok policy) :
    policy.at? place = some part ↔
      ∃ inner, MessageAt inner place message ∧ ofMessage inner = .ok part := by
  -- One step leads to a message and to the child that it means; the rest of the place is theirs.
  induction place generalizing message policy with
  | nil =>
    constructor
    · intro hpart
      obtain rfl := Option.some.inj hpart
      exact ⟨message, .here, h⟩
    · rintro ⟨_, ⟨⟩, hpart⟩
      exact congrArg some (Except.ok.inj (h.symm.trans hpart))
  | cons step place ih =>
    obtain ⟨mode, position⟩ := step
    rw [at?_cons_eq_some_iff]
    constructor
    · rintro ⟨children, child, rfl, hchild, hpart⟩
      obtain ⟨members, items, rfl, hdecides, hitems⟩ :=
        exists_decides h (List.ne_nil_of_mem (List.mem_of_getElem? hchild))
      have hposition := getElem?_ofMessages hitems position
      rw [hchild] at hposition
      obtain ⟨item, hitem, hmeans⟩ := Option.map_eq_some_iff.mp hposition
      obtain ⟨inner, hinner, hpart⟩ := (ih hmeans).mp hpart
      exact ⟨inner, .inside hdecides hitem hinner, hpart⟩
    · rintro ⟨inner, hinner, hpart⟩
      cases hinner with
      | inside hdecides hitem hinner =>
        rw [hdecides.ofMessage_eq] at h
        obtain ⟨children, hitems, rfl⟩ := exceptMap_eq_ok_iff.mp h
        have hposition := getElem?_ofMessages hitems position
        rw [hitem] at hposition
        obtain ⟨child, hchild, hmeans⟩ := Option.map_eq_some_iff.mp hposition.symm
        exact ⟨children, child, rfl, hchild, (ih hmeans.symm).mpr ⟨inner, hinner, hpart⟩⟩

end Retention.Policy
