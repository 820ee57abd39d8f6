import Retention.Proofs.Rule.Grammar
import Retention.Proofs.Rule.Path

/-!
# The first fault of a rule text

Many things may be wrong with one text. The fault that is reported is the first one: the checks of a
node come before those of the nodes below it, in a fixed order, and the nodes below are looked at
one after the other.

What is wrong is described without the reader: which check of a node is the first that fails, and
which node is the first that has a failing check. The reader's error is the one fault that fits this
description, and the path in it leads to the place that the fault is about.

## Main definitions

* `FirstUnknown`: the first key of an object that may not be there.
* `Rule.NodeFault`: the first failing check of a node.
* `Rule.FirstFault`: the first node with a failing check.
* `RuleFault.IsAbout`: what a fault says about the place it lies in.

## Main results

* `Rule.readNode_eq_error_iff`: the checks of a node fail with its fault.
* `Rule.read_eq_error_iff`: a text is refused for its first fault.
* `Rule.FirstFault.exists_place`: the path to the first fault leads to a place that it is about.
-/

namespace Retention

/-- The first key of an object that is none of the allowed ones. -/
def FirstUnknown (allowed : List Text) (members : List (Text × Json)) (key : Text) : Prop :=
  ∃ before value after, members = before ++ (key, value) :: after ∧
    (∀ member ∈ before, member.1 ∈ allowed) ∧ key ∉ allowed

/-- The keys that an object of a rule text may have: those of a composite rule when it has the key
`rules`, and those of a single rule otherwise. -/
def allowedKeys (members : List (Text × Json)) : List Text :=
  if (members.lookup (.whole "rules")).isSome then [.whole "mode", .whole "rules"]
  else [.whole "max_age", .whole "max_version"]

/-- What a fault says about the place it lies in. -/
def RuleFault.IsAbout : RuleFault → Json → Prop
  | notObject, place => place.isObject = false
  | notArray, place => ∀ items, place ≠ .array items
  | unknownKey key, place =>
    ∃ members, place = .object members ∧ FirstUnknown (allowedKeys members) members key
  | ruleCount _ count, place => ∃ items, place = .array items ∧ count = items.length
  | mode value, place => place = value
  | conflictingFields, place => place.has "max_age" = true ∧ place.has "max_version" = true
  | missingField, place => place = .object []
  | duration value, place => place = value
  | versionCount value, place => place = value

namespace Rule

/-- The object of a composite rule whose own checks pass: it has no mode and one item, or the word
of a mode and two items at least. -/
def Passes (members : List (Text × Json)) (items : List Json) : Prop :=
  IsComposite members items ∧
    ((members.lookup (.whole "mode") = none ∧ items.length = 1) ∨
      ∃ (word : String) (mode : Mode), members.lookup (.whole "mode") = some (.string (.whole word)) ∧
        mode.Spells word ∧ 2 ≤ items.length)

/-- The first failing check of a node. -/
inductive NodeFault : Json → RuleFault → Prop
  | notObject {value : Json} (hobject : value.isObject = false) : NodeFault value .notObject
  | unknownKey {members : List (Text × Json)} {key : Text}
      (hkey : FirstUnknown (allowedKeys members) members key) :
      NodeFault (.object members) (.unknownKey key)
  | notArray {members : List (Text × Json)} {rules : Json}
      (hkeys : ∀ member ∈ members, member.1 = .whole "mode" ∨ member.1 = .whole "rules")
      (hrules : members.lookup (.whole "rules") = some rules)
      (harray : ∀ items, rules ≠ .array items) : NodeFault (.object members) .notArray
  | mode {members : List (Text × Json)} {items : List Json} {value : Json}
      (hnode : IsComposite members items) (hmode : members.lookup (.whole "mode") = some value)
      (hword : ¬ ∃ (word : String) (mode : Mode), value = .string (.whole word) ∧ mode.Spells word) :
      NodeFault (.object members) (.mode value)
  | wrapperCount {members : List (Text × Json)} {items : List Json}
      (hnode : IsComposite members items) (hmode : members.lookup (.whole "mode") = none)
      (hcount : items.length ≠ 1) : NodeFault (.object members) (.ruleCount false items.length)
  | combinationCount {members : List (Text × Json)} {items : List Json} {word : String} {mode : Mode}
      (hnode : IsComposite members items)
      (hmode : members.lookup (.whole "mode") = some (.string (.whole word)))
      (hword : mode.Spells word) (hcount : items.length < 2) :
      NodeFault (.object members) (.ruleCount true items.length)
  | conflictingFields {members : List (Text × Json)} {age count : Json}
      (hkeys : ∀ member ∈ members, member.1 = .whole "max_age" ∨ member.1 = .whole "max_version")
      (hage : members.lookup (.whole "max_age") = some age)
      (hcount : members.lookup (.whole "max_version") = some count) :
      NodeFault (.object members) .conflictingFields
  | missingField : NodeFault (.object []) .missingField
  | duration {members : List (Text × Json)} {value : Json}
      (hnode : IsSingle members (.whole "max_age") value)
      (hage : ¬ ∃ text seconds, value = .string (.whole text) ∧ Duration.Writes text seconds ∧
        seconds ≤ 2 ^ 53 - 1) : NodeFault (.object members) (.duration value)
  | versionCount {members : List (Text × Json)} {value : Json}
      (hnode : IsSingle members (.whole "max_version") value)
      (hcount : ¬ ∃ count : Nat, value = .number (.int count) ∧ 1 ≤ count ∧ count ≤ 2 ^ 31 - 1) :
      NodeFault (.object members) (.versionCount value)

/-- The first fault of a rule text: that of its root, or that of an item whose siblings before it
are rules, in a composite rule whose own checks pass. -/
inductive FirstFault : Json → RuleError → Prop
  | root {value : Json} {fault : RuleFault} (hfault : NodeFault value fault) :
      FirstFault value ⟨[], fault⟩
  | item {members : List (Text × Json)} {items : List Json} {position : Nat} {item : Json}
      {error : RuleError} (hnode : Passes members items) (hitem : items[position]? = some item)
      (hbefore : ∀ other ∈ items.take position, ∃ rule, read other = .ok rule)
      (herror : FirstFault item error) : FirstFault (.object members) (error.under position)

/-! ### Checks that fail -/

variable {members : List (Text × Json)} {fault : RuleFault}

theorem firstUnknown_iff {allowed : List Text} {key : Text} :
    FirstUnknown allowed members key ↔
      ∃ value, (members.find? fun member => !allowed.contains member.1) = some (key, value) := by
  simp only [List.find?_eq_some_iff_append, Bool.not_eq_true', Bool.not_not,
    ← Bool.not_eq_true, List.contains_iff_mem]
  constructor
  · rintro ⟨before, value, after, hmembers, hbefore, hkey⟩
    exact ⟨value, hkey, before, after, hmembers, hbefore⟩
  · rintro ⟨value, hkey, before, after, hmembers, hbefore⟩
    exact ⟨before, value, after, hmembers, hbefore, hkey⟩

theorem checkKeys_eq_error_iff {allowed : List Text} :
    checkKeys allowed members = .error fault ↔
      ∃ key, FirstUnknown allowed members key ∧ fault = .unknownKey key := by
  simp only [firstUnknown_iff]
  rw [checkKeys]
  cases members.find? fun member => !allowed.contains member.1 with
  | none => simp
  | some member =>
    obtain ⟨key, value⟩ := member
    simp [eq_comm]

/-- A check that fails in one way only fails that way exactly when it does not pass. -/
theorem eq_error_iff_of_only {α : Type} {result : Except RuleFault α} {only : RuleFault}
    (honly : ∀ fault, result = .error fault → fault = only) :
    result = .error fault ↔ (¬ ∃ value, result = .ok value) ∧ fault = only := by
  cases result with
  | error found =>
    obtain rfl := honly found rfl
    simp [eq_comm]
  | ok value => simp

theorem readMode_eq_error_iff {value : Json} :
    readMode value = .error fault ↔
      (¬ ∃ (word : String) (mode : Mode), value = .string (.whole word) ∧ mode.Spells word) ∧
        fault = .mode value := by
  have honly (fault : RuleFault) (h : readMode value = .error fault) : fault = .mode value := by
    unfold readMode at h
    split at h
    · next word => cases hword : Mode.ofWord? word <;> simp [hword] at h; exact h.symm
    · exact (Except.error.inj h).symm
  rw [eq_error_iff_of_only honly]
  simp only [readMode_eq_ok_iff]
  rw [exists_comm]

theorem readAge_eq_error_iff {value : Json} :
    readAge value = .error fault ↔
      (¬ ∃ text seconds, value = .string (.whole text) ∧ Duration.Writes text seconds ∧
        seconds ≤ 2 ^ 53 - 1) ∧ fault = .duration value := by
  have honly (fault : RuleFault) (h : readAge value = .error fault) : fault = .duration value := by
    unfold readAge at h
    split at h
    · next text => cases htext : Duration.read? text <;> simp [htext] at h; exact h.symm
    · exact (Except.error.inj h).symm
  rw [eq_error_iff_of_only honly]
  simp only [readAge_eq_ok_iff]
  refine and_congr_left' (not_congr ⟨?_, ?_⟩)
  · rintro ⟨_, text, seconds, rfl, htext, hsafe, -⟩
    exact ⟨text, seconds, rfl, htext, hsafe⟩
  · rintro ⟨text, seconds, rfl, htext, hsafe⟩
    exact ⟨_, text, seconds, rfl, htext, hsafe, rfl⟩

theorem readCount_eq_error_iff {value : Json} :
    readCount value = .error fault ↔
      (¬ ∃ count : Nat, value = .number (.int count) ∧ 1 ≤ count ∧ count ≤ 2 ^ 31 - 1) ∧
        fault = .versionCount value := by
  have honly (fault : RuleFault) (h : readCount value = .error fault) :
      fault = .versionCount value := by
    unfold readCount at h
    split at h
    · split at h
      · cases h
      · exact (Except.error.inj h).symm
    · exact (Except.error.inj h).symm
  rw [eq_error_iff_of_only honly]
  simp only [readCount_eq_ok_iff]
  refine and_congr_left' (not_congr ⟨?_, ?_⟩)
  · rintro ⟨_, count, rfl, hlow, hhigh, -⟩
    exact ⟨count, rfl, hlow, hhigh⟩
  · rintro ⟨count, rfl, hlow, hhigh⟩
    exact ⟨_, count, rfl, hlow, hhigh, rfl⟩

theorem checkCount_eq_error_iff {mode : Option Mode} {count : Nat} :
    checkCount mode count = .error fault ↔
      (mode = none ∧ count ≠ 1 ∧ fault = .ruleCount false count) ∨
        (mode ≠ none ∧ count < 2 ∧ fault = .ruleCount true count) := by
  cases mode with
  | none =>
    rw [checkCount]
    split <;> simp [*, eq_comm]
  | some mode =>
    rw [checkCount]
    split
    · next h => simp [Nat.not_lt.mpr h]
    · next h => simp [Nat.not_le.mp h, eq_comm]

theorem map_eq_error_iff {ε α β : Type} {result : Except ε α} {f : α → β} {failure : ε} :
    (f <$> result) = .error failure ↔ result = .error failure := by
  cases result <;> simp [Functor.map, Except.map]

/-- An object with two keys at most has no member with another one. -/
theorem lookup_eq_none_of_keys {first second key : Text}
    (hkeys : ∀ member ∈ members, member.1 = first ∨ member.1 = second) (hfirst : key ≠ first)
    (hsecond : key ≠ second) : members.lookup key = none := by
  simp only [List.lookup_eq_none_iff, bne_iff_ne]
  rintro member hmem rfl
  exact (hkeys member hmem).elim hfirst hsecond

/-- The checks of a composite rule fail with the fault of the node. -/
theorem readComposite_eq_error_iff {rules : Json}
    (hrules : members.lookup (.whole "rules") = some rules) :
    readComposite members rules = .error fault ↔ NodeFault (.object members) fault := by
  have hallowed : allowedKeys members = [.whole "mode", .whole "rules"] := by
    simp [allowedKeys, hrules]
  have hknown {done : Unit} : checkKeys ["mode", "rules"] members = .ok done ↔
      ∀ member ∈ members, member.1 = .whole "mode" ∨ member.1 = .whole "rules" := by
    simp only [checkKeys_eq_ok_iff, List.mem_cons, List.not_mem_nil, or_false]
  unfold readComposite
  rw [bind_eq_error_iff]
  constructor
  · rintro (hunknown | ⟨_, hkeys, hrest⟩)
    · obtain ⟨key, hkey, rfl⟩ := checkKeys_eq_error_iff.mp hunknown
      exact .unknownKey (hallowed ▸ hkey)
    · rw [hknown] at hkeys
      split at hrest
      case h_2 harray =>
        obtain rfl := Except.error.inj hrest
        exact .notArray hkeys hrules harray
      case h_1 items =>
        have hnode : IsComposite members items := ⟨hkeys, hrules⟩
        split at hrest
        case h_1 hnone =>
          obtain ⟨⟨⟩⟩ | ⟨_, ⟨⟩, hsuit⟩ := bind_eq_error_iff.mp hrest
          obtain hcount | ⟨_, -, ⟨⟩⟩ := bind_eq_error_iff.mp hsuit
          obtain ⟨-, hother, rfl⟩ | ⟨hmode, -⟩ := checkCount_eq_error_iff.mp hcount
          · exact .wrapperCount hnode hnone hother
          · exact absurd rfl hmode
        case h_2 value hvalue =>
          obtain hmode | ⟨_, hfound, hsuit⟩ := bind_eq_error_iff.mp hrest
          · obtain ⟨hword, rfl⟩ := readMode_eq_error_iff.mp (map_eq_error_iff.mp hmode)
            exact .mode hnode hvalue hword
          · obtain ⟨mode, hmode, rfl⟩ := map_eq_ok_iff.mp hfound
            obtain ⟨word, rfl, hword⟩ := readMode_eq_ok_iff.mp hmode
            obtain hcount | ⟨_, -, ⟨⟩⟩ := bind_eq_error_iff.mp hsuit
            obtain ⟨⟨⟩, -⟩ | ⟨-, hfew, rfl⟩ := checkCount_eq_error_iff.mp hcount
            exact .combinationCount hnode hvalue hword hfew
  · intro h
    cases h with
    | notObject hobject => cases hobject
    | unknownKey hkey => exact Or.inl (checkKeys_eq_error_iff.mpr ⟨_, hallowed ▸ hkey, rfl⟩)
    | notArray hkeys hrules' harray =>
      obtain rfl := Option.some.inj (hrules.symm.trans hrules')
      refine Or.inr ⟨(), hknown.mpr hkeys, ?_⟩
      split
      · exact absurd rfl (harray _)
      · rfl
    | mode hnode hmode hword =>
      obtain rfl := Option.some.inj (hrules.symm.trans hnode.lookup_eq)
      refine Or.inr ⟨(), hknown.mpr hnode.key_eq, ?_⟩
      simp only [hmode]
      exact bind_eq_error_iff.mpr (Or.inl
        (map_eq_error_iff.mpr (readMode_eq_error_iff.mpr ⟨hword, rfl⟩)))
    | wrapperCount hnode hmode hcount =>
      obtain rfl := Option.some.inj (hrules.symm.trans hnode.lookup_eq)
      refine Or.inr ⟨(), hknown.mpr hnode.key_eq, ?_⟩
      simp only [hmode]
      exact bind_eq_error_iff.mpr (Or.inr ⟨none, rfl, bind_eq_error_iff.mpr (Or.inl
        (checkCount_eq_error_iff.mpr (Or.inl ⟨rfl, hcount, rfl⟩)))⟩)
    | combinationCount hnode hmode hword hcount =>
      obtain rfl := Option.some.inj (hrules.symm.trans hnode.lookup_eq)
      refine Or.inr ⟨(), hknown.mpr hnode.key_eq, ?_⟩
      simp only [hmode]
      refine bind_eq_error_iff.mpr (Or.inr ⟨some _, map_eq_ok_iff.mpr ⟨_,
        readMode_eq_ok_iff.mpr ⟨_, rfl, hword⟩, rfl⟩, bind_eq_error_iff.mpr (Or.inl
        (checkCount_eq_error_iff.mpr (Or.inr ⟨nofun, hcount, rfl⟩)))⟩)
    | conflictingFields hkeys =>
      rw [lookup_eq_none_of_keys hkeys (by decide) (by decide)] at hrules
      cases hrules
    | missingField => cases hrules
    | duration hnode | versionCount hnode =>
      rw [hnode.lookup_of_ne (by decide)] at hrules
      cases hrules

/-- The checks of a single rule fail with the fault of the node. -/
theorem readSingle_eq_error_iff (hrules : members.lookup (.whole "rules") = none) :
    readSingle members = .error fault ↔ NodeFault (.object members) fault := by
  have hallowed : allowedKeys members = [.whole "max_age", .whole "max_version"] := by
    simp [allowedKeys, hrules]
  have hknown {done : Unit} : checkKeys ["max_age", "max_version"] members = .ok done ↔
      ∀ member ∈ members, member.1 = .whole "max_age" ∨ member.1 = .whole "max_version" := by
    simp only [checkKeys_eq_ok_iff, List.mem_cons, List.not_mem_nil, or_false]
  unfold readSingle
  rw [bind_eq_error_iff]
  constructor
  · rintro (hunknown | ⟨_, hkeys, hrest⟩)
    · obtain ⟨key, hkey, rfl⟩ := checkKeys_eq_error_iff.mp hunknown
      exact .unknownKey (hallowed ▸ hkey)
    · rw [hknown] at hkeys
      split at hrest
      case h_1 age count hage hcount =>
        obtain rfl := Except.error.inj hrest
        exact .conflictingFields hkeys hage hcount
      case h_2 value hage hversion =>
        obtain ⟨hnot, rfl⟩ := readAge_eq_error_iff.mp (map_eq_error_iff.mp hrest)
        exact .duration (isSingle_of_lookup hkeys hage hversion) hnot
      case h_3 value hage hversion =>
        obtain ⟨hnot, rfl⟩ := readCount_eq_error_iff.mp (map_eq_error_iff.mp hrest)
        have hkeys' := fun member hmem => (hkeys member hmem).symm
        exact .versionCount (isSingle_of_lookup hkeys' hversion hage) hnot
      case h_4 hage hversion =>
        obtain rfl := Except.error.inj hrest
        obtain rfl : members = [] := by
          refine List.eq_nil_iff_forall_not_mem.mpr fun member hmem => ?_
          simp only [List.lookup_eq_none_iff, bne_iff_ne] at hage hversion
          exact (hkeys member hmem).elim (fun h => hage member hmem h.symm)
            fun h => hversion member hmem h.symm
        exact .missingField
  · intro h
    cases h with
    | notObject hobject => cases hobject
    | unknownKey hkey => exact Or.inl (checkKeys_eq_error_iff.mpr ⟨_, hallowed ▸ hkey, rfl⟩)
    | notArray _ hrules' =>
      rw [hrules] at hrules'
      cases hrules'
    | mode hnode | wrapperCount hnode | combinationCount hnode =>
      rw [hnode.lookup_eq] at hrules
      cases hrules
    | conflictingFields hkeys hage hcount =>
      refine Or.inr ⟨(), hknown.mpr hkeys, ?_⟩
      simp only [hage, hcount]
      rfl
    | missingField => exact Or.inr ⟨(), rfl, rfl⟩
    | duration hnode hnot =>
      have hnone := hnode.lookup_of_ne (show Text.whole "max_version" ≠ _ by decide)
      refine Or.inr ⟨(), hknown.mpr fun member hmem => Or.inl (hnode.key_eq member hmem), ?_⟩
      simp only [hnode.lookup_eq, hnone]
      exact map_eq_error_iff.mpr (readAge_eq_error_iff.mpr ⟨hnot, rfl⟩)
    | versionCount hnode hnot =>
      have hnone := hnode.lookup_of_ne (show Text.whole "max_age" ≠ _ by decide)
      refine Or.inr ⟨(), hknown.mpr fun member hmem => Or.inr (hnode.key_eq member hmem), ?_⟩
      simp only [hnode.lookup_eq, hnone]
      exact map_eq_error_iff.mpr (readCount_eq_error_iff.mpr ⟨hnot, rfl⟩)

/-- The checks of a node fail with its fault. -/
theorem readNode_eq_error_iff :
    readNode members = .error fault ↔ NodeFault (.object members) fault := by
  unfold readNode
  split
  · next rules hrules => exact readComposite_eq_error_iff hrules
  · next hrules => exact readSingle_eq_error_iff hrules

/-! ### The first node with a fault -/

/-- The checks of a composite rule pass when it is composite with some mode. -/
theorem passes_iff {items : List Json} :
    Passes members items ↔
      ∃ mode, readNode members = .ok (.composite mode) ∧ IsComposite members items := by
  simp only [readNode_eq_composite_iff]
  constructor
  · rintro ⟨hnode, ⟨hmode, hone⟩ | ⟨word, mode, hmode, hword, htwo⟩⟩
    · exact ⟨none, ⟨items, hnode, hmode, Or.inl ⟨rfl, hone⟩⟩, hnode⟩
    · exact ⟨some mode, ⟨items, hnode, ⟨word, hmode, hword⟩, Or.inr ⟨nofun, htwo⟩⟩, hnode⟩
  · rintro ⟨mode, ⟨others, hothers, hmode, hcount⟩, hnode⟩
    obtain rfl : others = items := by
      have := hothers.lookup_eq.symm.trans hnode.lookup_eq
      simpa using this
    refine ⟨hnode, ?_⟩
    cases mode with
    | none =>
      obtain ⟨-, hone⟩ | ⟨hne, -⟩ := hcount
      · exact Or.inl ⟨hmode, hone⟩
      · exact absurd rfl hne
    | some mode =>
      obtain ⟨⟨⟩, -⟩ | ⟨-, htwo⟩ := hcount
      obtain ⟨word, hlookup, hword⟩ := hmode
      exact Or.inr ⟨word, mode, hlookup, hword, htwo⟩

/-- Some items are not read because of the first of them that is not read. -/
theorem readAll_eq_error_iff {position : Nat} {items : List Json} {error : RuleError} :
    readAll position items = .error error ↔
      ∃ offset item inner, items[offset]? = some item ∧
        (∀ other ∈ items.take offset, ∃ rule, read other = .ok rule) ∧
        read item false = .error inner ∧ error = inner.under (position + offset) := by
  induction items generalizing position with
  | nil => simp [readAll]
  | cons item rest ih =>
    rw [readAll]
    cases hitem : read item false with
    | error inner =>
      constructor
      · intro h
        obtain rfl := Except.error.inj h
        exact ⟨0, item, inner, rfl, List.forall_mem_nil _, hitem, rfl⟩
      · rintro ⟨offset, other, found, hother, hbefore, hfound, rfl⟩
        cases offset with
        | zero =>
          obtain rfl := Option.some.inj hother
          obtain rfl := Except.error.inj (hitem.symm.trans hfound)
          rfl
        | succ offset =>
          obtain ⟨rule, hrule⟩ := hbefore item (by simp)
          rw [← read_isTopLevel item true, hrule] at hitem
          cases hitem
    | ok rule =>
      have hread : read item = .ok rule := (read_isTopLevel item true).trans hitem
      refine map_eq_error_iff.trans (ih.trans ⟨?_, ?_⟩)
      · rintro ⟨offset, other, inner, hother, hbefore, hinner, rfl⟩
        refine ⟨offset + 1, other, inner, hother, ?_, hinner, by rw [Nat.add_assoc, Nat.add_comm 1]⟩
        exact List.forall_mem_cons.mpr ⟨⟨rule, hread⟩, hbefore⟩
      · rintro ⟨offset, other, inner, hother, hbefore, hinner, rfl⟩
        cases offset with
        | zero =>
          obtain rfl := Option.some.inj hother
          rw [hinner] at hitem
          cases hitem
        | succ offset =>
          exact ⟨offset, other, inner, hother, (List.forall_mem_cons.mp hbefore).2, hinner,
            by rw [Nat.add_assoc, Nat.add_comm 1]⟩

/-- A text is refused for its first fault, at the top level and below it. -/
theorem read_eq_error_iff {raw : Json} {isTopLevel : Bool} {error : RuleError} :
    read raw isTopLevel = .error error ↔ FirstFault raw error := by
  induction raw using Json.rules_induction generalizing isTopLevel error with
  | step raw ih =>
    cases raw with
    | object members =>
      rw [read]
      constructor
      · intro h
        split at h
        case h_1 fault hfault =>
          obtain rfl := Except.error.inj h
          exact .root (readNode_eq_error_iff.mp hfault)
        case h_2 => cases h
        case h_3 mode hmode =>
          obtain ⟨items, hnode, -⟩ := readNode_eq_composite_iff.mp hmode
          rw [readRules_of_lookup hnode.lookup_eq] at h
          obtain ⟨offset, item, inner, hitem, hbefore, hinner, rfl⟩ :=
            readAll_eq_error_iff.mp (map_eq_error_iff.mp h)
          rw [Nat.zero_add]
          exact .item (passes_iff.mpr ⟨mode, hmode, hnode⟩) hitem hbefore
            ((ih items hnode.lookup_eq item (List.mem_of_getElem? hitem)).mp hinner)
      · intro h
        cases h with
        | root hfault => simp only [readNode_eq_error_iff.mpr hfault]
        | @item _ items position item inner hpasses hitem hbefore hinner =>
          obtain ⟨mode, hmode, hnode⟩ := passes_iff.mp hpasses
          simp only [hmode]
          rw [readRules_of_lookup hnode.lookup_eq]
          refine map_eq_error_iff.mpr (readAll_eq_error_iff.mpr
            ⟨position, item, inner, hitem, hbefore, ?_, by rw [Nat.zero_add]⟩)
          exact (ih items hnode.lookup_eq item (List.mem_of_getElem? hitem)).mpr hinner
    | _ =>
      constructor
      · intro h
        obtain rfl := Except.error.inj h
        exact .root (.notObject rfl)
      · rintro (⟨⟨hobject⟩⟩)
        rfl

/-! ### Where the path leads -/

/-- The member that the fault of a node lies in is there, and the fault is about it. -/
theorem NodeFault.exists_place {value : Json} (h : NodeFault value fault) :
    ∃ place, Json.along? (fault.member?.toList.map String.toList) value = some place ∧
      fault.IsAbout place := by
  have hmember {members : List (Text × Json)} {place : Json} {word : String}
      (hword : word.toList.getLast? ≠ some ']')
      (hlookup : members.lookup (.whole word) = some place) :
      Json.along? [word.toList] (.object members) = some place := by
    have hstep : (Json.object members).member? word = some place := hlookup
    rw [Json.along?, Json.step?_word hword, hstep]
    rfl
  cases h with
  | notObject hobject => exact ⟨value, rfl, hobject⟩
  | unknownKey hkey => exact ⟨_, rfl, _, rfl, hkey⟩
  | notArray _ hrules harray => exact ⟨_, hmember (by decide) hrules, harray⟩
  | mode _ hmode => exact ⟨_, hmember (by decide) hmode, rfl⟩
  | wrapperCount hnode | combinationCount hnode =>
    exact ⟨_, hmember (by decide) hnode.lookup_eq, _, rfl, rfl⟩
  | conflictingFields _ hage hcount =>
    exact ⟨_, rfl, Option.isSome_iff_exists.mpr ⟨_, hage⟩, Option.isSome_iff_exists.mpr ⟨_, hcount⟩⟩
  | missingField => exact ⟨_, rfl, rfl⟩
  | duration hnode => exact ⟨_, hmember (by decide) hnode.lookup_eq, rfl⟩
  | versionCount hnode => exact ⟨_, hmember (by decide) hnode.lookup_eq, rfl⟩

/-- The path to the first fault leads to a place, and the fault is about this place. -/
theorem FirstFault.exists_place {raw : Json} {error : RuleError} (h : FirstFault raw error) :
    ∃ place, raw.at? error.path = some place ∧ error.fault.IsAbout place := by
  simp only [RuleError.at?_path]
  induction h with
  | root hfault => exact hfault.exists_place
  | @item members items position item error hpasses hitem _ _ ih =>
    obtain ⟨place, hplace, habout⟩ := ih
    refine ⟨place, ?_, habout⟩
    rw [← hplace]
    change (((Json.object members).step? (itemStep position)).bind (Json.along? _)) = _
    rw [Json.step?_itemStep hpasses.1.lookup_eq, hitem]
    rfl

/-- **The first fault is reported, and its path leads to it.** A text is refused with an error
exactly when the error is the first fault of the text: it lies at a node that is reached from the
root through composite rules whose own checks pass and over items that are rules, and it is the
first check that fails there. The path in the error leads to a place in the text; the key in the
error is the first one there that may not be, the value is the one there, and the count is that of
the items there. Errors have one path only when they lie at one node and in one member of it. -/
theorem read_first_fault (raw : Json) (isTopLevel : Bool) (error : RuleError) :
    (read raw isTopLevel = .error error ↔ FirstFault raw error) ∧
    (read raw isTopLevel = .error error →
      ∃ place, raw.at? error.path = some place ∧ error.fault.IsAbout place) ∧
    ∀ other : RuleError, error.path = other.path ↔
      error.node = other.node ∧ error.fault.member? = other.fault.member? :=
  ⟨read_eq_error_iff, fun h => (read_eq_error_iff.mp h).exists_place, fun _ =>
    RuleError.path_eq_iff⟩

/-- Of three faults at two depths, the number of versions in the second rule is the first. -/
theorem read_first_fault_nested :
    let raw := Json.object [("rules", .array [.object [("max_age", .string "1h")],
      .object [("rules", .array [.object [("max_version", .number 0)]])],
      .object [("bogus", .null), ("max_age", .null)]]), ("mode", .string "Union")]
    read raw = .error ⟨[1, 0], .versionCount (.number 0)⟩ ∧
      raw.at? "rules[1].rules[0].max_version" = some (.number 0) := by
  intro raw
  have hread : read raw = .error ⟨[1, 0], .versionCount (.number 0)⟩ := by rfl
  obtain ⟨place, hplace, rfl⟩ := (read_first_fault raw true _).2.1 hread
  exact ⟨hread, hplace⟩

end Rule

end Retention
