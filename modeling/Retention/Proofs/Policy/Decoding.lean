import Retention.Proofs.Policy.Message
import Retention.Proofs.Rule.Grammar

/-!
# What rule messages mean

A message means a combination of what the messages in it mean, or it has no other messages in it and
is a leaf. A union comes before an intersection, and both come before the members of a leaf; what
stands beside them does not count.

The messages of the admin API have a form: each member is left out, null, or a value of its own
kind. Every message of that form means some policy.

## Main definitions

* `Optionally`: a member that is left out, null or of a given form.
* `Policy.IsMessage`: the form of the admin API's messages.

## Main results

* `Policy.ofLeaf_cases`, `Policy.ofMessage_object_cases`: what a message means comes from its
  parts.
* `Policy.of_ofMessage`: what leaves and combinations have, every policy from a message has.
* `Policy.IsMessage.exists_ofMessage`: every message of the admin API means some policy.
-/

namespace Retention

/-- The member with a key is left out, null or of a given form. -/
def Optionally (form : Json → Prop) (members : List (Text × Json)) (key : String) : Prop :=
  ∀ value, members.lookup (.whole key) = some value → value = .null ∨ form value

theorem Optionally.of_none {form : Json → Prop} {members : List (Text × Json)} {key : String}
    (hlookup : members.lookup (.whole key) = none) : Optionally form members key := by
  intro _ hsome
  rw [hlookup] at hsome
  cases hsome

theorem Optionally.of_lookup {form : Json → Prop} {members : List (Text × Json)} {key : String}
    {value : Json} (hlookup : members.lookup (.whole key) = some value)
    (h : value = .null ∨ form value) : Optionally form members key := by
  intro _ hsome
  rw [hlookup] at hsome
  rwa [← Option.some.inj hsome]

/-- A member that is left out or null, or one of the form. -/
theorem Optionally.cases {form : Json → Prop} {members : List (Text × Json)} {key : String}
    (h : Optionally form members key) :
    members.lookup (.whole key) = none ∨ members.lookup (.whole key) = some .null ∨
      ∃ value, members.lookup (.whole key) = some value ∧ form value := by
  cases hlookup : members.lookup (.whole key) with
  | none => exact Or.inl rfl
  | some value =>
    obtain rfl | hform := h value hlookup
    · exact Or.inr (Or.inl rfl)
    · exact Or.inr (Or.inr ⟨value, rfl, hform⟩)

namespace Policy

variable {members : List (Text × Json)} {mode : Mode} {policy : Policy}

/-! ### The parts of a message -/

/-- A combination is set by the member that its mode names. -/
theorem branch?_eq (mode : Mode) (members : List (Text × Json)) :
    branch? mode members = (members.lookup (.whole mode.word)).bind (combined? mode) := by
  induction members with
  | nil => rfl
  | cons member rest ih =>
    obtain ⟨key, value⟩ := member
    rw [branch?, List.lookup_cons]
    by_cases hkey : key = .whole mode.word
    · rw [if_pos hkey, hkey, beq_self_eq_true]
      rfl
    · have hbeq : ((.whole mode.word : Text) == key) = false :=
        beq_eq_false_iff_ne.mpr (Ne.symm hkey)
      rw [if_neg hkey, hbeq, ih]

/-- The rules of a combination are in its member `rules`. -/
theorem ofRules_eq (mode : Mode) (members : List (Text × Json)) :
    ofRules mode members = (members.lookup (.whole "rules")).elim (.ok []) (ofList mode) := by
  induction members with
  | nil => rfl
  | cons member rest ih =>
    obtain ⟨key, value⟩ := member
    rw [ofRules, List.lookup_cons]
    by_cases hkey : key = .whole "rules"
    · rw [if_pos hkey, hkey, beq_self_eq_true]
      rfl
    · have hbeq : ((.whole "rules" : Text) == key) = false := beq_eq_false_iff_ne.mpr (Ne.symm hkey)
      rw [if_neg hkey, hbeq, ih]

/-- Some messages mean policies when each of them does, and the policies come in their order. -/
theorem ofMessages_eq_ok_iff {messages : List Json} {policies : List Policy} :
    ofMessages messages = .ok policies ↔
      List.Forall₂ (fun message policy => ofMessage message = .ok policy) messages policies := by
  induction messages generalizing policies with
  | nil => simp [ofMessages, eq_comm]
  | cons message rest ih =>
    rw [ofMessages, List.forall₂_cons_left_iff]
    cases hmessage : ofMessage message with
    | error fault => simp
    | ok policy =>
      simp only [exceptMap_eq_ok_iff, ih, Except.ok.injEq]
      constructor
      · rintro ⟨others, hothers, rfl⟩
        exact ⟨policy, others, rfl, hothers, rfl⟩
      · rintro ⟨_, others, rfl, hothers, rfl⟩
        exact ⟨others, hothers, rfl⟩

/-- The messages that a message has under a mode. -/
def HasRules (members : List (Text × Json)) (mode : Mode) (items : List Json) : Prop :=
  ∃ content, members.lookup (.whole mode.word) = some (.object content) ∧
    content.lookup (.whole "rules") = some (.array items)

/-- A message in another one is smaller. -/
theorem HasRules.sizeOf_lt {items : List Json} (h : HasRules members mode items) {item : Json}
    (hitem : item ∈ items) : sizeOf item < sizeOf (Json.object members) := by
  obtain ⟨content, hcontent, hrules⟩ := h
  have hinner := Json.sizeOf_lt_of_lookup hrules hitem
  obtain ⟨before, after, hmembers, -⟩ := List.lookup_eq_some_iff.mp hcontent
  have hmem : (.whole mode.word, Json.object content) ∈ members := by simp [hmembers]
  have houter := List.sizeOf_lt_of_mem hmem
  simp only [Prod.mk.sizeOf_spec] at houter
  simp only [Json.object.sizeOf_spec] at hinner houter ⊢
  omega

/-- A leaf is an age, a positive number of versions or nothing. -/
theorem ofLeaf_cases (h : ofLeaf members = .ok policy) :
    (∃ age seconds, Age.wholeSeconds age = .ok seconds ∧ policy = .maxAge seconds) ∨
      (∃ count, count.isPositive = true ∧ policy = .maxVersions count) ∨ policy = .noGc := by
  unfold ofLeaf at h
  split at h
  · next age _ =>
    obtain ⟨seconds, hseconds, rfl⟩ := exceptMap_eq_ok_iff.mp h
    exact Or.inl ⟨age, seconds, hseconds, rfl⟩
  · split at h
    · next count _ =>
      split at h
      · next hpositive => exact Or.inr (Or.inl ⟨count, hpositive, (Except.ok.inj h).symm⟩)
      · exact Or.inr (Or.inr (Except.ok.inj h).symm)
    · exact Or.inr (Or.inr (Except.ok.inj h).symm)

/-- A combination that a member sets is one of what its messages mean, or it is empty. -/
theorem combined?_cases {value : Json} (h : combined? mode value = some (.ok policy)) :
    ∃ children, policy = .combined mode children ∧ (children = [] ∨ ∃ content items,
      value = .object content ∧ content.lookup (.whole "rules") = some (.array items) ∧
        List.Forall₂ (fun message policy => ofMessage message = .ok policy) items children) := by
  cases value with
  | object content =>
    obtain ⟨children, hchildren, rfl⟩ := exceptMap_eq_ok_iff.mp (Option.some.inj h)
    refine ⟨children, rfl, ?_⟩
    rw [ofRules_eq] at hchildren
    cases hrules : content.lookup (.whole "rules") with
    | none =>
      rw [hrules] at hchildren
      exact Or.inl (Except.ok.inj hchildren).symm
    | some rules =>
      rw [hrules] at hchildren
      cases rules with
      | null => exact Or.inl (Except.ok.inj hchildren).symm
      | array items => exact Or.inr ⟨content, items, rfl, hrules, ofMessages_eq_ok_iff.mp hchildren⟩
      | _ => cases hchildren
  | _ =>
    refine ⟨[], ?_, Or.inl rfl⟩
    rw [combined?] at h
    · split at h
      · exact (Except.ok.inj (Option.some.inj h)).symm
      · cases h
    · rintro _ ⟨⟩

/-- An object means what a leaf of its members means, or a combination: of what the messages under
the mode mean, or an empty one. -/
theorem ofMessage_object_cases (h : ofMessage (.object members) = .ok policy) :
    ofLeaf members = .ok policy ∨ ∃ mode children, policy = .combined mode children ∧
      (children = [] ∨ ∃ items, HasRules members mode items ∧
        List.Forall₂ (fun message policy => ofMessage message = .ok policy) items children) := by
  have hbranch {mode : Mode} (hset : branch? mode members = some (.ok policy)) :
      ∃ children, policy = .combined mode children ∧
        (children = [] ∨ ∃ items, HasRules members mode items ∧
          List.Forall₂ (fun message policy => ofMessage message = .ok policy) items children) := by
    rw [branch?_eq] at hset
    obtain ⟨value, hlookup, hvalue⟩ := Option.bind_eq_some_iff.mp hset
    obtain ⟨children, rfl, hempty | ⟨content, items, rfl, hrules, hitems⟩⟩ := combined?_cases hvalue
    · exact ⟨children, rfl, Or.inl hempty⟩
    · exact ⟨children, rfl, Or.inr ⟨items, ⟨content, hlookup, hrules⟩, hitems⟩⟩
  rw [ofMessage] at h
  split at h
  · next branch hset =>
    rw [h] at hset
    rcases Option.or_eq_some_iff.mp hset with hunion | ⟨-, hintersection⟩
    · exact Or.inr ⟨.union, hbranch hunion⟩
    · exact Or.inr ⟨.intersection, hbranch hintersection⟩
  · exact Or.inl h

/-- What an absence of collection, every leaf and every combination of such policies have, every
policy that a message means has. -/
theorem of_ofMessage {motive : Policy → Prop} (hnoGc : motive .noGc)
    (hleaf : ∀ members policy, ofLeaf members = .ok policy → motive policy)
    (hcombined : ∀ mode children, (∀ child ∈ children, motive child) →
      motive (.combined mode children)) :
    ∀ (message : Json) {policy : Policy}, ofMessage message = .ok policy → motive policy
  | .object members, policy, h => by
    obtain hmeans | ⟨mode, children, rfl, rfl | ⟨items, hrules, hitems⟩⟩ :=
      ofMessage_object_cases h
    · exact hleaf members policy hmeans
    · exact hcombined mode [] nofun
    · refine hcombined mode children fun child hchild => ?_
      obtain ⟨item, hitem, hmeans⟩ := exists_of_mem_right hitems hchild
      have hlt := hrules.sizeOf_lt hitem
      exact of_ofMessage hnoGc hleaf hcombined item hmeans
  | .null, policy, h => by cases h
  | .bool _, policy, h | .number _, policy, h | .string _, policy, h | .array _, policy, h => by
    rw [← Except.ok.inj h]
    exact hnoGc
termination_by message => sizeOf message
decreasing_by exact hlt

/-! ### The form of messages -/

/-- A number, a text, or an object that prints one. -/
inductive IsSeconds : Json → Prop
  | number (value : Number) : IsSeconds (.number value)
  | text (digits : Text) : IsSeconds (.string digits)
  | printed {members : List (Text × Json)} {digits : Text}
      (hprinted : Age.printedObject members = some digits) : IsSeconds (.object members)

/-- A number. -/
def IsNumber (value : Json) : Prop := ∃ number, value = .number number

/-- An age has seconds and nanoseconds. -/
def IsAge (value : Json) : Prop :=
  ∃ members, value = .object members ∧ Optionally IsSeconds members "seconds" ∧
    Optionally IsNumber members "nanos"

/-- A combination has a list of rules. -/
def IsCombination (value : Json) : Prop :=
  ∃ members, value = .object members ∧
    Optionally (fun rules => ∃ items, rules = .array items) members "rules"

/-- The messages of the admin API: objects whose members may be left out, null or set, several at
once. -/
inductive IsMessage : Json → Prop
  | intro {members : List (Text × Json)}
      (hcombinations : ∀ mode : Mode, Optionally IsCombination members mode.word)
      (hrules : ∀ mode items, HasRules members mode items → ∀ item ∈ items, IsMessage item)
      (hage : Optionally IsAge members "maxAge")
      (hcount : Optionally IsNumber members "maxNumVersions") : IsMessage (.object members)

/-- A message without a combination. -/
theorem IsMessage.leaf {members : List (Text × Json)}
    (hmodes : ∀ mode : Mode, members.lookup (.whole mode.word) = none)
    (hage : Optionally IsAge members "maxAge")
    (hcount : Optionally IsNumber members "maxNumVersions") : IsMessage (.object members) := by
  refine .intro (fun mode => .of_none (hmodes mode)) (fun mode items hrules => ?_) hage hcount
  obtain ⟨_, hcontent, -⟩ := hrules
  rw [hmodes mode] at hcontent
  cases hcontent

/-- A message with nothing but a combination of messages. -/
theorem IsMessage.combination (mode : Mode) {items : List Json}
    (h : ∀ item ∈ items, IsMessage item) :
    IsMessage (.object [(mode.word, .object [("rules", .array items)])]) := by
  have hlookup (other : Mode) {value : Json} (hvalue : List.lookup (.whole other.word)
      [((.whole mode.word : Text), Json.object [("rules", .array items)])] = some value) :
      value = .object [("rules", .array items)] := by
    cases mode <;> cases other <;> cases hvalue <;> rfl
  refine .intro (fun other value hvalue => ?_) (fun other inner hrules => ?_) ?_ ?_
  · exact Or.inr ⟨_, hlookup other hvalue, .of_lookup rfl (Or.inr ⟨items, rfl⟩)⟩
  · obtain ⟨content, hcontent, hinner⟩ := hrules
    cases hlookup other hcontent
    cases hinner
    exact h
  · exact .of_none (by cases mode <;> rfl)
  · exact .of_none (by cases mode <;> rfl)

/-- The seconds of an age can be read. -/
theorem exists_seconds {members : List (Text × Json)} (h : Optionally IsSeconds members "seconds") :
    ∃ seconds, Age.seconds (.object members) = .ok seconds := by
  have hmember : (Json.object members).member? "seconds" = members.lookup (.whole "seconds") := rfl
  unfold Age.seconds
  rw [hmember]
  obtain hnone | hnull | ⟨value, hvalue, hform⟩ := h.cases
  · exact ⟨0, by rw [hnone]⟩
  · exact ⟨0, by rw [hnull]⟩
  · rw [hvalue]
    cases hform with
    | number value => exact ⟨_, rfl⟩
    | text digits => exact ⟨_, rfl⟩
    | @printed _ digits hprinted => exact ⟨.ofText digits.shown, by simp only [hprinted]⟩

/-- The nanoseconds of an age can be read. -/
theorem exists_nanos {members : List (Text × Json)} (h : Optionally IsNumber members "nanos") :
    ∃ nanos, Age.nanos (.object members) = .ok nanos := by
  have hmember : (Json.object members).member? "nanos" = members.lookup (.whole "nanos") := rfl
  unfold Age.nanos
  rw [hmember]
  obtain hnone | hnull | ⟨value, hvalue, number, rfl⟩ := h.cases
  · exact ⟨0, by rw [hnone]⟩
  · exact ⟨0, by rw [hnull]; rfl⟩
  · exact ⟨number, by rw [hvalue]; rfl⟩

/-- A leaf without an age means some policy. -/
theorem exists_ofLeaf_of_ageless
    (h : (members.lookup (.whole "maxAge")).filter Json.isTruthy = none) :
    ∃ policy, ofLeaf members = .ok policy := by
  rw [ofLeaf, h]
  dsimp only
  split
  · exact ⟨_, rfl⟩
  · exact ⟨_, rfl⟩

/-- A leaf of such members means some policy. -/
theorem exists_ofLeaf (hage : Optionally IsAge members "maxAge") :
    ∃ policy, ofLeaf members = .ok policy := by
  obtain hnone | hnull | ⟨_, hvalue, content, rfl, hseconds, hnanos⟩ := hage.cases
  · exact exists_ofLeaf_of_ageless (by rw [hnone]; rfl)
  · exact exists_ofLeaf_of_ageless (by rw [hnull]; rfl)
  · obtain ⟨seconds, hseconds⟩ := exists_seconds hseconds
    obtain ⟨nanos, hnanos⟩ := exists_nanos hnanos
    rw [ofLeaf, hvalue]
    change ∃ policy, (Age.wholeSeconds (.object content)).map maxAge = .ok policy
    rw [Age.wholeSeconds, hseconds, hnanos]
    exact ⟨_, rfl⟩

/-- A member that names a mode sets no combination, or one that is some policy. -/
theorem branch?_eq_none_or (hcombination : Optionally IsCombination members mode.word)
    (hitems : ∀ items, HasRules members mode items →
      ∀ item ∈ items, ∃ policy, ofMessage item = .ok policy) :
    branch? mode members = none ∨ ∃ policy, branch? mode members = some (.ok policy) := by
  rw [branch?_eq]
  obtain hnone | hnull | ⟨_, hvalue, content, rfl, hrules⟩ := hcombination.cases
  · exact Or.inl (by rw [hnone]; rfl)
  · exact Or.inl (by rw [hnull]; rfl)
  · obtain ⟨children, hchildren⟩ : ∃ children, ofRules mode content = .ok children := by
      rw [ofRules_eq]
      obtain hnone | hnull | ⟨_, hlist, items, rfl⟩ := hrules.cases
      · exact ⟨[], by rw [hnone]; rfl⟩
      · exact ⟨[], by rw [hnull]; rfl⟩
      · obtain ⟨children, hall⟩ := exists_forall₂ (hitems items ⟨content, hvalue, hlist⟩)
        exact ⟨children, by rw [hlist]; exact ofMessages_eq_ok_iff.mpr hall⟩
    rw [hvalue]
    change _ ∨ ∃ policy, some ((ofRules mode content).map (combined mode)) = some (.ok policy)
    rw [hchildren]
    exact Or.inr ⟨_, rfl⟩

/-- Every message of the admin API means some policy. -/
theorem IsMessage.exists_ofMessage {message : Json} (h : IsMessage message) :
    ∃ policy, ofMessage message = .ok policy := by
  induction h with
  | @intro members hcombinations _ hage _ ih =>
    have hbranch (mode : Mode) := branch?_eq_none_or (hcombinations mode) (ih mode)
    rw [ofMessage]
    obtain hunion | ⟨policy, hunion⟩ := hbranch .union
    · obtain hintersection | ⟨policy, hintersection⟩ := hbranch .intersection
      · rw [hunion, hintersection]
        exact exists_ofLeaf hage
      · rw [hunion, hintersection]
        exact ⟨policy, rfl⟩
    · rw [hunion]
      exact ⟨policy, rfl⟩

end Policy

end Retention
