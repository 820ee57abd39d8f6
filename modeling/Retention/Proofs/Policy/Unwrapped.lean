import Retention.Proofs.Policy.Collapse

/-!
# Rule texts without wrappers

A wrapper is a rule text that holds one rule and says nothing else. A combination of one child is
written as one, and the policy of a wrapper is that of the rule in it. So a policy without its
combinations of one child has the text of the policy without its wrappers.

## Main definitions

* `Rule.unwrapped`: a rule text whose wrappers are replaced by the rules in them.

## Main results

* `Policy.writeRule_collapse`: the text of a policy without its combinations of one child.
* `Policy.unwrapped_eq_self`: a text without wrappers stays as it is.
* `Policy.Expressible.exists_read`: the text of a policy whose values are in range is read.
* `Policy.Expressible.written_eq`: such texts hold no number that cannot be sent.
-/

namespace Retention

namespace Rule

/-- The object with some members; one that only holds a single rule stands for this rule. -/
def opened : List (Text × Json) → Json
  | [(.whole "rules", .array [rule])] => rule
  | members => .object members

mutual

/-- A rule text whose wrappers, at every depth, are replaced by the rules in them. -/
def unwrapped : Json → Json
  | .array items => .array (unwrappedItems items)
  | .object members => opened (unwrappedMembers members)
  | value => value
termination_by structural value => value

/-- Some rule texts without their wrappers. -/
def unwrappedItems : List Json → List Json
  | [] => []
  | item :: rest => unwrapped item :: unwrappedItems rest
termination_by structural items => items

/-- Some members without the wrappers in their values. -/
def unwrappedMembers : List (Text × Json) → List (Text × Json)
  | [] => []
  | (key, value) :: rest => (key, unwrapped value) :: unwrappedMembers rest
termination_by structural members => members

end

end Rule

/-- Values that can be sent as they are stay as they are in a list. -/
theorem Json.writtenItems_eq_self {items : List Json}
    (h : ∀ item ∈ items, item.written = item) : writtenItems items = items := by
  induction items with
  | nil => rfl
  | cons item rest ih =>
    obtain ⟨hitem, hrest⟩ := List.forall_mem_cons.mp h
    rw [writtenItems, hitem, ih hrest]

namespace Policy

variable {policy : Policy} {text : Json}

/-- Policies without their combinations of one child are written as their texts without wrappers if
each of them is. -/
theorem writeRules_collapseAll {children : List Policy} {items : List Json}
    (hall : List.Forall₂ (fun child item => writeRule child = .ok item) children items)
    (hcollapse : ∀ child ∈ children, ∀ item, writeRule child = .ok item →
      writeRule child.collapse = .ok (Rule.unwrapped item)) :
    writeRules (collapseAll children) = .ok (Rule.unwrappedItems items) := by
  induction hall with
  | nil => rfl
  | @cons child item children items hitem _ ih =>
    obtain ⟨hchild, hrest⟩ := List.forall_mem_cons.mp hcollapse
    rw [collapseAll, writeRules, hchild item hitem, ih hrest]
    rfl

/-- A policy without its combinations of one child is written as its text without wrappers. -/
theorem writeRule_collapse (hwrite : writeRule policy = .ok text) :
    writeRule policy.collapse = .ok (Rule.unwrapped text) := by
  induction policy using children_induction generalizing text with
  | noGc => cases hwrite
  | maxAge seconds =>
    obtain rfl := Except.ok.inj hwrite
    rfl
  | maxVersions count =>
    obtain rfl := Except.ok.inj hwrite
    rfl
  | combined mode children ih =>
    match children with
    | [] => cases hwrite
    | [child] =>
      rw [writeRule] at hwrite
      obtain ⟨items, hitems, rfl⟩ := exceptMap_eq_ok_iff.mp hwrite
      obtain ⟨item, _, hitem, hnil, rfl⟩ := List.forall₂_cons_left_iff.mp
        (writeRules_eq_ok_iff.mp hitems)
      obtain rfl := List.forall₂_nil_left_iff.mp hnil
      have hchild := ih child List.mem_cons_self hitem
      exact hchild
    | first :: second :: rest =>
      have htwo : 2 ≤ (first :: second :: rest).length := by simp
      obtain ⟨items, hitems⟩ : ∃ items, writeRules (first :: second :: rest) = .ok items := by
        rw [writeRule] at hwrite
        obtain ⟨items, hitems, -⟩ := exceptMap_eq_ok_iff.mp hwrite
        exact ⟨items, hitems⟩
      obtain rfl := Except.ok.inj ((writeRule_combined htwo hitems).symm.trans hwrite)
      have hcollapsed : writeRules (collapseAll (first :: second :: rest)) =
          .ok (Rule.unwrappedItems items) :=
        writeRules_collapseAll (writeRules_eq_ok_iff.mp hitems)
          fun child hchild _ hitem => ih child hchild hitem
      exact writeRule_combined (by simp [collapseAll]) hcollapsed

theorem collapseAll_eq_self {children : List Policy}
    (h : ∀ child ∈ children, child.collapse = child) : collapseAll children = children := by
  induction children with
  | nil => rfl
  | cons child rest ih =>
    obtain ⟨hchild, hrest⟩ := List.forall_mem_cons.mp h
    rw [collapseAll, hchild, ih hrest]

/-- A policy without combinations of one child stays as it is. -/
theorem collapse_eq_self
    (h : ∀ mode child, ¬ PartOf (.combined mode [child]) policy) : policy.collapse = policy := by
  induction policy using children_induction with
  | noGc | maxAge | maxVersions => rfl
  | combined mode children ih =>
    have hall : collapseAll children = children :=
      collapseAll_eq_self fun child hchild =>
        ih child hchild fun mode only hpart => h mode only (.child hchild hpart)
    rw [collapse, hall]
    rcases children with _ | ⟨child, _ | ⟨second, rest⟩⟩
    · rfl
    · exact absurd .self (h mode child)
    · rfl

/-- The text of a policy without combinations of one child has no wrappers. -/
theorem unwrapped_eq_self (hwrite : writeRule policy = .ok text)
    (h : ∀ mode child, ¬ PartOf (.combined mode [child]) policy) : Rule.unwrapped text = text := by
  have hcollapse := writeRule_collapse hwrite
  rw [collapse_eq_self h] at hcollapse
  exact Except.ok.inj (hcollapse.symm.trans hwrite)

/-- The text of such a policy is read as the rule of the policy without its combinations of one
child. -/
theorem Expressible.exists_read (h : Expressible policy) (hfits : AgesFit policy)
    (hwrite : writeRule policy = .ok text) :
    ∃ rule, Rule.read text = .ok rule ∧ rule.compile = policy.collapse := by
  obtain ⟨other, hother, hgrammar⟩ := h.exists_grammar
  obtain rfl := Except.ok.inj (hother.symm.trans hwrite)
  obtain ⟨rule, hread⟩ := Rule.exists_read_of_grammar hgrammar true
  exact ⟨rule, hread, hfits.compile_eq_collapse hwrite hread⟩

/-- Every number in the text of such a policy can be sent. -/
theorem Expressible.written_eq (h : Expressible policy) (hwrite : writeRule policy = .ok text) :
    text.written = text := by
  induction h generalizing text with
  | maxAge hsafe =>
    obtain rfl := Except.ok.inj hwrite
    rfl
  | maxVersions =>
    obtain rfl := Except.ok.inj hwrite
    rfl
  | @combined mode children hchildren hexpressible ih =>
    rw [writeRule, if_neg (by simpa using hchildren)] at hwrite
    obtain ⟨items, hitems, rfl⟩ := exceptMap_eq_ok_iff.mp hwrite
    have hwritten : Json.writtenItems items = items := by
      refine Json.writtenItems_eq_self fun item hitem => ?_
      obtain ⟨child, hchild, hwrite⟩ :=
        exists_of_mem_right (writeRules_eq_ok_iff.mp hitems) hitem
      exact ih child hchild hwrite
    rcases items with _ | ⟨item, _ | ⟨second, rest⟩⟩
    · rfl
    · have hitem : item.written = item := (List.cons.inj hwritten).1
      change Json.object [("rules", .array [item.written])] = _
      rw [hitem]
    · change Json.object [("mode", .string mode.word),
        ("rules", .array (Json.writtenItems (item :: second :: rest)))] = _
      rw [hwritten]

end Policy

end Retention
