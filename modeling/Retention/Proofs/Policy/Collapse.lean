import Retention.Proofs.Policy.Collecting

/-!
# What canonical forms are

The canonical form of a policy is found by writing its rule text and reading that back. What comes
of this detour can be said of the tree itself. A policy has no text when something in it has none: a
combination without children, or an absence of collection below the root. Its text is refused when a
value in it is out of its range. Otherwise each combination of one child has become that child, and
nothing else is different.

Which of the two errors is seen does not depend on where they are: the whole text is written before
any of it is read.

## Main definitions

* `Policy.PartOf`: the parts of a policy, itself among them.
* `Policy.Hollow`: policies with a part that has no text.
* `Policy.OutOfRange`: policies with a value that is not in its range.
* `Policy.collapse`: a policy without its combinations of one child.

## Main results

* `Policy.exists_writeRule_iff`: which policies have a text.
* `Policy.expressible_iff`: which policies have a text that is read.
* `Policy.AgesFit.compile_eq_collapse`: what the text of a policy is read as.
* `Policy.canonical_cases`: the canonical form of a policy, or which error there is.
* `Policy.canonical_eq_iff`: the same, for each outcome.
-/

namespace Retention

/-- A number is whole and lies between two bounds, both included. -/
def Number.IsCountIn (low high : Nat) (number : Number) : Prop :=
  ∃ count : Nat, low ≤ count ∧ count ≤ high ∧ number = .int count

namespace Policy

/-- A property of every policy is shown for a combination from its children. -/
@[elab_as_elim]
theorem children_induction {motive : Policy → Prop} (noGc : motive .noGc)
    (maxAge : ∀ seconds, motive (.maxAge seconds))
    (maxVersions : ∀ count, motive (.maxVersions count))
    (combined : ∀ mode children, (∀ child ∈ children, motive child) →
      motive (.combined mode children)) : ∀ policy, motive policy
  | .noGc => noGc
  | .maxAge seconds => maxAge seconds
  | .maxVersions count => maxVersions count
  | .combined mode children => combined mode children fun child _ =>
    children_induction noGc maxAge maxVersions combined child
termination_by policy => sizeOf policy

/-- The parts of a policy: itself, and the parts of its children. -/
inductive PartOf (part : Policy) : Policy → Prop
  | self : PartOf part part
  | child {mode : Mode} {children : List Policy} {child : Policy} (hchild : child ∈ children)
      (hpart : PartOf part child) : PartOf part (.combined mode children)

/-- A policy with a combination that has no children, or with an absence of collection below its
root. -/
def Hollow (policy : Policy) : Prop :=
  (∃ mode, PartOf (.combined mode []) policy) ∨ (PartOf .noGc policy ∧ policy ≠ .noGc)

/-- A policy with an age that is not a whole number of safe seconds, or with a number of versions
that is not one. -/
def OutOfRange (policy : Policy) : Prop :=
  (∃ seconds, PartOf (.maxAge seconds) policy ∧ ¬ seconds.IsCountIn 0 (2 ^ 53 - 1)) ∨
    ∃ count, PartOf (.maxVersions count) policy ∧ ¬ count.IsCountIn 1 (2 ^ 31 - 1)

/-- Policies under a mode; one of its own stands for itself. -/
def joined (mode : Mode) : List Policy → Policy
  | [child] => child
  | children => .combined mode children

mutual

/-- A policy whose combinations of one child, at every depth, are replaced by the child. -/
def collapse : Policy → Policy
  | combined mode children => joined mode (collapseAll children)
  | noGc => noGc
  | maxAge seconds => maxAge seconds
  | maxVersions count => maxVersions count
termination_by structural policy => policy

/-- Some policies, each without its combinations of one child. -/
def collapseAll : List Policy → List Policy
  | [] => []
  | policy :: rest => collapse policy :: collapseAll rest
termination_by structural policies => policies

end

theorem joined_of_two_le {mode : Mode} {children : List Policy} (h : 2 ≤ children.length) :
    joined mode children = .combined mode children := by
  unfold joined
  split
  · next child => simp at h
  · rfl

/-! ### Parts -/

variable {part : Policy} {mode : Mode} {children : List Policy}

/-- The parts of a combination are itself and the parts of its children. -/
theorem partOf_combined_iff :
    PartOf part (.combined mode children) ↔
      part = .combined mode children ∨ ∃ child ∈ children, PartOf part child := by
  constructor
  · rintro (_ | ⟨hchild, hpart⟩)
    · exact Or.inl rfl
    · exact Or.inr ⟨_, hchild, hpart⟩
  · rintro (rfl | ⟨child, hchild, hpart⟩)
    · exact .self
    · exact .child hchild hpart

/-- A policy without children has no part but itself. -/
@[simp]
theorem partOf_leaf_iff {policy : Policy}
    (hleaf : ∀ mode children, policy ≠ .combined mode children) :
    PartOf part policy ↔ part = policy := by
  constructor
  · rintro (_ | _)
    · rfl
    · exact absurd rfl (hleaf _ _)
  · rintro rfl
    exact .self

/-- A combination is hollow when it has no children, or when one of them collects nothing or is
hollow itself. -/
theorem hollow_combined_iff : Hollow (.combined mode children) ↔
    children = [] ∨ ∃ child ∈ children, child = .noGc ∨ Hollow child := by
  constructor
  · rintro (⟨other, hempty⟩ | ⟨habsent, -⟩)
    · obtain hself | ⟨child, hchild, hpart⟩ := partOf_combined_iff.mp hempty
      · cases hself
        exact Or.inl rfl
      · exact Or.inr ⟨child, hchild, Or.inr (Or.inl ⟨other, hpart⟩)⟩
    · obtain hself | ⟨child, hchild, hpart⟩ := partOf_combined_iff.mp habsent
      · cases hself
      · by_cases hnoGc : child = .noGc
        · exact Or.inr ⟨child, hchild, Or.inl hnoGc⟩
        · exact Or.inr ⟨child, hchild, Or.inr (Or.inr ⟨hpart, hnoGc⟩)⟩
  · rintro (rfl | ⟨child, hchild, rfl | ⟨other, hempty⟩ | ⟨habsent, -⟩⟩)
    · exact Or.inl ⟨mode, .self⟩
    · exact Or.inr ⟨.child hchild .self, nofun⟩
    · exact Or.inl ⟨other, .child hchild hempty⟩
    · exact Or.inr ⟨.child hchild habsent, nofun⟩

/-- The values of a combination are those of its children. -/
theorem outOfRange_combined_iff :
    OutOfRange (.combined mode children) ↔ ∃ child ∈ children, OutOfRange child := by
  constructor
  · rintro (⟨value, hpart, hrange⟩ | ⟨value, hpart, hrange⟩)
    · obtain ⟨child, hchild, hpart⟩ := (partOf_combined_iff.mp hpart).resolve_left nofun
      exact ⟨child, hchild, Or.inl ⟨value, hpart, hrange⟩⟩
    · obtain ⟨child, hchild, hpart⟩ := (partOf_combined_iff.mp hpart).resolve_left nofun
      exact ⟨child, hchild, Or.inr ⟨value, hpart, hrange⟩⟩
  · rintro ⟨child, hchild, ⟨value, hpart, hrange⟩ | ⟨value, hpart, hrange⟩⟩
    · exact Or.inl ⟨value, .child hchild hpart, hrange⟩
    · exact Or.inr ⟨value, .child hchild hpart, hrange⟩

/-! ### Which policies have texts -/

/-- A policy has a text of a rule exactly when it collects something and is not hollow. -/
theorem exists_writeRule_iff (policy : Policy) :
    (∃ text, writeRule policy = .ok text) ↔ policy ≠ .noGc ∧ ¬ Hollow policy := by
  induction policy using children_induction with
  | noGc => simp [writeRule]
  | maxAge seconds => simp [writeRule, Hollow]
  | maxVersions count => simp [writeRule, Hollow]
  | combined mode children ih =>
    have hwritten : (∃ text, writeRule (.combined mode children) = .ok text) ↔
        children ≠ [] ∧ ∀ child ∈ children, ∃ text, writeRule child = .ok text := by
      rw [writeRule]
      constructor
      · rintro ⟨text, h⟩
        split at h
        · cases h
        · next hempty =>
          obtain ⟨items, hitems, -⟩ := exceptMap_eq_ok_iff.mp h
          refine ⟨by simpa using hempty, fun child hchild => ?_⟩
          obtain ⟨item, -, hitem⟩ :=
            exists_of_mem_right (writeRules_eq_ok_iff.mp hitems).flip hchild
          exact ⟨item, hitem⟩
      · rintro ⟨hne, hall⟩
        obtain ⟨items, hitems⟩ := exists_forall₂ hall
        rw [if_neg (by simpa using hne), writeRules_eq_ok_iff.mpr hitems]
        exact ⟨_, rfl⟩
    rw [hwritten, hollow_combined_iff]
    have heach : (∀ child ∈ children, ∃ text, writeRule child = .ok text) ↔
        ¬ ∃ child ∈ children, child = .noGc ∨ Hollow child := by
      push Not
      exact forall₂_congr ih
    have hcollects : Policy.combined mode children ≠ .noGc := by simp
    rw [heach, not_or]
    exact (and_iff_right hcollects).symm

/-- A policy can be written and read exactly when it collects something, is not hollow, and has
every value in its range. -/
theorem expressible_iff (policy : Policy) :
    Expressible policy ↔ policy ≠ .noGc ∧ ¬ Hollow policy ∧ ¬ OutOfRange policy := by
  induction policy using children_induction with
  | noGc => exact ⟨nofun, fun h => absurd rfl h.1⟩
  | maxAge seconds =>
    have hrange : Expressible (.maxAge seconds) ↔ seconds.IsCountIn 0 (2 ^ 53 - 1) :=
      ⟨fun | .maxAge hsafe => ⟨_, Nat.zero_le _, hsafe, rfl⟩,
        fun ⟨_, _, hsafe, h⟩ => h ▸ .maxAge hsafe⟩
    simp [hrange, Hollow, OutOfRange]
  | maxVersions count =>
    have hrange : Expressible (.maxVersions count) ↔ count.IsCountIn 1 (2 ^ 31 - 1) :=
      ⟨fun | .maxVersions hlow hhigh => ⟨_, hlow, hhigh, rfl⟩,
        fun ⟨_, hlow, hhigh, h⟩ => h ▸ .maxVersions hlow hhigh⟩
    simp [hrange, Hollow, OutOfRange]
  | combined mode children ih =>
    have hchildren : Expressible (.combined mode children) ↔
        children ≠ [] ∧ ∀ child ∈ children, Expressible child :=
      ⟨fun | .combined hne hall => ⟨hne, hall⟩, fun h => .combined h.1 h.2⟩
    rw [hchildren, hollow_combined_iff, outOfRange_combined_iff]
    constructor
    · rintro ⟨hne, hall⟩
      refine ⟨nofun, ?_, ?_⟩
      · rintro (hempty | ⟨child, hchild, hnoGc | hhollow⟩)
        · exact hne hempty
        · exact ((ih child hchild).mp (hall child hchild)).1 hnoGc
        · exact ((ih child hchild).mp (hall child hchild)).2.1 hhollow
      · rintro ⟨child, hchild, hrange⟩
        exact ((ih child hchild).mp (hall child hchild)).2.2 hrange
    · rintro ⟨-, hhollow, hrange⟩
      refine ⟨fun hempty => hhollow (Or.inl hempty), fun child hchild => (ih child hchild).mpr ?_⟩
      exact ⟨fun h => hhollow (Or.inr ⟨child, hchild, Or.inl h⟩),
        fun h => hhollow (Or.inr ⟨child, hchild, Or.inr h⟩), fun h => hrange ⟨child, hchild, h⟩⟩

/-! ### What texts are read as -/

/-- Policies whose rules are each the policy without its combinations of one child. -/
theorem compileAll_eq_collapseAll {rules : List Rule}
    (h : List.Forall₂ (fun child rule => rule.compile = child.collapse) children rules) :
    Rule.compileAll rules = collapseAll children := by
  induction h with
  | nil => rfl
  | cons hcollapse _ ih => rw [Rule.compileAll, collapseAll, hcollapse, ih]

/-- The text of a policy, if it is read, is read as the policy without its combinations of one
child. -/
theorem AgesFit.compile_eq_collapse {policy : Policy} (hfits : AgesFit policy) {text : Json}
    {isTopLevel : Bool} {rule : Rule} (hwrite : writeRule policy = .ok text)
    (hread : Rule.read text isTopLevel = .ok rule) : rule.compile = policy.collapse := by
  induction hfits generalizing text isTopLevel rule with
  | noGc => cases hwrite
  | @maxAge seconds hfits =>
    obtain rfl := Except.ok.inj hwrite
    obtain ⟨other, hother, rfl⟩ := eq_maxAge_of_read hread
    rw [Duration.eq_of_read?_write hfits hother]
    rfl
  | @maxVersions count =>
    obtain rfl := Except.ok.inj hwrite
    rw [eq_maxVersions_of_read hread]
    rfl
  | @combined mode children _ ih =>
    obtain ⟨items, rules, hitems, hrules, hrule⟩ := exists_of_read_combined hwrite hread
    have heach : Rule.compileAll rules = collapseAll children :=
      compileAll_eq_collapseAll (forall₂_of_read
        (fun child hchild _ _ hitem hrule => ih child hchild hitem hrule) hitems hrules)
    rw [collapse, ← heach]
    rcases hrule with ⟨only, rfl, rfl⟩ | rfl
    · rfl
    · -- Only two or more rules are read under a mode.
      cases compiled_of_read hread with
      | combined htwo => exact (joined_of_two_le htwo).symm

/-- The text of a policy is read only when each of its values is in its range. -/
theorem AgesFit.expressible_of_read {policy : Policy} (hfits : AgesFit policy) {text : Json}
    {isTopLevel : Bool} {rule : Rule} (hwrite : writeRule policy = .ok text)
    (hread : Rule.read text isTopLevel = .ok rule) : Expressible policy := by
  induction hfits generalizing text isTopLevel rule with
  | noGc => cases hwrite
  | @maxAge _ hfits =>
    have hcompiled := compiled_of_read hread
    rw [(AgesFit.maxAge hfits).compile_eq_collapse hwrite hread] at hcompiled
    exact hcompiled.expressible
  | @maxVersions _ =>
    have hcompiled := compiled_of_read hread
    rw [AgesFit.maxVersions.compile_eq_collapse hwrite hread] at hcompiled
    exact hcompiled.expressible
  | @combined mode children _ ih =>
    obtain ⟨items, rules, hitems, hrules, -⟩ := exists_of_read_combined hwrite hread
    have hne : children ≠ [] := by
      rintro rfl
      cases hwrite
    refine .combined hne fun child hchild => ?_
    obtain ⟨item, hitem, htext⟩ := exists_of_mem_right hitems.flip hchild
    obtain ⟨rule, -, hrule⟩ := exists_of_mem_right hrules.flip hitem
    exact ih child hchild htext hrule

/-! ### Canonical forms -/

/-- A policy that collects something is written as its rule. -/
theorem write_of_ne_noGc {policy : Policy} (h : policy ≠ .noGc) :
    policy.write = some <$> policy.writeRule := by
  cases policy with
  | noGc => exact absurd rfl h
  | maxAge | maxVersions | combined => rfl

/-- A policy is hollow and has no text, or a value of it is out of range and its text is refused, or
its canonical form is the policy without its combinations of one child. -/
theorem canonical_cases {policy : Policy} (hfits : AgesFit policy) :
    (Hollow policy ∧ ∃ reason, policy.canonical = .error (.unwritable reason)) ∨
    (¬ Hollow policy ∧ OutOfRange policy ∧ ∃ error, policy.canonical = .error (.rule error)) ∨
    (¬ Hollow policy ∧ ¬ OutOfRange policy ∧ policy.canonical = .ok policy.collapse ∧
      Authored policy.collapse) := by
  by_cases hnoGc : policy = .noGc
  · subst hnoGc
    exact Or.inr (Or.inr ⟨by simp [Hollow], by simp [OutOfRange], rfl, Or.inl rfl⟩)
  unfold canonical
  rw [write_of_ne_noGc hnoGc]
  cases hwrite : writeRule policy with
  | error reason =>
    refine Or.inl ⟨by_contra fun hhollow => ?_, reason, rfl⟩
    obtain ⟨text, htext⟩ := (exists_writeRule_iff policy).mpr ⟨hnoGc, hhollow⟩
    cases hwrite.symm.trans htext
  | ok text =>
    have hhollow : ¬ Hollow policy := ((exists_writeRule_iff policy).mp ⟨text, hwrite⟩).2
    right
    cases hread : Rule.read text with
    | error error =>
      refine Or.inl ⟨hhollow, by_contra fun hrange => ?_, error, by simp [hread]⟩
      -- Such a policy is written as the text of a rule.
      have hexpressible := (expressible_iff policy).mpr ⟨hnoGc, hhollow, hrange⟩
      obtain ⟨other, hother, hgrammar⟩ := hexpressible.exists_grammar
      obtain rfl : text = other := Except.ok.inj (hwrite.symm.trans hother)
      obtain ⟨rule, hrule⟩ := Rule.exists_read_of_grammar hgrammar true
      cases hread.symm.trans hrule
    | ok rule =>
      have hexpressible := hfits.expressible_of_read hwrite hread
      have hcollapse := hfits.compile_eq_collapse hwrite hread
      refine Or.inr ⟨hhollow, ((expressible_iff policy).mp hexpressible).2.2, ?_, ?_⟩
      · simp [hread, hcollapse]
      · rw [← hcollapse]
        exact Or.inr (compiled_of_read hread)

/-- **What canonical forms are.** A policy cannot be written exactly when it is hollow: it has a
combination without children, or an absence of collection below its root. Otherwise its text is
refused exactly when it is out of range: an age in it is not a whole number from 0 to 2⁵³ - 1, or a
number of versions is not one from 1 to 2³¹ - 1. Otherwise its canonical form is the policy with
each combination of one child, at every depth, replaced by the child; and that is its own canonical
form.

Numbers that are no doubles are left out by `AgesFit`; the two zeros are one number. -/
theorem canonical_eq_iff {policy : Policy} (hfits : AgesFit policy) :
    ((∃ reason, policy.canonical = .error (.unwritable reason)) ↔ Hollow policy) ∧
    ((∃ error, policy.canonical = .error (.rule error)) ↔ ¬ Hollow policy ∧ OutOfRange policy) ∧
    (∀ form, policy.canonical = .ok form ↔
      ¬ Hollow policy ∧ ¬ OutOfRange policy ∧ form = policy.collapse) ∧
    ∀ form, policy.canonical = .ok form → form.canonical = .ok form := by
  obtain ⟨hhollow, reason, hcanonical⟩ | ⟨hhollow, hrange, error, hcanonical⟩ |
    ⟨hhollow, hrange, hcanonical, hauthored⟩ := canonical_cases hfits
  · simp [hhollow, hcanonical]
  · simp [hhollow, hrange, hcanonical]
  · have hagain : policy.collapse.canonical = .ok policy.collapse := by
      obtain hnoGc | hcompiled := hauthored
      · rw [hnoGc]
        rfl
      · exact hcompiled.canonical_eq
    simp [hhollow, hrange, hcanonical, hagain, eq_comm]

/-- A union whose first child is an age in an intersection of its own loses the intersection. -/
theorem canonical_eq_iff_nested :
    AgesFit (.combined .union [.combined .intersection [.maxAge 60], .maxVersions 2]) ∧
    Policy.canonical (.combined .union [.combined .intersection [.maxAge 60], .maxVersions 2]) =
      .ok (.combined .union [.maxAge 60, .maxVersions 2]) ∧
    ¬ OutOfRange (.combined .union [.combined .intersection [.maxAge 60], .maxVersions 2]) := by
  have hfits :
      AgesFit (.combined .union [.combined .intersection [.maxAge 60], .maxVersions 2]) := by
    refine .combined fun child hchild => ?_
    obtain rfl | hchild := List.mem_cons.mp hchild
    · refine .combined fun child hchild => ?_
      obtain rfl := List.mem_singleton.mp hchild
      exact .maxAge trivial
    · obtain rfl := List.mem_singleton.mp hchild
      exact .maxVersions
  have hcanonical : Policy.canonical
      (.combined .union [.combined .intersection [.maxAge 60], .maxVersions 2]) =
        .ok (.combined .union [.maxAge 60, .maxVersions 2]) := rfl
  obtain ⟨-, -, hform, -⟩ := canonical_eq_iff hfits
  exact ⟨hfits, hcanonical, ((hform _).mp hcanonical).2.1⟩

end Policy

end Retention
