import Retention.Proofs.Store.Drift

/-!
# Canonical forms

A policy has a canonical form when its text can be written and read: its ages and counts are in
range, and every combination in it has children that all collect something. A combination of one
child is written as a wrapper, which leaves no trace, so its canonical form is that of the child.

## Main definitions

* `Policy.Expressible`: the policies that rule texts can be written for.

## Main results

* `Policy.Compiled.eq_of_same`, `Policy.Authored.same_iff`: policies that are the same tree are one
  policy.
* `Policy.Expressible.exists_grammar`: the text of such a policy is that of a rule.
* `Policy.exists_normal`: such a policy has a canonical form.
* `Policy.normal_eq_of_differs`: a canonical form that does not differ from a compiled policy is it.
* `Policy.Authored.differs_eq`: policies of rule texts differ unless they are one.
-/

namespace Retention.Policy

/-- The policies that rule texts can be written for: ages and counts are in range, and combinations
have one or more children, of the same kind. -/
inductive Expressible : Policy → Prop
  | maxAge {seconds : Nat} (hsafe : seconds ≤ 2 ^ 53 - 1) : Expressible (.maxAge (.int seconds))
  | maxVersions {count : Nat} (hlow : 1 ≤ count) (hhigh : count ≤ 2 ^ 31 - 1) :
      Expressible (.maxVersions (.int count))
  | combined {mode : Mode} {children : List Policy} (hchildren : children ≠ [])
      (hexpressible : ∀ child ∈ children, Expressible child) : Expressible (.combined mode children)

/-- Rule texts can be written for the policies that rules compile to. -/
theorem Compiled.expressible {policy : Policy} (h : Compiled policy) : Expressible policy := by
  induction h with
  | maxAge hsafe => exact .maxAge hsafe
  | maxVersions hlow hhigh => exact .maxVersions hlow hhigh
  | combined hcount _ ih => exact .combined (List.ne_nil_of_length_pos (by omega)) ih

/-! ### The same tree -/

/-- Policies that are one by one the same as others are those others. -/
theorem eq_of_sameAll {policies others : List Policy}
    (h : ∀ policy ∈ policies, ∀ other, same policy other = true → policy = other)
    (hsame : sameAll policies others = true) : policies = others := by
  induction policies generalizing others with
  | nil =>
    cases others with
    | nil => rfl
    | cons => cases hsame
  | cons policy rest ih =>
    cases others with
    | nil => cases hsame
    | cons other others =>
      rw [sameAll, Bool.and_eq_true] at hsame
      rw [h policy List.mem_cons_self other hsame.1,
        ih (fun policy hpolicy => h policy (List.mem_cons_of_mem _ hpolicy)) hsame.2]

/-- A compiled policy is the only one that is the same tree. -/
theorem Compiled.eq_of_same {policy : Policy} (h : Compiled policy) (other : Policy)
    (hsame : same policy other = true) : policy = other := by
  induction h generalizing other with
  | maxAge =>
    cases other with
    | maxAge => exact congrArg _ (Number.eq_of_same hsame)
    | _ => cases hsame
  | maxVersions =>
    cases other with
    | maxVersions => exact congrArg _ (Number.eq_of_same hsame)
    | _ => cases hsame
  | combined _ _ ih =>
    cases other with
    | combined mode others =>
      rw [same, Bool.and_eq_true, decide_eq_true_eq] at hsame
      rw [hsame.1, eq_of_sameAll ih hsame.2]
    | _ => cases hsame

/-- The policy of a rule text is the only one that is the same tree. -/
theorem Authored.same_iff {policy other : Policy} (h : Authored policy) :
    same policy other = true ↔ policy = other := by
  constructor
  · intro hsame
    rcases h with rfl | h
    · cases other with
      | noGc => rfl
      | _ => cases hsame
    · exact h.eq_of_same other hsame
  · rintro rfl
    rcases h with rfl | h
    · rfl
    · exact h.same_self

/-! ### Texts -/

/-- One policy under a mode is written as a wrapper. -/
theorem writeRule_combined_singleton {mode : Mode} {child : Policy} {item : Json}
    (h : writeRule child = .ok item) :
    writeRule (.combined mode [child]) = .ok (.object [(.whole "rules", .array [item])]) := by
  have hitems : writeRules [child] = .ok [item] :=
    writeRules_eq_ok_iff.mpr (.cons h .nil)
  rw [writeRule, hitems]
  rfl

/-- The text that is written for such a policy is that of a rule. -/
theorem Expressible.exists_grammar {policy : Policy} (h : Expressible policy) :
    ∃ json, writeRule policy = .ok json ∧ Rule.Grammar json := by
  induction h with
  | @maxAge seconds hsafe =>
    exact ⟨_, rfl, .age ⟨by simp, rfl⟩ (Duration.writes_write (by omega)) hsafe⟩
  | maxVersions hlow hhigh => exact ⟨_, rfl, .versions ⟨by simp, rfl⟩ hlow hhigh⟩
  | @combined mode children hchildren _ ih =>
    obtain ⟨items, hitems⟩ := exists_forall₂ ih
    have hgrammar : ∀ item ∈ items, Rule.Grammar item := fun item hitem => by
      obtain ⟨_, -, -, hgrammar⟩ := exists_of_mem_right hitems hitem
      exact hgrammar
    have hlength := hitems.length_eq
    have hwrites := writeRules_eq_ok_iff.mpr (hitems.imp fun _ _ h => h.1)
    have hcount : children.length ≠ 0 := fun hzero =>
      hchildren (List.length_eq_zero_iff.mp hzero)
    obtain hone | htwo : items.length = 1 ∨ 2 ≤ items.length := by omega
    · obtain ⟨item, rfl⟩ := List.length_eq_one_iff.mp hone
      obtain ⟨child, rfl⟩ := List.length_eq_one_iff.mp (hlength.trans hone)
      obtain ⟨hitem, -⟩ := List.forall₂_cons.mp hitems
      exact ⟨_, writeRule_combined_singleton hitem.1,
        .wrapper ⟨by simp, rfl⟩ rfl (hgrammar item List.mem_cons_self)⟩
    · refine ⟨_, writeRule_combined (by omega) hwrites, ?_⟩
      exact .combination ⟨by simp, rfl⟩ rfl mode.spells_word htwo hgrammar

/-- A policy that collects nothing or has a rule text has a canonical form, which is that of some
rule text. -/
theorem exists_normal {policy : Policy} (h : policy = .noGc ∨ Expressible policy) :
    ∃ form, policy.normal = .ok form ∧ Authored form := by
  rcases h with rfl | h
  · exact ⟨.noGc, rfl, Or.inl rfl⟩
  · obtain ⟨json, hwrite, hgrammar⟩ := h.exists_grammar
    obtain ⟨rule, hread⟩ := Rule.exists_read_of_grammar hgrammar true
    have htext : policy.write = .ok (some json) := by
      have hsome : policy.write = some <$> policy.writeRule := by cases h <;> rfl
      rw [hsome, hwrite]
      rfl
    refine ⟨rule.compile, ?_, Or.inr (compiled_of_read hread)⟩
    rw [normal, canonical, htext]
    dsimp only
    rw [hread]
    rfl

/-! ### Comparing -/

variable {desired live form : Policy}

/-- Policies with canonical forms can be compared. -/
theorem differs_eq_ok (hdesired : Authored desired) (hlive : live.normal = .ok form) :
    Store.differs desired live = .ok (!desired.same form) := by
  rw [Store.differs, hdesired.normal_eq, hlive]
  rfl

/-- A canonical form that does not differ from the policy of a rule text is that policy. -/
theorem normal_eq_of_differs (hdesired : Authored desired) (hlive : live.normal = .ok form)
    (hsame : Store.differs desired live = .ok false) : live.normal = .ok desired := by
  rw [differs_eq_ok hdesired hlive] at hsame
  have hsame : desired.same form = true := by simpa using Except.ok.inj hsame
  rw [hlive, hdesired.same_iff.mp hsame]

/-- Policies of rule texts differ unless they are the same policy. -/
theorem Authored.differs_eq (hdesired : Authored desired) (hlive : Authored live) : ∃ drifted,
    Store.differs desired live = .ok drifted ∧ (drifted = false ↔ live = desired) := by
  refine ⟨_, differs_eq_ok hdesired hlive.normal_eq, ?_⟩
  rw [Bool.not_eq_false', hdesired.same_iff]
  exact eq_comm

end Retention.Policy
