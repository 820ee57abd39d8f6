import Retention.Proofs.Policy.Message
import Retention.Proofs.Policy.RoundTrip
import Retention.Proofs.Step
import Retention.Store.Rules

/-!
# Drift

A comparison ends with the policy of the rule text, the policy the family has, and whether their
canonical forms differ. The policy of a rule text is its own canonical form and the meaning of its
own message, so a family that has it has not drifted from it.

* `Store.drift_eq_ok_iff`: what a comparison that ends with a value has found.
* `Store.apply_eq_ok_iff`: what setting the policy of a rule text has done.
* `Policy.Authored`: the policies of rule texts.
* `Policy.Authored.text_cases`: such a policy has a canonical text, or it collects nothing.
* `Policy.Authored.differs_self`: such a policy has not drifted from itself.
-/

namespace Retention

/-! ### The policies of rule texts -/

namespace Policy

/-- The policies of rule texts: those that rules compile to, and the absence of collection. -/
def Authored (policy : Policy) : Prop := policy = .noGc ∨ Compiled policy

/-- A rule text that is accepted has such a policy. -/
theorem authored_of_ofText {rules : Option Json} {policy : Policy} (h : ofText rules = .ok policy) :
    Authored policy := by
  unfold ofText at h
  split at h
  · exact Or.inl (Except.ok.inj h).symm
  · exact Or.inl (Except.ok.inj h).symm
  · split at h
    · cases h
    · next hread =>
      rw [← Except.ok.inj h]
      exact Or.inr (compiled_of_read hread)

theorem Compiled.sendable {policy : Policy} (h : Compiled policy) : Sendable policy := by
  induction h with
  | maxAge hsafe => exact .maxAge hsafe
  | @maxVersions count hlow _ =>
    refine .maxVersions (decide_eq_true ?_)
    omega
  | combined _ _ ih => exact .combined ih

/-- The policy of a rule text is what its message means. -/
theorem Authored.sendable {policy : Policy} (h : Authored policy) : Sendable policy := by
  rcases h with rfl | h
  · exact .noGc
  · exact h.sendable

/-- Policies that are each the same as themselves are so one by one. -/
theorem sameAll_self {policies : List Policy} (h : ∀ policy ∈ policies, same policy policy = true) :
    sameAll policies policies = true := by
  induction policies with
  | nil => rfl
  | cons policy rest ih =>
    rw [sameAll, h policy List.mem_cons_self, Bool.true_and]
    exact ih fun other hother => h other (List.mem_cons_of_mem _ hother)

theorem Compiled.same_self {policy : Policy} (h : Compiled policy) : same policy policy = true := by
  induction h with
  | maxAge | maxVersions => simp [same, Number.same]
  | combined _ _ ih => rw [same, sameAll_self ih, decide_eq_true rfl, Bool.true_and]

/-- The policy of a rule text is its own canonical form. -/
theorem Authored.normal_eq {policy : Policy} (h : Authored policy) : policy.normal = .ok policy := by
  rcases h with rfl | h
  · rfl
  · rw [normal, h.canonical_eq]
    rfl

/-- The policy of a rule text collects nothing, or it has a canonical rule text of its own. -/
theorem Authored.text_cases {policy : Policy} (h : Authored policy) :
    policy = .noGc ∨ ∃ text, policy.text = .ok (some text) ∧ Rule.Canonical text ∧
      ofText (some text) = .ok policy := by
  rcases h with rfl | h
  · exact Or.inl rfl
  · obtain ⟨json, rule, hwrite, hcanonical, hread, hcompile⟩ := h.exists_write
    refine Or.inr ⟨json, ?_, hcanonical, ?_⟩
    · rw [text, h.write_eq, hwrite]
      rfl
    · have hnull : json ≠ .null := by rintro rfl; cases hcanonical
      have hof : ofText (some json) = .ok rule.compile := by
        cases json with
        | null => exact absurd rfl hnull
        | _ => simp only [ofText, hread true]
      rw [hof, hcompile]

/-- The policy of a rule text has a rule text or none. -/
theorem Authored.exists_text {policy : Policy} (h : Authored policy) :
    ∃ text, policy.text = .ok text := by
  rcases h.text_cases with rfl | ⟨text, htext, -⟩
  · exact ⟨none, rfl⟩
  · exact ⟨some text, htext⟩

/-- The policy of a rule text can be written, and there is no text exactly when it collects
nothing. -/
theorem Authored.exists_write {policy : Policy} (h : Authored policy) :
    ∃ text, policy.write = .ok text ∧ (text = none ↔ policy = .noGc) := by
  rcases h with rfl | h
  · exact ⟨none, rfl, by simp⟩
  · obtain ⟨json, _, hwrite, -⟩ := h.exists_write
    refine ⟨some json, by rw [h.write_eq, hwrite]; rfl, by simp, ?_⟩
    rintro rfl
    cases hwrite

/-- The policy of a rule text has not drifted from itself. -/
theorem Authored.differs_self {policy : Policy} (h : Authored policy) :
    Store.differs policy policy = .ok false := by
  have hsame : same policy policy = true := by
    rcases h with rfl | h
    · rfl
    · exact h.same_self
  rw [Store.differs, h.normal_eq]
  change Except.ok (!same policy policy) = _
  rw [hsame]
  rfl

/-- Of these policies only the absence of collection has not drifted from it. -/
theorem Authored.eq_noGc_of_differs {policy : Policy} (h : Authored policy)
    (hdiffers : Store.differs policy .noGc = .ok false) : policy = .noGc := by
  rw [Store.differs, h.normal_eq] at hdiffers
  cases policy with
  | noGc => rfl
  | _ => cases hdiffers

end Policy

/-! ### Comparing and setting -/

namespace Store

variable {store : Store} {target : FamilyRef} {rules : Option Json} {options : CallOptions}
  {world after : World}

/-- A comparison has read the rule text and the family's policy and compared the two. -/
theorem drift_eq_ok_iff {drift : Drift} :
    store.drift target rules options world = (.ok drift, after) ↔
      Policy.ofText rules = .ok drift.desired ∧
      store.live target options world = (.ok drift.live, after) ∧
      differs drift.desired drift.live = .ok drift.drifted := by
  constructor
  · intro h
    obtain ⟨desired, hdesired, hrest⟩ := Step.ofExcept_bind_eq_ok_iff.mp h
    obtain ⟨live, compared, hlive, hdiffers⟩ := Step.bind_eq_ok_iff.mp hrest
    obtain ⟨drifted, hdrifted, ⟨⟩⟩ := Step.ofExcept_bind_eq_ok_iff.mp hdiffers
    exact ⟨hdesired, hlive, hdrifted⟩
  · rintro ⟨hdesired, hlive, hdrifted⟩
    refine Step.ofExcept_bind_eq_ok_iff.mpr ⟨drift.desired, hdesired, ?_⟩
    refine Step.bind_eq_ok_iff.mpr ⟨drift.live, after, hlive, ?_⟩
    exact Step.ofExcept_bind_eq_ok_iff.mpr ⟨drift.drifted, hdrifted, rfl⟩

/-- The policy of a rule text has been set, whatever the family then has. -/
theorem apply_eq_ok_iff {applied : Policy} :
    store.apply target rules options world = (.ok applied, after) ↔
      ∃ policy, Policy.ofText rules = .ok policy ∧
        store.setPolicy target policy options world = (.ok applied, after) :=
  Step.ofExcept_bind_eq_ok_iff

end Store

end Retention
