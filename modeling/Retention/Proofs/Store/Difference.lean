import Retention.Proofs.Rule.Congruence
import Retention.Proofs.Store.Agreement

/-!
# Which differences are drift

Rules are compared as policies. So a rule text has drifted from the rules that a family was given
unless the two are congruent: unless they differ in the order of members, the letter case of a mode,
the writing of a duration, or in wrappers. The combination, the order of its items, how combinations
are nested and the values of single rules always count.

An object has one value for each key here, as objects that are read from text have
(`Json.keyed_of_read?`).

## Main results

* `Store.drifted_eq_false_iff_congruent`: drift from a policy that rules compile to.
* `Store.compile_eq_iff_congruent`: congruent texts are those with one policy, and those without
  drift.
-/

namespace Retention

/-- The policy of a rule text that is read is that of its rule. -/
theorem Policy.ofText_of_read {raw : Json} {isTopLevel : Bool} {rule : Rule}
    (h : Rule.read raw isTopLevel = .ok rule) : Policy.ofText (some raw) = .ok rule.compile := by
  obtain ⟨members, rfl⟩ := (Rule.denotes_compile h).exists_members
  rw [Rule.read_isTopLevel] at h
  simp only [ofText, Rule.read_isTopLevel _ true, h]

namespace Store

variable {store : Store} {target : FamilyRef} {options : CallOptions} {world after : World}
  {raw other : Json} {isTopLevel otherIsTopLevel : Bool} {rule otherRule : Rule}

section Compared

variable (hraw : raw.Keyed) (hother : other.Keyed) (hread : Rule.read raw isTopLevel = .ok rule)
  (hotherRead : Rule.read other otherIsTopLevel = .ok otherRule)

include hraw hother hread hotherRead

/-- A rule text has not drifted from the policy of another one exactly when they are congruent. -/
theorem drifted_eq_false_iff_congruent {drift : Drift}
    (h : store.drift target (some other) options world = (.ok drift, after))
    (hlive : drift.live = rule.compile) : drift.drifted = false ↔ Rule.Congruent raw other := by
  obtain ⟨hdesired, -, hdiffers⟩ := drift_eq_ok_iff.mp h
  have hcompiled : otherRule.compile = drift.desired :=
    Except.ok.inj ((Policy.ofText_of_read hotherRead).symm.trans hdesired)
  have hauthored : Policy.Authored rule.compile := Or.inr (Policy.compiled_of_read hread)
  have hotherAuthored : Policy.Authored otherRule.compile :=
    Or.inr (Policy.compiled_of_read hotherRead)
  obtain ⟨drifted, hdrifted, hsame⟩ := hotherAuthored.differs_eq hauthored
  rw [← hcompiled, hlive, hdrifted] at hdiffers
  rw [← Except.ok.inj hdiffers, hsame, Rule.congruent_iff hraw hother
    (Rule.denotes_compile hread) (Rule.denotes_compile hotherRead)]

/-- **Which differences are drift.** Two rule texts that are read have one policy exactly when they
are congruent. So a comparison that ends, with the policy of the first as the live one, has found no
drift exactly when they are congruent. Where no fault waits and the first is applied to a family
that its table has, the comparison does end, as long as the tables stay the same. Combinations, the
order of their items, and the values of single rules tell texts apart. -/
theorem compile_eq_iff_congruent :
    (rule.compile = otherRule.compile ↔ Rule.Congruent raw other) ∧
    (∀ store target options world drift after,
      Store.drift store target (some other) options world = (.ok drift, after) →
      drift.live = rule.compile → (drift.drifted = false ↔ Rule.Congruent raw other)) ∧
    (∀ (store : Store) target timeout lastTimeout (world later : World) held, world.faults = [] →
      target.check = .ok () → world.ownFamily? target = some held → later.faults = [] →
      later.tables = (store.apply target (some raw) ⟨none, timeout⟩ world).2.tables →
      ∃ drift compared, store.drift target (some other) ⟨none, lastTimeout⟩ later =
          (.ok drift, compared) ∧ drift.live = rule.compile ∧
        (drift.drifted = false ↔ Rule.Congruent raw other)) ∧
    ∀ members others, raw = .object members → other = .object others →
      Rule.ToldApart members others := by
  have hdenotes := Rule.denotes_compile hread
  have hotherDenotes := Rule.denotes_compile hotherRead
  refine ⟨(Rule.congruent_iff hraw hother hdenotes hotherDenotes).symm, ?_, ?_, ?_⟩
  · intro store target options world drift after h hlive
    exact drifted_eq_false_iff_congruent hraw hother hread hotherRead h hlive
  · intro store target timeout lastTimeout world later held hfaults hcheck hentry hlater htables
    have hauthored : Policy.Authored rule.compile := Or.inr (Policy.compiled_of_read hread)
    obtain ⟨after, hset, hafter, hgiven⟩ := exists_setPolicy_of_faults_nil store timeout hfaults
      hcheck hentry hauthored.sendable
    have happly : (store.apply target (some raw) ⟨none, timeout⟩ world).2 = after := by
      rw [apply, Policy.ofText_of_read hread]
      exact congrArg Prod.snd hset
    rw [happly] at htables
    have hholds := holds_of_given store hlater hcheck hauthored (hgiven.congr rfl htables)
    obtain ⟨drifted, compared, hdrift, -⟩ :=
      hholds.drift lastTimeout _ _ (Policy.ofText_of_read hotherRead)
    exact ⟨_, compared, hdrift, rfl,
      drifted_eq_false_iff_congruent hraw hother hread hotherRead hdrift rfl⟩
  · rintro members others rfl rfl
    exact Rule.toldApart hraw hother hdenotes hotherDenotes

end Compared

/-- A minute and two versions under a mode in capitals, and the same in a wrapper, with the members
in another order and the minute in seconds. -/
def unionOfTwo : Json :=
  .object [("mode", .string "UNION"), ("rules", .array [.object [("max_age", .string "1m")],
    .object [("max_version", .number 2)]])]

@[inherit_doc unionOfTwo]
def wrappedUnion : Json :=
  .object [("rules", .array [.object [("rules", .array [.object [("max_age", .string "60s")],
    .object [("max_version", .number 2)]]), ("mode", .string "union")]])]

/-- The two are congruent, so a family that was given the first has not drifted from the second. -/
theorem compile_eq_iff_congruent_union : Rule.Congruent unionOfTwo wrappedUnion ∧
    ∃ drift compared, Store.drift ⟨none⟩ someFamily (some wrappedUnion) ⟨none, none⟩
        (Store.apply ⟨none⟩ someFamily (some unionOfTwo) ⟨none, none⟩ (worldShowing none)).2 =
      (.ok drift, compared) ∧ drift.drifted = false := by
  have hfirst : unionOfTwo.Keyed := by simp [unionOfTwo]
  have hsecond : wrappedUnion.Keyed := by simp [wrappedUnion]
  have hread : Rule.read unionOfTwo =
      .ok (.composite (some .union) [.maxAge 60, .maxVersions 2]) := rfl
  have hotherRead : Rule.read wrappedUnion =
      .ok (.composite none [.composite (some .union) [.maxAge 60, .maxVersions 2]]) := rfl
  obtain ⟨hsame, -, hdrift, -⟩ := compile_eq_iff_congruent hfirst hsecond hread hotherRead
  have hcongruent := hsame.mp rfl
  obtain ⟨drift, compared, hcompared, -, hdrifted⟩ := hdrift ⟨none⟩ someFamily none none
    (worldShowing none) _ (.object []) rfl rfl rfl rfl rfl
  exact ⟨hcongruent, drift, compared, hcompared, hdrifted.mpr hcongruent⟩

end Store

end Retention
