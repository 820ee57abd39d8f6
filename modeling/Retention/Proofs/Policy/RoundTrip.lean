import Retention.Proofs.Rule.CanonicalText
import Retention.Proofs.Rule.Grammar

/-!
# Policies and their rule texts

Every policy that a rule compiles to is written as rule text again, and reading that text gives the
policy back. The wrappers of a rule leave no trace in its policy, and the policy of a combination
has as many children as the combination has rules, so a policy that is compiled has no combination
of fewer than two children, no absence of collection, and no value out of its range. These are the
policies that canonical texts are written for, one text each.

## Main definitions

* `Policy.Compiled`: the policies that rules compile to.

## Main results

* `Policy.compiled_of_read`: a rule that is read compiles to such a policy.
* `Policy.Compiled.exists_write`: such a policy has a canonical text, which is read back.
* `Policy.Compiled.canonical_eq`: such a policy is its own canonical form.
* `Rule.compile_round_trip`: writing and reading the policy of a rule, and when two texts agree.
-/

namespace Retention

/-- The policies that rules compile to. -/
inductive Policy.Compiled : Policy → Prop
  | maxAge {seconds : Nat} (hsafe : seconds ≤ 2 ^ 53 - 1) : Compiled (.maxAge (.int seconds))
  | maxVersions {count : Nat} (hlow : 1 ≤ count) (hhigh : count ≤ 2 ^ 31 - 1) :
      Compiled (.maxVersions (.int count))
  | combined {mode : Mode} {children : List Policy} (hcount : 2 ≤ children.length)
      (hchildren : ∀ child ∈ children, Compiled child) : Compiled (.combined mode children)

namespace Policy

/-! ### From rules to policies -/

/-- A rule that is read compiles to a policy of that form. -/
theorem compiled_of_read {raw : Json} {isTopLevel : Bool} {rule : Rule}
    (h : Rule.read raw isTopLevel = .ok rule) : Compiled rule.compile := by
  induction raw using Json.rules_induction generalizing isTopLevel rule with
  | step raw ih =>
    cases raw with
    | object members =>
      obtain hsingle | ⟨mode, items, rules, hnode, hcomposite, hrules, rfl⟩ :=
        Rule.read_object_eq_ok_iff.mp h
      · obtain ⟨text, seconds, -, -, hsafe, rfl⟩ | ⟨count, -, hlow, hhigh, rfl⟩ :=
          Rule.readNode_eq_single_iff.mp hsingle
        · exact .maxAge hsafe
        · exact .maxVersions hlow hhigh
      · obtain ⟨items', hcomposite', -, hcount⟩ := Rule.readNode_eq_composite_iff.mp hnode
        obtain rfl : items' = items := by
          have := hcomposite'.lookup_eq.symm.trans hcomposite.lookup_eq
          simpa using this
        have hcompiled : ∀ rule ∈ rules, Compiled rule.compile := fun rule hmem => by
          obtain ⟨item, hitem, hread⟩ := exists_of_mem_right hrules hmem
          exact ih items' hcomposite.lookup_eq item hitem hread
        have hlength := hrules.length_eq
        cases mode with
        | none =>
          rcases hcount with ⟨-, hone⟩ | ⟨hne, -⟩
          · obtain ⟨rule, rfl⟩ := List.length_eq_one_iff.mp (hlength ▸ hone)
            exact hcompiled rule List.mem_cons_self
          · exact absurd rfl hne
        | some mode =>
          rcases hcount with ⟨⟨⟩, -⟩ | ⟨-, htwo⟩
          rw [Rule.compile, Rule.compileAll_eq_map]
          refine .combined (by rw [List.length_map]; omega) fun child hchild => ?_
          obtain ⟨rule, hrule, rfl⟩ := List.mem_map.mp hchild
          exact hcompiled rule hrule
    | _ => simp [Rule.read] at h

/-! ### From policies to texts -/

/-- Some policies are written when each of them is, and the texts come in their order. -/
theorem writeRules_eq_ok_iff {policies : List Policy} {items : List Json} :
    writeRules policies = .ok items ↔
      List.Forall₂ (fun policy item => writeRule policy = .ok item) policies items := by
  induction policies generalizing items with
  | nil => simp [writeRules, eq_comm]
  | cons policy rest ih =>
    rw [writeRules, List.forall₂_cons_left_iff]
    cases hpolicy : writeRule policy with
    | error reason => simp
    | ok item =>
      simp only [exceptMap_eq_ok_iff, ih, Except.ok.injEq]
      constructor
      · rintro ⟨others, hothers, rfl⟩
        exact ⟨item, others, rfl, hothers, rfl⟩
      · rintro ⟨_, others, rfl, hothers, rfl⟩
        exact ⟨others, hothers, rfl⟩

/-- Two or more policies under a mode are written with that mode. -/
theorem writeRule_combined {mode : Mode} {children : List Policy} {items : List Json}
    (hcount : 2 ≤ children.length) (hitems : writeRules children = .ok items) :
    writeRule (.combined mode children) =
      .ok (.object [(.whole "mode", .string mode.word), (.whole "rules", .array items)]) := by
  have hlength := (writeRules_eq_ok_iff.mp hitems).length_eq
  have hchildren : children.isEmpty = false := by
    cases children with
    | nil => simp at hcount
    | cons => rfl
  rw [writeRule, hitems, hchildren]
  match items with
  | [] => simp only [List.length_nil] at hlength; omega
  | [_] => simp only [List.length_singleton] at hlength; omega
  | _ :: _ :: _ => rfl

/-- A policy that a rule compiles to has a canonical text, which is read back. -/
theorem Compiled.exists_write {policy : Policy} (h : Compiled policy) :
    ∃ json rule, writeRule policy = .ok json ∧ Rule.Canonical json ∧
      (∀ isTopLevel, Rule.read json isTopLevel = .ok rule) ∧ rule.compile = policy := by
  induction h with
  | @maxAge seconds hsafe =>
    refine ⟨_, .maxAge (.int seconds), rfl, .age hsafe, fun _ => ?_, rfl⟩
    refine Rule.read_object_eq_ok_iff.mpr (Or.inl (Rule.readNode_eq_single_iff.mpr (Or.inl
      ⟨Duration.write (.int seconds), seconds, ⟨by simp, rfl⟩, ?_, hsafe, rfl⟩)))
    exact Duration.writes_write (by omega)
  | @maxVersions count hlow hhigh =>
    refine ⟨_, .maxVersions (.int count), rfl, .versions hlow hhigh, fun _ => ?_, rfl⟩
    exact Rule.read_object_eq_ok_iff.mpr (Or.inl (Rule.readNode_eq_single_iff.mpr (Or.inr
      ⟨count, ⟨by simp, rfl⟩, hlow, hhigh, rfl⟩)))
  | @combined mode children hcount _ ih =>
    -- The texts of the children and the rules read from them, in the order of the children.
    obtain ⟨pairs, hpairs⟩ := exists_forall₂ (R := fun child (pair : Json × Rule) =>
        writeRule child = .ok pair.1 ∧ Rule.Canonical pair.1 ∧
          Rule.read pair.1 false = .ok pair.2 ∧ pair.2.compile = child) fun child hchild => by
      obtain ⟨json, rule, hwrite, hcanonical, hread, hcompile⟩ := ih child hchild
      exact ⟨(json, rule), hwrite, hcanonical, hread false, hcompile⟩
    have hlength : children.length = pairs.length := hpairs.length_eq
    have hpair : ∀ pair ∈ pairs, Rule.Canonical pair.1 ∧ Rule.read pair.1 false = .ok pair.2 := by
      intro pair hpair
      obtain ⟨_, -, -, hcanonical, hread, -⟩ := exists_of_mem_right hpairs hpair
      exact ⟨hcanonical, hread⟩
    have hwrite : writeRules children = .ok (pairs.map Prod.fst) := by
      rw [writeRules_eq_ok_iff, List.forall₂_map_right_iff]
      exact hpairs.imp fun _ _ h => h.1
    have hread : List.Forall₂ (fun item rule => Rule.read item false = .ok rule)
        (pairs.map Prod.fst) (pairs.map Prod.snd) := by
      rw [List.forall₂_map_left_iff, List.forall₂_map_right_iff, List.forall₂_same]
      exact fun pair hmem => (hpair pair hmem).2
    have hcompile : (pairs.map Prod.snd).map Rule.compile = children := by
      rw [List.map_map, ← List.forall₂_eq_eq_eq, List.forall₂_map_left_iff]
      exact (hpairs.imp fun _ _ h => h.2.2.2).flip
    refine ⟨_, .composite (some mode) (pairs.map Prod.snd), writeRule_combined hcount hwrite,
      .combination (by rw [List.length_map]; omega) fun item hitem => ?_, fun _ => ?_, ?_⟩
    · obtain ⟨pair, hmem, rfl⟩ := List.mem_map.mp hitem
      exact (hpair pair hmem).1
    · have hnode : IsComposite [(.whole "mode", .string mode.word),
          (.whole "rules", .array (pairs.map Prod.fst))] (pairs.map Prod.fst) := ⟨by simp, rfl⟩
      refine Rule.read_object_eq_ok_iff.mpr
        (Or.inr ⟨some mode, _, _, Rule.readNode_eq_composite_iff.mpr ?_, hnode, hread, rfl⟩)
      exact ⟨_, hnode, ⟨mode.word, rfl, mode.spells_word⟩,
        Or.inr ⟨Option.some_ne_none mode, by rw [List.length_map]; omega⟩⟩
    · rw [Rule.compile, Rule.compileAll_eq_map, hcompile]

/-- Such a policy collects something, so its text is that of a rule. -/
theorem Compiled.write_eq {policy : Policy} (h : Compiled policy) :
    policy.write = some <$> policy.writeRule := by
  cases h <;> rfl

/-- **Canonical form.** A policy that a rule compiles to is its own canonical form. -/
theorem Compiled.canonical_eq {policy : Policy} (h : Compiled policy) :
    policy.canonical = .ok policy := by
  obtain ⟨json, rule, hwrite, -, hread, hcompile⟩ := h.exists_write
  have hjson : policy.write = .ok (some json) := by
    rw [h.write_eq, hwrite]
    rfl
  simp only [canonical, hjson, hread, hcompile]

end Policy

/-! ### There and back -/

/-- **There and back.** The policy of a rule that is read is written as a JSON object; the object
is read as a rule of the same policy, which is written as the same object, so the policy is its own
canonical form. The texts for two rules that are read agree exactly when their policies do. -/
theorem Rule.compile_round_trip {raw : Json} {isTopLevel : Bool} {rule : Rule}
    (h : read raw isTopLevel = .ok rule) :
    ∃ json again, rule.compile.write = .ok (some json) ∧ json.isObject = true ∧
      read json = .ok again ∧ again.compile = rule.compile ∧
      again.compile.write = .ok (some json) ∧
      rule.compile.canonical = .ok rule.compile ∧
      ∀ otherRaw otherIsTopLevel other, read otherRaw otherIsTopLevel = .ok other →
        ∃ otherJson, other.compile.write = .ok (some otherJson) ∧
          (json.render = otherJson.render ↔ rule.compile = other.compile) := by
  have hwritten {raw : Json} {isTopLevel : Bool} {rule : Rule} (h : read raw isTopLevel = .ok rule) :
      ∃ json again, rule.compile.write = .ok (some json) ∧ Canonical json ∧
        read json = .ok again ∧ again.compile = rule.compile := by
    have hcompiled := Policy.compiled_of_read h
    obtain ⟨json, again, hwrite, hcanonical, hread, hcompile⟩ := hcompiled.exists_write
    refine ⟨json, again, ?_, hcanonical, hread true, hcompile⟩
    rw [hcompiled.write_eq, hwrite]
    rfl
  obtain ⟨json, again, hwrite, hcanonical, hread, hcompile⟩ := hwritten h
  refine ⟨json, again, hwrite, by cases hcanonical <;> rfl, hread, hcompile, hcompile ▸ hwrite,
    (Policy.compiled_of_read h).canonical_eq, fun otherRaw _ other hother => ?_⟩
  obtain ⟨otherJson, otherAgain, hwrite', hcanonical', hread', hcompile'⟩ := hwritten hother
  refine ⟨otherJson, hwrite', ?_⟩
  rw [hcanonical.render_inj hcanonical']
  constructor
  · rintro rfl
    -- One text is read in one way.
    obtain rfl : again = otherAgain := Except.ok.inj (hread.symm.trans hread')
    exact hcompile.symm.trans hcompile'
  · intro hpolicy
    rw [hpolicy, hwrite'] at hwrite
    simpa using hwrite.symm

/-- A wrapper around a combination in capitals goes there and back. -/
theorem Rule.compile_round_trip_wrapper :
    ∃ rule json again, read (.object [("rules", .array [.object [("mode", .string "UNION"),
        ("rules", .array [.object [("max_age", .string "60m")],
          .object [("max_version", .number 3)]])]])]) = .ok rule ∧
      rule.compile.write = .ok (some json) ∧ read json = .ok again ∧
      again.compile = rule.compile := by
  have h : read (.object [("rules", .array [.object [("mode", .string "UNION"),
        ("rules", .array [.object [("max_age", .string "60m")],
          .object [("max_version", .number 3)]])]])]) =
      .ok (.composite none [.composite (some .union) [.maxAge 3600, .maxVersions 3]]) := rfl
  obtain ⟨json, again, hwrite, -, hread, hcompile, -⟩ := compile_round_trip h
  exact ⟨_, json, again, h, hwrite, hread, hcompile⟩

end Retention
