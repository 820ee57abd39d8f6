import Retention.Proofs.Policy.Canonical
import Retention.Proofs.Policy.Decoding
import Retention.Proofs.Store.Live

/-!
# What is collected

Rules and policies say of every cell whether it may be collected. A cell has an age in seconds, and
a rank among the versions of its column. What a rule says is what the policy it compiles to says.
The canonical form of a policy may have lost combinations of one child, and its ages have gone
through text, but it says the same of every cell; so two policies that have not drifted apart do,
too.

That an age survives its text is a matter of doubles: seconds beyond the safe ones and seconds that
are not whole are written as no duration, or as one that is refused, never as another one. A number
that is no double could be written as a double near it.

## Main definitions

* `Cell`: what rules and policies look at.
* `Rule.collects`, `Policy.collects`: whether a cell is collected.
* `Policy.AgesFit`: policies whose ages are doubles.

## Main results

* `Rule.collects_compile`: a rule that is read collects what its policy collects.
* `Policy.collects_canonical`: a canonical form collects what its policy collects.
* `Policy.agesFit_of_ofMessage`: the ages of policies from the admin API are doubles.
* `collects_preserved`: both, and policies that have not drifted apart collect the same.
-/

namespace Retention

/-- What rules and policies look at: how old a cell is, and how many versions of its column are at
least as new. -/
structure Cell where
  age : ℚ
  rank : Nat

/-- Whether a number is below a given one. -/
def Number.isBelow (bound : ℚ) : Number → Bool
  | .int value => (value : ℚ) < bound
  | .frac numerator scale _ => (numerator : ℚ) / 2 ^ (scale + 1) < bound
  | .infinity negative => negative
  | .nan => false

/-- What a combination says, given what its parts say. -/
def Mode.combine : Mode → List Bool → Bool
  | .union, answers => answers.any id
  | .intersection, answers => answers.all id

/-- What a wrapper says: the same as its one rule. -/
def unwrap : List Bool → Bool
  | [answer] => answer
  | _ => false

variable (cell : Cell)

mutual

/-- Whether a rule collects a cell. -/
def Rule.collects : Rule → Bool
  | .maxAge seconds => seconds.isBelow cell.age
  | .maxVersions count => count.isBelow cell.rank
  | .composite none rules => unwrap (Rule.collectsEach rules)
  | .composite (some mode) rules => mode.combine (Rule.collectsEach rules)
termination_by structural rule => rule

/-- Whether each of some rules collects a cell. -/
def Rule.collectsEach : List Rule → List Bool
  | [] => []
  | rule :: rest => rule.collects :: Rule.collectsEach rest
termination_by structural rules => rules

end

namespace Policy

mutual

/-- Whether a policy collects a cell. -/
def collects : Policy → Bool
  | noGc => false
  | maxAge seconds => seconds.isBelow cell.age
  | maxVersions count => count.isBelow cell.rank
  | combined mode children => mode.combine (collectsEach children)
termination_by structural policy => policy

/-- Whether each of some policies collects a cell. -/
def collectsEach : List Policy → List Bool
  | [] => []
  | policy :: rest => collects policy :: collectsEach rest
termination_by structural policies => policies

end

/-- The policies whose ages are doubles. -/
inductive AgesFit : Policy → Prop
  | noGc : AgesFit .noGc
  | maxAge {seconds : Number} (hfits : seconds.FractionFits) : AgesFit (.maxAge seconds)
  | maxVersions {count : Number} : AgesFit (.maxVersions count)
  | combined {mode : Mode} {children : List Policy} (hchildren : ∀ child ∈ children, AgesFit child) :
      AgesFit (.combined mode children)

end Policy

variable {cell}

/-- A combination of one part says what the part says. -/
theorem Mode.combine_singleton (mode : Mode) (answer : Bool) : mode.combine [answer] = answer := by
  cases mode <;> simp [combine]

/-! ### Rules and their policies -/

/-- Rules that each collect what their policy collects do so one by one. -/
theorem Rule.collectsEach_compileAll {rules : List Rule}
    (h : ∀ rule ∈ rules, rule.compile.collects cell = rule.collects cell) :
    Policy.collectsEach cell (Rule.compileAll rules) = Rule.collectsEach cell rules := by
  induction rules with
  | nil => rfl
  | cons rule rest ih =>
    rw [Rule.compileAll, Policy.collectsEach, Rule.collectsEach, h rule List.mem_cons_self,
      ih fun rule hrule => h rule (List.mem_cons_of_mem _ hrule)]

/-- A rule that is read collects the cells that its policy collects. -/
theorem Rule.collects_compile {raw : Json} {isTopLevel : Bool} {rule : Rule}
    (h : read raw isTopLevel = .ok rule) : rule.compile.collects cell = rule.collects cell := by
  induction raw using Json.rules_induction generalizing isTopLevel rule with
  | step raw ih =>
    cases raw with
    | object members =>
      obtain hsingle | ⟨mode, items, rules, hnode, hcomposite, hrules, rfl⟩ :=
        read_object_eq_ok_iff.mp h
      · obtain ⟨_, _, -, -, -, rfl⟩ | ⟨_, -, -, -, rfl⟩ := readNode_eq_single_iff.mp hsingle
        · rfl
        · rfl
      · have hcompile : ∀ rule ∈ rules, rule.compile.collects cell = rule.collects cell :=
          fun rule hmem => by
            obtain ⟨item, hitem, hread⟩ := exists_of_mem_right hrules hmem
            exact ih items hcomposite.lookup_eq item hitem hread
        cases mode with
        | none =>
          obtain ⟨others, hothers, -, ⟨-, hone⟩ | ⟨hne, -⟩⟩ := readNode_eq_composite_iff.mp hnode
          · obtain rfl : others = items := by
              simpa using hothers.lookup_eq.symm.trans hcomposite.lookup_eq
            obtain ⟨rule, rfl⟩ := List.length_eq_one_iff.mp (hrules.length_eq ▸ hone)
            exact hcompile rule List.mem_cons_self
          · exact absurd rfl hne
        | some mode => exact congrArg mode.combine (collectsEach_compileAll hcompile)
    | _ => simp [read] at h

namespace Policy

/-! ### Canonical forms -/

/-- Policies and the rules that their texts are read as, one by one. -/
theorem forall₂_of_read {property : Policy → Rule → Prop} {children : List Policy}
    {items : List Json} {rules : List Rule}
    (h : ∀ child ∈ children, ∀ item rule, writeRule child = .ok item →
      Rule.read item false = .ok rule → property child rule)
    (hitems : List.Forall₂ (fun child item => writeRule child = .ok item) children items)
    (hrules : List.Forall₂ (fun item rule => Rule.read item false = .ok rule) items rules) :
    List.Forall₂ property children rules := by
  induction hitems generalizing rules with
  | nil =>
    cases hrules
    exact .nil
  | cons hitem _ ih =>
    obtain ⟨rule, others, hrule, hothers, rfl⟩ := List.forall₂_cons_left_iff.mp hrules
    exact .cons (h _ List.mem_cons_self _ _ hitem hrule)
      (ih (fun child hchild => h child (List.mem_cons_of_mem _ hchild)) hothers)

/-- Policies whose rules collect the same cells as they do, one by one. -/
theorem collectsEach_compileAll_eq {children : List Policy} {rules : List Rule}
    (h : List.Forall₂ (fun child rule => rule.compile.collects cell = child.collects cell)
      children rules) :
    collectsEach cell (Rule.compileAll rules) = collectsEach cell children := by
  induction h with
  | nil => rfl
  | cons hcollects _ ih => rw [Rule.compileAll, collectsEach, collectsEach, hcollects, ih]

/-- The text of an age is read as the age that its duration writes. -/
theorem eq_maxAge_of_read {duration : String} {isTopLevel : Bool} {rule : Rule}
    (h : Rule.read (.object [(.whole "max_age", .string (.whole duration))]) isTopLevel =
      .ok rule) :
    ∃ seconds, Duration.read? duration = some seconds ∧ rule = .maxAge seconds := by
  obtain hsingle | ⟨_, _, _, -, hcomposite, -⟩ := Rule.read_object_eq_ok_iff.mp h
  · obtain ⟨text, seconds, hage, hwrites, hsafe, rfl⟩ | ⟨_, hcount, -⟩ :=
      Rule.readNode_eq_single_iff.mp hsingle
    · obtain rfl : duration = text := by simpa using hage.lookup_eq
      exact ⟨_, Duration.read?_of_writes hwrites (by unfold Number.maxSafe; omega), rfl⟩
    · cases hcount.lookup_eq
  · cases hcomposite.lookup_eq

/-- The text of a number of versions is read as that number. -/
theorem eq_maxVersions_of_read {count : Number} {isTopLevel : Bool} {rule : Rule}
    (h : Rule.read (.object [(.whole "max_version", .number count)]) isTopLevel = .ok rule) :
    rule = .maxVersions count := by
  obtain hsingle | ⟨_, _, _, -, hcomposite, -⟩ := Rule.read_object_eq_ok_iff.mp h
  · obtain ⟨_, _, hage, -⟩ | ⟨value, hcount, -, -, rfl⟩ := Rule.readNode_eq_single_iff.mp hsingle
    · cases hage.lookup_eq
    · obtain rfl : count = .int value := by simpa using hcount.lookup_eq
      rfl
  · cases hcomposite.lookup_eq

/-- An object with rules is read as those rules, under the mode that it gives. -/
theorem exists_of_read_rules {members : List (Text × Json)} {items : List Json}
    (hlookup : members.lookup (.whole "rules") = some (.array items)) {isTopLevel : Bool}
    {rule : Rule} (h : Rule.read (.object members) isTopLevel = .ok rule) :
    ∃ mode rules, Rule.ModeGiven members mode ∧
      List.Forall₂ (fun item rule => Rule.read item false = .ok rule) items rules ∧
      rule = .composite mode rules := by
  obtain hsingle | ⟨mode, others, rules, hnode, hcomposite, hrules, rfl⟩ :=
    Rule.read_object_eq_ok_iff.mp h
  · obtain ⟨_, _, hage, -⟩ | ⟨_, hcount, -⟩ := Rule.readNode_eq_single_iff.mp hsingle
    · cases hlookup.symm.trans (hage.lookup_of_ne (by decide))
    · cases hlookup.symm.trans (hcount.lookup_of_ne (by decide))
  · obtain rfl : others = items := by simpa using hcomposite.lookup_eq.symm.trans hlookup
    obtain ⟨again, hagain, hmode, -⟩ := Rule.readNode_eq_composite_iff.mp hnode
    obtain rfl : again = others := by simpa using hagain.lookup_eq.symm.trans hlookup
    exact ⟨mode, rules, hmode, hrules, rfl⟩

/-- The text of a combination is read as its rules under its mode, or as its one rule. -/
theorem exists_of_read_combined {mode : Mode} {children : List Policy} {text : Json}
    {isTopLevel : Bool} {rule : Rule} (hwrite : writeRule (.combined mode children) = .ok text)
    (hread : Rule.read text isTopLevel = .ok rule) : ∃ items rules,
      List.Forall₂ (fun child item => writeRule child = .ok item) children items ∧
      List.Forall₂ (fun item rule => Rule.read item false = .ok rule) items rules ∧
      ((∃ only, rules = [only] ∧ rule = .composite none rules) ∨
        rule = .composite (some mode) rules) := by
  rw [writeRule] at hwrite
  split at hwrite
  · cases hwrite
  obtain ⟨items, hitems, rfl⟩ := exceptMap_eq_ok_iff.mp hwrite
  have hforall := writeRules_eq_ok_iff.mp hitems
  split at hread
  · next item =>
    obtain ⟨given, rules, hmode, hrules, rfl⟩ := exists_of_read_rules rfl hread
    obtain ⟨only, rfl⟩ := List.length_eq_one_iff.mp hrules.length_eq.symm
    cases given with
    | none => exact ⟨_, _, hforall, hrules, Or.inl ⟨only, rfl, rfl⟩⟩
    | some given =>
      obtain ⟨_, hword, -⟩ := hmode
      cases hword
  · obtain ⟨given, rules, hmode, hrules, rfl⟩ := exists_of_read_rules rfl hread
    cases given with
    | none => cases hmode
    | some given =>
      obtain ⟨word, hword, hspells⟩ := hmode
      obtain rfl : mode.word = word := by simpa using hword
      have hgiven := Mode.ofWord?_eq_some_iff.mpr hspells
      rw [Mode.ofWord?_eq_some_iff.mpr mode.spells_word] at hgiven
      obtain rfl := Option.some.inj hgiven
      exact ⟨_, _, hforall, hrules, Or.inr rfl⟩

/-- The rule that is read from the text of a policy collects the cells that the policy collects. -/
theorem AgesFit.collects_of_read {policy : Policy} (hfits : AgesFit policy) {text : Json}
    {isTopLevel : Bool} {rule : Rule} (hwrite : writeRule policy = .ok text)
    (hread : Rule.read text isTopLevel = .ok rule) :
    rule.compile.collects cell = policy.collects cell := by
  induction hfits generalizing text isTopLevel rule with
  | noGc => cases hwrite
  | @maxAge seconds hfits =>
    obtain rfl := Except.ok.inj hwrite
    obtain ⟨other, hother, rfl⟩ := eq_maxAge_of_read hread
    rw [Duration.eq_of_read?_write hfits hother]
    rfl
  | @maxVersions count =>
    obtain rfl := Except.ok.inj hwrite
    rw [eq_maxVersions_of_read hread]
    rfl
  | @combined mode children _ ih =>
    obtain ⟨items, rules, hitems, hrules, hrule⟩ := exists_of_read_combined hwrite hread
    have heach : collectsEach cell (Rule.compileAll rules) = collectsEach cell children :=
      collectsEach_compileAll_eq (forall₂_of_read
        (fun child hchild _ _ hitem hrule => ih child hchild hitem hrule) hitems hrules)
    rw [collects, ← heach]
    rcases hrule with ⟨only, rfl, rfl⟩ | rfl
    · exact (mode.combine_singleton _).symm
    · rfl

/-- Only a policy that collects nothing has no text. -/
theorem eq_noGc_of_write {policy : Policy} (h : policy.write = .ok none) : policy = .noGc := by
  cases policy with
  | noGc => rfl
  | maxAge | maxVersions => cases h
  | combined =>
    obtain ⟨_, -, hsome⟩ := exceptMap_eq_ok_iff.mp h
    cases hsome

/-- The text of a policy is that of a rule. -/
theorem writeRule_of_write {policy : Policy} {text : Json} (h : policy.write = .ok (some text)) :
    writeRule policy = .ok text := by
  cases policy with
  | noGc => cases h
  | maxAge | maxVersions | combined =>
    change some <$> writeRule _ = _ at h
    obtain ⟨_, hwrite, hsome⟩ := map_eq_ok_iff.mp h
    rw [hwrite, Option.some.inj hsome]

/-- A canonical form collects the cells that its policy collects. -/
theorem collects_canonical {policy form : Policy} (hfits : AgesFit policy)
    (h : policy.canonical = .ok form) : form.collects cell = policy.collects cell := by
  unfold canonical at h
  split at h
  · cases h
  · next hwrite =>
    obtain rfl := Except.ok.inj h
    rw [eq_noGc_of_write hwrite]
  · next text hwrite =>
    split at h
    · cases h
    · next rule hread =>
      obtain rfl := Except.ok.inj h
      exact hfits.collects_of_read (writeRule_of_write hwrite) hread

/-! ### Policies from the admin API -/

open Number in
/-- The seconds of an age are read from text or added up, so they are a double. -/
theorem fractionFits_wholeSeconds {age : Json} {seconds : Number}
    (h : Age.wholeSeconds age = .ok seconds) : FractionFits seconds := by
  obtain ⟨whole, hwhole, h⟩ := bind_eq_ok_iff.mp h
  obtain ⟨nanos, -, h⟩ := bind_eq_ok_iff.mp h
  obtain rfl := Except.ok.inj h
  refine fractionFits_ite (fractionFits_add _ _) ?_
  have hprinted {value : Json} (h : Age.printedNumber value = .ok whole) : FractionFits whole := by
    unfold Age.printedNumber at h
    split at h
    · rw [← Except.ok.inj h]
      exact fractionFits_ofText _
    · cases h
  unfold Age.seconds at hwhole
  split at hwhole
  · rw [← Except.ok.inj hwhole]
    trivial
  · rw [← Except.ok.inj hwhole]
    trivial
  · split at hwhole
    · rw [← Except.ok.inj hwhole]
      exact fractionFits_ofText _
    · cases hwhole
  · exact hprinted hwhole

theorem agesFit_ofLeaf {members : List (Text × Json)} {policy : Policy}
    (h : ofLeaf members = .ok policy) : AgesFit policy := by
  obtain ⟨_, _, hseconds, rfl⟩ | ⟨_, -, rfl⟩ | rfl := ofLeaf_cases h
  · exact .maxAge (fractionFits_wholeSeconds hseconds)
  · exact .maxVersions
  · exact .noGc

/-- The ages of the policy that a message means are doubles. -/
theorem agesFit_of_ofMessage (message : Json) {policy : Policy}
    (h : ofMessage message = .ok policy) : AgesFit policy :=
  of_ofMessage .noGc (fun _ _ => agesFit_ofLeaf) (fun _ _ => .combined) message h

/-- The ages of the policy that a family has are doubles. -/
theorem agesFit_of_ofFamily {family : Json} {policy : Policy} (h : ofFamily family = .ok policy) :
    AgesFit policy := by
  unfold ofFamily ofMessageOr at h
  split at h
  · cases h
  · split at h
    · exact agesFit_of_ofMessage _ h
    · rw [← Except.ok.inj h]
      exact .noGc

end Policy

namespace Store

variable {store : Store} {target : FamilyRef} {rules : Option Json} {options : CallOptions}
  {world after : World}

/-- The ages of the policy that a family is seen to have are doubles. -/
theorem agesFit_of_live {policy : Policy}
    (h : store.live target options world = (.ok policy, after)) : policy.AgesFit := by
  have hlive : orMissing (store.getPolicy target options world).1 = .ok policy := by
    rw [← live_fst, h]
  rw [getPolicy_fst] at hlive
  unfold orMissing at hlive
  split at hlive
  · next seen hseen =>
    obtain ⟨_, -, hfamilies⟩ := bind_eq_ok_iff.mp hseen
    obtain ⟨families, -, hpolicy⟩ := bind_eq_ok_iff.mp hfamilies
    obtain rfl := Except.ok.inj hlive
    unfold policyIn at hpolicy
    split at hpolicy
    · cases hpolicy
    · obtain ⟨policy, hfamily, rfl⟩ := exceptMap_eq_ok_iff.mp hpolicy
      split
      · exact .noGc
      · exact Policy.agesFit_of_ofFamily (mapError_eq_ok_iff.mp hfamily)
  · split at hlive
    · rw [← Except.ok.inj hlive]
      exact .noGc
    · cases hlive

/-- Policies that have not drifted apart collect the same cells. -/
theorem collects_of_not_drifted {cell : Cell} {drift : Drift}
    (h : store.drift target rules options world = (.ok drift, after))
    (hdrifted : drift.drifted = false) :
    drift.desired.collects cell = drift.live.collects cell := by
  obtain ⟨hdesired, hlive, hdiffers⟩ := drift_eq_ok_iff.mp h
  rw [hdrifted] at hdiffers
  have hauthored := Policy.authored_of_ofText hdesired
  obtain ⟨form, hform⟩ : ∃ form, drift.live.normal = .ok form := by
    obtain ⟨_, -, hnormal⟩ := bind_eq_ok_iff.mp hdiffers
    obtain ⟨form, hform, -⟩ := bind_eq_ok_iff.mp hnormal
    exact ⟨form, hform⟩
  have hnormal := Policy.normal_eq_of_differs hauthored hform hdiffers
  exact Policy.collects_canonical (agesFit_of_live hlive) (mapError_eq_ok_iff.mp hnormal)

end Store

/-! ### The three together -/

/-- **What is collected is preserved.** A rule that is read collects the same cells as the policy it
compiles to; a policy collects the same cells as its canonical form, if it has one; and when a
comparison finds that a family has not drifted, the policy it should have and the one it has collect
the same cells. -/
theorem collects_preserved (cell : Cell) :
    (∀ raw isTopLevel rule, Rule.read raw isTopLevel = .ok rule →
      rule.compile.collects cell = rule.collects cell) ∧
    (∀ policy form, Policy.AgesFit policy → policy.canonical = .ok form →
      form.collects cell = policy.collects cell) ∧
    ∀ (store : Store) target rules options world drift after,
      store.drift target rules options world = (.ok drift, after) → drift.drifted = false →
      drift.desired.collects cell = drift.live.collects cell :=
  ⟨fun _ _ _ h => Rule.collects_compile h, fun _ _ hfits h => Policy.collects_canonical hfits h,
    fun _ _ _ _ _ _ _ h hdrifted => Store.collects_of_not_drifted h hdrifted⟩

/-- A world whose only family has a union of one age, which comes as text. -/
def loneUnion : World :=
  { World.empty false "now" "correlation" with
    tables := [("projects/pp/instances/ii/tables/t", .object [("f", .object [("gcRule",
      .object [("union", .object [("rules", .array [.object [("maxAge",
        .object [("seconds", .string "60")])]])])])])])] }

/-- A minute is the same in a wrapper, in a union of its own and in seconds, and it collects a cell
of two minutes. -/
theorem collects_preserved_minute : ∃ rule,
    Rule.read (.object [("rules", .array [.object [("max_age", .string "60s")]])]) = .ok rule ∧
    rule.compile.collects ⟨120, 1⟩ = rule.collects ⟨120, 1⟩ ∧
    Policy.collects ⟨120, 1⟩ (.maxAge 60) =
      Policy.collects ⟨120, 1⟩ (.combined .union [.maxAge 60]) ∧
    (Store.drift ⟨none⟩ ⟨"projects/pp/instances/ii/tables/t", "f"⟩
        (some (.object [("max_age", .string "60s")])) ⟨none, none⟩ loneUnion).1 =
      .ok ⟨false, .maxAge 60, .combined .union [.maxAge 60]⟩ ∧
    Policy.collects ⟨120, 1⟩ (.combined .union [.maxAge 60]) = true := by
  obtain ⟨hrule, hcanonical, hdrift⟩ := collects_preserved ⟨120, 1⟩
  have hread : Rule.read (.object [("rules", .array [.object [("max_age", .string "60s")]])]) =
      .ok (.composite none [.maxAge 60]) := rfl
  have hform : Policy.canonical (.combined .union [.maxAge 60]) = .ok (.maxAge 60) := rfl
  have hfits : Policy.AgesFit (.combined .union [.maxAge 60]) :=
    .combined fun child hchild => by
      obtain rfl := List.mem_singleton.mp hchild
      exact .maxAge trivial
  have hcompared : (Store.drift ⟨none⟩ ⟨"projects/pp/instances/ii/tables/t", "f"⟩
      (some (.object [("max_age", .string "60s")])) ⟨none, none⟩ loneUnion).1 =
        .ok ⟨false, .maxAge 60, .combined .union [.maxAge 60]⟩ := rfl
  have hcollects : Policy.collects ⟨120, 1⟩ (.maxAge 60) = true := by
    simp only [Policy.collects]
    decide
  exact ⟨_, hread, hrule _ _ _ hread, hcanonical _ _ hfits hform, hcompared,
    (hdrift _ _ _ _ _ _ _ (Prod.ext hcompared rfl) rfl).symm.trans hcollects⟩

end Retention
