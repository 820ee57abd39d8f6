import Retention.Proofs.Json.Keyed
import Retention.Proofs.Policy.RoundTrip

/-!
# Which differences between rule texts do not count

Some differences between two rule texts are mere writing: the order of the members of an object, the
letter case of a mode, the duration that some seconds are written as, and a wrapper around a rule.
Rule texts are congruent when one becomes the other by such changes, made anywhere in it.

Congruent texts have one policy, as each change leaves the policy of the changed node as it is, and
the policy of an object depends on its items through their policies only. Conversely every text is
congruent to the canonical text of its policy, node by node from below: so texts with one policy are
congruent to one text. All other differences count.

## Main definitions

* `Rule.Denotes`: the policy of a rule text.
* `Rule.Shape`: what an object with some policy looks like.
* `Rule.Congruent`: rule texts that differ in writing only.

## Main results

* `Rule.denotes_object_iff`: the policy of an object in terms of its members.
* `Rule.Congruent.exists_denotes`: congruent texts have one policy.
* `Rule.exists_canonical`: a text is congruent to the canonical text of its policy.
* `Rule.congruent_iff`: congruent texts are those with one policy.
* `Rule.toldApart`: which differences always count.
-/

namespace Retention

/-- A word spells one mode. -/
theorem Mode.Spells.unique {mode other : Mode} {word : String} (h : mode.Spells word)
    (hother : other.Spells word) : mode = other :=
  Option.some.inj
    ((Mode.ofWord?_eq_some_iff.mpr h).symm.trans (Mode.ofWord?_eq_some_iff.mpr hother))

/-- A text writes one number of seconds. -/
theorem Duration.Writes.unique {text : String} {seconds other : Nat} (h : Writes text seconds)
    (hother : Writes text other) : seconds = other := by
  obtain ⟨amount, unit, htext, -, -, hseconds⟩ := h
  have hsame : Writes (String.ofList (amount ++ [unit.letter])) other := by
    rwa [← htext, String.ofList_toList]
  rw [hseconds, (writes_append_letter hsame).2]

namespace Rule

variable {members others : List (Text × Json)} {items : List Json} {raw other item : Json}
  {policy : Policy} {text word : String} {mode : Mode} {seconds count : Nat}

/-! ### The policy of a rule text -/

/-- A JSON value is read as a rule with a policy. -/
def Denotes (raw : Json) (policy : Policy) : Prop :=
  ∃ rule, read raw false = .ok rule ∧ rule.compile = policy

theorem denotes_compile {isTopLevel : Bool} {rule : Rule} (h : read raw isTopLevel = .ok rule) :
    Denotes raw rule.compile :=
  ⟨rule, read_isTopLevel raw isTopLevel ▸ h, rfl⟩

/-- A JSON value has one policy. -/
theorem Denotes.unique {otherPolicy : Policy} (h : Denotes raw policy)
    (hother : Denotes raw otherPolicy) : policy = otherPolicy := by
  obtain ⟨rule, hread, rfl⟩ := h
  obtain ⟨otherRule, hotherRead, rfl⟩ := hother
  exact congrArg compile (Except.ok.inj (hread.symm.trans hotherRead))

/-- The JSON values with a policy are those in the grammar. -/
theorem exists_denotes_iff : (∃ policy, Denotes raw policy) ↔ Grammar raw := by
  constructor
  · rintro ⟨_, rule, hread, -⟩
    exact (grammar_and_mirrors_of_read hread).1
  · intro h
    obtain ⟨rule, hread⟩ := exists_read_of_grammar h false
    exact ⟨_, denotes_compile hread⟩

/-- What an object with some policy looks like: an age, a number of versions, one rule and no mode,
or a mode and two or more rules. -/
inductive Shape (members : List (Text × Json)) : Policy → Prop
  | age {text : String} {seconds : Nat}
      (hnode : IsSingle members (.whole "max_age") (.string (.whole text)))
      (htext : Duration.Writes text seconds) (hsafe : seconds ≤ 2 ^ 53 - 1) :
      Shape members (.maxAge (.int seconds))
  | versions {count : Nat} (hnode : IsSingle members (.whole "max_version") (.number (.int count)))
      (hlow : 1 ≤ count) (hhigh : count ≤ 2 ^ 31 - 1) : Shape members (.maxVersions (.int count))
  | wrapper {item : Json} {policy : Policy} (hnode : IsComposite members [item])
      (hmode : members.lookup (.whole "mode") = none) (hitem : Denotes item policy) :
      Shape members policy
  | combination {items : List Json} {word : String} {mode : Mode} {children : List Policy}
      (hnode : IsComposite members items)
      (hmode : members.lookup (.whole "mode") = some (.string (.whole word)))
      (hword : mode.Spells word) (hcount : 2 ≤ items.length)
      (hitems : List.Forall₂ Denotes items children) : Shape members (.combined mode children)

/-- Items are read one by one as rules of some policies exactly when they have these policies. -/
theorem forall₂_denotes_iff {children : List Policy} :
    List.Forall₂ Denotes items children ↔
      ∃ rules, List.Forall₂ (fun item rule => read item false = .ok rule) items rules ∧
        compileAll rules = children := by
  induction items generalizing children with
  | nil =>
    simp only [List.forall₂_nil_left_iff, exists_eq_left]
    exact eq_comm
  | cons item rest ih =>
    simp only [List.forall₂_cons_left_iff, ih]
    constructor
    · rintro ⟨_, _, ⟨rule, hrule, rfl⟩, ⟨rules, hrules, rfl⟩, rfl⟩
      exact ⟨rule :: rules, ⟨rule, rules, hrule, hrules, rfl⟩, rfl⟩
    · rintro ⟨_, ⟨rule, rules, hrule, hrules, rfl⟩, rfl⟩
      exact ⟨_, _, ⟨rule, hrule, rfl⟩, ⟨rules, hrules, rfl⟩, rfl⟩

/-- The policy of an object is seen from its members and the policies of its items. -/
theorem denotes_object_iff : Denotes (.object members) policy ↔ Shape members policy := by
  constructor
  · rintro ⟨rule, hread, rfl⟩
    obtain hsingle | ⟨mode, items, rules, hnode, hcomposite, hrules, rfl⟩ :=
      read_object_eq_ok_iff.mp hread
    · obtain ⟨_, _, hnode, htext, hsafe, rfl⟩ | ⟨_, hnode, hlow, hhigh, rfl⟩ :=
        readNode_eq_single_iff.mp hsingle
      · exact .age hnode htext hsafe
      · exact .versions hnode hlow hhigh
    · obtain ⟨again, hagain, hmode, hcount⟩ := readNode_eq_composite_iff.mp hnode
      obtain rfl : again = items := by
        simpa using hagain.lookup_eq.symm.trans hcomposite.lookup_eq
      obtain ⟨rfl, hone⟩ | ⟨hne, htwo⟩ := hcount
      · obtain ⟨item, rfl⟩ := List.length_eq_one_iff.mp hone
        obtain ⟨rule, _, hrule, hnil, rfl⟩ := List.forall₂_cons_left_iff.mp hrules
        cases hnil
        exact .wrapper hcomposite hmode ⟨rule, hrule, rfl⟩
      · obtain ⟨mode, rfl⟩ := Option.ne_none_iff_exists'.mp hne
        obtain ⟨word, hlookup, hword⟩ := hmode
        exact .combination hcomposite hlookup hword htwo
          (forall₂_denotes_iff.mpr ⟨rules, hrules, rfl⟩)
  · rintro (⟨hnode, htext, hsafe⟩ | ⟨hnode, hlow, hhigh⟩ | ⟨hnode, hmode, rule, hread, rfl⟩ |
      ⟨hnode, hmode, hword, hcount, hitems⟩)
    · exact ⟨_, read_object_eq_ok_iff.mpr (Or.inl (readNode_eq_single_iff.mpr
        (Or.inl ⟨_, _, hnode, htext, hsafe, rfl⟩))), rfl⟩
    · exact ⟨_, read_object_eq_ok_iff.mpr (Or.inl (readNode_eq_single_iff.mpr
        (Or.inr ⟨_, hnode, hlow, hhigh, rfl⟩))), rfl⟩
    · have hgiven : ModeGiven members none := hmode
      have hcomposite := readNode_eq_composite_iff.mpr ⟨_, hnode, hgiven, Or.inl ⟨rfl, rfl⟩⟩
      exact ⟨_, read_object_eq_ok_iff.mpr
        (Or.inr ⟨none, _, [rule], hcomposite, hnode, .cons hread .nil, rfl⟩), rfl⟩
    · next items word mode children =>
      obtain ⟨rules, hrules, rfl⟩ := forall₂_denotes_iff.mp hitems
      have hgiven : ModeGiven members (some mode) := ⟨word, hmode, hword⟩
      have hcomposite := readNode_eq_composite_iff.mpr
        ⟨_, hnode, hgiven, Or.inr ⟨Option.some_ne_none mode, hcount⟩⟩
      exact ⟨_, read_object_eq_ok_iff.mpr
        (Or.inr ⟨some mode, _, rules, hcomposite, hnode, hrules, rfl⟩), rfl⟩

/-- Only objects have a policy. -/
theorem Denotes.exists_members (h : Denotes raw policy) : ∃ members, raw = .object members := by
  obtain ⟨rule, hread, -⟩ := h
  cases raw with
  | object members => exact ⟨members, rfl⟩
  | _ => cases hread

/-! ### Differences in writing -/

/-- Rule texts differ in writing only. This is the least congruence on rule texts for four changes:
the members of an object in another order, a mode in another letter case, another duration for the
same seconds, and a wrapper around a rule. -/
inductive Congruent : Json → Json → Prop
  | refl {raw : Json} (h : Grammar raw) : Congruent raw raw
  | symm {raw other : Json} (h : Congruent raw other) : Congruent other raw
  | trans {raw between other : Json} (h : Congruent raw between)
      (hother : Congruent between other) : Congruent raw other
  | reorder {members others : List (Text × Json)} (h : Grammar (.object members))
      (hkeys : (members.map Prod.fst).Nodup) (hperm : members.Perm others) :
      Congruent (.object members) (.object others)
  | respell {members : List (Text × Json)} {word other : String} {mode : Mode}
      (h : Grammar (.object members))
      (hmode : members.lookup (.whole "mode") = some (.string (.whole word)))
      (hword : mode.Spells word) (hother : mode.Spells other) :
      Congruent (.object members)
        (.object (Entries.put (.whole "mode") (.string (.whole other)) members))
  | redate {members : List (Text × Json)} {text other : String} {seconds : Nat}
      (h : Grammar (.object members))
      (hage : members.lookup (.whole "max_age") = some (.string (.whole text)))
      (htext : Duration.Writes text seconds) (hother : Duration.Writes other seconds) :
      Congruent (.object members)
        (.object (Entries.put (.whole "max_age") (.string (.whole other)) members))
  | wrap {item : Json} (h : Grammar item) :
      Congruent item (.object [(.whole "rules", .array [item])])
  | item {members : List (Text × Json)} {front back : List Json} {item other : Json}
      (h : Grammar (.object members))
      (hrules : members.lookup (.whole "rules") = some (.array (front ++ item :: back)))
      (hitem : Congruent item other) :
      Congruent (.object members)
        (.object (Entries.put (.whole "rules") (.array (front ++ other :: back)) members))

/-! ### Congruent texts have one policy -/

/-- A member that is put in for another one leaves the keys of an object as they are. -/
theorem exists_mem_of_mem_put {key : Text} {held value : Json} {member : Text × Json}
    (hkey : members.lookup key = some held) (h : member ∈ Entries.put key value members) :
    ∃ old ∈ members, old.1 = member.1 := by
  obtain rfl | hmember := Entries.mem_of_mem_put h
  · obtain ⟨front, back, rfl, -⟩ := List.lookup_eq_some_iff.mp hkey
    exact ⟨(key, held), by simp, rfl⟩
  · exact ⟨member, hmember, rfl⟩

/-- The object of a single rule is that of one when it has another value. -/
theorem isSingle_put {key : Text} {held : Json} (h : IsSingle members key held) (value : Json) :
    IsSingle (Entries.put key value members) key value := by
  refine ⟨fun member hmember => ?_, Entries.lookup_put_self _ _ _⟩
  obtain ⟨old, hold, hkey⟩ := exists_mem_of_mem_put h.lookup_eq hmember
  exact hkey ▸ h.key_eq old hold

/-- The object of a composite rule is that of one when a member of it has another value, if that of
its rules is an array. -/
theorem isComposite_put {key : Text} {held value : Json} {others : List Json}
    (h : IsComposite members items) (hkey : members.lookup key = some held)
    (hrules : (Entries.put key value members).lookup (.whole "rules") = some (.array others)) :
    IsComposite (Entries.put key value members) others := by
  refine ⟨fun member hmember => ?_, hrules⟩
  obtain ⟨old, hold, hkey⟩ := exists_mem_of_mem_put hkey hmember
  exact hkey ▸ h.key_eq old hold

/-- An item that is replaced by one with the same counterparts leaves the others in their places. -/
theorem forall₂_replace {α β : Type} {R : α → β → Prop} {front back : List α} {item other : α}
    {counterparts : List β} (h : List.Forall₂ R (front ++ item :: back) counterparts)
    (hitem : ∀ counterpart, R item counterpart → R other counterpart) :
    List.Forall₂ R (front ++ other :: back) counterparts := by
  induction front generalizing counterparts with
  | nil =>
    obtain ⟨first, rest, hfirst, hrest, rfl⟩ := List.forall₂_cons_left_iff.mp h
    exact .cons (hitem first hfirst) hrest
  | cons before front ih =>
    obtain ⟨first, rest, hfirst, hrest, rfl⟩ := List.forall₂_cons_left_iff.mp h
    exact .cons hfirst (ih hrest)

/-- Members in another order look like what they looked like. -/
theorem Shape.of_perm (h : Shape members policy) (hkeys : (members.map Prod.fst).Nodup)
    (hperm : members.Perm others) : Shape others policy := by
  have hlookup := lookup_eq_of_perm hperm hkeys
  have hsingle {key : Text} {value : Json} (h : IsSingle members key value) :
      IsSingle others key value :=
    ⟨fun member hmember => h.key_eq member (hperm.mem_iff.mpr hmember),
      (hlookup key).symm.trans h.lookup_eq⟩
  have hcomposite {items : List Json} (h : IsComposite members items) :
      IsComposite others items :=
    ⟨fun member hmember => h.key_eq member (hperm.mem_iff.mpr hmember),
      (hlookup _).symm.trans h.lookup_eq⟩
  cases h with
  | age hnode htext hsafe => exact .age (hsingle hnode) htext hsafe
  | versions hnode hlow hhigh => exact .versions (hsingle hnode) hlow hhigh
  | wrapper hnode hmode hitem =>
    exact .wrapper (hcomposite hnode) ((hlookup _).symm.trans hmode) hitem
  | combination hnode hmode hword hcount hitems =>
    exact .combination (hcomposite hnode) ((hlookup _).symm.trans hmode) hword hcount hitems

/-- An object with a mode looks like a combination under it, whatever word spells it. -/
theorem Shape.respell {other : String} (h : Shape members policy)
    (hmode : members.lookup (.whole "mode") = some (.string (.whole word)))
    (hword : mode.Spells word) (hother : mode.Spells other) :
    Shape (Entries.put (.whole "mode") (.string (.whole other)) members) policy := by
  cases h with
  | age hnode => cases hmode.symm.trans (hnode.lookup_of_ne (by decide))
  | versions hnode => cases hmode.symm.trans (hnode.lookup_of_ne (by decide))
  | wrapper hnode hnone => cases hmode.symm.trans hnone
  | @combination items given givenMode children hnode hgiven hspells hcount hitems =>
    obtain rfl : word = given := by simpa using hmode.symm.trans hgiven
    obtain rfl := hspells.unique hword
    have hrules : (Entries.put (.whole "mode") (.string (.whole other)) members).lookup
        (.whole "rules") = some (.array items) :=
      (Entries.lookup_put_of_ne (by decide) _ _).trans hnode.lookup_eq
    exact .combination (isComposite_put hnode hmode hrules) (Entries.lookup_put_self _ _ _) hother
      hcount hitems

/-- An object with an age looks like a rule for its seconds, whatever duration writes them. -/
theorem Shape.redate {other : String} (h : Shape members policy)
    (hage : members.lookup (.whole "max_age") = some (.string (.whole text)))
    (htext : Duration.Writes text seconds) (hother : Duration.Writes other seconds) :
    Shape (Entries.put (.whole "max_age") (.string (.whole other)) members) policy := by
  have hcomposite {items : List Json} (h : IsComposite members items) : False := by
    obtain ⟨front, back, rfl, -⟩ := List.lookup_eq_some_iff.mp hage
    obtain hkey | hkey := h.key_eq (.whole "max_age", .string (.whole text)) (by simp)
    · exact absurd hkey (show Text.whole "max_age" ≠ .whole "mode" by decide)
    · exact absurd hkey (show Text.whole "max_age" ≠ .whole "rules" by decide)
  cases h with
  | @age given given' hnode hgiven hsafe =>
    obtain rfl : text = given := by simpa using hage.symm.trans hnode.lookup_eq
    obtain rfl := hgiven.unique htext
    exact .age (isSingle_put hnode _) hother hsafe
  | versions hnode => cases hage.symm.trans (hnode.lookup_of_ne (by decide))
  | wrapper hnode => exact (hcomposite hnode).elim
  | combination hnode => exact (hcomposite hnode).elim

/-- An object with rules looks the same when one of them is replaced by one of the same policy. -/
theorem Shape.replace {front back : List Json} {itemPolicy : Policy} (h : Shape members policy)
    (hrules : members.lookup (.whole "rules") = some (.array (front ++ item :: back)))
    (hitem : Denotes item itemPolicy) (hother : Denotes other itemPolicy) :
    Shape (Entries.put (.whole "rules") (.array (front ++ other :: back)) members) policy := by
  have hcomposite {items : List Json} (h : IsComposite members items) :
      IsComposite (Entries.put (.whole "rules") (.array (front ++ other :: back)) members)
        (front ++ other :: back) :=
    isComposite_put h hrules (Entries.lookup_put_self _ _ _)
  have hmode : (Entries.put (.whole "rules") (.array (front ++ other :: back)) members).lookup
      (.whole "mode") = members.lookup (.whole "mode") :=
    Entries.lookup_put_of_ne (by decide) _ _
  cases h with
  | age hnode => cases hrules.symm.trans (hnode.lookup_of_ne (by decide))
  | versions hnode => cases hrules.symm.trans (hnode.lookup_of_ne (by decide))
  | @wrapper only _ hnode hnone hgiven =>
    have honly : front ++ item :: back = [only] := by simpa using hrules.symm.trans hnode.lookup_eq
    obtain ⟨rfl, rfl, rfl⟩ : front = [] ∧ item = only ∧ back = [] := by
      simpa [List.append_eq_singleton_iff] using honly
    obtain rfl := hgiven.unique hitem
    exact .wrapper (hcomposite hnode) (hmode.trans hnone) hother
  | @combination items _ _ children hnode hword hspells hcount hitems =>
    obtain rfl : front ++ item :: back = items := by simpa using hrules.symm.trans hnode.lookup_eq
    have hothers : List.Forall₂ Denotes (front ++ other :: back) children :=
      forall₂_replace hitems fun _ hdenotes => hdenotes.unique hitem ▸ hother
    exact .combination (hcomposite hnode) (hmode.trans hword) hspells (by simpa using hcount)
      hothers

/-- **Congruent texts have one policy.** -/
theorem Congruent.exists_denotes (h : Congruent raw other) :
    ∃ policy, Denotes raw policy ∧ Denotes other policy := by
  induction h with
  | refl h =>
    obtain ⟨policy, hpolicy⟩ := exists_denotes_iff.mpr h
    exact ⟨policy, hpolicy, hpolicy⟩
  | symm _ ih =>
    obtain ⟨policy, hraw, hother⟩ := ih
    exact ⟨policy, hother, hraw⟩
  | trans _ _ ih ihOther =>
    obtain ⟨policy, hraw, hbetween⟩ := ih
    obtain ⟨otherPolicy, hagain, hother⟩ := ihOther
    obtain rfl := hbetween.unique hagain
    exact ⟨policy, hraw, hother⟩
  | reorder h hkeys hperm =>
    obtain ⟨policy, hpolicy⟩ := exists_denotes_iff.mpr h
    exact ⟨policy, hpolicy,
      denotes_object_iff.mpr ((denotes_object_iff.mp hpolicy).of_perm hkeys hperm)⟩
  | respell h hmode hword hother =>
    obtain ⟨policy, hpolicy⟩ := exists_denotes_iff.mpr h
    exact ⟨policy, hpolicy,
      denotes_object_iff.mpr ((denotes_object_iff.mp hpolicy).respell hmode hword hother)⟩
  | redate h hage htext hother =>
    obtain ⟨policy, hpolicy⟩ := exists_denotes_iff.mpr h
    exact ⟨policy, hpolicy,
      denotes_object_iff.mpr ((denotes_object_iff.mp hpolicy).redate hage htext hother)⟩
  | wrap h =>
    obtain ⟨policy, hpolicy⟩ := exists_denotes_iff.mpr h
    exact ⟨policy, hpolicy, denotes_object_iff.mpr (.wrapper ⟨by simp, rfl⟩ rfl hpolicy)⟩
  | item h hrules _ ih =>
    obtain ⟨policy, hpolicy⟩ := exists_denotes_iff.mpr h
    obtain ⟨itemPolicy, hitem, hother⟩ := ih
    exact ⟨policy, hpolicy,
      denotes_object_iff.mpr ((denotes_object_iff.mp hpolicy).replace hrules hitem hother)⟩

/-- Congruent texts are in the grammar. -/
theorem Congruent.grammar (h : Congruent raw other) : Grammar raw ∧ Grammar other := by
  obtain ⟨policy, hraw, hother⟩ := h.exists_denotes
  exact ⟨exists_denotes_iff.mp ⟨policy, hraw⟩, exists_denotes_iff.mp ⟨policy, hother⟩⟩

/-! ### A text is congruent to a canonical one -/

/-- With one value for each key, the object of a single rule has one member. -/
theorem eq_of_isSingle {key : Text} {value : Json} (hkeys : (members.map Prod.fst).Nodup)
    (h : IsSingle members key value) : members = [(key, value)] := by
  have hmem : (key, value) ∈ members := (lookup_eq_some_iff_mem hkeys).mp h.lookup_eq
  refine List.perm_singleton.mp
    ((List.perm_ext_iff_of_nodup hkeys.of_map (List.nodup_singleton _)).mpr fun member => ?_)
  rw [List.mem_singleton]
  constructor
  · intro hmember
    have hkey := h.key_eq member hmember
    have hvalue := (lookup_eq_some_iff_mem hkeys).mpr hmember
    rw [hkey, h.lookup_eq] at hvalue
    exact Prod.ext hkey (Option.some.inj hvalue).symm
  · rintro rfl
    exact hmem

/-- With one value for each key, a wrapper has one member. -/
theorem eq_of_isComposite (hkeys : (members.map Prod.fst).Nodup) (h : IsComposite members items)
    (hmode : members.lookup (.whole "mode") = none) :
    members = [(.whole "rules", .array items)] := by
  refine eq_of_isSingle hkeys ⟨fun member hmember => ?_, h.lookup_eq⟩
  refine (h.key_eq member hmember).resolve_left fun hkey => ?_
  have hvalue := (lookup_eq_some_iff_mem hkeys).mpr hmember
  rw [hkey, hmode] at hvalue
  cases hvalue

/-- With one value for each key, a combination has two members. -/
theorem perm_of_isComposite {value : Json} (hkeys : (members.map Prod.fst).Nodup)
    (h : IsComposite members items) (hmode : members.lookup (.whole "mode") = some value) :
    members.Perm [(.whole "mode", value), (.whole "rules", .array items)] := by
  refine (List.perm_ext_iff_of_nodup hkeys.of_map (by simp)).mpr fun member => ?_
  rw [List.mem_cons, List.mem_singleton]
  constructor
  · intro hmember
    have hvalue := (lookup_eq_some_iff_mem hkeys).mpr hmember
    obtain hkey | hkey := h.key_eq member hmember
    · rw [hkey, hmode] at hvalue
      exact Or.inl (Prod.ext hkey (Option.some.inj hvalue).symm)
    · rw [hkey, h.lookup_eq] at hvalue
      exact Or.inr (Prod.ext hkey (Option.some.inj hvalue).symm)
  · rintro (rfl | rfl)
    · exact (lookup_eq_some_iff_mem hkeys).mp hmode
    · exact (lookup_eq_some_iff_mem hkeys).mp h.lookup_eq

/-- The text of some items under a mode. -/
def combination (word : String) (items : List Json) : Json :=
  .object [(.whole "mode", .string (.whole word)), (.whole "rules", .array items)]

theorem grammar_combination (hword : mode.Spells word) (hcount : 2 ≤ items.length)
    (hitems : ∀ item ∈ items, Grammar item) : Grammar (combination word items) :=
  .combination ⟨by simp, rfl⟩ rfl hword hcount hitems

/-- Combinations of congruent items under one mode are congruent. -/
theorem congruent_combination {items others : List Json} (front : List Json)
    (hword : mode.Spells word) (hcount : 2 ≤ (front ++ items).length)
    (hfront : ∀ item ∈ front, Grammar item) (h : List.Forall₂ Congruent items others) :
    Congruent (combination word (front ++ items)) (combination word (front ++ others)) := by
  -- The items that were replaced already are in front.
  induction h generalizing front with
  | nil => exact .refl (grammar_combination hword hcount (by simpa using hfront))
  | @cons item other items others hitem hitems ih =>
    have hgrammar : ∀ given ∈ front ++ item :: items, Grammar given := by
      intro given hgiven
      obtain hgiven | rfl | hgiven : given ∈ front ∨ given = item ∨ given ∈ items := by
        simpa using hgiven
      · exact hfront given hgiven
      · exact hitem.grammar.1
      · obtain ⟨_, -, hcongruent⟩ := exists_of_mem_right hitems.flip hgiven
        exact hcongruent.grammar.1
    have hfirst : Congruent (combination word (front ++ item :: items))
        (combination word (front ++ other :: items)) :=
      .item (grammar_combination hword hcount hgrammar) rfl hitem
    have hrest := ih (front ++ [other]) (by simpa using hcount) fun given hgiven => by
      obtain hgiven | rfl : given ∈ front ∨ given = other := by simpa using hgiven
      · exact hfront given hgiven
      · exact hitem.grammar.2
    rw [List.append_assoc, List.append_assoc] at hrest
    exact hfirst.trans hrest

/-- Items and their counterparts that each have something in common have it one by one. -/
theorem exists_counterparts {α β γ : Type} {R : α → β → Prop} {S : α → γ → Prop}
    {T : β → γ → Prop} {items : List α} {others : List β} (h : List.Forall₂ R items others)
    (hcommon : ∀ item ∈ items, ∀ other, R item other → ∃ common, S item common ∧ T other common) :
    ∃ commons, List.Forall₂ S items commons ∧ List.Forall₂ T others commons := by
  induction h with
  | nil => exact ⟨[], .nil, .nil⟩
  | @cons item other items others hfirst _ ih =>
    obtain ⟨common, hitem, hother⟩ := hcommon item List.mem_cons_self other hfirst
    obtain ⟨commons, hitems, hothers⟩ :=
      ih fun item hmem => hcommon item (List.mem_cons_of_mem _ hmem)
    exact ⟨common :: commons, .cons hitem hitems, .cons hother hothers⟩

/-- A text with one value for each key is congruent to the canonical text of its policy. -/
theorem exists_canonical (hkeyed : raw.Keyed) (h : Denotes raw policy) :
    ∃ text, policy.writeRule = .ok text ∧ Congruent raw text := by
  induction raw using Json.rules_induction generalizing policy with
  | step raw ih =>
    have hgrammar := exists_denotes_iff.mp ⟨policy, h⟩
    obtain ⟨members, rfl⟩ := h.exists_members
    have hkeys := (Json.keyed_object_iff.mp hkeyed).1
    cases denotes_object_iff.mp h with
    | @age text seconds hnode htext hsafe =>
      refine ⟨_, rfl, ?_⟩
      have hredate := Congruent.redate hgrammar hnode.lookup_eq htext
        (Duration.writes_write (show seconds ≤ 2 ^ 53 by omega))
      rwa [eq_of_isSingle hkeys hnode] at hredate ⊢
    | versions hnode =>
      rw [eq_of_isSingle hkeys hnode] at hgrammar ⊢
      exact ⟨_, rfl, .refl hgrammar⟩
    | @wrapper item _ hnode hmode hitem =>
      rw [eq_of_isComposite hkeys hnode hmode]
      obtain ⟨text, htext, hcongruent⟩ := ih _ hnode.lookup_eq item List.mem_cons_self
        (hkeyed.items hnode.lookup_eq item List.mem_cons_self) hitem
      exact ⟨text, htext, (Congruent.wrap hcongruent.grammar.1).symm.trans hcongruent⟩
    | @combination items word mode children hnode hmode hword hcount hchildren =>
      -- The canonical texts of the items, in their order.
      obtain ⟨texts, htexts, hwritten⟩ : ∃ texts, List.Forall₂ Congruent items texts ∧
          List.Forall₂ (fun child text => child.writeRule = .ok text) children texts :=
        exists_counterparts hchildren fun item hitem child hchild => by
          obtain ⟨text, htext, hcongruent⟩ :=
            ih _ hnode.lookup_eq item hitem (hkeyed.items hnode.lookup_eq item hitem) hchild
          exact ⟨text, hcongruent, htext⟩
      have hlength := hchildren.length_eq
      have hgiven : ∀ item ∈ items, Grammar item := fun item hitem => by
        obtain ⟨_, -, hcongruent⟩ := exists_of_mem_right htexts.flip hitem
        exact hcongruent.grammar.1
      have hreorder := Congruent.reorder hgrammar hkeys (perm_of_isComposite hkeys hnode hmode)
      have hrespell : Congruent (combination word items) (combination mode.word items) :=
        .respell (grammar_combination hword hcount hgiven) rfl hword mode.spells_word
      have hrest : Congruent (combination mode.word items) (combination mode.word texts) :=
        congruent_combination [] mode.spells_word hcount nofun htexts
      exact ⟨_, Policy.writeRule_combined (by omega) (Policy.writeRules_eq_ok_iff.mpr hwritten),
        (hreorder.trans hrespell).trans hrest⟩

/-- **Congruent texts are those with one policy.** -/
theorem congruent_iff {otherPolicy : Policy} (hraw : raw.Keyed) (hother : other.Keyed)
    (h : Denotes raw policy) (hdenotes : Denotes other otherPolicy) :
    Congruent raw other ↔ policy = otherPolicy := by
  constructor
  · intro hcongruent
    obtain ⟨common, hfirst, hsecond⟩ := hcongruent.exists_denotes
    exact (h.unique hfirst).trans (hsecond.unique hdenotes)
  · rintro rfl
    obtain ⟨text, htext, hfirst⟩ := exists_canonical hraw h
    obtain ⟨again, hagain, hsecond⟩ := exists_canonical hother hdenotes
    obtain rfl : text = again := Except.ok.inj (htext.symm.trans hagain)
    exact hfirst.trans hsecond.symm

/-! ### Which differences always count -/

/-- Two lists of items with one value for each key are congruent one by one exactly when they have
the same policies in the same order. -/
theorem forall₂_congruent_iff {others : List Json} {children otherChildren : List Policy}
    (hitems : ∀ item ∈ items, item.Keyed) (hothers : ∀ item ∈ others, item.Keyed)
    (h : List.Forall₂ Denotes items children) (hother : List.Forall₂ Denotes others otherChildren) :
    List.Forall₂ Congruent items others ↔ children = otherChildren := by
  induction h generalizing others otherChildren with
  | nil =>
    cases hother with
    | nil => simp
    | cons => simp
  | cons hfirst _ ih =>
    cases hother with
    | nil => simp
    | cons hotherFirst hotherRest =>
      rw [List.forall_mem_cons] at hitems hothers
      rw [List.forall₂_cons, List.cons.injEq, ih hitems.2 hothers.2 hotherRest,
        congruent_iff hitems.1 hothers.1 hfirst hotherFirst]

/-- An object with a mode has the policy of a combination under it. -/
theorem Shape.eq_combined (h : Shape members policy) (hmode : ModeGiven members (some mode)) :
    ∃ items children, members.lookup (.whole "rules") = some (.array items) ∧
      policy = .combined mode children ∧ List.Forall₂ Denotes items children := by
  obtain ⟨word, hlookup, hword⟩ := hmode
  cases h with
  | age hnode => cases hlookup.symm.trans (hnode.lookup_of_ne (by decide))
  | versions hnode => cases hlookup.symm.trans (hnode.lookup_of_ne (by decide))
  | wrapper _ hnone => cases hlookup.symm.trans hnone
  | combination hnode hgiven hspells _ hitems =>
    obtain rfl := Text.whole.inj (Json.string.inj (Option.some.inj (hlookup.symm.trans hgiven)))
    obtain rfl := hspells.unique hword
    exact ⟨_, _, hnode.lookup_eq, rfl, hitems⟩

/-- A composite object has no key but its own two. -/
theorem lookup_eq_none_of_isComposite (h : IsComposite members items) {key : Text}
    (hmode : key ≠ .whole "mode") (hrules : key ≠ .whole "rules") : members.lookup key = none := by
  simp only [List.lookup_eq_none_iff, bne_iff_ne]
  rintro member hmember rfl
  exact (h.key_eq member hmember).elim hmode hrules

/-- An object with an age has the policy of its seconds. -/
theorem Shape.eq_maxAge (h : Shape members policy)
    (hage : members.lookup (.whole "max_age") = some (.string (.whole text))) :
    ∃ seconds : Nat, Duration.Writes text seconds ∧ policy = .maxAge (.int seconds) := by
  cases h with
  | age hnode htext =>
    obtain rfl :=
      Text.whole.inj (Json.string.inj (Option.some.inj (hnode.lookup_eq.symm.trans hage)))
    exact ⟨_, htext, rfl⟩
  | versions hnode => cases hage.symm.trans (hnode.lookup_of_ne (by decide))
  | wrapper hnode =>
    cases hage.symm.trans (lookup_eq_none_of_isComposite hnode (by decide) (by decide))
  | combination hnode =>
    cases hage.symm.trans (lookup_eq_none_of_isComposite hnode (by decide) (by decide))

/-- An object with a number of versions has the policy of that number. -/
theorem Shape.eq_maxVersions {count : Number} (h : Shape members policy)
    (hcount : members.lookup (.whole "max_version") = some (.number count)) :
    policy = .maxVersions count := by
  cases h with
  | age hnode => cases hcount.symm.trans (hnode.lookup_of_ne (by decide))
  | versions hnode =>
    rw [← Json.number.inj (Option.some.inj (hnode.lookup_eq.symm.trans hcount))]
  | wrapper hnode =>
    cases hcount.symm.trans (lookup_eq_none_of_isComposite hnode (by decide) (by decide))
  | combination hnode =>
    cases hcount.symm.trans (lookup_eq_none_of_isComposite hnode (by decide) (by decide))

/-- What tells two objects apart that are rule texts, and what does not. Combinations are congruent
when they have one mode and their items are congruent in their order, ages when they are the same
seconds, and numbers of versions when they are the same number. These three are never congruent to
one another. -/
structure ToldApart (members others : List (Text × Json)) : Prop where
  combination : ∀ {mode otherMode items otherItems}, ModeGiven members (some mode) →
    ModeGiven others (some otherMode) → members.lookup (.whole "rules") = some (.array items) →
    others.lookup (.whole "rules") = some (.array otherItems) →
    (Congruent (.object members) (.object others) ↔
      mode = otherMode ∧ List.Forall₂ Congruent items otherItems)
  age : ∀ {text otherText}, members.lookup (.whole "max_age") = some (.string (.whole text)) →
    others.lookup (.whole "max_age") = some (.string (.whole otherText)) →
    (Congruent (.object members) (.object others) ↔
      ∃ seconds, Duration.Writes text seconds ∧ Duration.Writes otherText seconds)
  versions : ∀ {count otherCount}, members.lookup (.whole "max_version") = some (.number count) →
    others.lookup (.whole "max_version") = some (.number otherCount) →
    (Congruent (.object members) (.object others) ↔ count = otherCount)
  combination_age : ∀ {mode text}, ModeGiven members (some mode) →
    others.lookup (.whole "max_age") = some (.string (.whole text)) →
    ¬ Congruent (.object members) (.object others)
  combination_versions : ∀ {mode count}, ModeGiven members (some mode) →
    others.lookup (.whole "max_version") = some (.number count) →
    ¬ Congruent (.object members) (.object others)
  age_versions : ∀ {text count}, members.lookup (.whole "max_age") = some (.string (.whole text)) →
    others.lookup (.whole "max_version") = some (.number count) →
    ¬ Congruent (.object members) (.object others)

/-- Objects that are rule texts, with one value for each key, are told apart so. -/
theorem toldApart {otherPolicy : Policy} (hraw : Json.Keyed (.object members))
    (hother : Json.Keyed (.object others)) (h : Denotes (.object members) policy)
    (hdenotes : Denotes (.object others) otherPolicy) : ToldApart members others := by
  have hiff := congruent_iff hraw hother h hdenotes
  have hshape := denotes_object_iff.mp h
  have hotherShape := denotes_object_iff.mp hdenotes
  constructor
  · intro mode otherMode items otherItems hmode hotherMode hrules hotherRules
    obtain ⟨given, children, hgiven, rfl, hchildren⟩ := hshape.eq_combined hmode
    obtain ⟨otherGiven, otherChildren, hotherGiven, rfl, hotherChildren⟩ :=
      hotherShape.eq_combined hotherMode
    obtain rfl := Json.array.inj (Option.some.inj (hrules.symm.trans hgiven))
    obtain rfl := Json.array.inj (Option.some.inj (hotherRules.symm.trans hotherGiven))
    rw [hiff, Policy.combined.injEq, forall₂_congruent_iff (hraw.items hrules)
      (hother.items hotherRules) hchildren hotherChildren]
  · intro text otherText hage hotherAge
    obtain ⟨seconds, htext, rfl⟩ := hshape.eq_maxAge hage
    obtain ⟨otherSeconds, hotherText, rfl⟩ := hotherShape.eq_maxAge hotherAge
    rw [hiff, Policy.maxAge.injEq, Number.int.injEq, Int.natCast_inj]
    constructor
    · rintro rfl
      exact ⟨seconds, htext, hotherText⟩
    · rintro ⟨common, hfirst, hsecond⟩
      exact (htext.unique hfirst).trans (hsecond.unique hotherText)
  · intro count otherCount hcount hotherCount
    rw [hiff, hshape.eq_maxVersions hcount, hotherShape.eq_maxVersions hotherCount,
      Policy.maxVersions.injEq]
  · intro mode text hmode hage
    obtain ⟨_, _, -, rfl, -⟩ := hshape.eq_combined hmode
    obtain ⟨_, -, rfl⟩ := hotherShape.eq_maxAge hage
    exact hiff.not.mpr nofun
  · intro mode count hmode hcount
    obtain ⟨_, _, -, rfl, -⟩ := hshape.eq_combined hmode
    rw [hiff, hotherShape.eq_maxVersions hcount]
    nofun
  · intro text count hage hcount
    obtain ⟨_, -, rfl⟩ := hshape.eq_maxAge hage
    rw [hiff, hotherShape.eq_maxVersions hcount]
    nofun

end Rule

end Retention
