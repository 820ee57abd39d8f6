import Retention.Proofs.Json.Keyed
import Retention.Proofs.Policy.Decoding
import Retention.Proofs.Store.Live
import Retention.Proofs.Table.Listing

/-!
# Listing and reading agree

A table is listed as a whole, and its families are read one by one. Where no fault waits, both ways
see the same: a listing has each family with a policy once, in the order of names, and no other; and
the policy beside it is the one that is read of the family. The same holds of rule texts, where a
listing fails if the text of one family does.

## Main definitions

* `World.Shows`: the column families of a table that the admin API shows.

## Main results

* `Store.getPolicy_eq_some_iff`, `Store.read_eq_some_iff`: what is read of a family.
* `Store.listPolicies_fst`: what a listing of a table is made from.
* `Store.pairwise_listing`: a listing is in strict order.
* `Store.listing_agrees`: listing and reading agree.
-/

namespace Retention

/-- A table of the world has some column families: under ids of families, each once, there are
objects. A table without families may show null for them. -/
structure World.Shows (world : World) (table : Text) (members : List (Text × Json)) : Prop where
  check : ∃ name, TableName.check table = .ok name
  lookup : world.tables.lookup table = some (.object members) ∨
    world.tables.lookup table = some .null ∧ members = []
  nodup : (members.map Prod.fst).Nodup
  isFamilyId : ∀ member ∈ members, isFamilyId member.1 = true
  isObject : ∀ member ∈ members, member.2.isObject = true

/-- Tables that stay the same show the same families. -/
theorem World.Shows.congr {world later : World} {table : Text} {members : List (Text × Json)}
    (h : world.Shows table members) (htables : later.tables = world.tables) :
    later.Shows table members :=
  ⟨h.check, by rw [htables]; exact h.lookup, h.nodup, h.isFamilyId, h.isObject⟩

theorem Policy.isNoGc_eq_true_iff {policy : Policy} : policy.isNoGc = true ↔ policy = .noGc := by
  cases policy <;> simp [isNoGc]

namespace Store

variable {store : Store} {table id : Text} {members : List (Text × Json)} {policy : Policy}
  {world : World} {timeout : Option Json}

/-! ### Reading one family -/

/-- A policy is found in a family exactly when the family is seen to have it and it collects
something. -/
theorem policyIn_eq_some_iff {families : Json} :
    policyIn id families = .ok (some policy) ↔
      liveOf (Families.find? id families) = .ok policy ∧ policy ≠ .noGc := by
  rw [policyIn, liveOf]
  cases (Families.find? id families).filter Json.isTruthy with
  | none =>
    constructor
    · intro hfailed
      cases hfailed
    · rintro ⟨hnone, hne⟩
      exact absurd (Except.ok.inj hnone).symm hne
  | some family =>
    change ((Policy.ofFamily family).mapError Failure.shape).map _ = _ ↔ Policy.ofFamily family = _ ∧ _
    rw [exceptMap_eq_ok_iff]
    simp only [mapError_eq_ok_iff]
    constructor
    · rintro ⟨found, hfound, hsome⟩
      split at hsome
      · cases hsome
      · next hnot =>
        obtain rfl := Option.some.inj hsome
        exact ⟨hfound, fun heq => hnot (heq ▸ rfl)⟩
    · rintro ⟨hfound, hne⟩
      refine ⟨policy, hfound, if_neg fun hnoGc => hne (Policy.isNoGc_eq_true_iff.mp hnoGc)⟩

section Reading

variable (hshows : world.Shows table members)

include hshows

/-- The names of a family in such a table follow their patterns when its id does. -/
theorem check_eq_ok_iff : FamilyRef.check ⟨table, id⟩ = .ok () ↔ isFamilyId id = true := by
  obtain ⟨name, hname⟩ := hshows.check
  have hcheck : FamilyRef.check ⟨table, id⟩ = checkFamilyId id := by
    rw [FamilyRef.check, hname]
    rfl
  rw [hcheck, checkFamilyId]
  split <;> simp [*]

/-- A family that the table shows is seen as it is, and under any other id no policy is seen. -/
theorem liveOf_eq_ok_iff :
    liveOf (world.family? ⟨table, id⟩) = .ok policy ↔
      (∃ family, (id, family) ∈ members ∧ Policy.ofFamily family = .ok policy) ∨
        (∀ family, (id, family) ∉ members) ∧ policy = .noGc := by
  have hmem {family : Json} : (id, family) ∈ members ↔ members.lookup id = some family :=
    (lookup_eq_some_iff_mem hshows.nodup).symm
  have hfind : world.family? ⟨table, id⟩ = members.lookup id ∨ members.lookup id = none ∧
      world.family? ⟨table, id⟩ = some (.object []) := by
    rw [World.family?]
    obtain hobject | ⟨hnull, rfl⟩ := hshows.lookup
    · rw [hobject]
      change (members.lookup id).or _ = _ ∨ _ ∧ (members.lookup id).or _ = _
      cases members.lookup id with
      | some family => exact Or.inl rfl
      | none => cases Families.inherited.contains id <;> simp
    · rw [hnull]
      exact Or.inl rfl
  cases hlookup : members.lookup id with
  | some family =>
    rw [hlookup] at hfind
    obtain hfamily | ⟨⟨⟩, -⟩ := hfind
    obtain ⟨content, rfl⟩ : ∃ content, family = .object content := by
      have hobject := hshows.isObject _ (hmem.mpr hlookup)
      cases family <;> first | exact ⟨_, rfl⟩ | cases hobject
    have hseen : liveOf (some (.object content)) = Policy.ofFamily (.object content) := rfl
    simp [hmem, hlookup, hfamily, hseen]
  | none =>
    have hnone : liveOf (world.family? ⟨table, id⟩) = .ok .noGc := by
      obtain hfamily | ⟨-, hfamily⟩ := hfind
      · rw [hfamily, hlookup]
        rfl
      · rw [hfamily]
        rfl
    simp [hmem, hlookup, hnone, eq_comm]

variable (hfaults : world.faults = [])

include hfaults

/-- A policy is read of an id exactly when the table shows a family with the policy under it. -/
theorem getPolicy_eq_some_iff (store : Store) (timeout : Option Json) :
    (store.getPolicy ⟨table, id⟩ ⟨none, timeout⟩ world).1 = .ok (some policy) ↔
      ∃ family, (id, family) ∈ members ∧ Policy.ofFamily family = .ok policy ∧ policy ≠ .noGc := by
  have hget : (store.getPolicy ⟨table, id⟩ ⟨none, timeout⟩ world).1 = .ok (some policy) ↔
      FamilyRef.check ⟨table, id⟩ = .ok () ∧ liveOf (world.family? ⟨table, id⟩) = .ok policy ∧
        policy ≠ .noGc := by
    rw [getPolicy_fst, families_fst, World.not_struck hfaults, bind_eq_ok_iff, World.family?]
    obtain ⟨families, hlookup⟩ : ∃ families, world.tables.lookup table = some families :=
      hshows.lookup.elim (fun h => ⟨_, h⟩) fun h => ⟨_, h.1⟩
    rw [hlookup]
    change (∃ _, _ ∧ policyIn id families = .ok (some policy)) ↔
      _ ∧ liveOf (Families.find? id families) = .ok policy ∧ _
    rw [policyIn_eq_some_iff]
    constructor
    · rintro ⟨_, h⟩
      exact h
    · exact fun h => ⟨(), h⟩
  rw [hget, check_eq_ok_iff hshows, liveOf_eq_ok_iff hshows]
  constructor
  · rintro ⟨-, ⟨family, hmem, hpolicy⟩ | ⟨-, rfl⟩, hne⟩
    · exact ⟨family, hmem, hpolicy, hne⟩
    · exact absurd rfl hne
  · rintro ⟨family, hmem, hpolicy, hne⟩
    exact ⟨hshows.isFamilyId _ hmem, Or.inl ⟨family, hmem, hpolicy⟩, hne⟩

/-- The rule text that is read of an id is that of the policy it is seen to have. -/
theorem read_eq_ok_iff (store : Store) (timeout : Option Json) {text : Option Json} :
    (store.read ⟨table, id⟩ ⟨none, timeout⟩ world).1 = .ok text ↔
      isFamilyId id = true ∧ ∃ policy, ((∃ family, (id, family) ∈ members ∧
        Policy.ofFamily family = .ok policy) ∨ (∀ family, (id, family) ∉ members) ∧
          policy = .noGc) ∧ policy.text = .ok text := by
  rw [read_fst, live_fst_of_quiet store _ timeout (World.not_struck hfaults _), bind_eq_ok_iff]
  simp only [bind_eq_ok_iff, mapError_eq_ok_iff, liveOf_eq_ok_iff hshows]
  constructor
  · rintro ⟨policy, ⟨_, hcheck, hpolicy⟩, htext⟩
    exact ⟨(check_eq_ok_iff hshows).mp hcheck, policy, hpolicy, htext⟩
  · rintro ⟨hid, policy, hpolicy, htext⟩
    exact ⟨policy, ⟨(), (check_eq_ok_iff hshows).mpr hid, hpolicy⟩, htext⟩

end Reading

/-! ### Listing a table -/

/-- The policies of some families are read when each of them is. -/
theorem policies_eq_ok_iff {entries : List (Text × Policy)} :
    policies members = .ok entries ↔
      List.Forall₂ (fun member entry => member.1 = entry.1 ∧
        Policy.ofFamily member.2 = .ok entry.2) members entries := by
  induction members generalizing entries with
  | nil =>
    rw [List.forall₂_nil_left_iff, eq_comm]
    exact ⟨fun h => (Except.ok.inj h), congrArg _⟩
  | cons member rest ih =>
    obtain ⟨id, family⟩ := member
    rw [policies, bind_eq_ok_iff, List.forall₂_cons_left_iff]
    constructor
    · rintro ⟨policy, hpolicy, hrest⟩
      obtain ⟨others, hothers, ⟨⟩⟩ := bind_eq_ok_iff.mp hrest
      exact ⟨(id, policy), others, ⟨rfl, hpolicy⟩, ih.mp hothers, rfl⟩
    · rintro ⟨⟨other, policy⟩, others, ⟨hid, hpolicy⟩, hothers, rfl⟩
      obtain rfl : id = other := hid
      exact ⟨policy, hpolicy, bind_eq_ok_iff.mpr ⟨others, ih.mpr hothers, rfl⟩⟩

/-- The families that were read are those with a policy. -/
theorem mem_policies_iff {entries : List (Text × Policy)} (h : policies members = .ok entries) :
    (id, policy) ∈ entries ↔
      ∃ family, (id, family) ∈ members ∧ Policy.ofFamily family = .ok policy := by
  have hall := policies_eq_ok_iff.mp h
  constructor
  · intro hmem
    obtain ⟨⟨_, family⟩, hfamily, rfl, hpolicy⟩ := exists_of_mem_right hall hmem
    exact ⟨family, hfamily, hpolicy⟩
  · rintro ⟨family, hfamily, hpolicy⟩
    obtain ⟨⟨_, found⟩, hmem, rfl, hfound⟩ := exists_of_mem_right hall.flip hfamily
    obtain rfl := Except.ok.inj (hfound.symm.trans hpolicy)
    exact hmem

theorem map_fst_policies {entries : List (Text × Policy)} (h : policies members = .ok entries) :
    entries.map Prod.fst = members.map Prod.fst := by
  have hall := policies_eq_ok_iff.mp h
  clear h
  induction hall with
  | nil => rfl
  | cons hfirst _ ih => rw [List.map_cons, List.map_cons, ih, hfirst.1]

theorem mem_listing_iff {entries : List (Text × Policy)} :
    (id, policy) ∈ listing entries ↔ (id, policy) ∈ entries ∧ policy ≠ .noGc := by
  rw [listing, List.mem_mergeSort, List.mem_filter, Bool.not_eq_true', ← Bool.not_eq_true,
    Policy.isNoGc_eq_true_iff]

/-- A listing of families with ids that differ is in strict order. -/
theorem pairwise_listing {entries : List (Text × Policy)}
    (hnodup : (entries.map Prod.fst).Nodup)
    (hids : ∀ entry ∈ entries, isFamilyId entry.1 = true) :
    (listing entries).Pairwise fun a b => Listing.key a.1.shown < Listing.key b.1.shown := by
  have hsorted : (listing entries).Pairwise fun a b =>
      Listing.nameLe a.1.shown b.1.shown = true := by
    refine List.pairwise_mergeSort (fun a b c hab hbc => ?_) (fun a b => ?_) _
    · exact Listing.nameLe_iff.mpr
        ((Listing.nameLe_iff.mp hab).trans (Listing.nameLe_iff.mp hbc))
    · rw [Bool.or_eq_true, Listing.nameLe_iff, Listing.nameLe_iff]
      exact le_total _ _
  have hdistinct : ((listing entries).map Prod.fst).Nodup := by
    refine ((List.mergeSort_perm _ _).map Prod.fst).nodup_iff.mpr ?_
    exact hnodup.sublist (List.filter_sublist.map Prod.fst)
  have hlisted {entry : Text × Policy} (hmem : entry ∈ listing entries) :
      isFamilyId entry.1 = true := hids _ (mem_listing_iff.mp hmem).1
  refine (hsorted.and (List.pairwise_map.mp hdistinct)).imp_of_mem ?_
  rintro a b ha hb ⟨hle, hne⟩
  exact lt_of_le_of_ne (Listing.nameLe_iff.mp hle) fun hkey =>
    hne (Listing.key_injective (hlisted ha) (hlisted hb) hkey)

section Listing

variable (hfaults : world.faults = []) (hshows : world.Shows table members)

include hfaults hshows

/-- A listing is made from the policies of the families that the table shows. -/
theorem listPolicies_fst (store : Store) (timeout : Option Json) :
    (store.listPolicies table ⟨none, timeout⟩ world).1 =
      ((policies members).mapError Failure.shape).map listing := by
  obtain ⟨name, hname⟩ := hshows.check
  have hlist : (store.listPolicies table ⟨none, timeout⟩ world).1 =
      (store.families table ⟨none, timeout⟩ world).1 >>= fun families =>
        ((policies (Families.entries families)).mapError Failure.shape).map listing := by
    have hmap (families : Json) :
        listing <$> Step.ofExcept ((policies (Families.entries families)).mapError Failure.shape) =
          (Step.ofExcept (((policies (Families.entries families)).mapError Failure.shape).map
            listing) : Step World _) :=
      funext fun _ => Step.map_apply _ _ _
    rw [listPolicies, hname]
    simp only [hmap]
    exact congrArg Prod.fst (Step.bind_ofExcept_apply _ _ _)
  rw [hlist, families_fst, World.not_struck hfaults]
  obtain hobject | ⟨hnull, rfl⟩ := hshows.lookup
  · rw [hobject]
    rfl
  · rw [hnull]
    rfl

end Listing

/-! ### Rule texts -/

theorem texts_cons_eq_ok_iff {rest : List (Text × Policy)} {rules : List (Text × Json)} :
    texts ((id, policy) :: rest) = .ok rules ↔ ∃ text others, policy.text = .ok text ∧
      texts rest = .ok others ∧ rules = text.toList.map (fun rules => (id, rules)) ++ others := by
  rw [texts, bind_eq_ok_iff]
  constructor
  · rintro ⟨text, htext, hrest⟩
    obtain ⟨others, hothers, ⟨⟩⟩ := bind_eq_ok_iff.mp hrest
    exact ⟨text, others, htext, hothers, rfl⟩
  · rintro ⟨text, others, htext, hothers, rfl⟩
    exact ⟨text, htext, bind_eq_ok_iff.mpr ⟨others, hothers, rfl⟩⟩

/-- The rule texts of some policies are there when each policy can be written. -/
theorem exists_texts_iff {entries : List (Text × Policy)} :
    (∃ rules, texts entries = .ok rules) ↔ ∀ entry ∈ entries, ∃ text, entry.2.text = .ok text := by
  induction entries with
  | nil => exact ⟨fun _ => nofun, fun _ => ⟨[], rfl⟩⟩
  | cons entry rest ih =>
    obtain ⟨id, policy⟩ := entry
    rw [List.forall_mem_cons, ← ih]
    simp only [texts_cons_eq_ok_iff]
    constructor
    · rintro ⟨rules, text, others, htext, hothers, -⟩
      exact ⟨⟨text, htext⟩, others, hothers⟩
    · rintro ⟨⟨text, htext⟩, others, hothers⟩
      exact ⟨_, text, others, htext, hothers, rfl⟩

/-- Beside an id stands the text of the policy there, if it has one. -/
theorem mem_texts_iff {entries : List (Text × Policy)} {rules : List (Text × Json)} {text : Json}
    (h : texts entries = .ok rules) :
    (id, text) ∈ rules ↔ ∃ policy, (id, policy) ∈ entries ∧ policy.text = .ok (some text) := by
  induction entries generalizing rules with
  | nil =>
    obtain rfl := Except.ok.inj h
    simp
  | cons entry rest ih =>
    obtain ⟨first, policy⟩ := entry
    obtain ⟨written, others, hwritten, hothers, rfl⟩ := texts_cons_eq_ok_iff.mp h
    have hfirst : (id, text) ∈ written.toList.map (fun rules => (first, rules)) ↔
        id = first ∧ policy.text = .ok (some text) := by
      rw [hwritten]
      simp [eq_comm, and_comm]
    rw [List.mem_append, hfirst, ih hothers]
    simp only [List.mem_cons, Prod.mk.injEq, or_and_right, exists_or, and_assoc]
    simp

/-! ### The two ways agree -/

/-- The policies of some families are read when each family has one. -/
theorem exists_policies_iff :
    (∃ entries, policies members = .ok entries) ↔
      ∀ member ∈ members, ∃ policy, Policy.ofFamily member.2 = .ok policy := by
  simp only [policies_eq_ok_iff]
  constructor
  · rintro ⟨entries, hall⟩ member hmem
    obtain ⟨entry, -, -, hpolicy⟩ := exists_of_mem_right hall.flip hmem
    exact ⟨entry.2, hpolicy⟩
  · intro h
    refine exists_forall₂ fun member hmem => ?_
    obtain ⟨policy, hpolicy⟩ := h member hmem
    exact ⟨(member.1, policy), rfl, hpolicy⟩

/-- A family whose rule is a message of the admin API has a policy. -/
theorem exists_ofFamily {content : List (Text × Json)}
    (h : Optionally Policy.IsMessage content "gcRule") :
    ∃ policy, Policy.ofFamily (.object content) = .ok policy := by
  change ∃ policy, Policy.ofMessageOr .noGc (content.lookup (.whole "gcRule")) = .ok policy
  obtain hnone | hnull | ⟨message, hmessage, hform⟩ := h.cases
  · exact ⟨.noGc, by rw [hnone]; rfl⟩
  · exact ⟨.noGc, by rw [hnull]; rfl⟩
  · obtain ⟨policy, hpolicy⟩ := hform.exists_ofMessage
    cases hform
    rw [hmessage]
    exact ⟨policy, hpolicy⟩

/-- The rule texts of a table are those of its listing. -/
theorem listRules_eq_ok_iff (hfaults : world.faults = []) (hshows : world.Shows table members)
    (store : Store) (timeout : Option Json) {rules : List (Text × Json)} :
    (store.listRules table ⟨none, timeout⟩ world).1 = .ok rules ↔
      ∃ entries, policies members = .ok entries ∧ texts (listing entries) = .ok rules := by
  have hlist : (store.listRules table ⟨none, timeout⟩ world).1 =
      (store.listPolicies table ⟨none, timeout⟩ world).1 >>= texts :=
    congrArg Prod.fst (Step.bind_ofExcept_apply _ _ _)
  rw [hlist, listPolicies_fst hfaults hshows, bind_eq_ok_iff]
  simp only [exceptMap_eq_ok_iff, mapError_eq_ok_iff]
  constructor
  · rintro ⟨_, ⟨entries, hentries, rfl⟩, htexts⟩
    exact ⟨entries, hentries, htexts⟩
  · rintro ⟨entries, hentries, htexts⟩
    exact ⟨_, ⟨entries, hentries, rfl⟩, htexts⟩

/-- The rule texts of a table can be listed exactly when that of each family can be read. -/
theorem exists_listRules_iff {later : World} (store : Store) (timeout limit : Option Json)
    (hfaults : world.faults = []) (hshows : world.Shows table members)
    (hlater : later.faults = []) (hshown : later.Shows table members) :
    (∃ rules, (store.listRules table ⟨none, timeout⟩ world).1 = .ok rules) ↔
      ∀ member ∈ members, ∃ text,
        (store.read ⟨table, member.1⟩ ⟨none, limit⟩ later).1 = .ok text := by
  simp only [listRules_eq_ok_iff hfaults hshows, read_eq_ok_iff hshown hlater]
  constructor
  · rintro ⟨rules, entries, hentries, htexts⟩ ⟨id, family⟩ hmem
    obtain ⟨policy, hpolicy⟩ := exists_policies_iff.mp ⟨entries, hentries⟩ _ hmem
    have hheld : (id, policy) ∈ entries := (mem_policies_iff hentries).mpr ⟨family, hmem, hpolicy⟩
    obtain ⟨text, htext⟩ : ∃ text, policy.text = .ok text := by
      by_cases hnoGc : policy = .noGc
      · exact ⟨none, by rw [hnoGc]; rfl⟩
      · exact exists_texts_iff.mp ⟨rules, htexts⟩ _ (mem_listing_iff.mpr ⟨hheld, hnoGc⟩)
    exact ⟨text, hshows.isFamilyId _ hmem, policy, Or.inl ⟨family, hmem, hpolicy⟩, htext⟩
  · intro h
    have hpolicy {id : Text} {family : Json} (hmem : (id, family) ∈ members) :
        ∃ policy, Policy.ofFamily family = .ok policy ∧ ∃ text, policy.text = .ok text := by
      obtain ⟨text, -, policy, ⟨other, hother, hpolicy⟩ | ⟨hnone, -⟩, htext⟩ := h _ hmem
      · obtain rfl : other = family := Option.some.inj
          (((lookup_eq_some_iff_mem hshows.nodup).mpr hother).symm.trans
            ((lookup_eq_some_iff_mem hshows.nodup).mpr hmem))
        exact ⟨policy, hpolicy, text, htext⟩
      · exact absurd hmem (hnone family)
    obtain ⟨entries, hentries⟩ := exists_policies_iff.mpr fun member hmem =>
      (hpolicy hmem).imp fun _ h => h.1
    obtain ⟨rules, hrules⟩ := exists_texts_iff.mpr fun (entry : Text × Policy)
        (hentry : entry ∈ listing entries) => by
      obtain ⟨family, hmem, hheld⟩ :=
        (mem_policies_iff hentries).mp (mem_listing_iff.mp hentry).1
      obtain ⟨policy, hother, htext⟩ := hpolicy hmem
      rwa [← Except.ok.inj (hother.symm.trans hheld)]
    exact ⟨rules, entries, hentries, hrules⟩

/-- The rule texts of a table are those that are read of its families. -/
theorem mem_listRules_iff {later : World} (store : Store) (timeout limit : Option Json)
    (hfaults : world.faults = []) (hshows : world.Shows table members)
    (hlater : later.faults = []) (hshown : later.Shows table members)
    {rules : List (Text × Json)} {text : Json}
    (hrules : (store.listRules table ⟨none, timeout⟩ world).1 = .ok rules) :
    (id, text) ∈ rules ↔
      (store.read ⟨table, id⟩ ⟨none, limit⟩ later).1 = .ok (some text) := by
  obtain ⟨entries, hentries, htexts⟩ := (listRules_eq_ok_iff hfaults hshows store timeout).mp hrules
  have hnoGc : Policy.text .noGc ≠ .ok (some text) := nofun
  rw [mem_texts_iff htexts, read_eq_ok_iff hshown hlater]
  simp only [mem_listing_iff, mem_policies_iff hentries]
  constructor
  · rintro ⟨policy, ⟨⟨family, hmem, hpolicy⟩, -⟩, htext⟩
    exact ⟨hshows.isFamilyId _ hmem, policy, Or.inl ⟨family, hmem, hpolicy⟩, htext⟩
  · rintro ⟨-, policy, ⟨family, hmem, hpolicy⟩ | ⟨-, rfl⟩, htext⟩
    · exact ⟨policy, ⟨⟨family, hmem, hpolicy⟩, fun heq => hnoGc (heq ▸ htext)⟩, htext⟩
    · exact absurd htext hnoGc

/-- **Listing and reading agree.** Where no fault waits, take a table whose families have ids that
follow their pattern. It can be listed when their rules are messages of the admin API. A listing is
in strict order, so it has no id twice; it has the families whose rules mean that something is
collected, each with its policy, and these are the ids and policies that are read one by one. The
rule texts of the table can be listed exactly when that of each family can be read, and then they
are those that are read. Reading may come later, as long as the tables stay the same. -/
theorem listing_agrees {later : World} (store : Store) (timeout limit : Option Json)
    (hfaults : world.faults = []) (hshows : world.Shows table members)
    (hlater : later.faults = []) (htables : later.tables = world.tables) :
    ((∀ member ∈ members, Optionally Policy.IsMessage member.2.members "gcRule") →
      ∃ listed, (store.listPolicies table ⟨none, timeout⟩ world).1 = .ok listed) ∧
    (∀ listed, (store.listPolicies table ⟨none, timeout⟩ world).1 = .ok listed →
      (listed.Pairwise fun a b => Listing.key a.1.shown < Listing.key b.1.shown) ∧
      ∀ id policy,
        ((id, policy) ∈ listed ↔ ∃ family, (id, family) ∈ members ∧
          Policy.ofFamily family = .ok policy ∧ policy ≠ .noGc) ∧
        ((id, policy) ∈ listed ↔
          (store.getPolicy ⟨table, id⟩ ⟨none, limit⟩ later).1 = .ok (some policy))) ∧
    ((∃ rules, (store.listRules table ⟨none, timeout⟩ world).1 = .ok rules) ↔
      ∀ member ∈ members, ∃ text,
        (store.read ⟨table, member.1⟩ ⟨none, limit⟩ later).1 = .ok text) ∧
    ∀ rules, (store.listRules table ⟨none, timeout⟩ world).1 = .ok rules → ∀ id text,
      (id, text) ∈ rules ↔ (store.read ⟨table, id⟩ ⟨none, limit⟩ later).1 = .ok (some text) := by
  have hshown := hshows.congr htables
  refine ⟨fun hmessages => ?_, fun listed hlisted => ?_,
    exists_listRules_iff store timeout limit hfaults hshows hlater hshown, fun rules hrules id text =>
      mem_listRules_iff store timeout limit hfaults hshows hlater hshown hrules⟩
  · obtain ⟨entries, hentries⟩ := exists_policies_iff.mpr fun member hmem => by
      have hmessage := hmessages member hmem
      have hobject := hshows.isObject member hmem
      cases hfamily : member.2 with
      | object content =>
        rw [hfamily] at hmessage
        exact exists_ofFamily hmessage
      | _ =>
        rw [hfamily] at hobject
        cases hobject
    exact ⟨listing entries, by rw [listPolicies_fst hfaults hshows, hentries]; rfl⟩
  · rw [listPolicies_fst hfaults hshows] at hlisted
    obtain ⟨entries, hread, rfl⟩ := exceptMap_eq_ok_iff.mp hlisted
    have hentries := mapError_eq_ok_iff.mp hread
    have hmem {id : Text} {policy : Policy} : (id, policy) ∈ listing entries ↔
        ∃ family, (id, family) ∈ members ∧ Policy.ofFamily family = .ok policy ∧
          policy ≠ .noGc := by
      rw [mem_listing_iff, mem_policies_iff hentries]
      simp only [← and_assoc, exists_and_right]
    refine ⟨pairwise_listing (map_fst_policies hentries ▸ hshows.nodup) ?_, fun id policy =>
      ⟨hmem, hmem.trans (getPolicy_eq_some_iff hshown hlater store limit).symm⟩⟩
    rintro ⟨id, policy⟩ hentry
    obtain ⟨family, hfamily, -⟩ := (mem_policies_iff hentries).mp hentry
    exact hshows.isFamilyId _ hfamily

/-- Of two families whose ids differ in case alone, the one with a rule is listed. -/
theorem listing_agrees_cases :
    let table : Text := "projects/pp/instances/ii/tables/t"
    let members : List (Text × Json) := [("b", .object []),
      ("B", .object [("gcRule", .object [("maxNumVersions", .number 2)])])]
    let world : World :=
      { World.empty false "now" "correlation" with tables := [(table, .object members)] }
    ∃ listed, (Store.listPolicies ⟨none⟩ table ⟨none, none⟩ world).1 = .ok listed ∧
      (.whole "B", .maxVersions 2) ∈ listed ∧ (∀ policy, (.whole "b", policy) ∉ listed) ∧
      (Store.getPolicy ⟨none⟩ ⟨table, "B"⟩ ⟨none, none⟩ world).1 = .ok (some (.maxVersions 2)) := by
  intro table members world
  have hshows : world.Shows table members :=
    ⟨⟨_, rfl⟩, Or.inl rfl, by decide, by decide, by decide⟩
  obtain ⟨hlist, hread, -, -⟩ :=
    listing_agrees ⟨none⟩ none none rfl hshows (show world.faults = [] from rfl) rfl
  have hmessage : Policy.IsMessage (.object [("maxNumVersions", .number 2)]) :=
    .leaf (fun mode => by cases mode <;> rfl) (.of_none rfl) (.of_lookup rfl (Or.inr ⟨2, rfl⟩))
  obtain ⟨listed, hlisted⟩ := hlist <| List.forall_mem_cons.mpr
    ⟨.of_none rfl, List.forall_mem_singleton.mpr (.of_lookup rfl (Or.inr hmessage))⟩
  obtain ⟨-, hmem⟩ := hread listed hlisted
  have hget : (Store.getPolicy ⟨none⟩ ⟨table, "B"⟩ ⟨none, none⟩ world).1 =
      .ok (some (.maxVersions 2)) := rfl
  refine ⟨listed, hlisted, (hmem "B" (.maxVersions 2)).2.mpr hget, fun policy hb => ?_, hget⟩
  have hnone : (Store.getPolicy ⟨none⟩ ⟨table, "b"⟩ ⟨none, none⟩ world).1 = .ok none := rfl
  cases hnone.symm.trans ((hmem "b" policy).2.mp hb)

end Store

end Retention
