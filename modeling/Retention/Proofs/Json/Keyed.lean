import Mathlib.Data.List.Perm.Basic
import Retention.Json.Reader

/-!
# One value for each key

An object that is read from text has one value for each of its keys: a key that comes again takes
its last value. So looking a key up is the same as finding its member, and the order of the members
does not matter.

## Main definitions

* `Json.Keyed`: the objects in a value have one value for each key.

## Main results

* `lookup_eq_some_iff_mem`: with one value for each key, looking up is finding a member.
* `lookup_eq_of_perm`: the order of members does not matter.
* `Json.keyed_of_read?`: values that are read from text have one value for each key.
-/

namespace Retention

/-! ### Looking up -/

section Lookup

variable {κ α : Type} [DecidableEq κ] {entries others : List (κ × α)}

/-- With one value for each key, a value is found under its key. -/
theorem lookup_eq_some_iff_mem (hkeys : (entries.map Prod.fst).Nodup) {key : κ} {value : α} :
    entries.lookup key = some value ↔ (key, value) ∈ entries := by
  induction entries with
  | nil => simp
  | cons entry rest ih =>
    obtain ⟨first, held⟩ := entry
    rw [List.map_cons, List.nodup_cons] at hkeys
    obtain ⟨hfirst, hrest⟩ := hkeys
    rw [List.lookup_cons, List.mem_cons, Prod.mk.injEq]
    by_cases hkey : key = first
    · subst hkey
      have hnot : (key, value) ∉ rest := fun hmem => hfirst (List.mem_map.mpr ⟨_, hmem, rfl⟩)
      simp [hnot, eq_comm]
    · have hbeq : (key == first) = false := by simpa using hkey
      simp [hbeq, hkey, ih hrest]

/-- With one value for each key, the order of the entries does not matter. -/
theorem lookup_eq_of_perm (hperm : entries.Perm others) (hkeys : (entries.map Prod.fst).Nodup)
    (key : κ) : entries.lookup key = others.lookup key := by
  have hothers : (others.map Prod.fst).Nodup := (hperm.map Prod.fst).nodup_iff.mp hkeys
  ext value
  rw [lookup_eq_some_iff_mem hkeys, lookup_eq_some_iff_mem hothers, hperm.mem_iff]

/-- The entries after a value was put in are that value and entries that were there. -/
theorem Entries.mem_of_mem_put {key : κ} {value : α} {entry : κ × α}
    (h : entry ∈ put key value entries) : entry = (key, value) ∨ entry ∈ entries := by
  induction entries with
  | nil => exact Or.inl (List.mem_singleton.mp h)
  | cons first rest ih =>
    obtain ⟨other, held⟩ := first
    rw [put] at h
    split at h
    · exact (List.mem_cons.mp h).imp_right (List.mem_cons_of_mem _)
    · obtain rfl | hrest := List.mem_cons.mp h
      · exact Or.inr List.mem_cons_self
      · exact (ih hrest).imp_right (List.mem_cons_of_mem _)

/-- Putting a value in keeps one value for each key. -/
theorem Entries.nodup_put (hkeys : (entries.map Prod.fst).Nodup) (key : κ) (value : α) :
    ((put key value entries).map Prod.fst).Nodup := by
  induction entries with
  | nil => simp [put]
  | cons entry rest ih =>
    obtain ⟨first, held⟩ := entry
    have hcons : first ∉ rest.map Prod.fst ∧ (rest.map Prod.fst).Nodup :=
      List.nodup_cons.mp hkeys
    by_cases hkey : first = key
    · subst hkey
      rw [put, if_pos rfl]
      exact List.nodup_cons.mpr hcons
    · rw [put, if_neg hkey, List.map_cons, List.nodup_cons]
      refine ⟨fun hmem => ?_, ih hcons.2⟩
      obtain ⟨entry, hentry, hfirst⟩ := List.mem_map.mp hmem
      obtain rfl | hrest := mem_of_mem_put hentry
      · exact hkey hfirst.symm
      · exact hcons.1 (List.mem_map.mpr ⟨entry, hrest, hfirst⟩)

end Lookup

namespace Json

/-! ### Values that are read -/

/-- The objects in a value have one value for each key. -/
inductive Keyed : Json → Prop
  | null : Keyed .null
  | bool {value : Bool} : Keyed (.bool value)
  | number {value : Number} : Keyed (.number value)
  | string {text : Text} : Keyed (.string text)
  | array {items : List Json} (hitems : ∀ item ∈ items, Keyed item) : Keyed (.array items)
  | object {members : List (Text × Json)} (hkeys : (members.map Prod.fst).Nodup)
      (hvalues : ∀ member ∈ members, Keyed member.2) : Keyed (.object members)

attribute [simp] Keyed.number Keyed.string

/-- An object is keyed when its keys are distinct and their values are keyed. -/
@[simp]
theorem keyed_object_iff {members : List (Text × Json)} : Keyed (.object members) ↔
    (members.map Prod.fst).Nodup ∧ ∀ member ∈ members, Keyed member.2 :=
  ⟨fun | .object hkeys hvalues => ⟨hkeys, hvalues⟩, fun h => .object h.1 h.2⟩

/-- An array is keyed when its items are. -/
@[simp]
theorem keyed_array_iff {items : List Json} : Keyed (.array items) ↔ ∀ item ∈ items, Keyed item :=
  ⟨fun | .array hitems => hitems, .array⟩

/-- The items of an array in an object that is keyed are keyed. -/
theorem Keyed.items {members : List (Text × Json)} {key : Text} {items : List Json}
    (h : Keyed (.object members)) (hitems : members.lookup key = some (.array items)) :
    ∀ item ∈ items, item.Keyed := by
  obtain ⟨hkeys, hvalues⟩ := keyed_object_iff.mp h
  exact keyed_array_iff.mp (hvalues _ ((lookup_eq_some_iff_mem hkeys).mp hitems))

/-- The members of an object, arranged, are its members in some order. -/
theorem arrange_perm (members : List (Text × Json)) : (arrange members).Perm members :=
  ((List.mergeSort_perm _ _).append_right _).trans (List.filter_append_perm _ members)

/-- An object that is read member by member has one value for each key. -/
theorem keyed_ofMembers {members : List (Text × Json)}
    (hvalues : ∀ member ∈ members, Keyed member.2) : Keyed (ofMembers members) := by
  -- Both hold of the members that were put in so far.
  suffices hput : ∀ read : List (Text × Json), (read.map Prod.fst).Nodup →
      (∀ member ∈ read, Keyed member.2) →
      Keyed (object (arrange (members.foldl (fun read member => Entries.put member.1 member.2 read)
        read))) from hput [] List.nodup_nil nofun
  induction members with
  | nil =>
    intro read hkeys hread
    have hperm := arrange_perm read
    exact .object ((hperm.map Prod.fst).nodup_iff.mpr hkeys) fun member hmember =>
      hread member (hperm.mem_iff.mp hmember)
  | cons first rest ih =>
    intro read hkeys hread
    rw [List.forall_mem_cons] at hvalues
    refine ih hvalues.2 _ (Entries.nodup_put hkeys _ _) fun member hmember => ?_
    obtain rfl | hmember := Entries.mem_of_mem_put hmember
    · exact hvalues.1
    · exact hread member hmember

/-- A token that is a value has one value for each key. -/
def Token.Keyed : Token → Prop
  | .value held => held.Keyed
  | _ => True

/-- What a container holds so far has one value for each key. -/
def Frame.Keyed : Frame → Prop
  | .array items => ∀ item ∈ items, item.Keyed
  | .object members | .entry members _ => ∀ member ∈ members, Json.Keyed member.2

/-- The containers that are open and the result have one value for each key. -/
structure Build.Keyed (build : Build) : Prop where
  frames : ∀ frame ∈ build.frames, frame.Keyed
  result : ∀ value, build.result = some value → value.Keyed

theorem keyed_of_word? {text : List Char} {value : Json} (h : word? text = some value) :
    value.Keyed := by
  unfold word? at h
  split_ifs at h
  · obtain rfl := Option.some.inj h
    exact .null
  · obtain rfl := Option.some.inj h
    exact .bool
  · obtain rfl := Option.some.inj h
    exact .bool
  · obtain ⟨_, -, rfl⟩ := Option.map_eq_some_iff.mp h
    exact .number

theorem keyed_of_mark? {c : Char} {token : Token} (h : mark? c = some token) : token.Keyed := by
  unfold mark? at h
  split_ifs at h <;> obtain rfl := Option.some.inj h <;> trivial

theorem keyed_of_scanBetween {c : Char} {scan : Scan} {tokens : List Token}
    (h : scanBetween c = some (scan, tokens)) : ∀ token ∈ tokens, token.Keyed := by
  unfold scanBetween at h
  split_ifs at h
  · cases h
    simp
  · cases h
    simp
  · cases h
    simp
  · obtain ⟨token, htoken, hpair⟩ := Option.map_eq_some_iff.mp h
    cases hpair
    simpa using keyed_of_mark? htoken

/-- The tokens that a code point completes are keyed. -/
theorem Scan.keyed_of_step {scan next : Scan} {point : Nat} {tokens : List Token}
    (h : scan.step point = some (next, tokens)) : ∀ token ∈ tokens, token.Keyed := by
  cases scan with
  | between => exact keyed_of_scanBetween h
  | word read =>
    rw [step] at h
    split_ifs at h
    · cases h
      simp
    · obtain ⟨value, hvalue, h⟩ := Option.bind_eq_some_iff.mp h
      obtain ⟨⟨_, others⟩, hothers, h⟩ := Option.bind_eq_some_iff.mp h
      cases h
      exact List.forall_mem_cons.mpr ⟨keyed_of_word? hvalue, keyed_of_scanBetween hothers⟩
  | string read =>
    rw [step] at h
    split_ifs at h
    · cases h
      exact List.forall_mem_singleton.mpr .string
    · cases h
      simp
    · cases h
      simp
  | escape read =>
    rw [step] at h
    split_ifs at h
    · cases h
      simp
    · obtain ⟨_, -, hpair⟩ := Option.map_eq_some_iff.mp h
      cases hpair
      simp
  | unicode read digits value =>
    obtain ⟨_, -, h⟩ := Option.bind_eq_some_iff.mp h
    cases h
    simp

/-- The tokens of a text are keyed. -/
theorem keyed_of_tokens? {scan : Scan} {done tokens : List Token} {points : List Nat}
    (hdone : ∀ token ∈ done, token.Keyed) (h : tokens? scan done points = some tokens) :
    ∀ token ∈ tokens, token.Keyed := by
  induction points generalizing scan done with
  | nil =>
    cases scan with
    | between =>
      cases h
      simpa using hdone
    | word read =>
      obtain ⟨value, hvalue, rfl⟩ := Option.map_eq_some_iff.mp h
      have hread : Token.Keyed (.value value) := keyed_of_word? hvalue
      simpa [or_imp, forall_and] using ⟨hdone, hread⟩
    | _ => cases h
  | cons point rest ih =>
    rw [tokens?] at h
    split at h
    · cases h
    · next next read hstep =>
      refine ih (fun token htoken => ?_) h
      obtain hread | hmem := List.mem_append.mp htoken
      · exact Scan.keyed_of_step hstep token (List.mem_reverse.mp hread)
      · exact hdone token hmem

/-- A complete value that is keyed keeps what is under construction keyed. -/
theorem Build.keyed_of_accept {value : Json} {frames : List Frame} {build : Build}
    (hvalue : value.Keyed) (hframes : ∀ frame ∈ frames, frame.Keyed)
    (h : accept value frames = some build) : build.Keyed := by
  cases frames with
  | nil =>
    cases h
    exact ⟨nofun, fun _ hresult => Option.some.inj hresult ▸ hvalue⟩
  | cons frame rest =>
    obtain ⟨hframe, hrest⟩ := List.forall_mem_cons.mp hframes
    cases frame with
    | array items =>
      cases h
      exact ⟨List.forall_mem_cons.mpr ⟨List.forall_mem_cons.mpr ⟨hvalue, hframe⟩, hrest⟩, nofun⟩
    | object members => cases h
    | entry members key =>
      cases h
      exact ⟨List.forall_mem_cons.mpr ⟨List.forall_mem_cons.mpr ⟨hvalue, hframe⟩, hrest⟩, nofun⟩

/-- A token that is keyed keeps what is under construction keyed. -/
theorem Build.Keyed.step {build next : Build} {token : Token} (hbuild : build.Keyed)
    (htoken : token.Keyed) (h : build.step token = some next) : next.Keyed := by
  obtain ⟨frames, expect, result⟩ := build
  have hframes : ∀ frame ∈ frames, frame.Keyed := hbuild.frames
  have hopen {frame : Frame} {expect : Expect} (hframe : frame.Keyed) :
      Build.Keyed ⟨frame :: frames, expect, none⟩ :=
    ⟨List.forall_mem_cons.mpr ⟨hframe, hframes⟩, nofun⟩
  cases token with
  | openArray | openObject =>
    cases expect with
    | value | itemOrEnd =>
      cases h
      exact hopen nofun
    | _ => cases h
  | closeArray =>
    have hclose : ∃ items rest, frames = .array items :: rest ∧
        accept (.array items.reverse) rest = some next := by
      cases expect with
      | itemOrEnd | separator =>
        cases frames with
        | nil => cases h
        | cons frame rest =>
          cases frame with
          | array items => exact ⟨items, rest, rfl, h⟩
          | _ => cases h
      | _ => cases h
    obtain ⟨items, rest, rfl, haccept⟩ := hclose
    obtain ⟨hitems, hrest⟩ := List.forall_mem_cons.mp hframes
    exact keyed_of_accept (.array fun item hitem => hitems item (List.mem_reverse.mp hitem)) hrest
      haccept
  | closeObject =>
    have hclose : ∃ members rest, frames = .object members :: rest ∧
        accept (ofMembers members.reverse) rest = some next := by
      cases expect with
      | keyOrEnd | separator =>
        cases frames with
        | nil => cases h
        | cons frame rest =>
          cases frame with
          | object members => exact ⟨members, rest, rfl, h⟩
          | _ => cases h
      | _ => cases h
    obtain ⟨members, rest, rfl, haccept⟩ := hclose
    obtain ⟨hmembers, hrest⟩ := List.forall_mem_cons.mp hframes
    exact keyed_of_accept
      (keyed_ofMembers fun member hmember => hmembers member (List.mem_reverse.mp hmember)) hrest
      haccept
  | comma =>
    cases expect with
    | separator =>
      cases frames with
      | nil => cases h
      | cons frame rest =>
        cases frame <;> cases h <;> exact ⟨hframes, nofun⟩
    | _ => cases h
  | colon =>
    cases expect with
    | colon =>
      cases h
      exact ⟨hframes, nofun⟩
    | _ => cases h
  | value held =>
    cases expect with
    | value | itemOrEnd => exact keyed_of_accept htoken hframes h
    | key | keyOrEnd =>
      cases held with
      | string key =>
        cases frames with
        | nil => cases h
        | cons frame rest =>
          obtain ⟨hframe, hrest⟩ := List.forall_mem_cons.mp hframes
          cases frame with
          | object members =>
            cases h
            exact ⟨List.forall_mem_cons.mpr ⟨hframe, hrest⟩, nofun⟩
          | _ => cases h
      | _ => cases h
    | _ => cases h

/-- Tokens that are keyed keep what is under construction keyed. -/
theorem Build.Keyed.steps {tokens : List Token} {build after : Build} (hbuild : build.Keyed)
    (htokens : ∀ token ∈ tokens, token.Keyed) (h : tokens.foldlM Build.step build = some after) :
    after.Keyed := by
  induction tokens generalizing build with
  | nil =>
    obtain rfl := Option.some.inj h
    exact hbuild
  | cons token rest ih =>
    rw [List.forall_mem_cons] at htokens
    rw [List.foldlM_cons] at h
    obtain ⟨next, hnext, h⟩ := Option.bind_eq_some_iff.mp h
    exact ih (hbuild.step htokens.1 hnext) htokens.2 h

/-- **One value for each key.** The objects in a value that is read from a text have one value for
each of their keys. -/
theorem keyed_of_read? {text : Text} {value : Json} (h : read? text = some value) :
    value.Keyed := by
  obtain ⟨tokens, htokens, h⟩ := Option.bind_eq_some_iff.mp h
  obtain ⟨build, hbuild, hresult⟩ := Option.bind_eq_some_iff.mp h
  have hkeyed : ∀ token ∈ tokens, token.Keyed :=
    keyed_of_tokens? (fun token hmem => by cases hmem) htokens
  have hstart : Build.start.Keyed := ⟨nofun, nofun⟩
  exact (hstart.steps hkeyed hbuild).result value hresult

end Json

end Retention
