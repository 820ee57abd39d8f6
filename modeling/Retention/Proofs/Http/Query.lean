import Mathlib
import Retention.Http.Query

/-!
# What a query gives to a name

A name has a plain value when the parameters for it are told apart by their keys, none of which goes
on to a place inside the name, and all but the first have the empty value. A name that no parameter
is for has none, and a name that one parameter alone is for has the value of that parameter, wherever
it stands among the others.

## Main definitions

* `Http.named`: the parameters of a query that are for a name.
* `Http.GivesPlainly`: a query in which a name is given a plain value.

## Main results

* `Http.plainValue?_eq_some_iff`: which names have plain values.
* `Http.plainValue?_of_absent`, `Http.plainValue?_of_once`: no parameter for a name, and just one.
-/

namespace Retention.Http

variable {name : List Char} {query : List Char}

/-- The parameters of a query that are for a name. -/
def named (name : List Char) (query : List Char) : List Parameter :=
  (parameters query).filter fun parameter => (nameOfKey parameter.key).1 = name

/-- A name is given a value plainly: the parameters for it have different keys, which are for the name
itself, and all but the first have the empty value. -/
def GivesPlainly (name query value : List Char) : Prop :=
  ∃ first others, named name query = first :: others ∧ first.value = value ∧
    (∀ other ∈ others, other.value = []) ∧
    (∀ parameter ∈ named name query, nameOfKey parameter.key = (name, false)) ∧
    ((named name query).map Parameter.key).Nodup

/-! ### Merging -/

namespace Given

variable {given next : Given} {value : List Char}

theorem nothing_merge (next : Given) : Given.nothing.merge next = next := rfl

theorem merge_nothing (given : Given) : given.merge .nothing = given := by
  cases given <;> rfl

theorem merge_ne_nothing (h : given ≠ .nothing) (next : Given) : given.merge next ≠ .nothing := by
  cases given with
  | nothing => exact absurd rfl h
  | plain own =>
    cases next with
    | plain added => cases added <;> exact nofun
    | nothing | other => exact nofun
  | other =>
    cases next with
    | plain added => cases added <;> exact nofun
    | nothing | other => exact nofun

/-- What is given stays a plain value when nothing but the empty value is added. -/
theorem merge_eq_plain_iff (h : given ≠ .nothing) : given.merge next = .plain value ↔
    given = .plain value ∧ (next = .nothing ∨ next = .plain []) := by
  cases given with
  | nothing => exact absurd rfl h
  | plain own =>
    cases next with
    | plain added => cases added <;> simp [merge]
    | nothing | other => simp [merge]
  | other =>
    cases next with
    | plain added => cases added <;> simp [merge]
    | nothing | other => simp [merge]

/-- What is given stays a plain value when no key adds more than the empty value. -/
theorem foldl_merge_eq_plain_iff (h : given ≠ .nothing) {keys : List (List Char)}
    {gives : List Char → Given} :
    keys.foldl (fun given key => given.merge (gives key)) given = .plain value ↔
      given = .plain value ∧ ∀ key ∈ keys, gives key = .nothing ∨ gives key = .plain [] := by
  induction keys generalizing given with
  | nil => simp
  | cons key rest ih =>
    rw [List.foldl_cons, ih (merge_ne_nothing h _), merge_eq_plain_iff h, List.forall_mem_cons,
      and_assoc]

end Given

/-! ### Keys -/

/-- A key for another name gives nothing. -/
theorem givenByKey_of_ne {key : List Char} (h : (nameOfKey key).1 ≠ name)
    (values : List (List Char)) : givenByKey name key values = .nothing :=
  if_pos h

section Own

variable {key : List Char} {values : List (List Char)} (h : (nameOfKey key).1 = name)

include h

/-- A key for a name gives its value when it comes once, unless it goes on to a place inside the
name. -/
theorem givenByKey_of_own : givenByKey name key values =
    match values, (nameOfKey key).2 with
    | [value], false => .plain value
    | _, _ => .other := by
  unfold givenByKey
  generalize nameOfKey key = own at h ⊢
  obtain ⟨own, isInside⟩ := own
  exact if_neg fun hne => hne h

theorem givenByKey_ne_nothing : givenByKey name key values ≠ .nothing := by
  rw [givenByKey_of_own h]
  split <;> exact nofun

theorem givenByKey_eq_plain_iff {value : List Char} : givenByKey name key values = .plain value ↔
    nameOfKey key = (name, false) ∧ values = [value] := by
  rw [givenByKey_of_own h]
  split
  · next own hinside =>
    have hkey : nameOfKey key = (name, false) := Prod.ext h hinside
    simp [hkey]
  · next hother =>
    refine iff_of_false nofun ?_
    rintro ⟨hplain, rfl⟩
    exact hother _ rfl (congrArg Prod.snd hplain)

/-- The parameters with a key for a name are among those for the name. -/
theorem filter_parameters_eq (query : List Char) :
    (parameters query).filter (fun parameter => parameter.key = key) =
      (named name query).filter fun parameter => parameter.key = key := by
  rw [named, List.filter_filter]
  refine List.filter_congr fun parameter _ => ?_
  by_cases hkey : parameter.key = key
  · simp [hkey, h]
  · simp [hkey]

end Own

/-- Keys for other names add nothing. -/
theorem foldl_merge_of_ne {keys : List (List Char)} (h : ∀ key ∈ keys, (nameOfKey key).1 ≠ name)
    (valuesOf : List Char → List (List Char)) (given : Given) :
    keys.foldl (fun given key => given.merge (givenByKey name key (valuesOf key))) given =
      given := by
  induction keys generalizing given with
  | nil => rfl
  | cons key rest ih =>
    rw [List.foldl_cons, givenByKey_of_ne (h key List.mem_cons_self), Given.merge_nothing]
    exact ih (fun other hother => h other (List.mem_cons_of_mem _ hother)) given

/-- Among the keys in the order in which they first come, a new one stands where it first came. -/
theorem eraseDups_append_cons {key : List Char} {front : List (List Char)} (h : key ∉ front)
    (rest : List (List Char)) :
    ∃ later, (front ++ key :: rest).eraseDups = front.eraseDups ++ key :: later ∧
      ∀ other ∈ later, other ∈ rest ∧ other ≠ key := by
  have hremove : (key :: rest).removeAll front = key :: rest.removeAll front := by
    simp [List.removeAll, h]
  refine ⟨((rest.removeAll front).filter fun other => !other == key).eraseDups, ?_,
    fun other hother => ?_⟩
  · rw [List.eraseDups_append, hremove, List.eraseDups_cons]
  · obtain ⟨hkept, hne⟩ := List.mem_filter.mp (List.mem_eraseDups.mp hother)
    exact ⟨List.mem_of_mem_filter hkept, by simpa using hne⟩

/-- Parameters have different keys when each is the only one with its key. -/
theorem nodup_keys_iff {parameters : List Parameter} : (parameters.map Parameter.key).Nodup ↔
    ∀ parameter ∈ parameters,
      parameters.filter (fun other => other.key = parameter.key) = [parameter] := by
  induction parameters with
  | nil => simp
  | cons first rest ih =>
    rw [List.map_cons, List.nodup_cons, ih, List.forall_mem_cons]
    have hrest : first.key ∉ rest.map Parameter.key ↔
        rest.filter (fun other => other.key = first.key) = [] := by
      simp [List.filter_eq_nil_iff]
    rw [List.filter_cons_of_pos (by simp), List.cons.injEq, ← hrest]
    simp only [true_and]
    refine and_congr_right fun hnew => forall₂_congr fun parameter hparameter => ?_
    have hne : first.key ≠ parameter.key := fun heq =>
      hnew (heq ▸ List.mem_map_of_mem hparameter)
    rw [List.filter_cons_of_neg (by simpa using hne)]

/-! ### Plain values -/

/-- What the parameters of a query give to a name that some are for: what the key of the first gives,
if the keys of the others give no more than the empty value. -/
theorem given_eq_plain_iff {first : Parameter} {others : List Parameter} {value : List Char}
    (h : named name query = first :: others) :
    given name (parameters query) = .plain value ↔
      (nameOfKey first.key = (name, false) ∧
        ((named name query).filter fun other => other.key = first.key).map Parameter.value =
          [value]) ∧
      ∀ parameter ∈ others, parameter.key ≠ first.key →
        nameOfKey parameter.key = (name, false) ∧
          ((named name query).filter fun other => other.key = parameter.key).map Parameter.value =
            [[]] := by
  obtain ⟨front, rest, hparameters, hfront, hfirst, hrest⟩ := List.filter_eq_cons_iff.mp h
  have hfront : ∀ key ∈ front.map Parameter.key, (nameOfKey key).1 ≠ name := fun key hkey => by
    obtain ⟨other, hother, rfl⟩ := List.mem_map.mp hkey
    simpa using hfront other hother
  have hfirst : (nameOfKey first.key).1 = name := by simpa using hfirst
  have hothers {parameter : Parameter} (hparameter : parameter ∈ others) :
      (nameOfKey parameter.key).1 = name := by
    rw [← hrest] at hparameter
    simpa using (List.mem_filter.mp hparameter).2
  obtain ⟨later, hkeys, hlater⟩ := eraseDups_append_cons (fun hmem => hfront _ hmem hfirst)
    (rest.map Parameter.key)
  have hkeys : ((parameters query).map Parameter.key).eraseDups =
      (front.map Parameter.key).eraseDups ++ first.key :: later := by
    rw [hparameters, List.map_append, List.map_cons, hkeys]
  rw [given, hkeys, List.foldl_append, List.foldl_cons,
    foldl_merge_of_ne fun key hmem => hfront key (List.mem_eraseDups.mp hmem)]
  simp only [Given.nothing_merge]
  rw [Given.foldl_merge_eq_plain_iff (givenByKey_ne_nothing hfirst), givenByKey_eq_plain_iff hfirst,
    filter_parameters_eq hfirst]
  refine and_congr_right fun _ => ⟨fun hall parameter hparameter hne => ?_, fun hall key hkey => ?_⟩
  · -- The key of another parameter for the name is neither before the first one nor its own.
    have hmem : parameter.key ∈ ((parameters query).map Parameter.key).eraseDups := by
      rw [List.mem_eraseDups]
      refine List.mem_map_of_mem (List.mem_of_mem_filter (?_ : parameter ∈ named name query))
      rw [h]
      exact List.mem_cons_of_mem _ hparameter
    have hown := hothers hparameter
    rw [hkeys, List.mem_append, List.mem_eraseDups, List.mem_cons] at hmem
    have hkey := (hmem.resolve_left fun hmem => hfront _ hmem hown).resolve_left hne
    have hgives := (hall _ hkey).resolve_left (givenByKey_ne_nothing hown)
    rwa [givenByKey_eq_plain_iff hown, filter_parameters_eq hown] at hgives
  · obtain ⟨hmem, hne⟩ := hlater key hkey
    obtain ⟨parameter, hparameter, rfl⟩ := List.mem_map.mp hmem
    by_cases hown : (nameOfKey parameter.key).1 = name
    · have hparameter : parameter ∈ others := by
        rw [← hrest]
        exact List.mem_filter.mpr ⟨hparameter, by simpa using hown⟩
      rw [givenByKey_eq_plain_iff hown, filter_parameters_eq hown]
      exact Or.inr (hall parameter hparameter hne)
    · exact Or.inl (givenByKey_of_ne hown _)

/-- A name that no parameter is for is given no plain value. -/
theorem plainValue?_of_absent (h : named name query = []) : plainValue? name query = none := by
  have hkeys : ∀ key ∈ ((parameters query).map Parameter.key).eraseDups,
      (nameOfKey key).1 ≠ name := fun key hkey => by
    obtain ⟨parameter, hparameter, rfl⟩ := List.mem_map.mp (List.mem_eraseDups.mp hkey)
    simpa using List.filter_eq_nil_iff.mp h parameter hparameter
  rw [plainValue?, given, foldl_merge_of_ne hkeys]

/-- **Which names have plain values.** A name has a plain value exactly when it is given it plainly. -/
theorem plainValue?_eq_some_iff {value : List Char} :
    plainValue? name query = some value ↔ GivesPlainly name query value := by
  cases hnamed : named name query with
  | nil =>
    rw [plainValue?_of_absent hnamed]
    refine iff_of_false nofun ?_
    rintro ⟨first, others, hcons, -⟩
    cases hnamed.symm.trans hcons
  | cons first others =>
    have hplain : plainValue? name query = some value ↔
        given name (parameters query) = .plain value := by
      unfold plainValue?
      split
      · next own hgiven => simp [hgiven]
      · next hother => exact iff_of_false nofun (hother value)
    rw [hplain, given_eq_plain_iff hnamed]
    -- A parameter with one value for its key is the only one with this key.
    have honly {parameter : Parameter} {own : List Char} (hparameter : parameter ∈ named name query)
        (hvalues : ((named name query).filter fun other => other.key = parameter.key).map
          Parameter.value = [own]) :
        (named name query).filter (fun other => other.key = parameter.key) = [parameter] ∧
          parameter.value = own := by
      obtain ⟨single, hsingle, hown⟩ := List.map_eq_singleton_iff.mp hvalues
      have hmem : parameter ∈ (named name query).filter fun other => other.key = parameter.key :=
        List.mem_filter.mpr ⟨hparameter, by simp⟩
      rw [hsingle] at hmem
      obtain rfl := List.mem_singleton.mp hmem
      exact ⟨hsingle, hown⟩
    have hfirstMem : first ∈ named name query := hnamed ▸ List.mem_cons_self
    have hothersMem {other : Parameter} (hother : other ∈ others) : other ∈ named name query :=
      hnamed ▸ List.mem_cons_of_mem _ hother
    constructor
    · rintro ⟨⟨hfirst, hfirstValues⟩, hothers⟩
      obtain ⟨hfirstOnly, hvalue⟩ := honly hfirstMem hfirstValues
      have hsingles : ∀ parameter ∈ named name query,
          nameOfKey parameter.key = (name, false) ∧
          (named name query).filter (fun other => other.key = parameter.key) = [parameter] := by
        intro parameter hparameter
        by_cases hkey : parameter.key = first.key
        · have hmem : parameter ∈ (named name query).filter fun other => other.key = first.key :=
            List.mem_filter.mpr ⟨hparameter, by simpa using hkey⟩
          rw [hfirstOnly] at hmem
          obtain rfl := List.mem_singleton.mp hmem
          exact ⟨hfirst, hfirstOnly⟩
        · have hother : parameter ∈ others := by
            rw [hnamed] at hparameter
            exact (List.mem_cons.mp hparameter).resolve_left fun heq => hkey (heq ▸ rfl)
          obtain ⟨hown, hvalues⟩ := hothers parameter hother hkey
          exact ⟨hown, (honly hparameter hvalues).1⟩
      have hnodup := nodup_keys_iff.mpr fun parameter hparameter =>
        (hsingles parameter hparameter).2
      refine ⟨first, others, hnamed, hvalue, fun other hother => ?_,
        fun parameter hparameter => (hsingles parameter hparameter).1, hnodup⟩
      rw [hnamed, List.map_cons, List.nodup_cons] at hnodup
      have hne : other.key ≠ first.key := fun heq =>
        hnodup.1 (heq ▸ List.mem_map_of_mem hother)
      exact (honly (hothersMem hother) (hothers other hother hne).2).2
    · rintro ⟨_, _, hcons, rfl, hempty, hown, hnodup⟩
      obtain ⟨rfl, rfl⟩ := List.cons.inj (hnamed.symm.trans hcons)
      have hsingles := nodup_keys_iff.mp hnodup
      refine ⟨⟨hown _ hfirstMem, by rw [hsingles _ hfirstMem]; rfl⟩, fun other hother _ => ?_⟩
      have hmem := hothersMem hother
      exact ⟨hown _ hmem, by rw [hsingles _ hmem, List.map_singleton, hempty _ hother]⟩

/-- A name that one parameter alone is for is given its value plainly. -/
theorem givesPlainly_of_once {parameter : Parameter} (h : named name query = [parameter])
    (hkey : nameOfKey parameter.key = (name, false)) : GivesPlainly name query parameter.value := by
  refine ⟨parameter, [], h, rfl, nofun, ?_, ?_⟩
  · rw [h]
    exact List.forall_mem_singleton.mpr hkey
  · rw [h]
    exact List.nodup_singleton _

theorem plainValue?_of_once {parameter : Parameter} (h : named name query = [parameter])
    (hkey : nameOfKey parameter.key = (name, false)) :
    plainValue? name query = some parameter.value :=
  plainValue?_eq_some_iff.mpr (givesPlainly_of_once h hkey)

end Retention.Http
