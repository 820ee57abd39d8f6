import Retention.Proofs.Policy.Collapse

/-!
# Equality of policies

Two policies are compared node by node. That this decides whether they are one tree is said here of
a relation that knows nothing of the comparison: the same kind of node at each place, as many
children in the same order, and leaves that have one value. The value of a number is a ratio or one
of the two infinities, and NaN has none, so a policy with such a leaf is not even the same as itself.

A context is a policy with one place left open, at any depth. Policies in the place of each other
make no difference to the whole exactly when they are the same.

## Main definitions

* `Number.value?`: the value of a number.
* `Policy.SameTree`: policies that are one tree.
* `Policy.Comparable`: policies without a leaf that is NaN.
* `Policy.Context`: policies with one place left open.

## Main results

* `Number.same_iff_value?`: numbers compare equal exactly when they have one value.
* `Policy.same_iff_sameTree`: comparing decides whether policies are one tree.
* `Policy.sameTree_plug_iff`: policies are one tree exactly when they are in one context.
* `Policy.same_is_structural`: the comparison is an equality of trees.
-/

namespace Retention

/-! ### Values of numbers -/

namespace Number

/-- The value of a number: a ratio, or an infinity of either sign. NaN has none. -/
def value? : Number → Option (WithBot (WithTop ℚ))
  | int value => some ((value : ℚ) : WithTop ℚ)
  | frac numerator scale _ => some ((numerator / 2 ^ (scale + 1) : ℚ) : WithTop ℚ)
  | infinity negative => some (if negative then ⊥ else ⊤)
  | nan => none

theorem exists_value? {number : Number} (h : number ≠ nan) :
    ∃ value, number.value? = some value := by
  cases number with
  | nan => exact absurd rfl h
  | int | frac | infinity => exact ⟨_, rfl⟩

/-- An odd numerator over a power of two is not a whole number. -/
theorem int_ne_frac {value n : ℤ} {k : Nat} (hodd : n % 2 = 1) :
    (value : ℚ) ≠ n / 2 ^ (k + 1) := by
  intro h
  rw [eq_div_iff (by positivity)] at h
  have hint : value * 2 ^ (k + 1) = n := by exact_mod_cast h
  rw [pow_succ, ← mul_assoc] at hint
  omega

/-- The scale of an odd numerator is not below that of another over the same value. -/
theorem scale_le_of_eq {m n : ℤ} {k l : Nat} (hn : n % 2 = 1)
    (h : (m : ℚ) / 2 ^ (k + 1) = n / 2 ^ (l + 1)) : l ≤ k := by
  by_contra hlt
  obtain ⟨d, rfl⟩ : ∃ d, l = k + d + 1 := ⟨l - k - 1, by omega⟩
  rw [div_eq_div_iff (by positivity) (by positivity)] at h
  have hint : m * 2 ^ d * 2 * 2 ^ (k + 1) = n * 2 ^ (k + 1) := by
    have hcast : m * 2 ^ (k + d + 1 + 1) = n * 2 ^ (k + 1) := by exact_mod_cast h
    rw [← hcast]
    ring
  have heven : m * 2 ^ d * 2 = n := mul_right_cancel₀ (by positivity) hint
  omega

/-- Fractions in lowest terms over one value have one numerator and one scale. -/
theorem eq_of_frac_eq {m n : ℤ} {k l : Nat} (hm : m % 2 = 1) (hn : n % 2 = 1)
    (h : (m : ℚ) / 2 ^ (k + 1) = n / 2 ^ (l + 1)) : m = n ∧ k = l := by
  have hscale : k = l := le_antisymm (scale_le_of_eq hm h.symm) (scale_le_of_eq hn h)
  subst hscale
  rw [div_left_inj' (by positivity)] at h
  exact ⟨by exact_mod_cast h, rfl⟩

/-- Numbers that have a value are told apart by it. -/
theorem eq_of_value? {a b : Number} {value : WithBot (WithTop ℚ)} (ha : a.value? = some value)
    (hb : b.value? = some value) : a = b := by
  have h : a.value? = b.value? := ha.trans hb.symm
  cases a with
  | nan => cases ha
  | int =>
    cases b with
    | nan => cases hb
    | int => simpa [value?] using h
    | frac _ _ hodd => exact absurd (by simpa [value?] using h) (int_ne_frac hodd)
    | infinity negative => cases negative <;> simp [value?] at h
  | frac _ _ hodd =>
    cases b with
    | nan => cases hb
    | int => exact absurd (by simpa [value?] using h.symm) (int_ne_frac hodd)
    | frac _ _ hodd' =>
      obtain ⟨rfl, rfl⟩ := eq_of_frac_eq hodd hodd' (by simpa [value?] using h)
      rfl
    | infinity negative => cases negative <;> simp [value?] at h
  | infinity negative =>
    cases b with
    | nan => cases hb
    | int | frac => cases negative <;> simp [value?] at h
    | infinity negative' => cases negative <;> cases negative' <;> simp [value?] at h ⊢

/-- Numbers compare equal exactly when they have one value. -/
theorem same_iff_value? {a b : Number} :
    a.same b = true ↔ ∃ value, a.value? = some value ∧ b.value? = some value := by
  rw [same_iff]
  constructor
  · rintro ⟨rfl, hnan⟩
    obtain ⟨value, hvalue⟩ := exists_value? hnan
    exact ⟨value, hvalue, hvalue⟩
  · rintro ⟨value, ha, hb⟩
    refine ⟨eq_of_value? ha hb, ?_⟩
    rintro rfl
    cases ha

end Number

namespace Policy

/-! ### One tree -/

/-- Policies that are one tree: the same node at each place, children in the same order and number,
and leaves that have one value. -/
inductive SameTree : Policy → Policy → Prop
  | noGc : SameTree .noGc .noGc
  | maxAge {a b : Number} {value : WithBot (WithTop ℚ)} (ha : a.value? = some value)
      (hb : b.value? = some value) : SameTree (.maxAge a) (.maxAge b)
  | maxVersions {a b : Number} {value : WithBot (WithTop ℚ)} (ha : a.value? = some value)
      (hb : b.value? = some value) : SameTree (.maxVersions a) (.maxVersions b)
  | combined {mode : Mode} {as bs : List Policy} (hlength : as.length = bs.length)
      (hchildren : ∀ i (ha : i < as.length) (hb : i < bs.length), SameTree as[i] bs[i]) :
      SameTree (.combined mode as) (.combined mode bs)

/-- Policies without a leaf that is NaN. -/
def Comparable (policy : Policy) : Prop :=
  ¬ PartOf (.maxAge .nan) policy ∧ ¬ PartOf (.maxVersions .nan) policy

theorem comparable_noGc : Comparable .noGc := ⟨nofun, nofun⟩

theorem comparable_maxAge_iff {seconds : Number} :
    Comparable (.maxAge seconds) ↔ seconds ≠ .nan := by
  constructor
  · rintro h rfl
    exact h.1 .self
  · exact fun h => ⟨by rintro (_ | _); exact h rfl, nofun⟩

theorem comparable_maxVersions_iff {count : Number} :
    Comparable (.maxVersions count) ↔ count ≠ .nan := by
  constructor
  · rintro h rfl
    exact h.2 .self
  · exact fun h => ⟨nofun, by rintro (_ | _); exact h rfl⟩

theorem comparable_combined_iff {mode : Mode} {children : List Policy} :
    Comparable (.combined mode children) ↔ ∀ child ∈ children, Comparable child := by
  constructor
  · exact fun h child hchild =>
      ⟨fun hpart => h.1 (.child hchild hpart), fun hpart => h.2 (.child hchild hpart)⟩
  · refine fun h => ⟨?_, ?_⟩ <;> rintro (_ | ⟨hchild, hpart⟩)
    · exact (h _ hchild).1 hpart
    · exact (h _ hchild).2 hpart

section SameTree

variable {a b c : Policy} {mode : Mode} {as bs : List Policy}

theorem sameTree_combined_iff {other : Mode} :
    SameTree (.combined mode as) (.combined other bs) ↔
      mode = other ∧ List.Forall₂ SameTree as bs := by
  rw [List.forall₂_iff_get]
  constructor
  · rintro (_ | _ | _ | ⟨hlength, hchildren⟩)
    exact ⟨rfl, hlength, hchildren⟩
  · rintro ⟨rfl, hlength, hchildren⟩
    exact .combined hlength hchildren

/-- A policy without NaN is the same tree as itself. -/
theorem SameTree.refl (h : Comparable a) : SameTree a a := by
  induction a using children_induction with
  | noGc => exact .noGc
  | maxAge seconds =>
    obtain ⟨value, hvalue⟩ := Number.exists_value? (comparable_maxAge_iff.mp h)
    exact .maxAge hvalue hvalue
  | maxVersions count =>
    obtain ⟨value, hvalue⟩ := Number.exists_value? (comparable_maxVersions_iff.mp h)
    exact .maxVersions hvalue hvalue
  | combined mode children ih =>
    exact .combined rfl fun i hi _ =>
      ih _ (List.getElem_mem hi) (comparable_combined_iff.mp h _ (List.getElem_mem hi))

theorem SameTree.symm (h : SameTree a b) : SameTree b a := by
  induction h with
  | noGc => exact .noGc
  | maxAge ha hb => exact .maxAge hb ha
  | maxVersions ha hb => exact .maxVersions hb ha
  | combined hlength _ ih => exact .combined hlength.symm fun i hb ha => ih i ha hb

theorem SameTree.trans (h : SameTree a b) (h' : SameTree b c) : SameTree a c := by
  induction h generalizing c with
  | noGc => exact h'
  | maxAge ha hb =>
    cases h' with
    | maxAge hb' hc => exact .maxAge ha (Option.some.inj (hb.symm.trans hb') ▸ hc)
  | maxVersions ha hb =>
    cases h' with
    | maxVersions hb' hc => exact .maxVersions ha (Option.some.inj (hb.symm.trans hb') ▸ hc)
  | combined hlength _ ih =>
    cases h' with
    | combined hlength' hchildren' =>
      exact .combined (hlength.trans hlength') fun i ha hc =>
        ih i ha (hlength ▸ ha) (hchildren' i _ hc)

/-! ### Comparing -/

/-- Lists are the same when they are so one by one. -/
theorem sameAll_iff {policies others : List Policy} : sameAll policies others = true ↔
    List.Forall₂ (fun policy other => same policy other = true) policies others := by
  induction policies generalizing others with
  | nil => cases others <;> simp [sameAll]
  | cons policy rest ih =>
    cases others with
    | nil => simp [sameAll]
    | cons other others => rw [sameAll, Bool.and_eq_true, List.forall₂_cons, ih]

/-- Comparing decides whether policies are one tree. -/
theorem same_iff_sameTree : same a b = true ↔ SameTree a b := by
  induction a using children_induction generalizing b with
  | noGc =>
    cases b with
    | noGc => exact iff_of_true rfl .noGc
    | _ => exact iff_of_false (by simp [same]) (by rintro ⟨⟩)
  | maxAge seconds =>
    cases b with
    | maxAge other =>
      rw [same, Number.same_iff_value?]
      constructor
      · rintro ⟨_, ha, hb⟩
        exact .maxAge ha hb
      · intro h
        cases h with
        | maxAge ha hb => exact ⟨_, ha, hb⟩
    | _ => exact iff_of_false (by simp [same]) (by rintro ⟨⟩)
  | maxVersions count =>
    cases b with
    | maxVersions other =>
      rw [same, Number.same_iff_value?]
      constructor
      · rintro ⟨_, ha, hb⟩
        exact .maxVersions ha hb
      · intro h
        cases h with
        | maxVersions ha hb => exact ⟨_, ha, hb⟩
    | _ => exact iff_of_false (by simp [same]) (by rintro ⟨⟩)
  | combined mode children ih =>
    cases b with
    | combined other others =>
      rw [same, Bool.and_eq_true, decide_eq_true_eq, sameAll_iff, sameTree_combined_iff]
      refine and_congr_right fun _ => ?_
      rw [List.forall₂_iff_get, List.forall₂_iff_get]
      refine and_congr_right fun _ => forall_congr' fun i => forall₂_congr fun ha _ => ?_
      exact ih _ (List.getElem_mem ha)
    | _ => exact iff_of_false (by simp [same]) (by rintro ⟨⟩)

end SameTree

/-! ### Contexts -/

/-- A policy with one place left open. -/
inductive Context where
  | hole
  | combined (mode : Mode) (before : List Policy) (child : Context) (after : List Policy)

/-- The policy that a context is with another in its open place. -/
def Context.plug (policy : Policy) : Context → Policy
  | .hole => policy
  | .combined mode before child after => .combined mode (before ++ child.plug policy :: after)

variable {policy other : Policy}

/-- Policies that are one tree in a context are one tree. -/
theorem sameTree_of_plug {context : Context}
    (h : SameTree (context.plug policy) (context.plug other)) : SameTree policy other := by
  induction context with
  | hole => exact h
  | combined mode before child after ih =>
    refine ih ?_
    cases h with
    | combined _ hchildren =>
      simpa using hchildren before.length (by simp) (by simp)

/-- One tree in the place of another leaves a policy without NaN the same tree. -/
theorem SameTree.plug {context : Context} (hcomparable : Comparable (context.plug policy))
    (h : SameTree policy other) : SameTree (context.plug policy) (context.plug other) := by
  induction context with
  | hole => exact h
  | combined mode before child after ih =>
    have hself : ∀ sibling ∈ before ++ child.plug policy :: after, Comparable sibling :=
      comparable_combined_iff.mp hcomparable
    refine sameTree_combined_iff.mpr ⟨rfl, List.rel_append ?_ (.cons ?_ ?_)⟩
    · exact List.forall₂_same.mpr fun _ hsibling => .refl (hself _ (by simp [hsibling]))
    · exact ih (hself _ (by simp))
    · exact List.forall₂_same.mpr fun _ hsibling => .refl (hself _ (by simp [hsibling]))

/-- The comparison is an equality of trees. It decides whether two policies are one tree, it is an
equivalence relation on the policies without NaN, and at any depth of such a policy it is kept when
a part is replaced by one that is the same, and broken by any other. -/
theorem same_is_structural :
    (∀ policy other, same policy other = true ↔ SameTree policy other) ∧
    (Equivalence fun policy other : { policy // Comparable policy } => same policy other = true) ∧
    ∀ (context : Context) (policy other : Policy), Comparable (context.plug policy) →
      same (context.plug policy) (context.plug other) = same policy other ∧
      (same policy other = true → ∀ third,
        same (context.plug policy) third = same (context.plug other) third) := by
  refine ⟨fun _ _ => same_iff_sameTree, ⟨?_, ?_, ?_⟩, ?_⟩
  · exact fun ⟨_, hcomparable⟩ => same_iff_sameTree.mpr (.refl hcomparable)
  · intro _ _ h
    exact same_iff_sameTree.mpr (same_iff_sameTree.mp h).symm
  · intro _ _ _ h h'
    exact same_iff_sameTree.mpr ((same_iff_sameTree.mp h).trans (same_iff_sameTree.mp h'))
  · intro context policy other hcomparable
    have hplug : SameTree policy other → SameTree (context.plug policy) (context.plug other) :=
      fun h => h.plug hcomparable
    refine ⟨?_, fun h third => ?_⟩
    · rw [Bool.eq_iff_iff, same_iff_sameTree, same_iff_sameTree]
      exact ⟨sameTree_of_plug, hplug⟩
    · have hsame := hplug (same_iff_sameTree.mp h)
      rw [Bool.eq_iff_iff, same_iff_sameTree, same_iff_sameTree]
      exact ⟨hsame.symm.trans, hsame.trans⟩

/-- Two modes over the same children are told apart below an intersection in a union. -/
theorem same_is_structural_below_intersection :
    let context : Context := .combined .union [.maxVersions 3]
      (.combined .intersection [] .hole [.maxAge (.frac 1 0 rfl)]) [.noGc]
    let parts : List Policy := [.maxAge 5, .maxVersions 2]
    Comparable (context.plug (.combined .union parts)) ∧
      same (context.plug (.combined .union parts)) (context.plug (.combined .intersection parts))
        = false ∧
      same (context.plug (.combined .union parts)) (context.plug (.combined .union parts))
        = true := by
  have hcomparable : Comparable (Context.plug (.combined .union [.maxAge 5, .maxVersions 2])
      (.combined .union [.maxVersions 3]
        (.combined .intersection [] .hole [.maxAge (.frac 1 0 rfl)]) [.noGc])) := by
    simp [Context.plug, comparable_combined_iff, comparable_maxAge_iff, comparable_maxVersions_iff,
      comparable_noGc]
  have happly := fun other => (same_is_structural.2.2 _ _ other hcomparable).1
  exact ⟨hcomparable, happly _, happly _⟩

end Policy

end Retention
