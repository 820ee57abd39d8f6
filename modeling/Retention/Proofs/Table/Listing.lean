import Mathlib.Data.List.Lex
import Mathlib.Data.Prod.Lex
import Retention.Table.Listing
import Retention.Table.Name

/-!
# The order of a listing is total on family ids

Names are ordered by the weights of their characters, and names with the same weights by the cases
of their letters, both as sequences are. A character of a family id is known from its weight and its
case, so no two ids have the same place.

## Main definitions

* `Listing.key`: what names are ordered by.

## Main results

* `Listing.nameLe_iff`: a name may stand before another one when its key is not above the other's.
* `Listing.key_injective`: family ids that differ have keys that differ.
-/

namespace Retention.Listing

/-- What a name is ordered by: its weights first, then its cases. -/
def key (name : String) : List Nat ×ₗ List Nat :=
  toLex (name.toList.map weight, name.toList.map caseWeight)

/-- Code units are compared as lists of numbers are. -/
theorem unitsLe_iff {a b : List Nat} : unitsLe a b = true ↔ a ≤ b := by
  induction a generalizing b with
  | nil =>
    have hle : [] ≤ b := by
      cases b with
      | nil => exact le_rfl
      | cons y ys => exact (List.nil_lt_cons y ys).le
    simp [unitsLe, hle]
  | cons x xs ih =>
    cases b with
    | nil => simp [unitsLe, not_le.mpr (List.nil_lt_cons x xs)]
    | cons y ys =>
      have hle : x :: xs ≤ y :: ys ↔ x < y ∨ x = y ∧ xs ≤ ys := by
        rw [le_iff_lt_or_eq, le_iff_lt_or_eq, List.cons_lt_cons_iff, List.cons.injEq]
        tauto
      rw [unitsLe, hle, ← ih]
      obtain hlt | rfl | hgt := Nat.lt_trichotomy x y
      · simp [hlt]
      · simp
      · simp [hgt, Nat.lt_asymm hgt, Nat.ne_of_gt hgt]

/-- A name may stand before another one when its key is not above the other's. -/
theorem nameLe_iff {a b : String} : nameLe a b = true ↔ key a ≤ key b := by
  rw [key, key, Prod.Lex.toLex_le_toLex]
  unfold nameLe
  dsimp only
  split
  · next heq => simp [unitsLe_iff, heq]
  · next hne => simp [unitsLe_iff, hne, le_iff_lt_or_eq]

/-- The character of a family id that has a weight and a case. -/
def character (weight caseWeight : Nat) : Char :=
  if weight = 0 then '_'
  else if weight = 1 then '-'
  else if weight = 2 then '.'
  else if weight < 13 then Char.ofNat ('0'.toNat + (weight - 3))
  else Char.ofNat ((if caseWeight = 0 then 'a'.toNat else 'A'.toNat) + (weight - 13))

/-- A character of a family id is known from its weight and its case. -/
theorem character_weight {c : Char} (h : TableName.isNameChar c = true) :
    character (weight c) (caseWeight c) = c := by
  have hsmall : c.toNat < 128 := by
    simp only [TableName.isNameChar, Bool.or_eq_true, decide_eq_true_eq] at h
    obtain ((halphanum | rfl) | rfl) | rfl := h
    · change (decide (65 ≤ c.val ∧ c.val ≤ 90) || (97 ≤ c.val && c.val ≤ 122) ||
        (48 ≤ c.val && c.val ≤ 57)) = true at halphanum
      simp only [Bool.or_eq_true, Bool.and_eq_true, decide_eq_true_eq,
        UInt32.le_iff_toNat_le] at halphanum
      change (((65 ≤ c.toNat ∧ c.toNat ≤ 90) ∨ (97 ≤ c.toNat ∧ c.toNat ≤ 122)) ∨
        48 ≤ c.toNat ∧ c.toNat ≤ 57) at halphanum
      omega
    all_goals decide
  have hall : ∀ point < 128, TableName.isNameChar (Char.ofNat point) = true →
      character (weight (Char.ofNat point)) (caseWeight (Char.ofNat point)) = Char.ofNat point := by
    decide
  have hc := hall c.toNat hsmall
  rw [Char.ofNat_toNat] at hc
  exact hc h

/-- The characters of a family id, one by one. -/
theorem isNameChar_of_isFamilyId {id : String} (h : isFamilyId (.whole id) = true) :
    ∀ c ∈ id.toList, TableName.isNameChar c = true := by
  obtain ⟨hname, -⟩ := Bool.and_eq_true_iff.mp h
  cases hlist : id.toList with
  | nil => exact nofun
  | cons first rest =>
    rw [hlist] at hname
    obtain ⟨hfirst, hrest⟩ := Bool.and_eq_true_iff.mp hname
    refine List.forall_mem_cons.mpr ⟨?_, List.all_eq_true.mp hrest⟩
    rw [TableName.isNameStart] at hfirst
    rw [TableName.isNameChar, hfirst]
    rfl

/-- Family ids that differ have keys that differ. -/
theorem key_injective {a b : Text} (ha : isFamilyId a = true) (hb : isFamilyId b = true)
    (hkey : key a.shown = key b.shown) : a = b := by
  have hread (id : String) (h : isFamilyId (.whole id) = true) :
      List.zipWith character (id.toList.map weight) (id.toList.map caseWeight) = id.toList := by
    rw [List.zipWith_map, List.zipWith_self]
    exact (List.map_congr_left fun c hc =>
      character_weight (isNameChar_of_isFamilyId h c hc)).trans (List.map_id _)
  cases a with
  | broken points => cases ha
  | whole first =>
    cases b with
    | broken points => cases hb
    | whole second =>
      obtain ⟨hweights, hcases⟩ := Prod.mk.inj (toLex.injective hkey)
      have hsame : first.toList = second.toList := by
        rw [← hread first ha, ← hread second hb]
        exact congrArg₂ _ hweights hcases
      rw [String.toList_inj.mp hsame]

end Retention.Listing
