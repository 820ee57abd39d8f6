import Retention.Text

/-!
# Order by UTF-16 units

Text keys are ordered by their UTF-16 code units: a character outside the basic plane is
two surrogate units and so sorts before the private use area.
-/

namespace Retention

/-- The UTF-16 code units of a code point. -/
def utf16Units (point : Nat) : List Nat :=
  if point < 0x10000 then [point]
  else [0xD800 + (point - 0x10000) / 0x400, 0xDC00 + (point - 0x10000) % 0x400]

/-- The UTF-16 code units of a text. -/
def Text.units (text : Text) : List Nat := text.points.flatMap utf16Units

/-- Lexicographic order of code unit sequences. -/
def unitsLe : List Nat → List Nat → Bool
  | [], _ => true
  | _ :: _, [] => false
  | a :: as, b :: bs => if a < b then true else if b < a then false else unitsLe as bs

/-- Order of texts by UTF-16 code units. -/
def textLe (a b : Text) : Bool := unitsLe a.units b.units

theorem unitsLe_total (a b : List Nat) : unitsLe a b = true ∨ unitsLe b a = true := by
  induction a generalizing b with
  | nil => exact Or.inl (by simp [unitsLe])
  | cons x xs ih =>
    cases b with
    | nil => exact Or.inr (by simp [unitsLe])
    | cons y ys =>
      rcases Nat.lt_trichotomy x y with h | rfl | h
      · exact Or.inl (by simp [unitsLe, h])
      · simpa [unitsLe] using ih ys
      · exact Or.inr (by simp [unitsLe, h])

theorem unitsLe_trans {a b c : List Nat} (hab : unitsLe a b = true) (hbc : unitsLe b c = true) :
    unitsLe a c = true := by
  induction a generalizing b c with
  | nil => simp [unitsLe]
  | cons x xs ih =>
    cases b with
    | nil => simp [unitsLe] at hab
    | cons y ys =>
      cases c with
      | nil => simp [unitsLe] at hbc
      | cons z zs =>
        simp only [unitsLe] at hab hbc ⊢
        by_cases hxy : x < y
        · by_cases hyz : y < z
          · simp [Nat.lt_trans hxy hyz]
          · by_cases hzy : z < y
            · simp [hyz, hzy] at hbc
            · have : y = z := by omega
              subst this
              simp [hxy]
        · by_cases hyx : y < x
          · simp [hxy, hyx] at hab
          · have : x = y := by omega
            subst this
            by_cases hxz : x < z
            · simp [hxz]
            · by_cases hzx : z < x
              · simp [hxz, hzx] at hbc
              · have : x = z := by omega
                subst this
                simp at hab hbc ⊢
                exact ih hab hbc

end Retention
