/-!
# Texts

The strings of JSON are sequences of characters, and of surrogates that stand alone: an
escape can write half of a pair without the other half. A text of characters alone is
whole; any other is broken and kept as its code points. No word of the service is broken,
so a broken text is only ever shown back to the caller.
-/

namespace Retention

/-- A text that JSON can write. -/
inductive Text where
  | whole (text : String)
  | broken (points : List Nat)
deriving DecidableEq

namespace Text

instance : Coe String Text := ⟨whole⟩

/-- The character of a code point; a surrogate has the replacement character instead. -/
def character (point : Nat) : Char :=
  if h : point.isValidChar then Char.ofNatAux point h else '\ufffd'

/-- The code points of a text. -/
def points : Text → List Nat
  | whole text => text.toList.map Char.toNat
  | broken points => points

/-- The code point that two surrogates make together, if the first one is a high one and the
second one a low one. -/
def pair? (high low : Nat) : Option Nat :=
  if 0xD800 ≤ high ∧ high < 0xDC00 ∧ 0xDC00 ≤ low ∧ low < 0xE000 then
    some (0x10000 + (high - 0xD800) * 0x400 + (low - 0xDC00))
  else none

/-- Code points with every pair of surrogates made into one. -/
def paired : List Nat → List Nat
  | high :: low :: rest =>
    match pair? high low with
    | some point => point :: paired rest
    | none => high :: paired (low :: rest)
  | points => points

/-- The text of some code points, in which surrogates may stand one by one. -/
def ofPoints (points : List Nat) : Text :=
  let points := paired points
  if points.all fun point => decide point.isValidChar then
    whole (String.ofList (points.map character))
  else broken points

/-- One text after another. -/
def append : Text → Text → Text
  | whole first, whole second => whole (first ++ second)
  | first, second => ofPoints (first.points ++ second.points)

instance : Append Text := ⟨append⟩

/-- Some texts with a separator between them. -/
def join (separator : String) : List Text → Text
  | [] => ""
  | [text] => text
  | text :: rest => text ++ separator ++ join separator rest

/-- A text in characters, each surrogate replaced. -/
def shown : Text → String
  | whole text => text
  | broken points => String.ofList (points.map character)

theorem character_toNat (c : Char) : character c.toNat = c := by
  have h : c.toNat.isValidChar := c.valid
  rw [character, dif_pos h]
  exact Char.toNat_inj.mp rfl

/-- Two whole texts make a whole text. -/
@[simp] theorem whole_append_whole (first second : String) :
    whole first ++ whole second = whole (first ++ second) := rfl

/-- A character is no surrogate. -/
theorem pair?_of_isValidChar {high : Nat} (h : high.isValidChar) (low : Nat) :
    pair? high low = none := by
  unfold pair?
  rw [if_neg]
  rintro ⟨h1, h2, -, -⟩
  rcases h with h | ⟨h, -⟩ <;> omega

/-- Among characters there is nothing to pair. -/
theorem paired_of_isValidChar {points : List Nat} (h : ∀ point ∈ points, point.isValidChar) :
    paired points = points := by
  fun_induction paired points with
  | case1 high low rest point hp ih =>
    rw [pair?_of_isValidChar (h high (by simp))] at hp
    simp at hp
  | case2 high low rest hp ih =>
    rw [ih fun point hm => h point (by simp only [List.mem_cons] at hm ⊢; exact Or.inr hm)]
  | case3 => rfl

/-- A text of characters alone is the text of its code points. -/
theorem ofPoints_points_whole (text : String) : ofPoints (whole text).points = whole text := by
  have hall : ∀ point ∈ (whole text).points, point.isValidChar := by
    simp only [points, List.mem_map]
    rintro point ⟨c, -, rfl⟩
    exact c.valid
  rw [ofPoints, paired_of_isValidChar hall, if_pos (by simpa using hall)]
  simp [points, Function.comp_def, character_toNat]

end Text

end Retention
