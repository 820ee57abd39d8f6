import Mathlib.Data.List.Basic
import Retention.Text

/-!
# The code points of texts

A text made of code points has them, with every pair of surrogates made into one. It makes no
difference whether some are paired before others follow, so pairing goes no further when it is
repeated; and it does not reach across a character.

* `Text.paired_paired_append`, `Text.paired_append_cons`: pairing piece by piece.
* `Text.ofPoints_points_ofPoints`: the text of some code points is told by its own.
* `Text.points_append`: the code points of one text after another.
-/

namespace Retention.Text

variable {point high : Nat} {points rest : List Nat}

/-! ### Pairing -/

/-- A code point that begins no pair stays as it is. -/
theorem paired_cons (h : ∀ low, pair? point low = none) (rest : List Nat) :
    paired (point :: rest) = point :: paired rest := by
  cases rest with
  | nil => rfl
  | cons low rest => rw [paired, h low]

/-- Two surrogates that make a pair make a code point that begins no other. -/
theorem pair?_of_pair? {low : Nat} (h : pair? high low = some point) (next : Nat) :
    pair? point next = none := by
  unfold pair? at h ⊢
  split at h
  · obtain rfl := Option.some.inj h
    rw [if_neg]
    omega
  · cases h

/-- The first of some paired code points does not end a pair that the first of the code points did
not end. -/
theorem exists_paired_cons {low : Nat} (h : pair? high low = none) (rest : List Nat) :
    ∃ first others, paired (low :: rest) = first :: others ∧ pair? high first = none := by
  cases rest with
  | nil => exact ⟨low, [], rfl, h⟩
  | cons next rest =>
    rw [paired]
    cases hpair : pair? low next with
    | none => exact ⟨low, _, rfl, h⟩
    | some made =>
      refine ⟨made, _, rfl, ?_⟩
      unfold pair? at hpair ⊢
      split at hpair
      · obtain rfl := Option.some.inj hpair
        rw [if_neg]
        omega
      · cases hpair

/-- It makes no difference whether code points are paired before others follow them. -/
theorem paired_paired_append (points rest : List Nat) :
    paired (paired points ++ rest) = paired (points ++ rest) := by
  fun_induction paired points with
  | case1 high low others made hpair ih =>
    rw [List.cons_append, paired_cons (pair?_of_pair? hpair), ih, List.cons_append, List.cons_append,
      paired, hpair]
  | case2 high low others hpair ih =>
    obtain ⟨first, later, hpaired, hfirst⟩ := exists_paired_cons hpair others
    rw [hpaired] at ih ⊢
    rw [List.cons_append] at ih
    rw [List.cons_append, List.cons_append, paired, hfirst, List.cons_append, List.cons_append,
      paired, hpair]
    exact congrArg _ ih
  | case3 => rfl

/-- Pairing goes no further when it is repeated. -/
theorem paired_paired (points : List Nat) : paired (paired points) = paired points := by
  simpa using paired_paired_append points []

/-- Pairing does not reach across a character. -/
theorem paired_append_cons (h : point.isValidChar) (points rest : List Nat) :
    paired (points ++ point :: rest) = paired points ++ point :: paired rest := by
  have hfirst := paired_cons (pair?_of_isValidChar h) rest
  have hnot (high : Nat) : pair? high point = none := by
    unfold pair?
    rw [if_neg]
    rintro ⟨-, -, h1, h2⟩
    rcases h with h | ⟨h, -⟩ <;> omega
  fun_induction paired points with
  | case1 high low others made hpair ih =>
    rw [List.cons_append, List.cons_append, paired, hpair]
    exact congrArg _ ih
  | case2 high low others hpair ih =>
    rw [List.cons_append, List.cons_append, paired, hpair]
    exact congrArg _ ih
  | case3 points h =>
    rcases points with _ | ⟨high, _ | ⟨next, others⟩⟩
    · exact hfirst
    · change paired (high :: point :: rest) = _
      rw [paired, hnot high]
      exact congrArg _ hfirst
    · exact absurd rfl (h high next others)

/-- Characters at the front stay as they are. -/
theorem paired_append_of_isValidChar (h : ∀ point ∈ points, point.isValidChar) (rest : List Nat) :
    paired (points ++ rest) = points ++ paired rest := by
  induction points with
  | nil => rfl
  | cons point points ih =>
    obtain ⟨hpoint, hpoints⟩ := List.forall_mem_cons.mp h
    rw [List.cons_append, paired_cons (pair?_of_isValidChar hpoint), ih hpoints]
    rfl

/-! ### Texts -/

theorem isValidChar_of_mem_points_whole {text : String} (h : point ∈ (whole text).points) :
    point.isValidChar := by
  obtain ⟨c, -, rfl⟩ := List.mem_map.mp h
  exact c.valid

/-- The code points of the text of some code points. -/
@[simp] theorem points_ofPoints (points : List Nat) : (ofPoints points).points = paired points := by
  unfold ofPoints
  dsimp only
  split
  · next hall =>
    have hcharacter (point : Nat) (hpoint : point ∈ paired points) :
        (character point).toNat = point := by
      have hvalid : point.isValidChar := by simpa using List.all_eq_true.mp hall point hpoint
      rw [character, dif_pos hvalid]
      rfl
    rw [Text.points, String.toList_ofList, List.map_map]
    exact (List.map_congr_left hcharacter).trans (List.map_id _)
  · rfl

/-- The text of some code points is the text of its own code points. -/
theorem ofPoints_points_ofPoints (points : List Nat) :
    ofPoints (ofPoints points).points = ofPoints points := by
  rw [points_ofPoints]
  unfold ofPoints
  rw [paired_paired]

/-- One text after another has the code points of both, paired where they meet. -/
theorem points_append (first second : Text) :
    (first ++ second).points = paired (first.points ++ second.points) := by
  have hwhole (first second : String) : (whole (first ++ second)).points =
      paired ((whole first).points ++ (whole second).points) := by
    rw [paired_of_isValidChar fun point hpoint => (List.mem_append.mp hpoint).elim
      isValidChar_of_mem_points_whole isValidChar_of_mem_points_whole]
    simp [Text.points]
  cases first with
  | whole first =>
    cases second with
    | whole second => exact hwhole first second
    | broken points => exact points_ofPoints _
  | broken points => exact points_ofPoints _

end Retention.Text
