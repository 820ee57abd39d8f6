import Mathlib.Data.List.Basic
import Retention.Text.Segment

/-!
# Cutting and joining

Cutting a text at every separator and joining its segments again undo each other. The segments of a
text are the only texts without the separator that it can be joined from.

* `segments_eq_iff`: the segments of a text, by what they join to.
* `glued_inj`: parts between separators are told apart by a join of as many parts.
-/

namespace Retention

/-- A text in which a character does not occur ends where the character first follows it. -/
theorem append_cons_inj_of_notMem {α : Type} {c : α} {first second s t : List α}
    (hfirst : c ∉ first) (hsecond : c ∉ second) (h : first ++ c :: s = second ++ c :: t) :
    first = second ∧ s = t := by
  induction first generalizing second with
  | nil =>
    cases second with
    | nil => exact ⟨rfl, (List.cons.inj h).2⟩
    | cons d second => exact absurd ((List.cons.inj h).1 ▸ List.mem_cons_self) hsecond
  | cons d first ih =>
    cases second with
    | nil => exact absurd ((List.cons.inj h).1.symm ▸ List.mem_cons_self) hfirst
    | cons e second =>
      obtain ⟨rfl, hrest⟩ := List.cons.inj h
      obtain ⟨rfl, hst⟩ := ih (fun hc => hfirst (List.mem_cons_of_mem _ hc))
        (fun hc => hsecond (List.mem_cons_of_mem _ hc)) hrest
      exact ⟨rfl, hst⟩

section Glued

variable {α : Type} {separator : α} {a b c v w x y z : List α}

/-- Three parts without separators that are glued together with two words, a separator at every seam,
are told by what comes out. No other parts make the same: there would be too many separators. -/
theorem glued_inj [DecidableEq α] (ha : separator ∉ a) (hb : separator ∉ b) (hc : separator ∉ c)
    (h : a ++ separator :: (v ++ separator :: (b ++ separator :: (w ++ separator :: c))) =
      x ++ separator :: (v ++ separator :: (y ++ separator :: (w ++ separator :: z)))) :
    a = x ∧ b = y ∧ c = z := by
  have hcount := congrArg (List.count separator) h
  simp only [List.count_append, List.count_cons_self, List.count_eq_zero.mpr ha,
    List.count_eq_zero.mpr hb, List.count_eq_zero.mpr hc] at hcount
  have hx : separator ∉ x := List.count_eq_zero.mp (by omega)
  have hy : separator ∉ y := List.count_eq_zero.mp (by omega)
  obtain ⟨hax, hsecond⟩ := append_cons_inj_of_notMem ha hx h
  obtain ⟨-, hsecond⟩ := List.cons.inj (List.append_cancel_left hsecond)
  obtain ⟨hby, hthird⟩ := append_cons_inj_of_notMem hb hy hsecond
  exact ⟨hax, hby, (List.cons.inj (List.append_cancel_left hthird)).2⟩

end Glued

variable {separator : Char} {text : List Char} {pieces : List (List Char)}

/-- What stands between the separators of some texts without one, one separator between any two, are
the texts. -/
theorem segments_intercalate (hne : pieces ≠ []) (hpieces : ∀ piece ∈ pieces, separator ∉ piece) :
    segments separator ([separator].intercalate pieces) = pieces := by
  induction pieces with
  | nil => exact absurd rfl hne
  | cons piece rest ih =>
    obtain ⟨hpiece, hrest⟩ := List.forall_mem_cons.mp hpieces
    cases rest with
    | nil =>
      rw [List.intercalate_singleton]
      exact segments_of_notMem hpiece
    | cons second others =>
      rw [List.intercalate_cons_cons, List.append_assoc, List.singleton_append,
        segments_append_cons hpiece, ih (List.cons_ne_nil second others) hrest]

theorem notMem_of_mem_segments : ∀ piece ∈ segments separator text, separator ∉ piece := by
  fun_induction segments separator text with
  | case1 => simp
  | case2 rest ih => simpa using ih
  | case3 c rest hne hnil ih => simp [Ne.symm hne]
  | case4 c rest hne segment others hcons ih =>
    rw [hcons, List.forall_mem_cons] at ih
    refine List.forall_mem_cons.mpr ⟨?_, ih.2⟩
    rw [List.mem_cons, not_or]
    exact ⟨Ne.symm hne, ih.1⟩

/-- The segments of a text are joined to the text again. -/
theorem intercalate_segments (separator : Char) (text : List Char) :
    [separator].intercalate (segments separator text) = text := by
  fun_induction segments separator text with
  | case1 => rfl
  | case2 rest ih =>
    obtain ⟨first, others, hsegments⟩ := List.exists_cons_of_ne_nil (segments_ne_nil separator rest)
    rw [hsegments] at ih ⊢
    rw [List.intercalate_cons_cons, ih]
    rfl
  | case3 c rest hne hnil => exact absurd hnil (segments_ne_nil separator rest)
  | case4 c rest hne segment others hcons ih =>
    rw [hcons] at ih
    cases others with
    | nil => simpa using ih
    | cons second others => rw [List.intercalate_cons_cons] at ih ⊢; rw [← ih]; rfl

/-- The segments of a text are what it is joined from, if no piece has the separator in it. -/
theorem segments_eq_iff : segments separator text = pieces ↔
    pieces ≠ [] ∧ (∀ piece ∈ pieces, separator ∉ piece) ∧ [separator].intercalate pieces = text := by
  constructor
  · rintro rfl
    exact ⟨segments_ne_nil separator text, notMem_of_mem_segments, intercalate_segments _ _⟩
  · rintro ⟨hne, hpieces, rfl⟩
    exact segments_intercalate hne hpieces

end Retention
