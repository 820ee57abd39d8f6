/-!
# Segments of a text

A text is cut at every separator; a text with `n` separators has `n + 1` segments.
-/

namespace Retention

/-- The segments of a text between the separators. -/
def segments (separator : Char) : List Char → List (List Char)
  | [] => [[]]
  | c :: rest =>
    if c = separator then [] :: segments separator rest
    else
      match segments separator rest with
      | [] => [[c]]
      | segment :: others => (c :: segment) :: others

theorem segments_ne_nil (separator : Char) (text : List Char) :
    segments separator text ≠ [] := by
  cases text with
  | nil => simp [segments]
  | cons c rest =>
    unfold segments
    split
    · simp
    · split <;> simp

/-- Text without a separator is its own only segment. -/
theorem segments_of_notMem {separator : Char} {text : List Char} (h : separator ∉ text) :
    segments separator text = [text] := by
  induction text with
  | nil => rfl
  | cons c rest ih =>
    have hc : c ≠ separator := fun e => h (by simp [e])
    have hrest : separator ∉ rest := fun m => h (List.mem_cons_of_mem c m)
    simp [segments, hc, ih hrest]

/-- A segment, a separator and more text: the segment comes first. -/
theorem segments_append_cons {separator : Char} {segment : List Char} (h : separator ∉ segment)
    (rest : List Char) :
    segments separator (segment ++ separator :: rest) = segment :: segments separator rest := by
  induction segment with
  | nil => simp [segments]
  | cons c others ih =>
    have hc : c ≠ separator := fun e => h (by simp [e])
    have hothers : separator ∉ others := fun m => h (List.mem_cons_of_mem c m)
    simp [segments, hc, ih hothers]

end Retention
