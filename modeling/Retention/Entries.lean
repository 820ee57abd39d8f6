/-!
# Entries

A list of keys and values with one value for each key. Putting a value in keeps the place
of a key that is there already; a new key comes last.
-/

namespace Retention.Entries

variable {κ α : Type} [DecidableEq κ]

/-- The entries with one more: in the place of the same key, or else at the end. -/
def put (key : κ) (value : α) : List (κ × α) → List (κ × α)
  | [] => [(key, value)]
  | (k, v) :: rest => if k = key then (key, value) :: rest else (k, v) :: put key value rest

/-- A value that has just been put in is found. -/
theorem lookup_put_self (key : κ) (value : α) (entries : List (κ × α)) :
    (put key value entries).lookup key = some value := by
  induction entries with
  | nil => simp [put]
  | cons entry rest ih =>
    obtain ⟨k, v⟩ := entry
    by_cases h : k = key
    · simp [put, h]
    · have hk : (key == k) = false := by simpa using fun e => h e.symm
      simp [put, h, List.lookup_cons, hk, ih]

/-- Putting a value in leaves the others as they are. -/
theorem lookup_put_of_ne {key other : κ} (h : other ≠ key) (value : α)
    (entries : List (κ × α)) :
    (put key value entries).lookup other = entries.lookup other := by
  induction entries with
  | nil =>
    have : (other == key) = false := by simpa using h
    simp [put, List.lookup_cons, this]
  | cons entry rest ih =>
    obtain ⟨k, v⟩ := entry
    by_cases hk : k = key
    · subst hk
      have : (other == k) = false := by simpa using h
      simp [put, List.lookup_cons, this]
    · simp [put, hk, List.lookup_cons, ih]

/-- Putting a value in for a key that is there keeps the keys and their places. -/
theorem map_fst_put_of_mem {key : κ} {entries : List (κ × α)}
    (h : key ∈ entries.map Prod.fst) (value : α) :
    (put key value entries).map Prod.fst = entries.map Prod.fst := by
  induction entries with
  | nil => simp at h
  | cons entry rest ih =>
    obtain ⟨k, v⟩ := entry
    by_cases hk : k = key
    · simp [put, hk]
    · have hrest : key ∈ rest.map Prod.fst := by
        rcases List.mem_cons.mp h with e | hmem
        · exact absurd e.symm hk
        · exact hmem
      simp [put, hk, ih hrest]

end Retention.Entries
