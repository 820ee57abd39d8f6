import Retention.Json.Printer
import Retention.Policy.Authored
import Retention.Proofs.Duration
import Retention.Proofs.Text.Segment

/-!
# Canonical rule texts

The JSON values that policies are written as, and their texts. Each of these texts says where it
ends: none is the beginning of another, so a text and whatever follows it can only be split in one
way. Hence two canonical values with one text are the same.

## Main definitions

* `Rule.Canonical`: the JSON values in which policies are written.

## Main results

* `Json.toList_quote_whole`: the text of a string without characters to escape.
* `Rule.Canonical.render_append_inj`: a canonical text ends in one place only.
* `Rule.Canonical.render_inj`: canonical values with one text are the same.
-/

namespace Retention

namespace Json

/-! ### Texts of strings -/

/-- Characters that need no escape stand for themselves. -/
theorem flatMap_escapePoint {chars : List Char} (h : ∀ c ∈ chars, escape c = [c]) :
    (chars.map Char.toNat).flatMap escapePoint = chars := by
  induction chars with
  | nil => rfl
  | cons c rest ih =>
    have hvalid : c.toNat.isValidChar := c.valid
    have hpoint : escapePoint c.toNat = [c] := by
      rw [escapePoint, if_pos hvalid, Text.character_toNat, h c List.mem_cons_self]
    rw [List.map_cons, List.flatMap_cons, hpoint,
      ih fun d hd => h d (List.mem_cons_of_mem _ hd)]
    rfl

/-- A string whose characters need no escape is written as it is. -/
theorem toList_quote_whole {text : String} (h : ∀ c ∈ text.toList, escape c = [c]) :
    (quote text).toList = '"' :: (text.toList ++ ['"']) := by
  rw [quote, String.toList_ofList, Text.points, flatMap_escapePoint h]
  rfl

/-- Letters and digits need no escape. -/
theorem escape_of_isAlphanum {c : Char} (h : c.isAlphanum = true) : escape c = [c] := by
  have hge : ((65 ≤ c.toNat ∧ c.toNat ≤ 90) ∨ (97 ≤ c.toNat ∧ c.toNat ≤ 122)) ∨
      (48 ≤ c.toNat ∧ c.toNat ≤ 57) := by
    simpa [Char.isAlphanum, Char.isAlpha, Char.isUpper, Char.isLower, Char.isDigit,
      UInt32.le_iff_toNat_le] using h
  have hquote : c ≠ '"' := by
    rintro rfl
    exact absurd h (by decide)
  have hslash : c ≠ '\\' := by
    rintro rfl
    exact absurd h (by decide)
  unfold escape
  rw [if_neg hquote, if_neg hslash, if_neg (by omega), if_neg (by omega), if_neg (by omega),
    if_neg (by omega), if_neg (by omega), if_neg (by omega)]

/-- A string of letters and digits is written as it is. -/
theorem toList_quote_of_isAlphanum {text : String} (h : ∀ c ∈ text.toList, c.isAlphanum = true) :
    (quote text).toList = '"' :: (text.toList ++ ['"']) :=
  toList_quote_whole fun c hc => escape_of_isAlphanum (h c hc)

end Json

/-! ### Canonical values -/

/-- A written duration has letters and digits only. -/
theorem Duration.isAlphanum_of_mem_write {seconds : Nat} (h : seconds ≤ 2 ^ 53) {c : Char}
    (hc : c ∈ (Duration.write (.int seconds)).toList) : c.isAlphanum = true := by
  obtain ⟨amount, unit, htext, -, hdigits, -⟩ := Duration.writes_write h
  rw [htext, List.mem_append, List.mem_singleton] at hc
  rcases hc with hc | rfl
  · rw [Char.isAlphanum, hdigits c hc, Bool.or_true]
  · cases unit <;> decide

namespace Rule

/-- The JSON values in which policies are written: an age in its largest unit, a number of
versions, or a mode and two or more rules. -/
inductive Canonical : Json → Prop
  | age {seconds : Nat} (hsafe : seconds ≤ 2 ^ 53 - 1) :
      Canonical (.object [(.whole "max_age", .string (Duration.write (.int seconds)))])
  | versions {count : Nat} (hlow : 1 ≤ count) (hhigh : count ≤ 2 ^ 31 - 1) :
      Canonical (.object [(.whole "max_version", .number (.int count))])
  | combination {mode : Mode} {items : List Json} (hcount : 2 ≤ items.length)
      (hitems : ∀ item ∈ items, Canonical item) :
      Canonical (.object [(.whole "mode", .string mode.word), (.whole "rules", .array items)])

/-! ### Their texts -/

/-- How the text of a rule begins: with the name of its first key, up to the character that tells
the names apart. -/
def ageStart : List Char := ['\x7b', '"', 'm', 'a', 'x', '_', 'a']

@[inherit_doc ageStart]
def versionsStart : List Char := ['\x7b', '"', 'm', 'a', 'x', '_', 'v']

@[inherit_doc ageStart]
def modeStart : List Char := ['\x7b', '"', 'm', 'o', 'd', 'e', '"']

theorem render_age_append {seconds : Nat} (h : seconds ≤ 2 ^ 53) (s : List Char) :
    (Json.render
        (.object [(.whole "max_age", .string (Duration.write (.int seconds)))])).toList ++ s =
      ageStart ++ ("ge\":\"".toList ++
        ((Duration.write (.int seconds)).toList ++ '"' :: '\x7d' :: s)) := by
  have hkey : (Json.quote (.whole "max_age")).toList = "\"max_age\"".toList := by decide
  have hvalue := Json.toList_quote_of_isAlphanum fun c hc => Duration.isAlphanum_of_mem_write h hc
  simp [Json.render, Json.renderMembers, hkey, hvalue, ageStart]

theorem render_versions_append (count : Nat) (s : List Char) :
    (Json.render (.object [(.whole "max_version", .number (.int count))])).toList ++ s =
      versionsStart ++ ("ersion\":".toList ++ (Number.characters (.int count) ++ '\x7d' :: s)) := by
  have hkey : (Json.quote (.whole "max_version")).toList = "\"max_version\"".toList := by decide
  simp [Json.render, Json.renderMembers, Json.renderNumber, hkey, versionsStart, Number.text]

theorem render_combination_append (mode : Mode) (items : List Json) (s : List Char) :
    (Json.render
        (.object [(.whole "mode", .string mode.word), (.whole "rules", .array items)])).toList ++ s =
      modeStart ++ (":\"".toList ++ (mode.word.toList ++ '"' :: (",\"rules\":[".toList ++
        ((",".intercalate (Json.renderItems items)).toList ++ ']' :: '\x7d' :: s)))) := by
  have hmode : (Json.quote (.whole "mode")).toList = "\"mode\"".toList := by decide
  have hrules : (Json.quote (.whole "rules")).toList = "\"rules\"".toList := by decide
  have hword : (Json.quote mode.word).toList = '"' :: (mode.word.toList ++ ['"']) := by
    cases mode <;> decide
  simp [Json.render, Json.renderMembers, hmode, hrules, hword, modeStart]

/-- Items whose texts end in one place only are told apart by their texts between commas, up to the
bracket that closes them. -/
theorem renderItems_append_inj {items others : List Json} {s t : List Char}
    (hitems : items ≠ []) (hothers : others ≠ []) (hcanonical : ∀ item ∈ others, Canonical item)
    (hinj : ∀ item ∈ items, ∀ {other : Json}, Canonical other → ∀ {s t : List Char},
      item.render.toList ++ s = other.render.toList ++ t → item = other ∧ s = t)
    (h : (",".intercalate (Json.renderItems items)).toList ++ ']' :: s =
      (",".intercalate (Json.renderItems others)).toList ++ ']' :: t) :
    items = others ∧ s = t := by
  -- What follows an item begins with a comma if there is another one, and else with the bracket.
  have hrest (item : Json) (rest : List Json) (s : List Char) :
      (",".intercalate (Json.renderItems (item :: rest))).toList ++ ']' :: s =
        item.render.toList ++
          (if rest = [] then ']' :: s
            else ',' :: ((",".intercalate (Json.renderItems rest)).toList ++ ']' :: s)) := by
    cases rest with
    | nil => simp [Json.renderItems]
    | cons next rest => simp [Json.renderItems]
  induction items generalizing others with
  | nil => exact absurd rfl hitems
  | cons item items ih =>
    obtain ⟨other, others, rfl⟩ := List.exists_cons_of_ne_nil hothers
    rw [hrest, hrest] at h
    obtain ⟨rfl, htail⟩ := hinj item List.mem_cons_self (hcanonical other List.mem_cons_self) h
    by_cases hnil : items = [] <;> by_cases hnil' : others = []
    · subst hnil hnil'
      exact ⟨rfl, by simpa using htail⟩
    · simp [hnil, hnil'] at htail
    · simp [hnil, hnil'] at htail
    · rw [if_neg hnil, if_neg hnil'] at htail
      obtain ⟨rfl, rfl⟩ := ih hnil hnil' (fun item h => hcanonical item (List.mem_cons_of_mem _ h))
        (fun item h => hinj item (List.mem_cons_of_mem _ h)) (List.cons.inj htail).2
      exact ⟨rfl, rfl⟩

/-- **A canonical text ends in one place only.** -/
theorem Canonical.render_append_inj {json other : Json} (hjson : Canonical json)
    (hother : Canonical other) {s t : List Char}
    (h : json.render.toList ++ s = other.render.toList ++ t) : json = other ∧ s = t := by
  -- The two texts begin alike, so they are of one kind.
  have hdistinct {start start' : List Char} {rest rest' : List Char}
      (h : start ++ rest = start' ++ rest') (hlength : start.length = start'.length)
      (hne : start ≠ start') : False := hne (List.append_inj h hlength).1
  induction hjson generalizing other s t with
  | @age seconds hsafe =>
    rw [render_age_append (by omega)] at h
    cases hother with
    | @age seconds' hsafe' =>
      rw [render_age_append (by omega)] at h
      have hquote {n : Nat} (hn : n ≤ 2 ^ 53) : '"' ∉ (Duration.write (.int n)).toList :=
        fun hc => absurd (Duration.isAlphanum_of_mem_write hn hc) (by decide)
      obtain ⟨htext, hrest⟩ := append_cons_inj_of_notMem (hquote (by omega)) (hquote (by omega))
        (List.append_cancel_left (List.append_cancel_left h))
      obtain rfl : seconds = seconds' :=
        Duration.write_inj (by omega) (by omega) (String.toList_inj.mp htext)
      exact ⟨rfl, (List.cons.inj hrest).2⟩
    | versions =>
      rw [render_versions_append] at h
      exact (hdistinct h rfl (by decide)).elim
    | combination =>
      rw [render_combination_append] at h
      exact (hdistinct h rfl (by decide)).elim
  | @versions count hlow hhigh =>
    rw [render_versions_append] at h
    cases hother with
    | age hsafe =>
      rw [render_age_append (by omega)] at h
      exact (hdistinct h rfl (by decide)).elim
    | @versions count' hlow' hhigh' =>
      rw [render_versions_append] at h
      have hbrace {n : Nat} (hn : n ≤ 2 ^ 53) : '\x7d' ∉ Number.characters (.int n) :=
        fun hc => absurd (Number.isDigit_of_mem_characters hn hc) (by decide)
      obtain ⟨htext, rfl⟩ := append_cons_inj_of_notMem (hbrace (by omega)) (hbrace (by omega))
        (List.append_cancel_left (List.append_cancel_left h))
      obtain rfl : count = count' := by
        rw [← Number.ofDigitChars_characters (n := count) (by omega), htext,
          Number.ofDigitChars_characters (by omega)]
      exact ⟨rfl, rfl⟩
    | combination =>
      rw [render_combination_append] at h
      exact (hdistinct h rfl (by decide)).elim
  | @combination mode items hcount hitems ih =>
    rw [render_combination_append] at h
    cases hother with
    | age hsafe =>
      rw [render_age_append (by omega)] at h
      exact (hdistinct h rfl (by decide)).elim
    | versions =>
      rw [render_versions_append] at h
      exact (hdistinct h rfl (by decide)).elim
    | @combination mode' items' hcount' hitems' =>
      rw [render_combination_append] at h
      have hquote (mode : Mode) : '"' ∉ mode.word.toList := by cases mode <;> decide
      obtain ⟨hword, hrest⟩ := append_cons_inj_of_notMem (hquote mode) (hquote mode')
        (List.append_cancel_left (List.append_cancel_left h))
      obtain rfl : mode = mode' := by
        revert hword
        cases mode <;> cases mode' <;> decide
      obtain ⟨rfl, hst⟩ := renderItems_append_inj (List.ne_nil_of_length_pos (by omega))
        (List.ne_nil_of_length_pos (by omega)) hitems' ih (List.append_cancel_left hrest)
      exact ⟨rfl, (List.cons.inj hst).2⟩

/-- Canonical values with one text are the same. -/
theorem Canonical.render_inj {json other : Json} (hjson : Canonical json)
    (hother : Canonical other) : json.render = other.render ↔ json = other := by
  constructor
  · intro h
    exact (hjson.render_append_inj hother (s := []) (t := []) (by rw [h])).1
  · rintro rfl
    rfl

end Rule

end Retention
