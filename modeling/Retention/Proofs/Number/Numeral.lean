import Retention.Proofs.Number.Rounding

/-!
# Decimal numerals without a point

A run of digits denotes a whole number. Up to `2 ^ 53` the double read from it is that
number itself; beyond that rounding never comes back below `2 ^ 53`, neither when the
numeral is read nor when it is multiplied by a unit afterwards.

* `digitRun_append`: a run of digits ends where something else begins.
* `ofDecimal_digits`: the double of a short run of digits is its value.
* `IsHuge`: the numbers from `2 ^ 53` on, infinity included, with `isHuge_ofDecimal` and
  `IsHuge.mulNat`.
* `ofText_text_int`, `ofText_text_signed`: a whole number is read back from its own text.
* `ofText_toString`: so it is from its decimal digits, which are that text.
-/

namespace Retention.Number

/-! ### Runs of digits -/

/-- A run of digits ends where something else begins. -/
theorem digitRun_append {digits rest : List Char} (hdigits : ∀ c ∈ digits, c.isDigit = true)
    (hrest : rest.takeWhile Char.isDigit = []) :
    digitRun (digits ++ rest) = (digits, rest) := by
  have hdrop : rest.dropWhile Char.isDigit = rest := by
    have h := List.takeWhile_append_dropWhile (p := Char.isDigit) (l := rest)
    rwa [hrest, List.nil_append] at h
  rw [digitRun, List.takeWhile_append_of_pos hdigits, List.dropWhile_append_of_pos hdigits, hrest,
    hdrop, List.append_nil]

/-- Digits alone are one run. -/
theorem digitRun_of_digits {digits : List Char} (h : ∀ c ∈ digits, c.isDigit = true) :
    digitRun digits = (digits, []) := by
  simpa using digitRun_append h (List.takeWhile_nil (p := Char.isDigit))

/-- A text is its leading run of digits and the rest. -/
theorem digitRun_fst_append_snd (text : List Char) :
    (digitRun text).1 ++ (digitRun text).2 = text :=
  List.takeWhile_append_dropWhile

theorem isDigit_of_mem_digitRun {text : List Char} {c : Char} (h : c ∈ (digitRun text).1) :
    c.isDigit = true :=
  List.mem_takeWhile_imp h

/-- Leading zeros do not count. -/
theorem ofDigitChars_dropWhile_zero (digits : List Char) :
    Nat.ofDigitChars 10 (digits.dropWhile (· = '0')) 0 = Nat.ofDigitChars 10 digits 0 := by
  induction digits with
  | nil => rfl
  | cons c rest ih =>
    by_cases hc : c = '0'
    · simp [hc, ih, Nat.ofDigitChars_cons]
    · simp [hc]

/-- A digit other than zero counts for at least one. -/
theorem one_le_digit {c : Char} (hc : c.isDigit = true) (hzero : c ≠ '0') :
    1 ≤ c.toNat - '0'.toNat := by
  have hge : 48 ≤ c.toNat := by
    simp only [Char.isDigit, Bool.and_eq_true, decide_eq_true_eq] at hc
    exact UInt32.le_iff_toNat_le.mp hc.1
  have hne : c.toNat ≠ 48 := fun h => hzero (Char.toNat_inj.mp h)
  change 1 ≤ c.toNat - 48
  omega

/-- A run that does not begin with zero denotes a number as large as its length says. -/
theorem pow_le_ofDigitChars {c : Char} {rest : List Char} (hc : c.isDigit = true)
    (hzero : c ≠ '0') : 10 ^ rest.length ≤ Nat.ofDigitChars 10 (c :: rest) 0 := by
  rw [Nat.ofDigitChars_cons, Nat.ofDigitChars_eq_ofDigitChars_zero]
  have hone := one_le_digit hc hzero
  calc 10 ^ rest.length = 10 ^ rest.length * 1 := (Nat.mul_one _).symm
    _ ≤ 10 ^ rest.length * (10 * 0 + (c.toNat - '0'.toNat)) :=
        Nat.mul_le_mul_left _ (by omega)
    _ ≤ _ := Nat.le_add_right _ _

/-- A run of digits whose value is small is short, once its leading zeros are dropped. -/
theorem length_dropWhile_zero_le {digits : List Char} (hdigits : ∀ c ∈ digits, c.isDigit = true)
    {k : Nat} (h : Nat.ofDigitChars 10 digits 0 < 10 ^ k) :
    (digits.dropWhile (· = '0')).length ≤ k := by
  rw [← ofDigitChars_dropWhile_zero] at h
  cases hd : digits.dropWhile (· = '0') with
  | nil => simp
  | cons c rest =>
    have hmem : c ∈ digits := List.dropWhile_subset _ (hd ▸ List.mem_cons_self)
    have hzero : c ≠ '0' := by
      have hhead := List.head?_dropWhile_not (fun c => decide (c = '0')) digits
      simpa [hd] using hhead
    rw [hd] at h
    have hlt := Nat.lt_of_le_of_lt (pow_le_ofDigitChars (hdigits c hmem) hzero) h
    exact (Nat.pow_lt_pow_iff_right (by decide)).mp hlt

/-! ### Values up to `2 ^ 53` -/

/-- Up to `2 ^ 53` the double of a run of digits with a sign is its value with that sign. -/
theorem ofDecimal_signed_digits (negative : Bool) {digits : List Char}
    (hdigits : ∀ c ∈ digits, c.isDigit = true) (h : Nat.ofDigitChars 10 digits 0 ≤ 2 ^ 53) :
    ofDecimal negative digits [] 0 = .int (signed negative (Nat.ofDigitChars 10 digits 0)) := by
  have hlength : (digits.dropWhile (· = '0')).length ≤ 16 :=
    length_dropWhile_zero_le hdigits (Nat.lt_of_le_of_lt h (by decide))
  have hround : ofInt (signed negative (Nat.ofDigitChars 10 digits 0)) =
      .int (signed negative (Nat.ofDigitChars 10 digits 0)) :=
    ofInt_of_natAbs_le (by rw [natAbs_signed]; exact h)
  simp only [ofDecimal, List.append_nil, ofDigitChars_dropWhile_zero]
  by_cases hzero : Nat.ofDigitChars 10 digits 0 = 0
  · simp [hzero, signed]
  · rw [if_neg hzero, if_neg (by simp; omega), if_neg (by simp), if_pos (by simp)]
    simpa using hround

/-- Up to `2 ^ 53` the double of a run of digits is its value. -/
theorem ofDecimal_digits {digits : List Char} (hdigits : ∀ c ∈ digits, c.isDigit = true)
    (h : Nat.ofDigitChars 10 digits 0 ≤ 2 ^ 53) :
    ofDecimal false digits [] 0 = .int (Nat.ofDigitChars 10 digits 0) :=
  ofDecimal_signed_digits false hdigits h

/-- Products of whole numbers are exact up to `2 ^ 53`. -/
theorem mulNat_int {n : Int} {factor : Nat} (h : (n * factor).natAbs ≤ 2 ^ 53) :
    mulNat (.int n) factor = .int (n * factor) :=
  ofInt_of_natAbs_le h

/-- Quotients that are whole are exact up to `2 ^ 53`. -/
theorem divNat_int {n : Int} {d : Nat} (hdvd : n % d = 0) (h : (n / d).natAbs ≤ 2 ^ 53) :
    divNat (.int n) d = .int (n / d) := by
  simp only [divNat, ratio?, Nat.one_mul, ofRatio]
  rw [if_pos ⟨hdvd, h⟩]

/-! ### Values beyond `2 ^ 53` -/

/-- A whole number from `2 ^ 53` on, or infinity. -/
def IsHuge (number : Number) : Prop :=
  number = .infinity false ∨ ∃ n : Nat, 2 ^ 53 ≤ n ∧ number = .int n

theorem isWholeIn_int {low high n : Int} :
    isWholeIn low high (.int n) = true ↔ low ≤ n ∧ n ≤ high :=
  decide_eq_true_iff

/-- Only whole numbers lie between two bounds. -/
theorem eq_int_of_isWholeIn {low high : Int} {number : Number}
    (h : number.isWholeIn low high = true) : ∃ n, number = .int n ∧ low ≤ n ∧ n ≤ high := by
  cases number with
  | int n => exact ⟨n, rfl, isWholeIn_int.mp h⟩
  | frac _ _ _ => simp [isWholeIn] at h
  | infinity _ => simp [isWholeIn] at h
  | nan => simp [isWholeIn] at h

/-- The safe numbers are those below `2 ^ 53`. -/
theorem natCast_le_maxSafe {n : Nat} : (n : Int) ≤ maxSafe ↔ n < 2 ^ 53 := by
  rw [maxSafe]
  omega

/-- Huge numbers are not safe. -/
theorem IsHuge.isWholeIn_maxSafe {number : Number} (h : IsHuge number) (low : Int) :
    number.isWholeIn low maxSafe = false := by
  rcases h with rfl | ⟨n, hn, rfl⟩
  · rfl
  · have h : ¬ (n : Int) ≤ maxSafe := fun h => by
      have := natCast_le_maxSafe.mp h
      omega
    simp [isWholeIn, h]

/-- Rounding a ratio from `2 ^ 53` on does not lead below `2 ^ 53`. -/
theorem isHuge_nearest {n d : Nat} (hd : 0 < d) (h : 2 ^ 53 * d ≤ n) :
    IsHuge (nearest false n d) := by
  have hn : 0 < n := Nat.lt_of_lt_of_le (by omega) h
  have hlog : 53 < floorLog2 n d + 1 := by
    have hratio : (2 : ℚ) ^ (53 : ℤ) * d < 2 ^ (floorLog2 n d + 1) * d :=
      lt_of_le_of_lt (by exact_mod_cast h) (lt_two_zpow_floorLog2 hd)
    have hd' : (0 : ℚ) < d := by exact_mod_cast hd
    exact (zpow_lt_zpow_iff_right₀ (by norm_num)).mp ((mul_lt_mul_iff_left₀ hd').mp hratio)
  obtain ⟨k, hk⟩ : ∃ k : Nat, floorLog2 n d = (k + 52 : Nat) :=
    ⟨(floorLog2 n d - 52).toNat, by omega⟩
  have hplace : lastPlace n d = .ofNat k := by
    rw [lastPlace, hk, Int.ofNat_eq_natCast]
    omega
  have hround : 2 ^ 52 ≤ roundDiv n (d * 2 ^ k) := by
    have hle : ((2 ^ (k + 52) * d : Nat) : ℚ) ≤ n := by
      have hpower := two_zpow_floorLog2_le (d := d) hn
      rw [hk, zpow_natCast] at hpower
      exact_mod_cast hpower
    refine Nat.le_trans ?_ (div_le_roundDiv _ _)
    rw [Nat.le_div_iff_mul_le (Nat.mul_pos hd (Nat.two_pow_pos k))]
    calc 2 ^ 52 * (d * 2 ^ k) = 2 ^ (k + 52) * d := by ring
      _ ≤ n := by exact_mod_cast hle
  have hmagnitude : 2 ^ 53 ≤ roundDiv n (d * 2 ^ k) * 2 ^ k := by
    have hk1 : 1 ≤ k := by omega
    calc 2 ^ 53 = 2 ^ 52 * 2 ^ 1 := by decide
      _ ≤ roundDiv n (d * 2 ^ k) * 2 ^ k :=
        Nat.mul_le_mul hround (Nat.pow_le_pow_right (by decide) hk1)
  rw [nearest, if_neg (Nat.ne_of_gt hn), hplace]
  dsimp only
  split_ifs
  · exact Or.inr ⟨_, hmagnitude, by simp [signed]⟩
  · exact Or.inl rfl

/-- Rounding a whole number from `2 ^ 53` on does not lead below `2 ^ 53`. -/
theorem isHuge_ofInt {n : Nat} (h : 2 ^ 53 ≤ n) : IsHuge (ofInt n) := by
  rcases Nat.eq_or_lt_of_le h with rfl | hlt
  · exact Or.inr ⟨2 ^ 53, le_refl _, ofInt_of_natAbs_le (le_refl _)⟩
  · have hneg : decide ((n : Int) < 0) = false := by simp
    rw [ofInt, ofRatio, if_neg (by simp; omega), hneg, Int.natAbs_natCast]
    exact isHuge_nearest Nat.one_pos (by omega)

/-- A run of digits whose value is huge is read as a huge number. -/
theorem isHuge_ofDecimal {digits : List Char} (h : 2 ^ 53 ≤ Nat.ofDigitChars 10 digits 0) :
    IsHuge (ofDecimal false digits [] 0) := by
  simp only [ofDecimal, List.append_nil, ofDigitChars_dropWhile_zero]
  rw [if_neg (by omega)]
  split_ifs with hlong hshort
  · exact Or.inl rfl
  · simp at hshort
    omega
  · simpa [signed] using isHuge_ofInt h
  · simp at *

/-- A positive multiple of a huge number is huge. -/
theorem IsHuge.mulNat {number : Number} (h : IsHuge number) {factor : Nat} (hf : 1 ≤ factor) :
    IsHuge (number.mulNat factor) := by
  rcases h with rfl | ⟨n, hn, rfl⟩
  · exact Or.inl rfl
  · have hle : 2 ^ 53 ≤ n * factor := Nat.le_trans hn (Nat.le_mul_of_pos_right n hf)
    have hmul : Number.mulNat (.int n) factor = ofInt ((n * factor : Nat) : Int) := by
      simp [Number.mulNat, ratio?, ofInt]
    rw [hmul]
    exact isHuge_ofInt hle

/-! ### The text of a whole number -/

/-- Whole numbers up to `2 ^ 53` are written with all their digits. -/
theorem characters_int {n : Nat} (h : n ≤ 2 ^ 53) :
    characters (.int n) = Nat.toDigits 10 n := by
  have hneg : ¬ (n : Int) < 0 := by omega
  have habs : (n : Int).natAbs = n := Int.natAbs_natCast n
  have hexact : n ≤ Nat.pow 2 53 := h
  rw [characters, wholeText, habs, if_pos hexact, if_neg hneg]

theorem isDigit_of_mem_characters {n : Nat} (h : n ≤ 2 ^ 53) {c : Char}
    (hc : c ∈ characters (.int n)) : c.isDigit = true := by
  rw [characters_int h] at hc
  exact Nat.isDigit_of_mem_toDigits (by decide) (by decide) hc

/-! ### Reading a run of digits -/

theorem isBlank_of_isDigit {c : Char} (h : c.isDigit = true) : isBlank c = false := by
  simp only [Char.isDigit, Bool.and_eq_true, decide_eq_true_eq] at h
  have hlow : 48 ≤ c.toNat := UInt32.le_iff_toNat_le.mp h.1
  have hhigh : c.toNat ≤ 57 := UInt32.le_iff_toNat_le.mp h.2
  rw [isBlank, List.contains_eq_mem, decide_eq_false_iff_not]
  simp only [blankCodes, List.mem_cons, List.not_mem_nil, or_false]
  omega

/-- There is nothing to trim where nothing is blank. -/
theorem trimBlanks_of_not_isBlank {text : List Char} (h : ∀ c ∈ text, isBlank c = false) :
    trimBlanks text = text := by
  have hkeep (text : List Char) (ht : ∀ c ∈ text, isBlank c = false) :
      text.dropWhile isBlank = text := by
    cases text with
    | nil => rfl
    | cons c rest => simp [ht c List.mem_cons_self]
  rw [trimBlanks, hkeep text h, hkeep text.reverse (fun c hc => h c (List.mem_reverse.mp hc)),
    List.reverse_reverse]

/-- There is nothing to trim around digits. -/
theorem trimBlanks_of_digits {digits : List Char} (h : ∀ c ∈ digits, c.isDigit = true) :
    trimBlanks digits = digits :=
  trimBlanks_of_not_isBlank fun c hc => isBlank_of_isDigit (h c hc)

/-- A run of digits is an unsigned numeral. -/
theorem unsigned_of_digits (negative : Bool) {digits : List Char} (hne : digits ≠ [])
    (h : ∀ c ∈ digits, c.isDigit = true) :
    ofNumeral?.unsigned negative digits = some (ofDecimal negative digits [] 0) := by
  have hword : digits ≠ "Infinity".toList := by
    rintro rfl
    exact absurd (h 'I' (by decide)) (by decide)
  rw [ofNumeral?.unsigned, if_neg hword, ofUnsignedDecimal?, digitRun_of_digits h]
  simp only [fractionPart, hne, false_and, if_false, exponentPart?, Option.map_some]

/-- A run of digits is a numeral in base ten without a sign. -/
theorem ofNumeral?_of_digits {digits : List Char} (hne : digits ≠ [])
    (h : ∀ c ∈ digits, c.isDigit = true) :
    ofNumeral? digits = some (ofDecimal false digits [] 0) := by
  have hunsigned := unsigned_of_digits false hne h
  -- Every other reading begins with a character that is no digit, or has one in second place.
  unfold ofNumeral?
  split
  case h_9 => exact hunsigned
  all_goals first
    | exact absurd (h _ (List.mem_cons_of_mem _ List.mem_cons_self)) (by decide)
    | exact absurd (h _ List.mem_cons_self) (by decide)

/-- A run of digits is read as the double of its value. -/
theorem ofText_ofList_digits {digits : List Char} (hne : digits ≠ [])
    (h : ∀ c ∈ digits, c.isDigit = true) :
    ofText (String.ofList digits) = ofDecimal false digits [] 0 := by
  rw [ofText, String.toList_ofList, trimBlanks_of_digits h]
  cases digits with
  | nil => exact absurd rfl hne
  | cons c rest =>
    change (ofNumeral? (c :: rest)).getD .nan = _
    rw [ofNumeral?_of_digits hne h, Option.getD_some]

/-- A run of digits after a minus sign is read as the negative of its value. -/
theorem ofText_minus_digits {digits : List Char} (hne : digits ≠ [])
    (hdigits : ∀ c ∈ digits, c.isDigit = true) (h : Nat.ofDigitChars 10 digits 0 ≤ 2 ^ 53) :
    ofText (String.ofList ('-' :: digits)) = .int (-(Nat.ofDigitChars 10 digits 0 : Int)) := by
  have hblank : ∀ c ∈ '-' :: digits, isBlank c = false :=
    List.forall_mem_cons.mpr ⟨by decide, fun c hc => isBlank_of_isDigit (hdigits c hc)⟩
  rw [ofText, String.toList_ofList, trimBlanks_of_not_isBlank hblank]
  change (ofNumeral?.unsigned true digits).getD .nan = _
  rw [unsigned_of_digits true hne hdigits, ofDecimal_signed_digits true hdigits h]
  rfl

/-! ### The digits of a whole number -/

/-- The digits of a whole number denote it. -/
theorem ofDigitChars_characters {n : Nat} (h : n ≤ 2 ^ 53) :
    Nat.ofDigitChars 10 (characters (.int n)) 0 = n := by
  rw [characters_int h, Nat.ofDigitChars_ten_toDigits]

theorem characters_int_ne_nil {n : Nat} (h : n ≤ 2 ^ 53) : characters (.int n) ≠ [] := by
  rw [characters_int h]
  exact Nat.toDigits_ne_nil

/-- A whole number is read back from its digits. -/
theorem ofDecimal_characters {n : Nat} (h : n ≤ 2 ^ 53) :
    ofDecimal false (characters (.int n)) [] 0 = .int n := by
  have hvalue := ofDigitChars_characters h
  rw [ofDecimal_digits (fun c => isDigit_of_mem_characters h) (by rwa [hvalue]), hvalue]

/-- A whole number is read back from its text. -/
theorem ofText_text_int {n : Nat} (h : n ≤ 2 ^ 53) : ofText (text (.int n)) = .int n := by
  rw [text, ofText_ofList_digits (characters_int_ne_nil h)
    (fun c => isDigit_of_mem_characters h), ofDecimal_characters h]

/-- A whole number of either sign is read back from its text. -/
theorem ofText_text_signed {n : Int} (h : n.natAbs ≤ 2 ^ 53) : ofText (text (.int n)) = .int n := by
  obtain ⟨k, rfl | rfl⟩ := n.eq_nat_or_neg
  · exact ofText_text_int (by omega)
  obtain rfl | hk := Nat.eq_zero_or_pos k
  · exact ofText_text_int (Nat.zero_le _)
  have hbound : k ≤ 2 ^ 53 := by omega
  have hcharacters : characters (.int (-(k : Int))) = '-' :: Nat.toDigits 10 k := by
    have habs : (-(k : Int)).natAbs = k := by omega
    have hle : k ≤ Nat.pow 2 53 := hbound
    rw [characters, wholeText, habs, if_pos hle, if_pos (by omega)]
  have hvalue : Nat.ofDigitChars 10 (Nat.toDigits 10 k) 0 = k := Nat.ofDigitChars_ten_toDigits
  rw [text, hcharacters, ofText_minus_digits Nat.toDigits_ne_nil
    (fun c => Nat.isDigit_of_mem_toDigits (by decide) (by decide)) (by rwa [hvalue]), hvalue]

/-- Up to `2 ^ 53` a whole number is written as its decimal digits. -/
theorem text_int {n : ℤ} (h : n.natAbs ≤ 2 ^ 53) : text (.int n) = toString n := by
  have hle : n.natAbs ≤ Nat.pow 2 53 := h
  rw [text, characters, if_pos hle, wholeText]
  cases n with
  | ofNat n => rfl
  | negSucc n =>
    rw [if_pos (Int.negSucc_lt_zero n)]
    change String.ofList (['-'] ++ Nat.toDigits 10 (n + 1)) = "-" ++ Nat.repr (n + 1)
    rw [String.ofList_append]
    rfl

/-- A whole number is read back from its decimal digits. -/
theorem ofText_toString {n : ℤ} (h : n.natAbs ≤ 2 ^ 53) : ofText (toString n) = .int n := by
  rw [← text_int h, ofText_text_signed h]

end Retention.Number
