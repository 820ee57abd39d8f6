import Retention.Proofs.Duration
import Retention.Proofs.Step

/-!
# The grammar of rule texts

The JSON values that are read as rules form a grammar, and a rule that is read mirrors its
text node for node. Keys are looked up, so the order of an object's members does not matter,
and a key whose value is null is there all the same.

## Main definitions

* `Mode.Spells`: a word is that of a mode, in any letter case.
* `IsSingle`, `IsComposite`: the objects of single and of composite rules.
* `Rule.Grammar`: the JSON values that write a rule.
* `Rule.Mirrors`: a rule has the shape and the values of a JSON value.

## Main results

* `Mode.ofWord?_eq_some_iff`: the words of a mode.
* `Json.rules_induction`: induction over a value and the items of its members `rules`.
* `Rule.grammar_and_mirrors_of_read`, `Rule.exists_read_of_grammar`: the two directions.
* `Rule.read_iff_grammar`: a value is read exactly when it is in the grammar, and the rule
  then mirrors it.
-/

namespace Retention

/-! ### Words in any letter case -/

/-- A word is another one with some of its letters possibly capitals. -/
def EqIgnoringCase (word lower : List Char) : Prop :=
  List.Forall₂ (fun given letter => given = letter ∨ given = letter.toUpper) word lower

/-- A word spells a mode, in any letter case. -/
def Mode.Spells (mode : Mode) (word : String) : Prop :=
  EqIgnoringCase word.toList mode.word.toList

theorem toNat_toLower (c : Char) :
    c.toLower.toNat = if 65 ≤ c.toNat ∧ c.toNat ≤ 90 then c.toNat + 32 else c.toNat := by
  have hiff : (c.val ≥ 'A'.val ∧ c.val ≤ 'Z'.val) ↔ 65 ≤ c.toNat ∧ c.toNat ≤ 90 := by
    simp only [ge_iff_le, UInt32.le_iff_toNat_le]
    rfl
  simp only [Char.toLower, ge_iff_le, hiff]
  split_ifs with h
  · change (c.val + ('a'.val - 'A'.val)).toNat = c.toNat + 32
    have hstep : ('a'.val - 'A'.val).toNat = 32 := by decide
    have hval : c.val.toNat = c.toNat := rfl
    rw [UInt32.toNat_add, hstep, hval]
    omega
  · rfl

theorem toNat_toUpper (c : Char) :
    c.toUpper.toNat = if 97 ≤ c.toNat ∧ c.toNat ≤ 122 then c.toNat - 32 else c.toNat := by
  have hiff : ('a'.val ≤ c.val ∧ c.val ≤ 'z'.val) ↔ 97 ≤ c.toNat ∧ c.toNat ≤ 122 := by
    simp only [UInt32.le_iff_toNat_le]
    rfl
  simp only [Char.toUpper, hiff]
  split_ifs with h
  · change (c.val + ('A'.val - 'a'.val)).toNat = c.toNat - 32
    have hstep : ('A'.val - 'a'.val).toNat = 2 ^ 32 - 32 := by decide
    have hval : c.val.toNat = c.toNat := rfl
    rw [UInt32.toNat_add, hstep, hval]
    omega
  · rfl

/-- Lowering a character gives a lower-case letter exactly when it is that letter or its
capital. -/
theorem toLower_eq_iff {c letter : Char} (h : letter.isLower = true) :
    c.toLower = letter ↔ c = letter ∨ c = letter.toUpper := by
  have hletter : 97 ≤ letter.toNat ∧ letter.toNat ≤ 122 := by
    simpa [Char.isLower, UInt32.le_iff_toNat_le] using h
  rw [← Char.toNat_inj, ← Char.toNat_inj, ← Char.toNat_inj, toNat_toLower, toNat_toUpper]
  split_ifs <;> omega

/-- Lowering a word gives a word in lower case exactly when it is that word, case aside. -/
theorem map_toLower_eq_iff {word lower : List Char} (h : ∀ letter ∈ lower, letter.isLower = true) :
    word.map Char.toLower = lower ↔ EqIgnoringCase word lower := by
  rw [EqIgnoringCase]
  induction lower generalizing word with
  | nil => simp
  | cons letter lower ih =>
    rw [List.forall₂_cons_right_iff, List.map_eq_cons_iff]
    have hletter := h letter List.mem_cons_self
    have hlower := fun c hc => h c (List.mem_cons_of_mem letter hc)
    constructor
    · rintro ⟨c, rest, rfl, hc, hrest⟩
      exact ⟨c, rest, (toLower_eq_iff hletter).mp hc, (ih hlower).mp hrest, rfl⟩
    · rintro ⟨c, rest, hc, hrest, rfl⟩
      exact ⟨c, rest, rfl, (toLower_eq_iff hletter).mpr hc, (ih hlower).mpr hrest⟩

theorem Mode.isLower_of_mem_word (mode : Mode) :
    ∀ letter ∈ mode.word.toList, letter.isLower = true := by
  have hall : mode.word.toList.all Char.isLower = true := by cases mode <;> rfl
  exact List.all_eq_true.mp hall

theorem lowerCase_eq_word_iff {word : String} {mode : Mode} :
    lowerCase word = mode.word.toList ↔ mode.Spells word :=
  map_toLower_eq_iff mode.isLower_of_mem_word

/-- The words of a mode are those that spell it. -/
theorem Mode.ofWord?_eq_some_iff {word : String} {mode : Mode} :
    Mode.ofWord? word = some mode ↔ mode.Spells word := by
  rw [← lowerCase_eq_word_iff]
  constructor
  · intro h
    simpa using List.find?_some h
  · intro h
    simp only [Mode.ofWord?, h]
    cases mode <;> decide

/-- A mode is spelled by its own word. -/
theorem Mode.spells_word (mode : Mode) : mode.Spells mode.word :=
  List.forall₂_same.mpr fun _ _ => Or.inl rfl

/-! ### The grammar -/

/-- The object of a single rule: one key is all there is, and it has a given value. -/
structure IsSingle (members : List (Text × Json)) (key : Text) (value : Json) : Prop where
  key_eq : ∀ member ∈ members, member.1 = key
  lookup_eq : members.lookup key = some value

/-- The object of a composite rule: its keys are `rules`, whose value is an array of given
items, and possibly `mode`. -/
structure IsComposite (members : List (Text × Json)) (items : List Json) : Prop where
  key_eq : ∀ member ∈ members, member.1 = .whole "mode" ∨ member.1 = .whole "rules"
  lookup_eq : members.lookup (.whole "rules") = some (.array items)

/-- An object with one of two keys and without the other is that of a single rule. -/
theorem isSingle_of_lookup {members : List (Text × Json)} {key other : Text} {value : Json}
    (hkeys : ∀ member ∈ members, member.1 = key ∨ member.1 = other)
    (hkey : members.lookup key = some value) (hother : members.lookup other = none) :
    IsSingle members key value := by
  refine ⟨fun member hmem => (hkeys member hmem).resolve_right ?_, hkey⟩
  rintro rfl
  simp only [List.lookup_eq_none_iff] at hother
  simpa using hother member hmem

theorem IsSingle.lookup_of_ne {members : List (Text × Json)} {key other : Text} {value : Json}
    (h : IsSingle members key value) (hne : other ≠ key) : members.lookup other = none := by
  simp only [List.lookup_eq_none_iff, bne_iff_ne]
  rintro member hmem rfl
  exact hne (h.key_eq member hmem)

namespace Rule

/-- The JSON values that write a rule: an object with one rule and no mode, one with a mode
and at least two rules, one with a safe duration, or one with a number of versions. -/
inductive Grammar : Json → Prop
  | wrapper {members : List (Text × Json)} {item : Json} (hnode : IsComposite members [item])
      (hmode : members.lookup (.whole "mode") = none) (hitem : Grammar item) :
      Grammar (.object members)
  | combination {members : List (Text × Json)} {items : List Json} {word : String} {mode : Mode}
      (hnode : IsComposite members items)
      (hmode : members.lookup (.whole "mode") = some (.string (.whole word)))
      (hword : mode.Spells word) (hcount : 2 ≤ items.length)
      (hitems : ∀ item ∈ items, Grammar item) :
      Grammar (.object members)
  | age {members : List (Text × Json)} {text : String} {seconds : Nat}
      (hnode : IsSingle members (.whole "max_age") (.string (.whole text)))
      (htext : Duration.Writes text seconds) (hsafe : seconds ≤ 2 ^ 53 - 1) :
      Grammar (.object members)
  | versions {members : List (Text × Json)} {count : Nat}
      (hnode : IsSingle members (.whole "max_version") (.number (.int count)))
      (hlow : 1 ≤ count) (hhigh : count ≤ 2 ^ 31 - 1) :
      Grammar (.object members)

/-- A rule mirrors a JSON value node for node: it has the mode that is spelled, or none if
there is none, the rules that mirror the items in their order, the seconds that are written,
and the number of versions that is given. -/
inductive Mirrors : Json → Rule → Prop
  | wrapper {members : List (Text × Json)} {items : List Json} {rules : List Rule}
      (hnode : IsComposite members items) (hmode : members.lookup (.whole "mode") = none)
      (hlength : items.length = rules.length)
      (hrules : ∀ pair ∈ items.zip rules, Mirrors pair.1 pair.2) :
      Mirrors (.object members) (.composite none rules)
  | combination {members : List (Text × Json)} {items : List Json} {word : String} {mode : Mode}
      {rules : List Rule} (hnode : IsComposite members items)
      (hmode : members.lookup (.whole "mode") = some (.string (.whole word)))
      (hword : mode.Spells word) (hlength : items.length = rules.length)
      (hrules : ∀ pair ∈ items.zip rules, Mirrors pair.1 pair.2) :
      Mirrors (.object members) (.composite (some mode) rules)
  | age {members : List (Text × Json)} {text : String} {seconds : Nat}
      (hnode : IsSingle members (.whole "max_age") (.string (.whole text)))
      (htext : Duration.Writes text seconds) :
      Mirrors (.object members) (.maxAge (.int seconds))
  | versions {members : List (Text × Json)} {count : Nat}
      (hnode : IsSingle members (.whole "max_version") (.number (.int count))) :
      Mirrors (.object members) (.maxVersions (.int count))

/-! ### The checks of one node -/

theorem checkKeys_eq_ok_iff {allowed : List Text} {members : List (Text × Json)} {done : Unit} :
    checkKeys allowed members = .ok done ↔ ∀ member ∈ members, member.1 ∈ allowed := by
  rw [checkKeys]
  cases hfind : members.find? fun member => !allowed.contains member.1 with
  | none => simpa using hfind
  | some member =>
    have hmem := List.mem_of_find?_eq_some hfind
    have hnot := List.find?_some hfind
    simp only [reduceCtorEq, false_iff]
    intro hall
    simp [hall member hmem] at hnot

theorem readMode_eq_ok_iff {value : Json} {mode : Mode} :
    readMode value = .ok mode ↔ ∃ word, value = .string (.whole word) ∧ mode.Spells word := by
  unfold readMode
  split
  case h_1 word =>
    cases hword : Mode.ofWord? word with
    | none =>
      simp only [Option.elim_none, reduceCtorEq, false_iff]
      rintro ⟨word, ⟨⟩, hspells⟩
      simp [Mode.ofWord?_eq_some_iff.mpr hspells] at hword
    | some found =>
      simp only [Option.elim_some, Except.ok.injEq]
      constructor
      · rintro rfl
        exact ⟨word, rfl, Mode.ofWord?_eq_some_iff.mp hword⟩
      · rintro ⟨word, ⟨⟩, hspells⟩
        rw [Mode.ofWord?_eq_some_iff.mpr hspells] at hword
        exact (Option.some.inj hword).symm
  case h_2 hother =>
    simp only [reduceCtorEq, false_iff]
    rintro ⟨word, rfl, -⟩
    exact hother word rfl

theorem checkCount_eq_ok_iff {mode : Option Mode} {count : Nat} :
    checkCount mode count = .ok () ↔ (mode = none ∧ count = 1) ∨ (mode ≠ none ∧ 2 ≤ count) := by
  have hok {test : Prop} [Decidable test] {fault : RuleFault} :
      (if test then Except.ok () else .error fault) = .ok () ↔ test := by
    split <;> simp [*]
  cases mode with
  | none => exact hok.trans (by simp)
  | some mode => exact hok.trans (by simp)

theorem readAge_eq_ok_iff {value : Json} {number : Number} :
    readAge value = .ok number ↔ ∃ (text : String) (seconds : Nat), value = .string (.whole text) ∧
      Duration.Writes text seconds ∧ seconds ≤ 2 ^ 53 - 1 ∧ number = .int seconds := by
  have hread {text : String} : Duration.read? text = some number ↔ ∃ seconds : Nat,
      Duration.Writes text seconds ∧ seconds ≤ 2 ^ 53 - 1 ∧ number = .int seconds := by
    have hsafe {n : Nat} : (n : Int) ≤ Number.maxSafe ↔ n ≤ 2 ^ 53 - 1 :=
      Number.natCast_le_maxSafe.trans (by omega)
    simp only [Duration.read?_eq_some_iff, hsafe]
  unfold readAge
  split
  case h_1 text =>
    simp only [Json.string.injEq, Text.whole.injEq, exists_and_left, exists_eq_left', ← hread]
    cases Duration.read? text <;> simp
  case h_2 hother =>
    simp only [reduceCtorEq, false_iff]
    rintro ⟨text, _, rfl, -⟩
    exact hother text rfl

theorem readCount_eq_ok_iff {value : Json} {number : Number} :
    readCount value = .ok number ↔ ∃ count : Nat, value = .number (.int count) ∧ 1 ≤ count ∧
      count ≤ 2 ^ 31 - 1 ∧ number = .int count := by
  have hrange {n : Int} : Number.isWholeIn 1 maxVersionCount (.int n) = true ↔
      1 ≤ n ∧ n ≤ 2147483647 := Number.isWholeIn_int
  unfold readCount
  split
  case h_1 given =>
    constructor
    · intro h
      split_ifs at h with hgiven
      obtain ⟨n, rfl, -⟩ := Number.eq_int_of_isWholeIn hgiven
      obtain ⟨hlow, hhigh⟩ := hrange.mp hgiven
      lift n to Nat using by omega
      exact ⟨n, rfl, by omega, by omega, (Except.ok.inj h).symm⟩
    · rintro ⟨count, ⟨⟩, hlow, hhigh, rfl⟩
      rw [if_pos (hrange.mpr (by omega))]
  case h_2 hother =>
    simp only [reduceCtorEq, false_iff]
    rintro ⟨count, rfl, -⟩
    exact hother _ rfl

/-- A member that a composite object may have names the mode it has. -/
def ModeGiven (members : List (Text × Json)) : Option Mode → Prop
  | none => members.lookup (.whole "mode") = none
  | some mode => ∃ word, members.lookup (.whole "mode") = some (.string (.whole word)) ∧
      mode.Spells word

/-- The checks of a composite node pass exactly when its keys are those of one, its rules are
an array, and their number suits the mode. -/
theorem readComposite_eq_ok_iff {members : List (Text × Json)} {rules : Json} {node : Node} :
    readComposite members rules = .ok node ↔
      ∃ items mode, rules = .array items ∧
        (∀ member ∈ members, member.1 = .whole "mode" ∨ member.1 = .whole "rules") ∧
        ModeGiven members mode ∧ checkCount mode items.length = .ok () ∧ node = .composite mode := by
  have hallowed {done : Unit} : checkKeys ["mode", "rules"] members = .ok done ↔
      ∀ member ∈ members, member.1 = .whole "mode" ∨ member.1 = .whole "rules" := by
    simp only [checkKeys_eq_ok_iff, List.mem_cons, List.not_mem_nil, or_false]
  unfold readComposite
  rw [bind_eq_ok_iff]
  constructor
  · rintro ⟨_, hkeys, h⟩
    split at h
    case h_2 => cases h
    case h_1 items =>
      split at h
      case h_1 hnone =>
        obtain ⟨_, ⟨⟩, hrest⟩ := bind_eq_ok_iff.mp h
        obtain ⟨_, hcount, ⟨⟩⟩ := bind_eq_ok_iff.mp hrest
        exact ⟨items, none, rfl, hallowed.mp hkeys, hnone, hcount, rfl⟩
      case h_2 value hvalue =>
        obtain ⟨_, hfound, hrest⟩ := bind_eq_ok_iff.mp h
        obtain ⟨mode, hmode, rfl⟩ := map_eq_ok_iff.mp hfound
        obtain ⟨word, rfl, hword⟩ := readMode_eq_ok_iff.mp hmode
        obtain ⟨_, hcount, ⟨⟩⟩ := bind_eq_ok_iff.mp hrest
        exact ⟨items, some mode, rfl, hallowed.mp hkeys, ⟨word, hvalue, hword⟩, hcount, rfl⟩
  · rintro ⟨items, mode, rfl, hkeys, hmode, hcount, rfl⟩
    refine ⟨(), hallowed.mpr hkeys, ?_⟩
    cases mode with
    | none =>
      rw [ModeGiven] at hmode
      simp only [hmode]
      exact bind_eq_ok_iff.mpr ⟨none, rfl, bind_eq_ok_iff.mpr ⟨(), hcount, rfl⟩⟩
    | some mode =>
      obtain ⟨word, hlookup, hword⟩ := hmode
      simp only [hlookup]
      refine bind_eq_ok_iff.mpr ⟨some mode, ?_, bind_eq_ok_iff.mpr ⟨(), hcount, rfl⟩⟩
      exact map_eq_ok_iff.mpr ⟨mode, readMode_eq_ok_iff.mpr ⟨word, rfl, hword⟩, rfl⟩

/-- The checks of a single rule pass exactly when its only key is an age or a number of
versions, with a value that is one. -/
theorem readSingle_eq_ok_iff {members : List (Text × Json)} {node : Node} :
    readSingle members = .ok node ↔
      (∃ value number, IsSingle members (.whole "max_age") value ∧ readAge value = .ok number ∧
        node = .single (.maxAge number)) ∨
      (∃ value number, IsSingle members (.whole "max_version") value ∧
        readCount value = .ok number ∧ node = .single (.maxVersions number)) := by
  have hallowed {done : Unit} : checkKeys ["max_age", "max_version"] members = .ok done ↔
      ∀ member ∈ members, member.1 = .whole "max_age" ∨ member.1 = .whole "max_version" := by
    simp only [checkKeys_eq_ok_iff, List.mem_cons, List.not_mem_nil, or_false]
  unfold readSingle
  rw [bind_eq_ok_iff]
  constructor
  · rintro ⟨_, hkeys, h⟩
    rw [hallowed] at hkeys
    split at h
    case h_1 => cases h
    case h_2 value hage hversion =>
      obtain ⟨number, hnumber, rfl⟩ := map_eq_ok_iff.mp h
      exact Or.inl ⟨value, number, isSingle_of_lookup hkeys hage hversion, hnumber, rfl⟩
    case h_3 value hage hversion =>
      obtain ⟨number, hnumber, rfl⟩ := map_eq_ok_iff.mp h
      have hkeys' := fun member hmem => (hkeys member hmem).symm
      exact Or.inr ⟨value, number, isSingle_of_lookup hkeys' hversion hage, hnumber, rfl⟩
    case h_4 => cases h
  · rintro (⟨value, number, hnode, hnumber, rfl⟩ | ⟨value, number, hnode, hnumber, rfl⟩)
    · have hnone := hnode.lookup_of_ne (show Text.whole "max_version" ≠ _ by decide)
      refine ⟨(), hallowed.mpr fun member hmem => Or.inl (hnode.key_eq member hmem), ?_⟩
      simp only [hnode.lookup_eq, hnone]
      exact map_eq_ok_iff.mpr ⟨number, hnumber, rfl⟩
    · have hnone := hnode.lookup_of_ne (show Text.whole "max_age" ≠ _ by decide)
      refine ⟨(), hallowed.mpr fun member hmem => Or.inr (hnode.key_eq member hmem), ?_⟩
      simp only [hnode.lookup_eq, hnone]
      exact map_eq_ok_iff.mpr ⟨number, hnumber, rfl⟩

/-- A node is a single rule exactly when its only key is an age or a number of versions. -/
theorem readNode_eq_single_iff {members : List (Text × Json)} {rule : Rule} :
    readNode members = .ok (.single rule) ↔
      (∃ text seconds, IsSingle members (.whole "max_age") (.string (.whole text)) ∧
        Duration.Writes text seconds ∧ seconds ≤ 2 ^ 53 - 1 ∧ rule = .maxAge (.int seconds)) ∨
      (∃ count : Nat, IsSingle members (.whole "max_version") (.number (.int count)) ∧
        1 ≤ count ∧ count ≤ 2 ^ 31 - 1 ∧ rule = .maxVersions (.int count)) := by
  constructor
  · intro h
    unfold readNode at h
    split at h
    · obtain ⟨_, _, -, -, -, -, ⟨⟩⟩ := readComposite_eq_ok_iff.mp h
    · obtain ⟨value, number, hnode, hage, ⟨⟩⟩ | ⟨value, number, hnode, hcount, ⟨⟩⟩ :=
        readSingle_eq_ok_iff.mp h
      · obtain ⟨text, seconds, rfl, htext, hsafe, rfl⟩ := readAge_eq_ok_iff.mp hage
        exact Or.inl ⟨text, seconds, hnode, htext, hsafe, rfl⟩
      · obtain ⟨count, rfl, hlow, hhigh, rfl⟩ := readCount_eq_ok_iff.mp hcount
        exact Or.inr ⟨count, hnode, hlow, hhigh, rfl⟩
  · rintro (⟨text, seconds, hnode, htext, hsafe, rfl⟩ | ⟨count, hnode, hlow, hhigh, rfl⟩)
    · rw [readNode, hnode.lookup_of_ne (show Text.whole "rules" ≠ _ by decide)]
      exact readSingle_eq_ok_iff.mpr (Or.inl ⟨_, _, hnode,
        readAge_eq_ok_iff.mpr ⟨text, seconds, rfl, htext, hsafe, rfl⟩, rfl⟩)
    · rw [readNode, hnode.lookup_of_ne (show Text.whole "rules" ≠ _ by decide)]
      exact readSingle_eq_ok_iff.mpr (Or.inr ⟨_, _, hnode,
        readCount_eq_ok_iff.mpr ⟨count, rfl, hlow, hhigh, rfl⟩, rfl⟩)

/-- A node is composite exactly when it has the keys of one and as many rules as suit the
mode. -/
theorem readNode_eq_composite_iff {members : List (Text × Json)} {mode : Option Mode} :
    readNode members = .ok (.composite mode) ↔
      ∃ items, IsComposite members items ∧ ModeGiven members mode ∧
        ((mode = none ∧ items.length = 1) ∨ (mode ≠ none ∧ 2 ≤ items.length)) := by
  constructor
  · intro h
    unfold readNode at h
    split at h
    case h_1 rules hlookup =>
      obtain ⟨items, _, rfl, hkeys, hmode, hcount, ⟨⟩⟩ := readComposite_eq_ok_iff.mp h
      exact ⟨items, ⟨hkeys, hlookup⟩, hmode, checkCount_eq_ok_iff.mp hcount⟩
    case h_2 =>
      rcases readSingle_eq_ok_iff.mp h with ⟨_, _, -, -, ⟨⟩⟩ | ⟨_, _, -, -, ⟨⟩⟩
  · rintro ⟨items, hnode, hmode, hcount⟩
    rw [readNode, hnode.lookup_eq]
    exact readComposite_eq_ok_iff.mpr
      ⟨items, mode, rfl, hnode.key_eq, hmode, checkCount_eq_ok_iff.mpr hcount, rfl⟩

/-! ### The nodes below -/

/-- A rule is read alike at the top level and below it. -/
theorem read_isTopLevel (raw : Json) (isTopLevel : Bool) :
    read raw isTopLevel = read raw false := by
  cases raw <;> rfl

/-- The rules of an object are those of the array in its member `rules`. -/
theorem readRules_of_lookup {members : List (Text × Json)} {items : List Json}
    (h : members.lookup (.whole "rules") = some (.array items)) :
    readRules members = readAll 0 items := by
  induction members with
  | nil => simp at h
  | cons member rest ih =>
    obtain ⟨key, value⟩ := member
    rw [List.lookup_cons] at h
    by_cases hkey : key = .whole "rules"
    · subst hkey
      obtain rfl : value = .array items := by simpa using h
      rw [readRules, if_pos rfl, readItems]
    · have hbeq : ((.whole "rules" : Text) == key) = false := by
        simpa using fun e => hkey e.symm
      rw [readRules, if_neg hkey]
      exact ih (by simpa [hbeq] using h)

/-- Some items are read when each of them is, and the rules come in their order. -/
theorem readAll_eq_ok_iff {position : Nat} {items : List Json} {rules : List Rule} :
    readAll position items = .ok rules ↔
      List.Forall₂ (fun item rule => read item false = .ok rule) items rules := by
  induction items generalizing position rules with
  | nil => simp [readAll, eq_comm]
  | cons item rest ih =>
    rw [readAll, List.forall₂_cons_left_iff]
    cases hitem : read item false with
    | error error => simp
    | ok rule =>
      simp only [exceptMap_eq_ok_iff, ih, Except.ok.injEq]
      constructor
      · rintro ⟨others, hothers, rfl⟩
        exact ⟨rule, others, rfl, hothers, rfl⟩
      · rintro ⟨_, others, rfl, hothers, rfl⟩
        exact ⟨others, hothers, rfl⟩

/-- An object is read as a single rule, or as a composite one whose items are read. -/
theorem read_object_eq_ok_iff {members : List (Text × Json)} {isTopLevel : Bool} {rule : Rule} :
    read (.object members) isTopLevel = .ok rule ↔
      readNode members = .ok (.single rule) ∨
      ∃ mode items rules, readNode members = .ok (.composite mode) ∧ IsComposite members items ∧
        List.Forall₂ (fun item rule => read item false = .ok rule) items rules ∧
        rule = .composite mode rules := by
  rw [read]
  constructor
  · intro h
    split at h
    case h_1 => cases h
    case h_2 single hnode =>
      cases h
      exact Or.inl hnode
    case h_3 mode hnode =>
      obtain ⟨items, hcomposite, -⟩ := readNode_eq_composite_iff.mp hnode
      rw [readRules_of_lookup hcomposite.lookup_eq] at h
      obtain ⟨rules, hrules, rfl⟩ := exceptMap_eq_ok_iff.mp h
      exact Or.inr ⟨mode, items, rules, hnode, hcomposite, readAll_eq_ok_iff.mp hrules, rfl⟩
  · rintro (hnode | ⟨mode, items, rules, hnode, hcomposite, hrules, rfl⟩)
    · simp only [hnode]
    · simp only [hnode]
      rw [readRules_of_lookup hcomposite.lookup_eq, readAll_eq_ok_iff.mpr hrules]
      rfl

end Rule

/-! ### Lists side by side -/

/-- When every item has a counterpart, the items have a list of counterparts. -/
theorem exists_forall₂ {α β : Type} {R : α → β → Prop} {items : List α}
    (h : ∀ item ∈ items, ∃ other, R item other) : ∃ others, List.Forall₂ R items others := by
  induction items with
  | nil => exact ⟨[], .nil⟩
  | cons item rest ih =>
    obtain ⟨other, hother⟩ := h item List.mem_cons_self
    obtain ⟨others, hothers⟩ := ih fun item hitem => h item (List.mem_cons_of_mem _ hitem)
    exact ⟨other :: others, .cons hother hothers⟩

/-- Every counterpart belongs to some item. -/
theorem exists_of_mem_right {α β : Type} {R : α → β → Prop} {items : List α} {others : List β}
    (h : List.Forall₂ R items others) {other : β} (hother : other ∈ others) :
    ∃ item ∈ items, R item other := by
  induction h with
  | nil => cases hother
  | @cons item first items others hfirst _ ih =>
    rcases List.mem_cons.mp hother with rfl | hmem
    · exact ⟨item, List.mem_cons_self, hfirst⟩
    · obtain ⟨item, hitem, hrel⟩ := ih hmem
      exact ⟨item, List.mem_cons_of_mem _ hitem, hrel⟩

/-! ### Induction over rule texts -/

/-- An item of the array in a member is smaller than the object. -/
theorem Json.sizeOf_lt_of_lookup {members : List (Text × Json)} {key : Text} {items : List Json}
    (h : members.lookup key = some (.array items)) {item : Json} (hitem : item ∈ items) :
    sizeOf item < sizeOf (Json.object members) := by
  obtain ⟨before, after, hmembers, -⟩ := List.lookup_eq_some_iff.mp h
  have hmem : (key, Json.array items) ∈ members := by simp [hmembers]
  have hmember := List.sizeOf_lt_of_mem hmem
  have hlist := List.sizeOf_lt_of_mem hitem
  simp only [Prod.mk.sizeOf_spec, Json.array.sizeOf_spec] at hmember
  simp only [Json.object.sizeOf_spec]
  omega

/-- What holds of a value whenever it holds of all items in its member `rules` holds of every
value. -/
@[elab_as_elim]
theorem Json.rules_induction {motive : Json → Prop}
    (step : ∀ value, (∀ items, value.member? (.whole "rules") = some (.array items) →
      ∀ item ∈ items, motive item) → motive value)
    (value : Json) : motive value := by
  refine step value fun items hitems item hitem => ?_
  have hlt : sizeOf item < sizeOf value := by
    cases value with
    | object members => exact Json.sizeOf_lt_of_lookup hitems hitem
    | _ => simp [Json.member?, Json.members] at hitems
  exact rules_induction step item
termination_by sizeOf value

namespace Rule

/-! ### The two directions -/

/-- A value that is read is in the grammar, and the rule mirrors it. -/
theorem grammar_and_mirrors_of_read {raw : Json} {isTopLevel : Bool} {rule : Rule}
    (h : read raw isTopLevel = .ok rule) : Grammar raw ∧ Mirrors raw rule := by
  induction raw using Json.rules_induction generalizing isTopLevel rule with
  | step raw ih =>
    cases raw with
    | object members =>
      obtain hsingle | ⟨mode, items, rules, hnode, hcomposite, hrules, rfl⟩ :=
        read_object_eq_ok_iff.mp h
      · obtain ⟨text, seconds, hnode, htext, hsafe, rfl⟩ | ⟨count, hnode, hlow, hhigh, rfl⟩ :=
          readNode_eq_single_iff.mp hsingle
        · exact ⟨.age hnode htext hsafe, .age hnode htext⟩
        · exact ⟨.versions hnode hlow hhigh, .versions hnode⟩
      · obtain ⟨items', hcomposite', hmode, hcount⟩ := readNode_eq_composite_iff.mp hnode
        obtain rfl : items' = items := by
          have := hcomposite'.lookup_eq.symm.trans hcomposite.lookup_eq
          simpa using this
        obtain ⟨hlength, hpairs⟩ := List.forall₂_iff_zip.mp hrules
        have hpair : ∀ pair ∈ items'.zip rules, Grammar pair.1 ∧ Mirrors pair.1 pair.2 :=
          fun pair hpair => ih items' hcomposite.lookup_eq pair.1 (List.of_mem_zip hpair).1
            (hpairs hpair)
        have hitems : ∀ item ∈ items', Grammar item := fun item hitem => by
          rw [← List.map_fst_zip (Nat.le_of_eq hlength)] at hitem
          obtain ⟨pair, hmem, rfl⟩ := List.mem_map.mp hitem
          exact (hpair pair hmem).1
        have hmirrors := fun pair hmem => (hpair pair hmem).2
        cases mode with
        | none =>
          rcases hcount with ⟨-, hone⟩ | ⟨hne, -⟩
          · obtain ⟨item, rfl⟩ := List.length_eq_one_iff.mp hone
            exact ⟨.wrapper hcomposite hmode (hitems item List.mem_cons_self),
              .wrapper hcomposite hmode hlength hmirrors⟩
          · exact absurd rfl hne
        | some mode =>
          rcases hcount with ⟨⟨⟩, -⟩ | ⟨-, htwo⟩
          obtain ⟨word, hlookup, hword⟩ := hmode
          exact ⟨.combination hcomposite hlookup hword htwo hitems,
            .combination hcomposite hlookup hword hlength hmirrors⟩
    | _ => simp [read] at h

/-- A value in the grammar is read, at the top level and below it. -/
theorem exists_read_of_grammar {raw : Json} (h : Grammar raw) (isTopLevel : Bool) :
    ∃ rule, read raw isTopLevel = .ok rule := by
  induction h generalizing isTopLevel with
  | @wrapper members item hnode hmode hitem ih =>
    obtain ⟨rule, hrule⟩ := ih false
    exact ⟨_, read_object_eq_ok_iff.mpr (Or.inr ⟨none, [item], [rule],
      readNode_eq_composite_iff.mpr ⟨[item], hnode, hmode, Or.inl ⟨rfl, rfl⟩⟩, hnode,
      .cons hrule .nil, rfl⟩)⟩
  | @combination members items word mode hnode hmode hword hcount hitems ih =>
    obtain ⟨rules, hrules⟩ := exists_forall₂ fun item hitem => ih item hitem false
    exact ⟨_, read_object_eq_ok_iff.mpr (Or.inr ⟨some mode, items, rules,
      readNode_eq_composite_iff.mpr
        ⟨items, hnode, ⟨word, hmode, hword⟩, Or.inr ⟨Option.some_ne_none mode, hcount⟩⟩,
      hnode, hrules, rfl⟩)⟩
  | age hnode htext hsafe =>
    exact ⟨_, read_object_eq_ok_iff.mpr (Or.inl (readNode_eq_single_iff.mpr
      (Or.inl ⟨_, _, hnode, htext, hsafe, rfl⟩)))⟩
  | versions hnode hlow hhigh =>
    exact ⟨_, read_object_eq_ok_iff.mpr (Or.inl (readNode_eq_single_iff.mpr
      (Or.inr ⟨_, hnode, hlow, hhigh, rfl⟩)))⟩

/-- **The grammar is exact.** At the top level and below it, a JSON value is read as a rule
exactly when it is in the grammar, and the rule that is read mirrors it node for node. -/
theorem read_iff_grammar (raw : Json) (isTopLevel : Bool) :
    ((∃ rule, read raw isTopLevel = .ok rule) ↔ Grammar raw) ∧
      ∀ rule, read raw isTopLevel = .ok rule → Mirrors raw rule :=
  ⟨⟨fun ⟨_, h⟩ => (grammar_and_mirrors_of_read h).1, fun h => exists_read_of_grammar h isTopLevel⟩,
    fun _ h => (grammar_and_mirrors_of_read h).2⟩

end Rule

end Retention
