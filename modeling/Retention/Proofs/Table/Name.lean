import Mathlib.Computability.Language
import Mathlib.Data.Char
import Retention.Proofs.Text.Points
import Retention.Proofs.Text.Segment
import Retention.Table.Check

/-!
# Resource names

The parts of a resource name follow patterns, which are written here as they are shown to callers:
classes of characters, one after another and repeated. A resource name can be read when its parts
follow their patterns, and then it is read as just these parts; a name that was read is written as it
was. This holds of any texts as parts, with separators and words of the resource name in them: no
other parts are glued to a name that can be read.

## Main definitions

* `oneOf`: a class of characters, by its ranges.
* `TableName.scopePattern`, `TableName.namePattern`: what parts of resource names follow.
* `TableName.Follows`: parts that follow their patterns.

## Main results

* `TableName.isScope_iff_mem`, `TableName.isName_iff_mem`: what is checked of parts.
* `TableName.read?_eq_some_iff`: what a resource name is read as.
* `TableName.read?_write_eq_some_iff`: what glued parts are read as.
-/

namespace Retention

open Computability

/-! ### Classes of characters -/

/-- A character that is in one of some ranges. -/
def Within (ranges : List (Char × Char)) (c : Char) : Prop :=
  ∃ range ∈ ranges, range.1 ≤ c ∧ c ≤ range.2

/-- The texts of one character, in one of some ranges. -/
def oneOf (ranges : List (Char × Char)) : Language Char := {text | ∃ c, Within ranges c ∧ text = [c]}

variable {ranges : List (Char × Char)} {c : Char} {text : List Char}

theorem mem_oneOf : text ∈ oneOf ranges ↔ ∃ c, Within ranges c ∧ text = [c] := Iff.rfl

/-- A class repeated has the texts all of whose characters are in it. -/
theorem mem_kstar_oneOf : text ∈ (oneOf ranges)∗ ↔ ∀ c ∈ text, Within ranges c := by
  rw [Language.mem_kstar]
  constructor
  · rintro ⟨pieces, rfl, hpieces⟩ c hc
    obtain ⟨piece, hpiece, hmem⟩ := List.mem_flatten.mp hc
    obtain ⟨other, hother, rfl⟩ := hpieces piece hpiece
    rwa [List.mem_singleton.mp hmem]
  · intro hall
    refine ⟨text.map fun c => [c], (List.flatMap_singleton' text).symm, fun piece hpiece => ?_⟩
    obtain ⟨c, hc, rfl⟩ := List.mem_map.mp hpiece
    exact ⟨c, hall c hc, rfl⟩

@[simp] theorem not_within_nil : ¬Within [] c := by
  rintro ⟨_, hmem, -⟩
  exact absurd hmem List.not_mem_nil

@[simp] theorem within_cons {first last : Char} :
    Within ((first, last) :: ranges) c ↔ first ≤ c ∧ c ≤ last ∨ Within ranges c := by
  simp [Within]

theorem isLower_iff : c.isLower = true ↔ 'a' ≤ c ∧ c ≤ 'z' :=
  Bool.and_eq_true_iff.trans (and_congr decide_eq_true_iff decide_eq_true_iff)

theorem isUpper_iff : c.isUpper = true ↔ 'A' ≤ c ∧ c ≤ 'Z' := decide_eq_true_iff

theorem isDigit_iff : c.isDigit = true ↔ '0' ≤ c ∧ c ≤ '9' :=
  Bool.and_eq_true_iff.trans (and_congr decide_eq_true_iff decide_eq_true_iff)

theorem isAlphanum_iff : c.isAlphanum = true ↔
    (c.isUpper = true ∨ c.isLower = true) ∨ c.isDigit = true :=
  Bool.or_eq_true_iff.trans (or_congr_left Bool.or_eq_true_iff)

/-- A range of one character. -/
theorem eq_iff_between {other : Char} : c = other ↔ other ≤ c ∧ c ≤ other := by
  rw [and_comm]
  exact le_antisymm_iff

namespace TableName

/-! ### The patterns of the parts -/

/-- The pattern of project and instance names. -/
def scopePattern : Language Char :=
  oneOf [('a', 'z')] * (oneOf [('-', '-'), ('a', 'z'), ('0', '9')])∗ * oneOf [('a', 'z'), ('0', '9')]

/-- The pattern of table names. -/
def namePattern : Language Char :=
  oneOf [('_', '_'), ('a', 'z'), ('A', 'Z'), ('0', '9')] *
    (oneOf [('-', '-'), ('_', '_'), ('.', '.'), ('a', 'z'), ('A', 'Z'), ('0', '9')])∗

theorem isScopeChar_iff :
    isScopeChar c = true ↔ Within [('-', '-'), ('a', 'z'), ('0', '9')] c := by
  simp only [isScopeChar, Bool.or_eq_true, decide_eq_true_eq, isLower_iff, isDigit_iff,
    eq_iff_between, within_cons, not_within_nil]
  tauto

theorem isNameStart_iff :
    isNameStart c = true ↔ Within [('_', '_'), ('a', 'z'), ('A', 'Z'), ('0', '9')] c := by
  simp only [isNameStart, isAlphanum_iff, Bool.or_eq_true, decide_eq_true_eq, isLower_iff,
    isUpper_iff, isDigit_iff, eq_iff_between, within_cons, not_within_nil]
  tauto

theorem isNameChar_iff : isNameChar c = true ↔
    Within [('-', '-'), ('_', '_'), ('.', '.'), ('a', 'z'), ('A', 'Z'), ('0', '9')] c := by
  simp only [isNameChar, isAlphanum_iff, Bool.or_eq_true, decide_eq_true_eq, isLower_iff,
    isUpper_iff, isDigit_iff, eq_iff_between, within_cons, not_within_nil]
  tauto

/-- What is checked of a table name is its pattern. -/
theorem isName_iff_mem : isName text = true ↔ text ∈ namePattern := by
  rw [namePattern, Language.mem_mul]
  simp only [mem_oneOf, mem_kstar_oneOf, ← isNameStart_iff, ← isNameChar_iff]
  cases text with
  | nil => simp [isName]
  | cons first rest =>
    rw [isName, Bool.and_eq_true, List.all_eq_true]
    constructor
    · rintro ⟨hfirst, hrest⟩
      exact ⟨_, ⟨first, hfirst, rfl⟩, rest, hrest, rfl⟩
    · rintro ⟨_, ⟨other, hother, rfl⟩, others, hothers, heq⟩
      obtain ⟨rfl, rfl⟩ := List.cons.inj heq
      exact ⟨hother, hothers⟩

theorem isScope_cons {first : Char} {rest : List Char} (h : rest ≠ []) :
    isScope (first :: rest) = (first.isLower && rest.all isScopeChar &&
      rest.getLast?.any fun c => c.isLower || c.isDigit) := by
  cases rest with
  | nil => exact absurd rfl h
  | cons second others => rfl

theorem isScopeEnd_iff :
    (c.isLower || c.isDigit) = true ↔ Within [('a', 'z'), ('0', '9')] c := by
  simp [isLower_iff, isDigit_iff]

/-- What is checked of a project or instance name is its pattern. -/
theorem isScope_iff_mem : isScope text = true ↔ text ∈ scopePattern := by
  have hstart (c : Char) : c.isLower = true ↔ Within [('a', 'z')] c := by simp [isLower_iff]
  rw [scopePattern, Language.mem_mul]
  simp only [Language.mem_mul, mem_oneOf, mem_kstar_oneOf, ← isScopeChar_iff, ← isScopeEnd_iff,
    ← hstart]
  constructor
  · intro h
    obtain ⟨first, rest, hne, rfl⟩ : ∃ first rest, rest ≠ [] ∧ text = first :: rest := by
      rcases text with _ | ⟨first, _ | ⟨second, others⟩⟩
      · cases h
      · cases h
      · exact ⟨first, _, List.cons_ne_nil _ _, rfl⟩
    obtain ⟨middle, last, rfl⟩ := (List.eq_nil_or_concat rest).resolve_left hne
    rw [List.concat_eq_append] at h ⊢
    rw [isScope_cons (List.concat_ne_nil _ _), Bool.and_eq_true, Bool.and_eq_true, List.all_eq_true,
      List.getLast?_concat] at h
    obtain ⟨⟨hfirst, hrest⟩, hlast⟩ := h
    exact ⟨first :: middle, ⟨[first], ⟨first, hfirst, rfl⟩, middle,
      fun c hc => hrest c (List.mem_append_left _ hc), rfl⟩, [last], ⟨last, hlast, rfl⟩, rfl⟩
  · rintro ⟨_, ⟨_, ⟨first, hfirst, rfl⟩, middle, hmiddle, rfl⟩, _, ⟨last, hlast, rfl⟩, rfl⟩
    have hchar : isScopeChar last = true := by rw [isScopeChar, hlast]; rfl
    have hrest : (middle ++ [last]).all isScopeChar = true := by
      rw [List.all_append, List.all_eq_true.mpr hmiddle, List.all_cons, hchar]
      rfl
    change isScope (first :: (middle ++ [last])) = true
    rw [isScope_cons (List.concat_ne_nil _ _), hfirst, hrest, List.getLast?_concat]
    exact hlast

theorem isScopeChar_of_mem (h : isScope text = true) : ∀ c ∈ text, isScopeChar c = true := by
  rcases text with _ | ⟨first, _ | ⟨second, others⟩⟩
  · cases h
  · cases h
  · rw [isScope_cons (List.cons_ne_nil _ _), Bool.and_eq_true, Bool.and_eq_true] at h
    obtain ⟨⟨hfirst, hrest⟩, -⟩ := h
    have hchar : isScopeChar first = true := by rw [isScopeChar, hfirst]; rfl
    exact List.forall_mem_cons.mpr ⟨hchar, List.all_eq_true.mp hrest⟩

/-- A project or instance name has no separator in it. -/
theorem notMem_of_isScope (h : isScope text = true) : '/' ∉ text := fun hmem =>
  absurd (isScopeChar_of_mem h _ hmem) (by decide)

/-- A table name has no separator in it. -/
theorem notMem_of_isName (h : isName text = true) : '/' ∉ text := by
  cases text with
  | nil => exact List.not_mem_nil
  | cons first rest =>
    rw [isName, Bool.and_eq_true, List.all_eq_true] at h
    intro hmem
    rcases List.mem_cons.mp hmem with rfl | hmem
    · exact absurd h.1 (by decide)
    · exact absurd (h.2 _ hmem) (by decide)

end TableName

/-- A text that follows a pattern: it is whole, and its characters are of the pattern. -/
def Text.Matches (text : Text) (pattern : Language Char) : Prop :=
  ∃ chars ∈ pattern, text = .whole (String.ofList chars)

namespace Text.Matches

variable {text : Text} {pattern : Language Char}

/-- A text that follows a pattern is made of characters, and so no more than these is paired. -/
theorem paired_points (h : text.Matches pattern) : paired text.points = text.points := by
  obtain ⟨chars, -, rfl⟩ := h
  exact paired_of_isValidChar fun _ => isValidChar_of_mem_points_whole

/-- A character that is in no text of a pattern is not in a text that follows the pattern. -/
theorem toNat_notMem_points (h : text.Matches pattern) (hpattern : ∀ chars ∈ pattern, c ∉ chars) :
    c.toNat ∉ text.points := by
  obtain ⟨chars, hchars, rfl⟩ := h
  intro hmem
  obtain ⟨other, hother, heq⟩ := List.mem_map.mp hmem
  rw [String.toList_ofList] at hother
  exact hpattern chars hchars (Char.toNat_inj.mp heq ▸ hother)

/-- A text that follows a pattern is told by its code points. -/
theorem eq_ofPoints {points : List Nat} (h : text.Matches pattern)
    (hpoints : text.points = paired points) : text = ofPoints points := by
  obtain ⟨chars, -, rfl⟩ := h
  rw [← points_ofPoints] at hpoints
  rw [← ofPoints_points_whole, hpoints, ofPoints_points_ofPoints]

end Text.Matches

namespace TableName

variable {name : TableName}

/-! ### Reading resource names -/

/-- The parts of a name follow their patterns. -/
structure Follows (name : TableName) : Prop where
  project : name.project.Matches scopePattern
  «instance» : name.instance.Matches scopePattern
  table : name.table.Matches namePattern

/-- The segments of a resource name. -/
def pieces (project «instance» table : List Char) : List (List Char) :=
  ["projects".toList, project, "instances".toList, «instance», "tables".toList, table]

theorem ofSegments?_eq_some_iff {segments : List (List Char)} :
    ofSegments? segments = some name ↔ ∃ project «instance» table,
      segments = pieces project «instance» table ∧ isScope project = true ∧
      isScope «instance» = true ∧ isName table = true ∧
      name = ⟨String.ofList project, String.ofList «instance», String.ofList table⟩ := by
  unfold ofSegments?
  split
  · rw [Option.ite_none_right_eq_some]
    constructor
    · rintro ⟨⟨rfl, rfl, rfl, hproject, hinstance, htable⟩, hname⟩
      exact ⟨_, _, _, rfl, hproject, hinstance, htable, (Option.some.inj hname).symm⟩
    · rintro ⟨project, «instance», table, heq, hproject, hinstance, htable, rfl⟩
      simp only [pieces, List.cons.injEq, and_true] at heq
      obtain ⟨rfl, rfl, rfl, rfl, rfl, rfl⟩ := heq
      exact ⟨⟨rfl, rfl, rfl, hproject, hinstance, htable⟩, rfl⟩
  · next hother =>
    constructor
    · nofun
    · rintro ⟨project, «instance», table, rfl, -⟩
      exact absurd rfl (hother _ _ _ _ _ _)

/-- The characters of a resource name with whole parts are its segments, joined. -/
theorem write_ofList (project «instance» table : List Char) :
    write ⟨String.ofList project, String.ofList «instance», String.ofList table⟩ =
      .whole (String.ofList (['/'].intercalate (pieces project «instance» table))) := by
  change Text.whole ("projects/" ++ String.ofList project ++ "/instances/" ++
    String.ofList «instance» ++ "/tables/" ++ String.ofList table) = _
  refine congrArg Text.whole (String.toList_inj.mp ?_)
  simp [pieces, List.intercalate_cons_cons]

/-- No segment of a resource name has a separator in it when its parts follow their patterns. -/
theorem notMem_pieces {project «instance» table : List Char} (hproject : isScope project = true)
    (hinstance : isScope «instance» = true) (htable : isName table = true) :
    ∀ piece ∈ pieces project «instance» table, '/' ∉ piece := by
  simp only [pieces, List.forall_mem_cons]
  exact ⟨by decide, notMem_of_isScope hproject, by decide, notMem_of_isScope hinstance, by decide,
    notMem_of_isName htable, List.forall_mem_nil _⟩

/-- **What a resource name is read as.** The parts that a resource name is read as follow their
patterns, and the name is written from them; and every name that is so written is read. -/
theorem read?_eq_some_iff {text : Text} :
    read? text = some name ↔ name.Follows ∧ name.write = text := by
  constructor
  · intro h
    cases text with
    | broken points => cases h
    | whole text =>
      obtain ⟨project, «instance», table, hsegments, hproject, hinstance, htable, rfl⟩ :=
        ofSegments?_eq_some_iff.mp h
      refine ⟨⟨⟨project, isScope_iff_mem.mp hproject, rfl⟩,
        ⟨«instance», isScope_iff_mem.mp hinstance, rfl⟩,
        ⟨table, isName_iff_mem.mp htable, rfl⟩⟩, ?_⟩
      rw [write_ofList, (segments_eq_iff.mp hsegments).2.2, String.ofList_toList]
  · rintro ⟨⟨⟨project, hproject, hprojectEq⟩, ⟨«instance», hinstance, hinstanceEq⟩,
      ⟨table, htable, htableEq⟩⟩, rfl⟩
    obtain ⟨_, _, _⟩ := name
    dsimp only at hprojectEq hinstanceEq htableEq
    subst hprojectEq hinstanceEq htableEq
    rw [← isScope_iff_mem] at hproject hinstance
    rw [← isName_iff_mem] at htable
    rw [write_ofList]
    refine ofSegments?_eq_some_iff.mpr
      ⟨project, «instance», table, ?_, hproject, hinstance, htable, rfl⟩
    rw [String.toList_ofList]
    exact segments_eq_iff.mpr
      ⟨List.cons_ne_nil _ _, notMem_pieces hproject hinstance htable, rfl⟩

/-! ### Gluing names together -/

/-- A name of parts with some code points. -/
def ofPoints (project «instance» table : List Nat) : TableName :=
  ⟨.ofPoints project, .ofPoints «instance», .ofPoints table⟩

/-- The code points of a resource name. The words stand between separators, so that no surrogate of a
part is paired with what follows it. -/
theorem points_write (name : TableName) : name.write.points =
    (Text.whole "projects").points ++ '/'.toNat :: (Text.paired name.project.points ++
      '/'.toNat :: ((Text.whole "instances").points ++ '/'.toNat ::
        (Text.paired name.instance.points ++ '/'.toNat ::
          ((Text.whole "tables").points ++ '/'.toNat :: Text.paired name.table.points)))) := by
  have hword (word : String) (rest : List Nat) :
      Text.paired ((Text.whole word).points ++ rest) = (Text.whole word).points ++ Text.paired rest :=
    Text.paired_append_of_isValidChar (fun _ => Text.isValidChar_of_mem_points_whole) rest
  have hslash : '/'.toNat.isValidChar := '/'.valid
  have hprojects : (Text.whole "projects/").points =
    (Text.whole "projects").points ++ ['/'.toNat] := rfl
  have hinstances : (Text.whole "/instances/").points =
    '/'.toNat :: ((Text.whole "instances").points ++ ['/'.toNat]) := rfl
  have htables : (Text.whole "/tables/").points =
    '/'.toNat :: ((Text.whole "tables").points ++ ['/'.toNat]) := rfl
  simp only [write, Text.points_append, Text.paired_paired_append, List.append_assoc, hprojects,
    hinstances, htables, hword, List.cons_append, List.nil_append,
    Text.paired_append_cons hslash, Text.paired_cons (Text.pair?_of_isValidChar hslash),
    Text.paired_paired]

/-- **Glued parts are read as themselves.** Whatever three texts a resource name is glued together
from, it can be read just when they follow their patterns, and it is read as these three. -/
theorem read?_write_eq_some_iff (project «instance» table : List Nat) :
    read? (ofPoints project «instance» table).write = some name ↔
      (ofPoints project «instance» table).Follows ∧ name = ofPoints project «instance» table := by
  rw [read?_eq_some_iff]
  constructor
  · rintro ⟨hname, hwrite⟩
    have hpoints := congrArg Text.points hwrite
    rw [points_write, points_write, hname.project.paired_points, hname.instance.paired_points,
      hname.table.paired_points] at hpoints
    simp only [ofPoints, Text.points_ofPoints, Text.paired_paired] at hpoints
    have hscope (chars : List Char) (h : chars ∈ scopePattern) : '/' ∉ chars :=
      notMem_of_isScope (isScope_iff_mem.mpr h)
    have htableName (chars : List Char) (h : chars ∈ namePattern) : '/' ∉ chars :=
      notMem_of_isName (isName_iff_mem.mpr h)
    obtain ⟨hproject, hinstance, htable⟩ := glued_inj (hname.project.toNat_notMem_points hscope)
      (hname.instance.toNat_notMem_points hscope) (hname.table.toNat_notMem_points htableName)
      (List.cons.inj (List.append_cancel_left hpoints)).2
    have heq : name = ofPoints project «instance» table := by
      obtain ⟨_, _, _⟩ := name
      rw [ofPoints, mk.injEq]
      exact ⟨hname.project.eq_ofPoints hproject, hname.instance.eq_ofPoints hinstance,
        hname.table.eq_ofPoints htable⟩
    exact ⟨heq ▸ hname, heq⟩
  · rintro ⟨hfollows, rfl⟩
    exact ⟨hfollows, rfl⟩

/-- A part with separators in it spoils the name, also where it looks like several parts. -/
example : read? (write ⟨"p0/instances/i0/tables/t0", "i1", "t1"⟩) = none := by decide +kernel

theorem check_eq_ok_iff {text : Text} : TableName.check text = .ok name ↔ read? text = some name := by
  unfold TableName.check
  split <;> simp [*]

/-- A name of whole parts is read as it was written, if at all. -/
theorem eq_of_check_write {project «instance» table : String}
    (h : TableName.check (write ⟨project, «instance», table⟩) = .ok name) :
    name = ⟨project, «instance», table⟩ := by
  have hparts : (⟨project, «instance», table⟩ : TableName) = ofPoints (Text.whole project).points
      (Text.whole «instance»).points (Text.whole table).points := by
    rw [ofPoints, Text.ofPoints_points_whole, Text.ofPoints_points_whole,
      Text.ofPoints_points_whole]
  rw [hparts] at h ⊢
  exact ((read?_write_eq_some_iff _ _ _).mp (check_eq_ok_iff.mp h)).2

end TableName

end Retention
