import Retention.Text
import Retention.Text.Percent

/-!
# Encodings of Unicode text

Content comes as bytes in one of the encodings of Unicode, which it names. In UTF-8 and
UTF-16 a mark at the front tells the order of bytes and is not part of the text. In UTF-7
a text is ASCII, in which other characters stand as runs of base-64 digits.
-/

namespace Retention

/-- An encoding. In UTF-16 the order of the two bytes of a unit may be left open; UTF-7 has
a variant for the names of mailboxes. -/
inductive Encoding where
  | utf8
  | utf16 (bigFirst : Option Bool)
  | utf7 (mailbox : Bool)
deriving DecidableEq

namespace Encoding

/-- A name of an encoding reduced to its letters and digits, without a year at its end. -/
def reducedName (name : List Char) : List Char :=
  let digits := name.reverse.takeWhile Char.isDigit
  let dated : Bool := digits.length = 4 && name.reverse[4]? = some ':'
  (if dated then name.dropLast.dropLast.dropLast.dropLast else name).filter Char.isAlphanum

/-- The encoding that a name in lower case names. -/
def ofName? (name : List Char) : Option Encoding :=
  match String.ofList (reducedName name) with
  | "utf8" => some utf8
  | "utf16" => some (utf16 none)
  | "utf16le" => some (utf16 (some false))
  | "utf16be" => some (utf16 (some true))
  | "utf7" => some (utf7 false)
  | "utf7imap" => some (utf7 true)
  | _ => none

/-- Code points without the mark that tells the order of bytes. -/
def dropMark : List Nat → List Nat
  | 0xFEFF :: rest => rest
  | points => points

/-- The units of pairs of bytes; a byte without a partner is dropped. -/
def pairs (bigFirst : Bool) : List Nat → List Nat
  | a :: b :: rest => (if bigFirst then 0x100 * a + b else 0x100 * b + a) :: pairs bigFirst rest
  | _ => []

/-- How many of some units are below U+0100 and not zero. -/
def countLow (units : List Nat) : Nat := units.countP fun unit => 0 < unit && unit < 0x100

/-- Whether the bytes of units stand high byte first: as the mark at the front says, or as
more of the first units make plain characters. -/
def isBigFirst (bytes : List Nat) : Bool :=
  match bytes with
  | 0xFE :: 0xFF :: _ => true
  | 0xFF :: 0xFE :: _ => false
  | _ => countLow (pairs false (bytes.take 64)) < countLow (pairs true (bytes.take 64))

/-- The value of a base-64 digit. -/
def sixBits? (byte : Nat) : Option Nat :=
  if 0x41 ≤ byte ∧ byte ≤ 0x5A then some (byte - 0x41)
  else if 0x61 ≤ byte ∧ byte ≤ 0x7A then some (byte - 0x61 + 26)
  else if 0x30 ≤ byte ∧ byte ≤ 0x39 then some (byte - 0x30 + 52)
  else if byte = 0x2B then some 62
  else if byte = 0x2F then some 63
  else none

/-- The value of a digit of a run, where a mailbox name may have a comma for the slash. -/
def runDigit? (mailbox : Bool) (byte : Nat) : Option Nat :=
  if mailbox && byte = 0x2C then some 63 else sixBits? byte

/-- The bytes that groups of four base-64 digits stand for; of a last group only whole bytes
count. -/
def ofSixBits : List Nat → List Nat
  | a :: b :: c :: d :: rest =>
    (4 * a + b / 16) :: (16 * (b % 16) + c / 4) :: (64 * (c % 4) + d) :: ofSixBits rest
  | [a, b, c] => [4 * a + b / 16, 16 * (b % 16) + c / 4]
  | [a, b] => [4 * a + b / 16]
  | _ => []

/-- The units that a run of base-64 digits stands for. -/
def ofRun (digits : List Nat) : List Nat := dropMark (pairs true (ofSixBits digits))

/-- The code point of an ASCII byte; other bytes have the replacement. -/
def asciiPoint (byte : Nat) : Nat := if byte < 0x80 then byte else 0xFFFD

/-- The units and characters of bytes in UTF-7, and those of what is left at the end. The run
that is being read, if there is one, is given in reverse; a hyphen ends a run and is dropped,
and an empty run so ended stands for the character that opens runs. A run that does not end is
read in groups of eight digits, and the digits left over by themselves. -/
def ofShifted (mailbox : Bool) : Option (List Nat) → List Nat → List Nat × List Nat
  | none, [] => ([], [])
  | some run, [] =>
    let grouped := run.length - run.length % 8
    (ofRun (run.reverse.take grouped), ofRun (run.reverse.drop grouped))
  | none, byte :: rest =>
    if byte = opening then ofShifted mailbox (some []) rest
    else after [asciiPoint byte] (ofShifted mailbox none rest)
  | some run, byte :: rest =>
    match runDigit? mailbox byte with
    | some digit => ofShifted mailbox (some (digit :: run)) rest
    | none =>
      if byte = 0x2D then
        after (if run = [] then [opening] else ofRun run.reverse) (ofShifted mailbox none rest)
      else if byte = opening then after (ofRun run.reverse) (ofShifted mailbox (some []) rest)
      else after (ofRun run.reverse ++ [asciiPoint byte]) (ofShifted mailbox none rest)
where
  /-- The byte that opens a run. -/
  opening : Nat := if mailbox then 0x26 else 0x2B
  /-- Something before what follows it. -/
  after (first : List Nat) (rest : List Nat × List Nat) : List Nat × List Nat :=
    (first ++ rest.1, rest.2)

/-- The code points that the bytes of a text in UTF-8 are in an encoding, surrogates not yet
paired. A mark at the front is dropped. -/
def points (encoding : Encoding) (text : List Char) : List Nat :=
  let bytes := text.flatMap Percent.utf8Bytes
  match encoding with
  | utf8 => dropMark (text.map Char.toNat)
  | utf16 order => dropMark (pairs (order.getD (isBigFirst bytes)) bytes)
  | utf7 mailbox =>
    let (read, last) := ofShifted mailbox none bytes
    dropMark read ++ last

/-- The text that the bytes of a text in UTF-8 are in an encoding. -/
def decode (encoding : Encoding) (text : String) : Text := .ofPoints (encoding.points text.toList)

/-- Bytes of ASCII characters other than the one that opens runs stand for themselves. -/
theorem ofShifted_of_ascii {bytes : List Nat} (h : ∀ byte ∈ bytes, byte < 0x80 ∧ byte ≠ 0x2B) :
    ofShifted false none bytes = (bytes, []) := by
  induction bytes with
  | nil => rfl
  | cons byte rest ih =>
    obtain ⟨hn, hne⟩ := h byte (by simp)
    have hrest := ih fun d hd => h d (by simp [hd])
    simp [ofShifted, ofShifted.opening, ofShifted.after, hne, hrest, asciiPoint, hn]

/-- The bytes of an ASCII text are its code points. -/
theorem flatMap_utf8Bytes_of_ascii {text : List Char} (h : ∀ c ∈ text, c.toNat < 0x80) :
    text.flatMap Percent.utf8Bytes = text.map Char.toNat := by
  induction text with
  | nil => rfl
  | cons c rest ih =>
    have hrest := ih fun d hd => h d (by simp [hd])
    simp [Percent.utf8Bytes, h c (by simp), hrest]

/-- Code points below the mark have none at their front. -/
theorem dropMark_of_lt {points : List Nat} (h : ∀ point ∈ points, point < 0xFEFF) :
    dropMark points = points := by
  unfold dropMark
  split
  · exact absurd (h 0xFEFF (by simp)) (by omega)
  · rfl

/-- ASCII text without the character that opens runs is the same in UTF-7. -/
theorem decode_utf7_of_ascii {text : String}
    (h : ∀ c ∈ text.toList, c.toNat < 0x80 ∧ c ≠ '+') : decode (utf7 false) text = text := by
  have hbytes := flatMap_utf8Bytes_of_ascii fun c hc => (h c hc).1
  have hshift : ofShifted false none (text.toList.map Char.toNat) =
      (text.toList.map Char.toNat, []) := by
    refine ofShifted_of_ascii fun byte hb => ?_
    obtain ⟨c, hc, rfl⟩ := List.mem_map.mp hb
    exact ⟨(h c hc).1, fun e => (h c hc).2 (Char.toNat_inj.mp e)⟩
  have hmark : dropMark (text.toList.map Char.toNat) = text.toList.map Char.toNat := by
    refine dropMark_of_lt fun point hp => ?_
    obtain ⟨c, hc, rfl⟩ := List.mem_map.mp hp
    exact Nat.lt_trans (h c hc).1 (by omega)
  simp only [decode, points, hbytes, hshift, hmark, List.append_nil]
  exact Text.ofPoints_points_whole text

end Encoding

end Retention
