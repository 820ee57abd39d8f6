import Retention.Text.Digit

/-!
# Percent-encoded text

An escape `%XY` stands for the byte `XY`. Decoding replaces every escape, and reads each
run of escaped bytes as UTF-8; it fails on a `%` without two hexadecimal digits and on
bytes that are no UTF-8 text.
-/

namespace Retention.Percent

/-- The UTF-8 bytes of a character. -/
def utf8Bytes (c : Char) : List Nat :=
  let n := c.toNat
  if n < 0x80 then [n]
  else if n < 0x800 then [0xC0 + n / 0x40, 0x80 + n % 0x40]
  else if n < 0x10000 then [0xE0 + n / 0x1000, 0x80 + n / 0x40 % 0x40, 0x80 + n % 0x40]
  else [0xF0 + n / 0x40000, 0x80 + n / 0x1000 % 0x40, 0x80 + n / 0x40 % 0x40, 0x80 + n % 0x40]

/-- The bytes an encoded text stands for, or nothing when an escape is malformed. -/
def bytes? : List Char → Option (List Nat)
  | [] => some []
  | '%' :: high :: low :: rest => do
    let h ← digitValue? high
    let l ← digitValue? low
    let tail ← bytes? rest
    some ((16 * h + l) :: tail)
  | c :: rest => if c = '%' then none else (bytes? rest).map (utf8Bytes c ++ ·)

/-- The payload of a UTF-8 continuation byte. -/
def continuation? (b : Nat) : Option Nat :=
  if 0x80 ≤ b ∧ b < 0xC0 then some (b - 0x80) else none

/-- The character of a code point, unless it is a surrogate or too large. -/
def character? (n : Nat) : Option Char :=
  if h : n.isValidChar then some (Char.ofNatAux n h) else none

/-- The text of well-formed UTF-8 bytes: no overlong form, no surrogate, nothing cut off. -/
def utf8Text? : List Nat → Option (List Char)
  | [] => some []
  | a :: rest =>
    if a < 0x80 then do
      let c ← character? a
      let tail ← utf8Text? rest
      some (c :: tail)
    else
      match rest with
      | [] => none
      | b :: rest =>
        if 0xC2 ≤ a ∧ a < 0xE0 then do
          let x ← continuation? b
          let c ← character? ((a - 0xC0) * 0x40 + x)
          let tail ← utf8Text? rest
          some (c :: tail)
        else
          match rest with
          | [] => none
          | d :: rest =>
            if 0xE0 ≤ a ∧ a < 0xF0 then do
              let x ← continuation? b
              let y ← continuation? d
              let n := (a - 0xE0) * 0x1000 + x * 0x40 + y
              let c ← if n < 0x800 then none else character? n
              let tail ← utf8Text? rest
              some (c :: tail)
            else
              match rest with
              | [] => none
              | e :: rest =>
                if 0xF0 ≤ a ∧ a < 0xF5 then do
                  let x ← continuation? b
                  let y ← continuation? d
                  let z ← continuation? e
                  let n := (a - 0xF0) * 0x40000 + x * 0x1000 + y * 0x40 + z
                  let c ← if n < 0x10000 then none else character? n
                  let tail ← utf8Text? rest
                  some (c :: tail)
                else none

/-- The text a percent-encoded text stands for. -/
def decode? (text : List Char) : Option (List Char) := (bytes? text).bind utf8Text?

/-- Text without escapes and of ASCII characters stands for itself byte by byte. -/
theorem bytes?_of_plain {text : List Char} (h : ∀ c ∈ text, c ≠ '%' ∧ c.toNat < 0x80) :
    bytes? text = some (text.map Char.toNat) := by
  induction text with
  | nil => rfl
  | cons c rest ih =>
    obtain ⟨hc, hn⟩ := h c (by simp)
    have ihr := ih (fun d hd => h d (by simp [hd]))
    unfold bytes?
    split
    · simp_all
    · rename_i heq
      simp_all
    · rename_i heq
      simp only [List.cons.injEq] at heq
      obtain ⟨rfl, rfl⟩ := heq
      simp [hc, ihr, utf8Bytes, hn]

end Retention.Percent
