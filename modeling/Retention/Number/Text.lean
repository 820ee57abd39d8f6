import Retention.Number.Shortest
import Retention.Text.Blank
import Retention.Text.Digit

/-!
# Numbers as text

Writing: a number is written with the fewest digits that read back. It is positional
while its point falls within twenty-one digits before or six zeros after the point, and
has an exponent otherwise. Reading: a numeral is a decimal one, possibly with a fraction
and an exponent, or a whole one in base sixteen, eight or two; it denotes the double
nearest to its value.
-/

namespace Retention.Number

/-- Where positional notation ends. -/
structure Layout where
  mostBefore : Int
  leastPoint : Int

/-- At most twenty-one digits stand before the point, and at most six zeros follow it
before the first digit. -/
def layout : Layout := ⟨21, -6⟩

/-- Digits laid out with the decimal point after the first `point` of them. -/
def Layout.write (layout : Layout) (digits : List Char) (point : Int) : List Char :=
  let zeros (count : Int) : List Char := List.replicate count.toNat '0'
  let count : Int := digits.length
  if count ≤ point ∧ point ≤ layout.mostBefore then
    digits ++ zeros (point - count)
  else if 0 < point ∧ point ≤ layout.mostBefore then
    digits.take point.toNat ++ '.' :: digits.drop point.toNat
  else if layout.leastPoint < point ∧ point ≤ 0 then
    '0' :: '.' :: zeros (-point) ++ digits
  else
    let fraction := if count ≤ 1 then [] else '.' :: digits.drop 1
    let sign := if point < 1 then '-' else '+'
    digits.take 1 ++ fraction ++ 'e' :: sign :: Nat.toDigits 10 (point - 1).natAbs

/-- The characters of a decimal, its trailing zeros dropped before it is laid out. -/
def Decimal.text (decimal : Decimal) : List Char :=
  let digits := Nat.toDigits 10 decimal.digits
  let significant := (digits.reverse.dropWhile (· = '0')).reverse
  layout.write significant (digits.length + decimal.exponent)

/-- The characters of a whole number, all its digits written out. -/
def wholeText (n : Int) : List Char :=
  if n < 0 then '-' :: Nat.toDigits 10 n.natAbs else Nat.toDigits 10 n.natAbs

/-- The characters of a number. Up to `2 ^ 53` whole numbers are as long as their digits:
none shorter reads back. -/
def characters : Number → List Char
  | .int n =>
    if n.natAbs ≤ Nat.pow 2 53 then wholeText n
    else (if n < 0 then ['-'] else []) ++ (shortest n.natAbs 0).text
  | .frac n scale _ =>
    (if n < 0 then ['-'] else []) ++ (shortest n.natAbs (scale + 1)).text
  | .infinity negative => (if negative then "-Infinity" else "Infinity").toList
  | .nan => "NaN".toList

/-- The text of a number. -/
def text (number : Number) : String := String.ofList number.characters

/-- The double nearest to `whole.fraction * 10 ^ exponent`, both parts given by their
digits. Values beyond `10 ^ 310` are infinite and those below `10 ^ -330` are zero, so the
power of ten is never computed for them. -/
def ofDecimal (negative : Bool) (whole fraction : List Char) (exponent : Int) : Number :=
  let digits := (whole ++ fraction).dropWhile (· = '0')
  let magnitude := Nat.ofDigitChars 10 digits 0
  let place := exponent - fraction.length
  if magnitude = 0 then .int 0
  else if 310 < place + digits.length then .infinity negative
  else if place + digits.length < -330 then .int 0
  else if 0 ≤ place then ofInt (signed negative (magnitude * Nat.pow 10 place.toNat))
  else ofRatio (signed negative magnitude) (Nat.pow 10 (-place).toNat)

/-- The leading decimal digits of a text, and the rest. -/
def digitRun (text : List Char) : List Char × List Char :=
  (text.takeWhile Char.isDigit, text.dropWhile Char.isDigit)

/-- The exponent part that must make up the whole of a text; nothing stands for zero. -/
def exponentPart? : List Char → Option Int
  | [] => some 0
  | e :: rest =>
    if e = 'e' ∨ e = 'E' then
      let (negative, digits) :=
        match rest with
        | '+' :: digits => (false, digits)
        | '-' :: digits => (true, digits)
        | digits => (false, digits)
      if digits ≠ [] ∧ digits.all Char.isDigit then
        some (signed negative (Nat.ofDigitChars 10 digits 0))
      else none
    else none

/-- The digits after a point, and the rest; no point means no digits. -/
def fractionPart : List Char → List Char × List Char
  | '.' :: rest => digitRun rest
  | rest => ([], rest)

/-- An unsigned decimal numeral: digits before or after a point, then an exponent. -/
def ofUnsignedDecimal? (negative : Bool) (text : List Char) : Option Number :=
  let (whole, afterWhole) := digitRun text
  let (fraction, rest) := fractionPart afterWhole
  if whole = [] ∧ fraction = [] then none
  else (exponentPart? rest).map (ofDecimal negative whole fraction)

/-- A whole numeral in a given base. -/
def ofBase? (base : Nat) (digits : List Char) : Option Number :=
  if digits = [] then none
  else
    (digits.foldlM (fun value c =>
      (digitValue? c).bind fun d => if d < base then some (base * value + d) else none) 0).map
      fun (value : Nat) => ofInt value

/-- The number a numeral without blanks around it denotes. -/
def ofNumeral? : List Char → Option Number
  | '0' :: 'x' :: digits | '0' :: 'X' :: digits => ofBase? 16 digits
  | '0' :: 'o' :: digits | '0' :: 'O' :: digits => ofBase? 8 digits
  | '0' :: 'b' :: digits | '0' :: 'B' :: digits => ofBase? 2 digits
  | '-' :: rest => unsigned true rest
  | '+' :: rest => unsigned false rest
  | rest => unsigned false rest
where
  unsigned (negative : Bool) (text : List Char) : Option Number :=
    if text = "Infinity".toList then some (.infinity negative)
    else ofUnsignedDecimal? negative text

/-- The number a text denotes: zero when it is blank, NaN when it is no numeral. -/
def ofText (text : String) : Number :=
  match trimBlanks text.toList with
  | [] => .int 0
  | numeral => (ofNumeral? numeral).getD .nan

/-- The whole number at the front of a text, after blanks and a sign; NaN without a digit. -/
def ofLeadingInteger (text : String) : Number :=
  let (negative, rest) :=
    match text.toList.dropWhile isBlank with
    | '-' :: rest => (true, rest)
    | '+' :: rest => (false, rest)
    | rest => (false, rest)
  let digits := (digitRun rest).1
  if digits = [] then .nan else ofDecimal negative digits [] 0

end Retention.Number
