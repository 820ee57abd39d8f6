import Retention.Number.Text

/-!
# Durations

A duration is written as a whole amount directly followed by one unit: hours, minutes or
seconds. Reading gives the seconds it denotes, as long as every whole number up to them
has its own double. Writing takes the largest unit that divides the seconds evenly.
-/

namespace Retention.Duration

/-- A unit of a written duration. -/
inductive TimeUnit where
  | hour
  | minute
  | second
deriving DecidableEq

/-- The seconds in a unit. -/
def TimeUnit.size : TimeUnit → Nat
  | .hour => 3600
  | .minute => 60
  | .second => 1

/-- The letter a unit is written with. -/
def TimeUnit.letter : TimeUnit → Char
  | .hour => 'h'
  | .minute => 'm'
  | .second => 's'

/-- The units, largest first. -/
def TimeUnit.all : List TimeUnit := [.hour, .minute, .second]

/-- The unit a text spells. -/
def TimeUnit.ofText? (text : List Char) : Option TimeUnit :=
  TimeUnit.all.find? fun unit => text = [unit.letter]

/-- The seconds a written duration denotes, or nothing when it is no duration or too long. -/
def read? (text : String) : Option Number :=
  let (amount, rest) := Number.digitRun text.toList
  if amount = [] then none
  else
    (TimeUnit.ofText? rest).bind fun unit =>
      let seconds := (Number.ofDecimal false amount [] 0).mulNat unit.size
      if seconds.isWholeIn 0 Number.maxSafe then some seconds else none

/-- Whether a positive number of seconds is a whole number of some unit. -/
def TimeUnit.measures (unit : TimeUnit) : Number → Bool
  | .int seconds => 0 < seconds ∧ seconds % unit.size = 0
  | _ => false

/-- Seconds written in the largest unit that measures them; in seconds when none does. -/
def write (seconds : Number) : String :=
  match TimeUnit.all.find? fun unit => unit.measures seconds with
  | some unit => String.ofList ((seconds.divNat unit.size).characters ++ [unit.letter])
  | none => String.ofList (seconds.characters ++ ['s'])

end Retention.Duration
