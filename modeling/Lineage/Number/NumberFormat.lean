import Lineage.Number.Shortest
import Lineage.Text.Blank
import Lineage.Text.DecimalDigit

/-!
# Number formats

How a number is to be written. A format has a short specifier, a letter and an optional number
of at most two digits: `F2` for two places, `E3` for an exponent and three places, `D4` for at
least four digits, `G` for the plain text.
-/

namespace Lineage

/-- How a number is written. -/
inductive NumberFormat where
  /-- The plain text of the number. -/
  | general
  /-- A fixed number of places. -/
  | fixed (places : Nat)
  /-- One digit, a fixed number of places, and an exponent. -/
  | exponential (places : Nat)
  /-- Whole numbers with zeros before them up to a number of digits. -/
  | decimal (width : Nat)
deriving DecidableEq, Repr, Inhabited

namespace NumberFormat

/-- The specifier of a format. -/
def toText : NumberFormat → Text
  | general => ['G']
  | fixed n => 'F' :: Decimal.digits n
  | exponential n => 'E' :: Decimal.digits n
  | decimal n => 'D' :: Decimal.digits n

/-- The format of a letter and a number, each letter with a number of its own where there is none.
Other letters stand for the plain text. -/
def ofLetter (letter : Char) (number : Option Nat) : NumberFormat :=
  match letter.toUpper with
  | 'F' => fixed (number.getD 2)
  | 'E' => exponential (number.getD 6)
  | 'D' => decimal (number.getD 1)
  | _ => general

/-- Reads a specifier, in either case of its letter. Digits of any script are admitted, but only
`0` to `9` make a number. What is no specifier stands for the plain text. -/
def parse (s : Text) : NumberFormat :=
  match s.trim with
  | [] => general
  | letter :: number =>
    if number.length ≤ 2 ∧ number.all CharClass.decimalDigit.contains then
      ofLetter letter (Decimal.natOfText? number)
    else general

/-- Writes an integer. -/
def formatInt (format : NumberFormat) (v : Int) : Text :=
  match format with
  | general => Decimal.ofInt v
  | fixed places =>
    if places = 0 then Decimal.ofInt v
    else Decimal.ofInt v ++ '.' :: List.replicate places '0'
  | exponential places => (Binary.ofInt .binary64 v).toScientific places
  | decimal width => (if v < 0 then ['-'] else []) ++ Decimal.padded width v.natAbs

/-- Writes a floating-point number. Zeros before it are for whole numbers only. -/
def formatBinary (format : NumberFormat) {f : BinaryFormat} (x : Binary f) : Text :=
  match format with
  | general | decimal _ => x.toText
  | fixed places => x.toFixed places
  | exponential places => x.toScientific places

end NumberFormat

end Lineage
