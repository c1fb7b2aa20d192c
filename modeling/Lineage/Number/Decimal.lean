import Lineage.Text.CharClass

/-!
# Decimal digits

Natural numbers and integers in decimal digits, with or without padding, and decimal fractions
with a fixed number of places. Only the digits `0` to `9` count as digits here.
-/

namespace Lineage.Decimal

/-- The digits of a number, without leading zeros. -/
def digits (n : Nat) : Text := Nat.toDigits 10 n

/-- The digits of a number after as many zeros as the width asks for. -/
def padded (width n : Nat) : Text :=
  List.replicate (width - (digits n).length) '0' ++ digits n

/-- The number that a run of digits stands for. -/
def value (s : Text) : Nat := s.foldl (fun n c => 10 * n + (c.toNat - '0'.toNat)) 0

/-- Reads digits, of which there must be one at least. -/
def natOfText? (s : Text) : Option Nat :=
  if s ≠ [] ∧ s.all Char.isDigit then some (value s) else none

/-- The text of an integer. -/
def ofInt (v : Int) : Text :=
  if v < 0 then '-' :: digits v.natAbs else digits v.natAbs

/-- Reads digits after an optional sign. -/
def intOfText? : Text → Option Int
  | '-' :: s => (natOfText? s).map (fun n => -(n : Int))
  | '+' :: s => (natOfText? s).map Int.ofNat
  | s => (natOfText? s).map Int.ofNat

/-- The text of `n / 10 ^ places`, with all places. -/
def fixedPoint (n places : Nat) : Text :=
  let ds := padded (places + 1) n
  let whole := ds.take (ds.length - places)
  if places = 0 then whole else whole ++ '.' :: ds.drop (ds.length - places)

/-- The text of `n / 10 ^ places`, without zeros at the end of the places. -/
def shortFixedPoint (n places : Nat) : Text :=
  let ds := padded (places + 1) n
  let whole := ds.take (ds.length - places)
  let fraction := ((ds.drop (ds.length - places)).reverse.dropWhile (· = '0')).reverse
  if fraction = [] then whole else whole ++ '.' :: fraction

/-- The text of `n / 10 ^ places` with an exponent, where `places` is one less than the number of
digits of `n`. -/
def scientific (n places : Nat) (exponent : Int) : Text :=
  fixedPoint n places ++ 'e' :: ofInt exponent

end Lineage.Decimal
