import Lineage.Number.Binary

/-!
# Shortest decimal digits

The text of a floating-point number has the fewest decimal digits that are read back as the
number; of several such decimals it is the one nearest to the number, and of two equally near
ones the greater. The decimals that read back are those within half a place of the number on
either side, the ends included if the magnitude is even.
-/

namespace Lineage

namespace BinaryFormat

/-- The least and the greatest ratio that are rounded to a finite magnitude. Below a power of two
the places are half as wide. -/
def roundingInterval (f : BinaryFormat) (m : f.Magnitude) : Ratio × Ratio :=
  let n := f.significand m
  let below := if n = f.unit ∧ 2 * f.unit ≤ m then 1 else 2
  let quarters (n : Nat) := (Ratio.ofNat n).scale 2 (f.exponent m - 2)
  (quarters (4 * n - below), quarters (4 * n + 2))

/-- Whether a ratio is rounded to a finite magnitude. -/
def roundsTo (f : BinaryFormat) (m : f.Magnitude) (r : Ratio) : Bool :=
  let (low, high) := f.roundingInterval m
  if m.val % 2 = 0 then !r.less low && !high.less r else low.less r && r.less high

/-- The multiple of `10 ^ e` next to the value of a magnitude that is rounded to the magnitude, if
there is one. -/
def decimalAt? (f : BinaryFormat) (m : f.Magnitude) (e : Int) : Option Nat :=
  let scaled := (f.value m).scale 10 (-e)
  let n := scaled.floor
  let fits (n : Nat) := f.roundsTo m ((Ratio.ofNat n).scale 10 e)
  match fits n, fits (n + 1) with
  | true, true => some (if scaled.belowMiddle then n else n + 1)
  | true, false => some n
  | false, true => some (n + 1)
  | false, false => none

/-- Looks for a decimal that is rounded to a magnitude, on finer and finer grids. -/
def decimalFrom (f : BinaryFormat) (m : f.Magnitude) : Nat → Int → Nat × Int
  | 0, e => ((f.value m).scale 10 (-e) |>.roundEven, e)
  | attempts + 1, e =>
    match f.decimalAt? m e with
    | some n => (n, e)
    | none => decimalFrom f m attempts (e - 1)

/-- The shortest decimal that is rounded to a positive finite magnitude, as an integer and a power
of ten. With as many digits as the significand has bits, there always is one. -/
def shortest (f : BinaryFormat) (m : f.Magnitude) : Nat × Int :=
  f.decimalFrom m f.fractionBits (f.value m).decimalExponent

/-- The shortest text of a finite magnitude, never with an exponent. -/
def shortestText (f : BinaryFormat) (m : f.Magnitude) : Text :=
  if m.val = 0 then ['0']
  else
    let (n, e) := f.shortest m
    if 0 ≤ e then Decimal.digits (n * Nat.pow 10 e.toNat) else Decimal.shortFixedPoint n (-e).toNat

/-- One tenth, and the number next to it. -/
example : binary64.shortestText ⟨0x3FB999999999999A, by decide⟩ = "0.1".toList ∧
    binary64.shortestText ⟨0x3FB999999999999B, by decide⟩ = "0.10000000000000002".toList := by
  decide +kernel

/-- The number 981149524535870.25 lies in the middle of two decimals of sixteen digits. -/
example :
    binary64.shortestText ⟨0x430BE2CD670D51F2, by decide⟩ = "981149524535870.3".toList := by
  decide +kernel

end BinaryFormat

namespace Binary

variable {f : BinaryFormat}

/-- The text of a number, given that of a finite magnitude. What is not a number has no sign. -/
def textWith (finite : f.Magnitude → Text) (x : Binary f) : Text :=
  if x.isNaN then "NaN".toList
  else (if x.negative then ['-'] else []) ++
    (if x.isInfinite then "inf".toList else finite x.magnitude)

/-- The text of a number in the fewest digits. -/
def toText (x : Binary f) : Text := x.textWith f.shortestText

/-- The text of a number with a fixed number of places, rounded to the nearest, ties to even. -/
def toFixed (places : Nat) (x : Binary f) : Text :=
  x.textWith (fun m => Decimal.fixedPoint ((f.value m).scale 10 places).roundEven places)

/-- The text of a finite magnitude with an exponent and a fixed number of places. -/
def scientificText (f : BinaryFormat) (places : Nat) (m : f.Magnitude) : Text :=
  if m.val = 0 then Decimal.scientific 0 places 0
  else
    let e := (f.value m).decimalExponent
    let n := ((f.value m).scale 10 (places - e)).roundEven
    if n = Nat.pow 10 (places + 1) then
      Decimal.scientific (Nat.pow 10 places) places (e + 1)
    else Decimal.scientific n places e

/-- The text of a number with an exponent, one digit before the point and a fixed number of places
after it, rounded to the nearest, ties to even. -/
def toScientific (places : Nat) (x : Binary f) : Text := x.textWith (scientificText f places)

/-- A half goes to the even digit, and a carry to the exponent. -/
example : (Binary.ofInt .binary64 25).toScientific 0 = "2e1".toList ∧
    (Binary.ofInt .binary64 (-9996)).toScientific 2 = "-1.00e4".toList := by decide +kernel

end Binary

end Lineage
