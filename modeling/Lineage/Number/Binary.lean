import Lineage.Number.Ratio

/-!
# Binary floating-point numbers

The interchange formats with a sign, an exponent and a fraction. Sign aside, a number is its
magnitude: exponent and fraction read as one natural number, which grows with the value. Reading
a decimal text gives the number nearest to the exact value of the text, and of two equally near
ones that with the even magnitude.
-/

namespace Lineage

/-- The widths of the fields of a format. -/
structure BinaryFormat where
  fractionBits : Nat
  exponentBits : Nat

namespace BinaryFormat

def binary32 : BinaryFormat := ⟨23, 8⟩

def binary64 : BinaryFormat := ⟨52, 11⟩

/-- The exponent of the last place of the least numbers. -/
def leastExponent (f : BinaryFormat) : Int :=
  2 - (f.fractionBits + Nat.pow 2 (f.exponentBits - 1) : Nat)

/-- The least significand of a number of full precision, and the distance of the magnitudes of a
number and its double. -/
def unit (f : BinaryFormat) : Nat := Nat.pow 2 f.fractionBits

theorem unit_pos (f : BinaryFormat) : 0 < f.unit := Nat.pow_pos (by decide)

/-- The number of magnitudes. -/
def bound (f : BinaryFormat) : Nat := Nat.pow 2 f.exponentBits * f.unit

theorem bound_eq (f : BinaryFormat) :
    f.bound = (Nat.pow 2 f.exponentBits - 1) * f.unit + f.unit := by
  have hpos : 0 < Nat.pow 2 f.exponentBits := Nat.pow_pos (by decide)
  rw [← Nat.succ_mul, Nat.succ_eq_add_one, Nat.sub_add_cancel hpos]
  rfl

/-- A magnitude: exponent and fraction as one number. -/
abbrev Magnitude (f : BinaryFormat) := Fin f.bound

/-- The magnitude of infinity. Greater magnitudes are not numbers. -/
def infinity (f : BinaryFormat) : f.Magnitude :=
  ⟨(Nat.pow 2 f.exponentBits - 1) * f.unit, by
    have := f.unit_pos
    have := f.bound_eq
    omega⟩

/-- The magnitude of the result that is not a number. -/
def quietNaN (f : BinaryFormat) : f.Magnitude :=
  ⟨(Nat.pow 2 f.exponentBits - 1) * f.unit + f.unit / 2, by
    have := f.unit_pos
    have := f.bound_eq
    omega⟩

/-- The whole number of last places in a finite magnitude. -/
def significand (f : BinaryFormat) (m : f.Magnitude) : Nat :=
  if m < f.unit then m else f.unit + m % f.unit

/-- The exponent of the last place of a finite magnitude. -/
def exponent (f : BinaryFormat) (m : f.Magnitude) : Int :=
  f.leastExponent + (m / f.unit - 1 : Nat)

/-- The value of a finite magnitude. -/
def value (f : BinaryFormat) (m : f.Magnitude) : Ratio :=
  (Ratio.ofNat (f.significand m)).scale 2 (f.exponent m)

/-- The magnitude nearest to a ratio, infinity where the ratio is too great. -/
def nearest (f : BinaryFormat) (r : Ratio) : f.Magnitude :=
  let e := max f.leastExponent (r.binaryExponent - f.fractionBits)
  let places := (r.scale 2 (-e)).roundEven
  let m := if r.num = 0 then 0 else (e - f.leastExponent).toNat * f.unit + places
  ⟨min f.infinity m, Nat.lt_of_le_of_lt (Nat.min_le_left _ _) f.infinity.isLt⟩

end BinaryFormat

/-- A number of a format: a sign and a magnitude. -/
structure Binary (f : BinaryFormat) where
  negative : Bool
  magnitude : f.Magnitude
deriving DecidableEq

namespace Binary

variable {f : BinaryFormat}

instance : Inhabited (Binary f) :=
  ⟨⟨false, ⟨0, Nat.mul_pos (Nat.pow_pos (by decide)) f.unit_pos⟩⟩⟩

def isNaN (x : Binary f) : Bool := f.infinity < x.magnitude

def isInfinite (x : Binary f) : Bool := x.magnitude = f.infinity

/-- The number of another format nearest to a number. -/
def convert (g : BinaryFormat) (x : Binary f) : Binary g :=
  if x.isNaN then ⟨false, g.quietNaN⟩
  else if x.isInfinite then ⟨x.negative, g.infinity⟩
  else ⟨x.negative, g.nearest (f.value x.magnitude)⟩

/-- The number nearest to an integer. -/
def ofInt (f : BinaryFormat) (v : Int) : Binary f :=
  ⟨v < 0, f.nearest (Ratio.ofNat v.natAbs)⟩

/-- An exponent and its sign, after the letter. Digits that follow once the exponent has passed
65535 do not count. -/
def exponentOfText? (s : Text) : Option Int :=
  let absolute? (ds : Text) : Option Int :=
    if ds ≠ [] ∧ ds.all Char.isDigit then
      some (ds.foldl (fun n c => if n < 65536 then 10 * n + (c.toNat - '0'.toNat) else n) 0 : Nat)
    else none
  match s with
  | '-' :: ds => (absolute? ds).map (fun e => -e)
  | '+' :: ds => absolute? ds
  | ds => absolute? ds

/-- Reads an unsigned decimal number as an integer and a power of ten: digits, of which one at
least, with a point before, between or after them, and an optional exponent. -/
def decimalOfText? (s : Text) : Option (Nat × Int) :=
  let whole := s.takeWhile Char.isDigit
  let (fraction, rest) :=
    match s.dropWhile Char.isDigit with
    | '.' :: rest => (rest.takeWhile Char.isDigit, rest.dropWhile Char.isDigit)
    | rest => ([], rest)
  let exponent? :=
    match rest with
    | [] => some 0
    | c :: rest => if c = 'e' ∨ c = 'E' then exponentOfText? rest else none
  if whole = [] ∧ fraction = [] then none
  else exponent?.map (fun e => (Decimal.value (whole ++ fraction), e - fraction.length))

/-- Reads an unsigned magnitude: a decimal number, or the words for infinity and for what is not
a number in any case of letters. -/
def magnitudeOfText? (f : BinaryFormat) (s : Text) : Option f.Magnitude :=
  match decimalOfText? s with
  | some (n, e) => some (f.nearest ((Ratio.ofNat n).scale 10 e))
  | none =>
    let word := s.map Char.toLower
    if word = "inf".toList ∨ word = "infinity".toList then some f.infinity
    else if word = "nan".toList then some f.quietNaN
    else none

/-- Reads a magnitude after an optional sign. -/
def ofText? (f : BinaryFormat) : Text → Option (Binary f)
  | '-' :: s => (magnitudeOfText? f s).map (fun m => ⟨true, m⟩)
  | '+' :: s => (magnitudeOfText? f s).map (fun m => ⟨false, m⟩)
  | s => (magnitudeOfText? f s).map (fun m => ⟨false, m⟩)

end Binary

end Lineage
