import Lineage.Number.Decimal

/-!
# Ratios

Exact fractions of natural numbers, for rounding between binary and decimal digits. The
denominator is positive wherever a ratio is built here.
-/

namespace Lineage

/-- A fraction that need not be in lowest terms. -/
structure Ratio where
  num : Nat
  den : Nat

namespace Ratio

def ofNat (n : Nat) : Ratio := ⟨n, 1⟩

/-- The ratio times `base ^ e`. -/
def scale (r : Ratio) (base : Nat) (e : Int) : Ratio :=
  ⟨r.num * Nat.pow base e.toNat, r.den * Nat.pow base (-e).toNat⟩

/-- The greatest natural number up to the ratio. -/
def floor (r : Ratio) : Nat := r.num / r.den

/-- Whether the ratio lies below the middle between its floor and the next number. -/
def belowMiddle (r : Ratio) : Bool := 2 * (r.num % r.den) < r.den

/-- Whether the ratio lies in the middle between its floor and the next number. -/
def atMiddle (r : Ratio) : Bool := 2 * (r.num % r.den) = r.den

/-- The nearest natural number; of two equally near ones the even one. -/
def roundEven (r : Ratio) : Nat :=
  if r.belowMiddle ∨ (r.atMiddle ∧ r.floor % 2 = 0) then r.floor else r.floor + 1

def less (r s : Ratio) : Bool := r.num * s.den < s.num * r.den

/-- For a positive ratio, the integer `e` with `2 ^ e ≤ r < 2 ^ (e + 1)`. -/
def binaryExponent (r : Ratio) : Int :=
  let e : Int := r.num.log2 - r.den.log2
  if 1 ≤ (r.scale 2 (-e)).floor then e else e - 1

/-- For a positive ratio, the integer `e` with `10 ^ e ≤ r < 10 ^ (e + 1)`. The ratio is first
brought above one, where the digits of its floor can be counted. -/
def decimalExponent (r : Ratio) : Int :=
  let shift := (Decimal.digits r.den).length
  (Decimal.digits (r.scale 10 shift).floor).length - 1 - shift

end Ratio

end Lineage
