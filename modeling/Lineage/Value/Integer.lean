import Lineage.Value

/-!
# Bounded integers

Integers of a number of bits, with or without a sign. Unsigned integers have no text with a minus
sign, not even zero.
-/

namespace Lineage

structure IntegerKind where
  signed : Bool
  bits : Nat
deriving DecidableEq, Repr

namespace IntegerKind

def least (k : IntegerKind) : Int := if k.signed then -(Nat.pow 2 (k.bits - 1) : Nat) else 0

def greatest (k : IntegerKind) : Int :=
  (Nat.pow 2 (if k.signed then k.bits - 1 else k.bits) : Nat) - 1

end IntegerKind

/-- An integer within the bounds of a kind. -/
structure BoundedInt (k : IntegerKind) where
  val : Int
  least_le : k.least ≤ val
  le_greatest : val ≤ k.greatest
deriving DecidableEq

namespace BoundedInt

variable {k : IntegerKind}

/-- The integer, if it lies within the bounds. -/
def ofInt? (k : IntegerKind) (v : Int) : Option (BoundedInt k) :=
  if h : k.least ≤ v ∧ v ≤ k.greatest then some ⟨v, h.1, h.2⟩ else none

theorem zero_within (k : IntegerKind) : k.least ≤ 0 ∧ 0 ≤ k.greatest := by
  unfold IntegerKind.least IntegerKind.greatest
  have hpos (n : Nat) : 0 < Nat.pow 2 n := Nat.pow_pos (by decide)
  constructor
  · split <;> omega
  · have := hpos (if k.signed then k.bits - 1 else k.bits)
    omega

instance : Inhabited (BoundedInt k) := ⟨0, (zero_within k).1, (zero_within k).2⟩

/-- Reads an integer that lies within the bounds. -/
def ofText? (k : IntegerKind) (s : Text) : Option (BoundedInt k) :=
  if ¬ k.signed ∧ s.head? = some '-' then none
  else (Decimal.intOfText? s).bind (ofInt? k)

instance : Numeric (BoundedInt k) where
  toText v := Decimal.ofInt v.val
  ofText? s := ofText? k s.trim
  format format v := format.formatInt v.val

end BoundedInt

end Lineage
