/-!
# Texts and classes of characters

A text is a list of Unicode characters, so that every rule of the format is a rule on lists.
A character class is given by inclusive ranges of code points.
-/

namespace Lineage

/-- A text, character by character. -/
abbrev Text := List Char

/-- A class of characters: inclusive ranges of code points. -/
structure CharClass where
  ranges : List (Nat × Nat)

/-- Whether a character belongs to the class. -/
def CharClass.contains (k : CharClass) (c : Char) : Bool :=
  k.ranges.any (fun r => r.1 ≤ c.toNat && c.toNat ≤ r.2)

end Lineage
