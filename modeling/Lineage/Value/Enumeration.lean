import Lineage.Value

/-!
# Enumerations

A type of finitely many named variants. The text of a variant is its name; a text is read as the
first variant whose name differs from it in the case of the letters `A` to `Z` at most.
-/

namespace Lineage

/-- The distinct names of the variants of an enumeration, in the order of declaration, and the
variant that is the default. Names hold no blanks. -/
structure Enumeration where
  names : List Text
  nodup : names.Nodup := by decide
  notBlank : ∀ name ∈ names, ∀ c ∈ name, Text.isBlank c = false := by decide
  default : Fin names.length

namespace Enumeration

/-- A variant of an enumeration. -/
structure Variant (e : Enumeration) where
  index : Fin e.names.length
deriving DecidableEq

namespace Variant

variable {e : Enumeration}

instance : Inhabited e.Variant := ⟨⟨e.default⟩⟩

def name (v : e.Variant) : Text := e.names[v.index]

end Variant

/-- Whether two texts are equal but for the case of the letters `A` to `Z`. -/
def sameLetters (s t : Text) : Bool := s.map Char.toLower = t.map Char.toLower

def variants (e : Enumeration) : List e.Variant := (List.finRange e.names.length).map Variant.mk

instance {e : Enumeration} : Value e.Variant where
  toText := Variant.name
  ofText? s := e.variants.find? (fun v => sameLetters s.trim v.name)

end Enumeration

end Lineage
