import Lineage.Number.NumberFormat
import Lineage.Text.Name

/-!
# Values

The types whose values are kept as text in a document. Reading a text either gives a value or
fails; a caller then falls back to a default.
-/

namespace Lineage

/-- A type with a text for each value. -/
class Value (α : Type) where
  toText : α → Text
  ofText? : Text → Option α

/-- A type of numbers, which can also be written in a given format. -/
class Numeric (α : Type) extends Value α where
  format : NumberFormat → α → Text

namespace Value

/-- Reads a text, with a default where that fails. -/
def ofTextD {α : Type} [Value α] (s : Text) (default : α) : α := (ofText? s).getD default

/-- Writes a number, in a format if there is one. -/
def toTextWith {α : Type} [Numeric α] (format : Option NumberFormat) (v : α) : Text :=
  match format with
  | some format => Numeric.format format v
  | none => toText v

/-! ## Texts and truth values -/

/-- A text is its own text, blanks and all. -/
instance : Value Text where
  toText s := s
  ofText? := some

/-- The words for true. -/
def trueWords : List Text := ["true".toList, "1".toList, "yes".toList, "on".toList]

/-- The words for false. -/
def falseWords : List Text := ["false".toList, "0".toList, "no".toList, "off".toList]

/-- A truth value is read from its words without regard to case and to blanks around them. -/
instance : Value Bool where
  toText b := if b then "true".toList else "false".toList
  ofText? s :=
    if s.toName ∈ trueWords then some true
    else if s.toName ∈ falseWords then some false
    else none

/-! ## Numbers -/

/-- A floating-point number is written in a format as the number of 64 bits nearest to it. -/
instance {f : BinaryFormat} : Numeric (Binary f) where
  toText := Binary.toText
  ofText? s := Binary.ofText? f s.trim
  format
    | .general, x => x.toText
    | format, x => format.formatBinary (x.convert .binary64)

end Value

end Lineage
