import Lineage.Text.Blank

/-!
# Quoted values

A value is read by trimming it and removing one layer of double quotes. It is written as it
stands where that gives it back, and in quotes elsewhere.
-/

namespace Lineage.Text

/-- Removes the quotes around a text that begins and ends with one. A single quote stays. -/
def unquote : Text → Text
  | '"' :: rest => if rest.getLast? = some '"' then rest.dropLast else '"' :: rest
  | s => s

/-- The value that a written value stands for. -/
def decodeValue (s : Text) : Text := unquote (trim s)

/-- The written form of a value: in quotes if trimming or unquoting would alter it. -/
def encodeValue (v : Text) : Text :=
  if trim v ≠ v ∨ unquote v ≠ v then '"' :: v ++ ['"'] else v

end Lineage.Text
