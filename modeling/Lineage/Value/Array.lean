import Lineage.Mark
import Lineage.Value

/-!
# Arrays

Several values in one text, with a separator between them. Elements are taken as they stand, and
the empty text has none.
-/

namespace Lineage

namespace Text

/-- The empty text has no elements; any other has one more than it has separators. -/
def splitArray (separator : Char) (s : Text) : List Text :=
  if s = [] then [] else s.splitOn separator

def joinArray (separator : Char) (elements : List Text) : Text :=
  [separator].intercalate elements

end Text

namespace Value

variable {α : Type} [Value α]

/-- Reads an array. An element that cannot be read is the default value, so that the others keep
their places. -/
def arrayOfText [Inhabited α] (separator : Char) (s : Text) : List α :=
  (s.splitArray separator).map (fun element => ofTextD element default)

def arrayToText (separator : Char) (values : List α) : Text :=
  Text.joinArray separator (values.map toText)

end Value

end Lineage
