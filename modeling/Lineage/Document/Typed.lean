import Lineage.Document.Ancestry
import Lineage.Value.Array

/-!
# Typed values of a document

Values of types other than text are written to a section as their texts, and read from a section
or its ancestors with a default for what is missing or cannot be read.
-/

namespace Lineage.Document

variable {α : Type}

/-- The value of a key, or the default. -/
def getD [Value α] (d : Document) (name key : Text) (default : α) : α :=
  match d.read? name key with
  | some raw => Value.ofTextD raw default
  | none => default

/-- The values of an array under a key; none if there is no array. -/
def getArray [Value α] [Inhabited α] (d : Document) (name key : Text) (separator : Char) :
    List α :=
  Value.arrayOfText separator ((d.read? name key).getD [])

def set? [Value α] (d : Document) (name key : Text) (value : α) : Option Document :=
  d.write? name key (Value.toText value)

def setFormatted? [Numeric α] (d : Document) (name key : Text) (format : NumberFormat)
    (value : α) : Option Document :=
  d.write? name key (Value.toTextWith (some format) value)

def setArray? [Value α] (d : Document) (name key : Text) (separator : Char) (values : List α) :
    Option Document :=
  d.write? name key (Value.arrayToText separator values)

end Lineage.Document
