import Lineage.Text.CharClass

/-!
# Marks

The characters that carry the structure of an INI text.
-/

namespace Lineage.Mark

def comment : Char := ';'

/-- Opens a section header. -/
def headerOpen : Char := '['

/-- Closes a section header. -/
def headerClose : Char := ']'

/-- Stands between the name and the parent in a section header. -/
def parent : Char := ':'

/-- Stands between a key and its value. -/
def value : Char := '='

/-- Begins the name of an abstract section. -/
def abstract : Char := '_'

/-- Stands between the elements of an array unless another separator is asked for. -/
def element : Char := ','

/-- The characters around a header that do not belong to it. -/
def headerEdges : List Char := ['[', ']', ' ', '\t', ':']

/-- The characters around a line that do not belong to it. -/
def lineEdges : List Char := [' ', '\t']

end Lineage.Mark
