import Lineage.Mark
import Lineage.Text.Name
import Lineage.Text.Lines
import Lineage.Text.Quoted
import Lineage.Text.Split

/-!
# Lines of an INI text

What a single line says. A line is taken without the spaces and tabs around it, and is then
blank, a comment, a section header, an entry, or none of these. The written forms of headers
and entries stand beside the readers.

The conditions under which a section name, a key or a value has a written form on one line
are here too: `Text.fitsHeader`, `Text.fitsKey`, `Text.fitsValue`.
-/

namespace Lineage

/-- What a section header declares. -/
structure Header where
  name : Text
  parent : Option Text := none
  isAbstract : Bool := false
deriving DecidableEq, Repr

namespace Header

/-- The name and the parent in the inside of a header, split at the first colon. Only the parts of
a header that is split are trimmed. A parent without a name is none. -/
def parts (inside : Text) : Text × Option Text :=
  match inside.cut? Mark.parent with
  | some (name, parent) => (Text.trim name, (some (Text.trim parent)).filter (· ≠ []))
  | none => (inside, none)

/-- Reads a header. Brackets, spaces, tabs and colons around it do not count, and the whole is
put in small letters before it is split. There is no header without a name. -/
def parse? (line : Text) : Option Header :=
  let (name, parent) := parts (line.trimMatches Mark.headerEdges.contains).lowercase
  if name = [] then none
  else some { name, parent, isAbstract := name.head? = some Mark.abstract }

/-- The name is that of the part before the first colon, the parent that of all after it. -/
example : parse? "[ _Kitten : CAT:x ]".toList =
    some ⟨"_kitten".toList, some "cat:x".toList, true⟩ := by decide +kernel

/-- The written form of a header. -/
def line (name : Text) (parent : Option Text) : Text :=
  let inner := match parent with
    | some parent => name ++ Mark.parent :: parent
    | none => name
  Mark.headerOpen :: inner ++ [Mark.headerClose]

end Header

/-- A key and its value. -/
abbrev Entry := Text × Text

namespace Entry

/-- Reads a line as a key and a value, split at the first equals sign. The key is taken as a
name and must not be empty; the value may be. -/
def parse? (line : Text) : Option Entry :=
  match line.cut? Mark.value with
  | some (key, value) =>
    if Text.toName key = [] then none else some (Text.toName key, Text.decodeValue value)
  | none => none

/-- The value may hold equals signs; its outer quotes go. -/
example : parse? "Url = \" a=b \"".toList = some ("url".toList, " a=b ".toList) := by decide +kernel

/-- The written form of an entry. -/
def line (key value : Text) : Text := key ++ Mark.value :: value.encodeValue

end Entry

/-- What a line says. -/
inductive Line where
  /-- A blank line or a comment. -/
  | silent
  /-- A section header, or one without a name. -/
  | header (header : Option Header)
  /-- An entry, or a line that cannot be read as one. -/
  | content (entry : Option Entry)
deriving DecidableEq, Repr

/-- Reads a line. A comment may look like a header or an entry, and a header like an entry. -/
def Line.parse (raw : Text) : Line :=
  let text := raw.trimMatches Mark.lineEdges.contains
  if text = [] ∨ text.head? = some Mark.comment then .silent
  else if text.head? = some Mark.headerOpen then .header (Header.parse? text)
  else .content (Entry.parse? text)

namespace Text

/-- Whether a section of this name can be written and read back under this name. -/
def fitsHeader (name : Text) : Bool :=
  name ≠ [] && name.trimMatches Mark.headerEdges.contains = name &&
    !name.contains Mark.parent && !name.hasLineBreak

/-- Whether an entry with this key can be written and read back under this key. -/
def fitsKey (key : Text) : Bool :=
  key ≠ [] && key.trim = key && !key.contains Mark.value &&
    key.head? ≠ some Mark.headerOpen && key.head? ≠ some Mark.comment && !key.hasLineBreak

/-- Whether an entry with this value can be written as one line. An empty value is not written. -/
def fitsValue (value : Text) : Bool := value ≠ [] && !value.hasLineBreak

end Text

end Lineage
