import Lineage.Text.CharClass

/-!
# Log events

What reading, writing, looking up, merging and storing report on the way. An event is a cause
with its data; its level, message and fields are what a log shows of it.
-/

namespace Lineage

/-- How much attention an event asks for. -/
inductive Level where
  | trace
  | debug
  | warn
deriving DecidableEq, Repr

/-- How many sections and entries reading a text brought in, and how many lines it passed over. -/
structure Summary where
  sections : Nat := 0
  entries : Nat := 0
  ignored : Nat := 0
deriving DecidableEq, Repr

/-- Something worth a line in a log. Line numbers count from one. -/
inductive Event where
  /-- A whole text was read. -/
  | textRead (summary : Summary)
  /-- A header names a section that exists already. -/
  | sectionDeclaredAgain (line : Nat) (name : Text)
  /-- A header has no name. -/
  | headerWithoutName (line : Nat)
  /-- A line stands before any section or after a header without a name. -/
  | lineOutsideSections (line : Nat)
  /-- A line within a section is not an entry. -/
  | lineNotUnderstood (line : Nat)
  /-- The parent of a section lies on the way that led to the section. -/
  | cycleMet (name : Text) (parent : Text)
  /-- A section has no written form. -/
  | sectionNotWritten (name : Text)
  /-- An entry has no written form. -/
  | entryNotWritten (name : Text) (key : Text)
  /-- Two sections of a snapshot have the same name. -/
  | sectionsMerged (name : Text)
  /-- A file was read and is about to be taken apart. -/
  | fileLoaded (path : Text) (bytes : Nat)
  /-- There is no file, and an empty document stands in for it. -/
  | fileMissing (path : Text)
  /-- A file was written. -/
  | fileSaved (path : Text) (bytes : Nat)
deriving DecidableEq, Repr

/-- The value of a field of an event. -/
inductive EventField where
  | text (value : Text)
  | count (value : Nat)
deriving DecidableEq, Repr

namespace Event

/-- The level of an event. What is lost by writing is a warning; what is passed over by reading
is a trace. -/
def level : Event → Level
  | sectionDeclaredAgain .. | headerWithoutName .. | lineOutsideSections .. |
    lineNotUnderstood .. => .trace
  | sectionNotWritten .. | entryNotWritten .. => .warn
  | _ => .debug

/-- The message of an event, the same for all events of a kind. -/
def message : Event → String
  | textRead .. => "Parsed INI text"
  | sectionDeclaredAgain .. => "Section re-declared"
  | headerWithoutName .. => "Empty section header"
  | lineOutsideSections .. => "Line outside of any section ignored"
  | lineNotUnderstood .. => "Unrecognised line ignored"
  | cycleMet .. => "Inheritance cycle detected, stopping walk"
  | sectionNotWritten .. => "Section name cannot be written as an INI header, skipped"
  | entryNotWritten .. => "Value cannot be written as a single INI line, skipped"
  | sectionsMerged .. => "Merging case-duplicate section"
  | fileLoaded .. => "Loading INI file"
  | fileMissing .. => "INI file not found, starting empty"
  | fileSaved .. => "Saved INI file"

/-- The data of an event, by name. -/
def fields : Event → List (String × EventField)
  | textRead s => [("sections", .count s.sections), ("values", .count s.entries),
      ("ignored", .count s.ignored)]
  | sectionDeclaredAgain line name => [("line", .count line), ("section", .text name)]
  | headerWithoutName line | lineOutsideSections line | lineNotUnderstood line =>
    [("line", .count line)]
  | cycleMet name parent => [("section", .text name), ("parent", .text parent)]
  | sectionNotWritten name | sectionsMerged name => [("section", .text name)]
  | entryNotWritten name key => [("section", .text name), ("key", .text key)]
  | fileLoaded path bytes | fileSaved path bytes => [("path", .text path), ("bytes", .count bytes)]
  | fileMissing path => [("path", .text path)]

end Event

end Lineage
