import Lineage.Document.FamilyTree

/-!
# Writing INI text

A document is written as blocks of lines, one for each section that has anything to write: a
header, the entries, and a blank line. Inheritance is either preserved, so that headers name
parents and each section has its own values, or flattened, so that every section that is not
abstract has all its values and no parent. Sections and entries without a written form are left
out and reported; empty values are left out silently.

* `blocks_eq`, `writeLog_eq`: all sections are written with the ancestors that they have in the
  document.
-/

namespace Lineage

/-- What ends a written line. -/
inductive LineEnding where
  | crlf
  | lf
deriving DecidableEq, Repr, Inhabited

/-- The characters of a line ending. -/
def LineEnding.text : LineEnding → Text
  | crlf => ['\r', '\n']
  | lf => ['\n']

/-- Lines with their ends. -/
def LineEnding.join (ending : LineEnding) (lines : List Text) : Text :=
  lines.flatMap (fun line => line ++ ending.text)

/-- How inheritance is written. -/
inductive Inheritance where
  /-- Parents in headers, abstract sections included. -/
  | preserve
  /-- Inherited values as own values, abstract sections left out. -/
  | flatten
deriving DecidableEq, Repr, Inhabited

/-- How a document is written. -/
structure WriteOptions where
  lineEnding : LineEnding := .crlf
  inheritance : Inheritance := .preserve
deriving DecidableEq, Repr, Inhabited

/-- Whether an entry has a written form. -/
def Entry.fitsLine (e : Entry) : Bool := e.1.fitsKey && e.2.fitsValue

/-- What is reported when an entry of a section is about to be written. -/
def Entry.writeLog (name : Text) (e : Entry) : List Event :=
  if e.2 ≠ [] ∧ ¬ Entry.fitsLine e then [.entryNotWritten name e.1] else []

/-- The written part of a section. -/
structure Block where
  name : Text
  parent : Option Text
  entries : List Entry
deriving DecidableEq

/-- The lines of a block. The last one is blank. -/
def Block.lines (b : Block) : List Text :=
  Header.line b.name b.parent :: b.entries.map (fun e => Entry.line e.1 e.2) ++ [[]]

namespace Document

/-- The block of a section with its inheritance preserved. A section without entries to write is
written for its parent only. -/
def preservedBlock? (name : Text) (s : Section) : Option Block :=
  let entries := s.entries.filter Entry.fitsLine
  if entries = [] ∧ s.parent = none then none else some { name, parent := s.parent, entries }

/-- The block of a section with its inheritance flattened, given its ancestors. -/
def flattenedBlock? (ancestors : List Visit) (name : Text) : Option Block :=
  let entries := (Visit.inherited ancestors).entries.filter Entry.fitsLine
  if entries = [] then none else some { name, parent := none, entries }

/-- The block of a section, if there is anything to write, given the ancestors of all sections. -/
def block? (lineage : Text → List Visit) (mode : Inheritance) (name : Text) (s : Section) :
    Option Block :=
  if ¬ name.fitsHeader then none
  else match mode with
    | .preserve => preservedBlock? name s
    | .flatten => if s.isAbstract then none else flattenedBlock? (lineage name) name

/-- The blocks in the order of section names. -/
def blocks (d : Document) (mode : Inheritance) : List Block :=
  let tree := d.sections.familyTree
  d.sections.entries.filterMap (fun e => block? tree.lineage mode e.1 e.2)

/-- The text of a document. -/
def toText (d : Document) (options : WriteOptions) : Text :=
  options.lineEnding.join ((d.blocks options.inheritance).flatMap Block.lines)

/-! ## What writing reports -/

/-- What is reported when a section is about to be written, given the ancestors of all
sections. -/
def sectionLog (lineage : Text → List Visit) (mode : Inheritance) (name : Text) (s : Section) :
    List Event :=
  if ¬ name.fitsHeader then [.sectionNotWritten name]
  else match mode with
    | .preserve => s.entries.flatMap (Entry.writeLog name)
    | .flatten =>
      if s.isAbstract then []
      else
        let ancestors := lineage name
        ancestors.flatMap Visit.events ++
          (Visit.inherited ancestors).entries.flatMap (Entry.writeLog name)

/-- What is reported when a document is written. -/
def writeLog (d : Document) (mode : Inheritance) : List Event :=
  let tree := d.sections.familyTree
  d.sections.entries.flatMap (fun e => sectionLog tree.lineage mode e.1 e.2)

/-! ## Ancestors -/

theorem blocks_eq (d : Document) (mode : Inheritance) :
    d.blocks mode = d.sections.entries.filterMap (fun e => block? d.lineage mode e.1 e.2) := by
  simp only [blocks, lineage_familyTree]

theorem writeLog_eq (d : Document) (mode : Inheritance) :
    d.writeLog mode = d.sections.entries.flatMap (fun e => sectionLog d.lineage mode e.1 e.2) := by
  simp only [writeLog, lineage_familyTree]

end Document

end Lineage
