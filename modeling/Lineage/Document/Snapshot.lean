import Lineage.Document.Writing
import Lineage.Json

/-!
# Snapshots

Sections, documents and write options as JSON values. Names in a snapshot may be spelled in any
case and with blanks around them. Where several spellings of one name meet, the first in the
order of code points decides what a section declares and what a key holds, and the others only
add keys that are missing.
-/

namespace Lineage

/-- All members of a map, each read in the same way, in the order of their names. -/
def Json.map? {α : Type} (read? : Json → Option α) (j : Json) : Option (List (Text × α)) :=
  j.members?.bind (fun members =>
    members.entries.mapM (fun e => (read? e.2).map (fun v => (e.1, v))))

namespace Section

def fieldNames : List Text := ["is_abstract".toList, "parent".toList, "values".toList]

/-- Reads a section. All fields may be missing. -/
def ofJson? (j : Json) : Option Section := do
  let fields ← j.record? fieldNames
  let isAbstract ← Json.fieldD fields "is_abstract".toList false Json.bool?
  let parent ← Json.fieldD fields "parent".toList none Json.stringOrNull?
  let values ← Json.fieldD fields "values".toList [] (Json.map? Json.string?)
  return (declare isAbstract parent).addMissing values

def toJson (s : Section) : Json :=
  .object [
    ("is_abstract".toList, .bool s.isAbstract),
    ("parent".toList, .ofOption s.parent),
    ("values".toList, .object (s.entries.map (fun e => (e.1, .string e.2))))]

end Section

namespace Document

/-- Adds a section of a snapshot. A section without a name is left out; one whose name is taken
adds the keys that are missing. -/
def addSnapshot (d : Document) (name : Text) (s : Section) : Document :=
  if name.toName = [] then d
  else match d.sections.get? name.toName with
    | some first => { sections := d.sections.insert name.toName (first.addMissing s.entries) }
    | none => { sections := d.sections.insert name.toName s }

/-- The document of the sections of a snapshot, taken in order. -/
def ofSnapshots (sections : List (Text × Section)) : Document :=
  sections.foldl (fun d e => d.addSnapshot e.1 e.2) ∅

/-- What is reported when sections of a snapshot are added to a document in order. -/
def mergeLog (d : Document) : List (Text × Section) → List Event
  | [] => []
  | e :: rest =>
    (if d.sections.contains e.1.toName then [.sectionsMerged e.1.toName] else []) ++
      mergeLog (d.addSnapshot e.1 e.2) rest

/-- The sections of the snapshot of a document. -/
def snapshots? (j : Json) : Option (List (Text × Section)) := do
  let fields ← j.record? ["sections".toList]
  Json.fieldD fields "sections".toList [] (Json.map? Section.ofJson?)

/-- Reads a document. -/
def ofJson? (j : Json) : Option Document := (snapshots? j).map ofSnapshots

/-- What is reported when a document is read from a snapshot. -/
def ofJsonLog (j : Json) : List Event := ((snapshots? j).map (mergeLog ∅)).getD []

def toJson (d : Document) : Json :=
  .object [("sections".toList, .object (d.sections.entries.map (fun e => (e.1, e.2.toJson))))]

end Document

/-! ## Write options -/

namespace LineEnding

def name : LineEnding → Text
  | crlf => "crlf".toList
  | lf => "lf".toList

def ofName? (s : Text) : Option LineEnding := [crlf, lf].find? (fun e => e.name = s)

end LineEnding

namespace Inheritance

def name : Inheritance → Text
  | preserve => "preserve".toList
  | flatten => "flatten".toList

def ofName? (s : Text) : Option Inheritance := [preserve, flatten].find? (fun m => m.name = s)

end Inheritance

namespace WriteOptions

def fieldNames : List Text := ["line_ending".toList, "inheritance".toList]

/-- Reads write options. All fields may be missing. -/
def ofJson? (j : Json) : Option WriteOptions := do
  let fields ← j.record? fieldNames
  let lineEnding ← Json.fieldD fields "line_ending".toList .crlf
    (fun v => v.choice?.bind LineEnding.ofName?)
  let inheritance ← Json.fieldD fields "inheritance".toList .preserve
    (fun v => v.choice?.bind Inheritance.ofName?)
  return { lineEnding, inheritance }

/-- Write options as a JSON value. -/
def toJson (o : WriteOptions) : Json :=
  .object [
    ("line_ending".toList, .string o.lineEnding.name),
    ("inheritance".toList, .string o.inheritance.name)]

end WriteOptions

end Lineage
