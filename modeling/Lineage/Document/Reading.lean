import Lineage.Document
import Lineage.Event

/-!
# Reading INI text

A text is read line by line into a map of sections, which need not be empty at first. The first
header of a name declares the section; later headers of the name go on with it. An entry belongs
to the section of the last header before it, and replaces an earlier value of its key. Every
other line that is neither blank nor a comment is passed over and counted.
-/

namespace Lineage

/-- How far the reading of a text has come. -/
structure Reading where
  sections : Sections
  /-- The section that entries go to. -/
  current : Option Text := none
  summary : Summary := {}
  /-- What was reported so far, in order. -/
  events : Array Event := #[]

namespace Reading

/-- Passes over a line and reports why. -/
def ignore (r : Reading) (e : Event) : Reading :=
  { r with summary.ignored := r.summary.ignored + 1, events := r.events.push e }

/-- Takes in a header. -/
def readHeader (r : Reading) (number : Nat) (h : Header) : Reading :=
  if r.sections.contains h.name then
    { r with
      current := some h.name
      events := r.events.push (.sectionDeclaredAgain number h.name) }
  else
    { r with
      current := some h.name
      sections := r.sections.insert h.name (Section.declare h.isAbstract h.parent)
      summary.sections := r.summary.sections + 1 }

/-- Takes in an entry of an existing section. -/
def readEntry (r : Reading) (name : Text) (s : Section) (e : Entry) : Reading :=
  { r with
    sections := r.sections.insert name (s.set e.1 e.2)
    summary.entries := r.summary.entries + 1 }

/-- The current section with its name. -/
def currentSection? (r : Reading) : Option (Text × Section) :=
  r.current.bind (fun name => (r.sections.get? name).map (fun s => (name, s)))

theorem currentSection?_eq_some_iff {r : Reading} {name : Text} {s : Section} :
    r.currentSection? = some (name, s) ↔ r.current = some name ∧ r.sections.get? name = some s := by
  rw [currentSection?, Option.bind_eq_some_iff]
  constructor
  · rintro ⟨n, hn, hmap⟩
    obtain ⟨t, ht, heq⟩ := Option.map_eq_some_iff.1 hmap
    cases heq
    exact ⟨hn, ht⟩
  · rintro ⟨hname, hs⟩
    exact ⟨name, hname, by rw [hs, Option.map_some]⟩

/-- Takes in the line of a number. -/
def readLine (r : Reading) (number : Nat) : Line → Reading
  | .silent => r
  | .header (some h) => r.readHeader number h
  | .header none => { r.ignore (.headerWithoutName number) with current := none }
  | .content entry =>
    match r.currentSection?, entry with
    | none, _ => r.ignore (.lineOutsideSections number)
    | some _, none => r.ignore (.lineNotUnderstood number)
    | some (name, s), some e => r.readEntry name s e

/-- Takes in numbered lines in order. -/
def readLines (r : Reading) (lines : List (Text × Nat)) : Reading :=
  lines.foldl (fun r l => r.readLine l.2 (Line.parse l.1)) r

end Reading

/-- Reads a text into sections. Lines are numbered from one. -/
def Sections.read (sections : Sections) (text : Text) : Reading :=
  Reading.readLines { sections } (text.lines.zipIdx 1)

namespace Document

/-- The document of a text. -/
def parse (text : Text) : Document := { sections := (Sections.read ∅ text).sections }

/-- What is reported when a document is made of a text. -/
def parseLog (text : Text) : List Event :=
  let r := Sections.read ∅ text
  r.events.toList ++ [.textRead r.summary]

end Document

end Lineage
