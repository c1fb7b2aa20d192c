import Lineage.Document.Reading
import Lineage.Proofs.Maps
import Lineage.Proofs.TextLines

/-!
# Blocks are read as the sections they were written for

A section is recoverable under a name if its header and all its entries stay on their lines. Then
reading goes through its block without passing over a line (`readLines_block`) and recovers the
section, but for what the header cannot say: the name tells whether the section is abstract, and
the end of the parent may be missing. A section is legible if the header says it all. The blocks
of a document of recoverable sections give what is recovered of the document
(`read_recoverable_blocks`), those of a document of legible sections the document (`read_blocks`).
The induction over the blocks keeps the sections that were there before, and uses that every name
occurs once.
-/

namespace Lineage

open Text

namespace Section

theorem isEmpty_iff (s : Section) : s.isEmpty = true ↔ s.entries = [] := s.values.isEmpty_iff

/-- The block that has all of a section. -/
def block (name : Text) (s : Section) : Block where
  name
  parent := s.parent
  entries := s.entries

/-- The section can be written under this name and is read as one of this name and these
entries. -/
structure Recoverable (name : Text) (s : Section) : Prop where
  header : Header.Recoverable name s.parent
  key_isName : ∀ e ∈ s.entries, IsName e.1
  entry_fits : ∀ e ∈ s.entries, Entry.fitsLine e = true

/-- What is read of the block of a section. -/
def recovered (name : Text) (s : Section) : Section where
  isAbstract := name.head? = some Mark.abstract
  parent := s.parent.bind Header.recoveredParent
  values := s.values

/-- All of the section can be written under this name and read back. -/
structure Legible (name : Text) (s : Section) : Prop where
  header : Header.Legible name s.parent
  isAbstract_eq : s.isAbstract = decide (name.head? = some Mark.abstract)
  key_isName : ∀ e ∈ s.entries, IsName e.1
  entry_fits : ∀ e ∈ s.entries, Entry.fitsLine e = true

theorem fits_of_fitsLine {e : Entry} (h : Entry.fitsLine e = true) :
    e.1.fitsKey = true ∧ e.2.fitsValue = true := by
  simpa [Entry.fitsLine] using h

theorem declare_of_names (isAbstract : Bool) {parent : Option Text}
    (h : ∀ p ∈ parent, IsName p) :
    declare isAbstract parent = { isAbstract, parent } := by
  cases parent with
  | none => rfl
  | some p =>
    obtain ⟨hne, hname⟩ := h p rfl
    simp [declare, hname, Option.filter_some, hne]

/-- The parent of a header is a name already. -/
theorem declare_of_parse? {text : Text} {h : Header} (hh : Header.parse? text = some h) :
    declare h.isAbstract h.parent = { isAbstract := h.isAbstract, parent := h.parent } := by
  obtain ⟨-, -, -, hparent⟩ := Header.names_of_parse? hh
  exact declare_of_names h.isAbstract hparent

/-- Setting all entries of a section, one after another, in one without values gives the section
again. -/
theorem foldl_set_entries (s : Section) (h : ∀ e ∈ s.entries, IsName e.1) :
    s.entries.foldl (fun t e => t.set e.1 e.2) { s with values := ∅ } = s := by
  have hvalues : ∀ (es : List Entry), (∀ e ∈ es, IsName e.1) → ∀ m : OrderedMap Text Text,
      es.foldl (fun t e => t.set e.1 e.2) { s with values := m } =
        { s with values := es.foldl (fun m e => m.insert e.1 e.2) m } := by
    intro es
    induction es with
    | nil => exact fun _ _ => rfl
    | cons e rest ih =>
      intro hes m
      rw [List.foldl_cons, List.foldl_cons, ← ih fun f hf => hes f (List.mem_cons_of_mem _ hf)]
      rw [set, (hes e List.mem_cons_self).2]
  rw [hvalues s.entries h]
  exact congrArg (fun m => { s with values := m }) s.values.ofList_entries

theorem Legible.recoverable {name : Text} {s : Section} (h : s.Legible name) :
    s.Recoverable name where
  header := h.header.toRecoverable
  key_isName := h.key_isName
  entry_fits := h.entry_fits

theorem Legible.recovered_eq {name : Text} {s : Section} (h : s.Legible name) :
    s.recovered name = s := by
  have hparent := Header.bind_recoveredParent_eq_self h.header.parent_isName h.header.parent_edge
  rw [recovered, hparent, ← h.isAbstract_eq]

variable {name : Text} {s : Section} (h : s.Recoverable name)

include h

theorem Recoverable.hasLineBreak_of_mem_lines {l : Text} (hl : l ∈ (s.block name).lines) :
    l.hasLineBreak = false := by
  simp only [Block.lines, block, List.mem_append, List.mem_cons, List.mem_map, List.not_mem_nil,
    or_false] at hl
  rcases hl with (rfl | ⟨e, he, rfl⟩) | rfl
  · exact h.header.hasLineBreak_line
  · obtain ⟨hkey, hvalue⟩ := fits_of_fitsLine (h.entry_fits e he)
    obtain ⟨-, -, -, -, -, hkey⟩ := Entry.fitsKey_iff.1 hkey
    exact Entry.hasLineBreak_line hkey (Entry.fitsValue_iff.1 hvalue).2
  · rfl

theorem Recoverable.parent_recovered_isName : ∀ p ∈ (s.recovered name).parent, IsName p := by
  intro p hp
  obtain ⟨q, hq, hpq⟩ := Option.bind_eq_some_iff.1 hp
  exact Header.isName_of_recoveredParent (h.header.parent_isName q hq) hpq

end Section

namespace Reading

/-! ## Runs -/

theorem readLines_cons (r : Reading) (l : Text × Nat) (ls : List (Text × Nat)) :
    r.readLines (l :: ls) = (r.readLine l.2 (Line.parse l.1)).readLines ls := rfl

theorem readLines_append (r : Reading) (a b : List (Text × Nat)) :
    r.readLines (a ++ b) = (r.readLines a).readLines b := List.foldl_append

/-- A header of a name that is not there yet is taken in without a report. -/
theorem readLine_header_of_new {r : Reading} {h : Header}
    (hnew : r.sections.contains h.name = false) (n : Nat) :
    r.readLine n (.header (some h)) =
      { r with
        current := some h.name
        sections := r.sections.insert h.name (Section.declare h.isAbstract h.parent)
        summary.sections := r.summary.sections + 1 } := by
  rw [readLine, readHeader, if_neg (by simp [hnew])]

/-- An entry goes to the current section. -/
theorem readLine_content {r : Reading} {name : Text} {s : Section}
    (hcurrent : r.current = some name) (hs : r.sections.get? name = some s) (n : Nat) (e : Entry) :
    r.readLine n (.content (some e)) = r.readEntry name s e := by
  have hsection := currentSection?_eq_some_iff.2 ⟨hcurrent, hs⟩
  unfold readLine
  rw [hsection]

theorem readLine_not_understood {r : Reading} {name : Text} {s : Section}
    (hcurrent : r.current = some name) (hs : r.sections.get? name = some s) (n : Nat) :
    r.readLine n (.content none) = r.ignore (.lineNotUnderstood n) := by
  have hsection := currentSection?_eq_some_iff.2 ⟨hcurrent, hs⟩
  unfold readLine
  rw [hsection]

theorem readLine_outside_sections {r : Reading} (hcurrent : r.current = none) (n : Nat)
    (e : Option Entry) : r.readLine n (.content e) = r.ignore (.lineOutsideSections n) := by
  have hsection : r.currentSection? = none := by
    rw [currentSection?, hcurrent]
    rfl
  unfold readLine
  rw [hsection]

/-! ## Entries and blocks -/

theorem readLines_entries {r : Reading} {name : Text} {m : Sections} {s : Section}
    (hcurrent : r.current = some name) (hm : r.sections = m.insert name s) {es : List Entry}
    (hname : ∀ e ∈ es, IsName e.1) (hfits : ∀ e ∈ es, Entry.fitsLine e = true) (n : Nat) :
    r.readLines ((es.map (fun e => Entry.line e.1 e.2)).zipIdx n) =
      { r with
        sections := m.insert name (es.foldl (fun s e => s.set e.1 e.2) s)
        summary.entries := r.summary.entries + es.length } := by
  induction es generalizing r s n with
  | nil =>
    rw [List.foldl_nil, ← hm]
    rfl
  | cons e rest ih =>
    obtain ⟨hkey, hvalue⟩ := Section.fits_of_fitsLine (hfits e List.mem_cons_self)
    have hget : r.sections.get? name = some s := by
      rw [hm, OrderedMap.get?_insert_self]
    have hsections : (r.readEntry name s e).sections = m.insert name (s.set e.1 e.2) := by
      rw [readEntry, hm]
      exact OrderedMap.insert_insert m name s _
    rw [List.map_cons, List.zipIdx_cons, readLines_cons,
      Entry.parse_line (hname e List.mem_cons_self) hkey hvalue,
      readLine_content hcurrent hget,
      ih (r := r.readEntry name s e) hcurrent hsections
        (fun f hf => hname f (List.mem_cons_of_mem _ hf))
        (fun f hf => hfits f (List.mem_cons_of_mem _ hf))]
    rw [List.foldl_cons, List.length_cons, Nat.add_comm rest.length, ← Nat.add_assoc]
    rfl

theorem readLines_block {r : Reading} {name : Text} {s : Section} (hs : s.Recoverable name)
    (hnew : r.sections.contains name = false) (n : Nat) :
    r.readLines ((s.block name).lines.zipIdx n) =
      { r with
        sections := r.sections.insert name (s.recovered name)
        current := some name
        summary.sections := r.summary.sections + 1
        summary.entries := r.summary.entries + s.entries.length } := by
  have hdeclare : Section.declare (decide (name.head? = some Mark.abstract))
      (s.parent.bind Header.recoveredParent) = { s.recovered name with values := ∅ } :=
    Section.declare_of_names _ hs.parent_recovered_isName
  have hentries : s.entries.foldl (fun t e => t.set e.1 e.2)
      { s.recovered name with values := ∅ } = s.recovered name :=
    Section.foldl_set_entries (s.recovered name) hs.key_isName
  rw [Block.lines, List.cons_append, List.zipIdx_cons, readLines_cons, List.zipIdx_append,
    readLines_append]
  dsimp only [Section.block]
  rw [hs.header.parse_line, readLine_header_of_new hnew, hdeclare,
    readLines_entries (m := r.sections) rfl rfl hs.key_isName hs.entry_fits, hentries]
  -- The blank line at the end of a block says nothing.
  rfl

/-! ## Documents -/

/-- The blocks of recoverable sections in the order of their names. -/
theorem readLines_blocks {r : Reading} {es : List (Text × Section)}
    (hs : es.Pairwise (fun a b => a.1 < b.1)) (hes : ∀ e ∈ es, e.2.Recoverable e.1)
    (hnew : ∀ e ∈ es, r.sections.contains e.1 = false) (n : Nat) :
    ∃ current, r.readLines (((es.map (fun e => e.2.block e.1)).flatMap Block.lines).zipIdx n) =
      { r with
        sections := es.foldl (fun m e => m.insert e.1 (e.2.recovered e.1)) r.sections
        current
        summary.sections := r.summary.sections + es.length
        summary.entries := r.summary.entries + (es.flatMap (fun e => e.2.entries)).length } := by
  induction es generalizing r n with
  | nil => exact ⟨r.current, rfl⟩
  | cons e rest ih =>
    obtain ⟨he, hrest⟩ := List.pairwise_cons.1 hs
    have hblock := readLines_block (hes e List.mem_cons_self) (hnew e List.mem_cons_self) n
    -- Names come in order, so this section is none of the later ones.
    have hnew' : ∀ f ∈ rest,
        (r.sections.insert e.1 (e.2.recovered e.1)).contains f.1 = false := by
      intro f hf
      have hne : f.1 ≠ e.1 := fun h => KeyOrder.irrefl e.1 (h ▸ he f hf)
      rw [OrderedMap.contains_insert, decide_eq_false hne, Bool.false_or]
      exact hnew f (List.mem_cons_of_mem _ hf)
    obtain ⟨current, hcurrent⟩ := ih (r := r.readLines ((e.2.block e.1).lines.zipIdx n)) hrest
      (fun f hf => hes f (List.mem_cons_of_mem _ hf)) (by rw [hblock]; exact hnew')
      (n + (e.2.block e.1).lines.length)
    refine ⟨current, ?_⟩
    rw [List.map_cons, List.flatMap_cons, List.zipIdx_append, readLines_append, hcurrent, hblock]
    simp only [List.foldl_cons, List.flatMap_cons, List.length_append, List.length_cons,
      Nat.add_assoc, Nat.add_comm 1]

end Reading

namespace Document

/-- All sections can be written and are read under their names. -/
def Recoverable (d : Document) : Prop := ∀ e ∈ d.sections.entries, e.2.Recoverable e.1

/-- What is read of the blocks of all sections. -/
def recovered (d : Document) : Document where
  sections := d.sections.map Section.recovered

/-- All sections can be written and read back. -/
def Legible (d : Document) : Prop := ∀ e ∈ d.sections.entries, e.2.Legible e.1

/-- The text that the blocks of all sections make. It is read back if the sections are legible. -/
def legibleText (d : Document) (ending : LineEnding) : Text :=
  ending.join ((d.sections.entries.map (fun e => e.2.block e.1)).flatMap Block.lines)

/-- A mode writes what is picked by name, changed, and picked again, if it writes such a block for
each section. -/
theorem toText_eq_legibleText {d : Document} {mode : Inheritance} {p : Text → Section → Bool}
    {f : Text → Section → Section} {q : Text → Section → Bool}
    (hblock : ∀ name s, block? d.lineage mode name s =
      if p name s = true ∧ q name (f name s) = true then some ((f name s).block name) else none)
    (ending : LineEnding) :
    d.toText { lineEnding := ending, inheritance := mode } =
      legibleText { sections := ((d.sections.filter p).map f).filter q } ending := by
  have hblocks : d.blocks mode =
      (((d.sections.filter p).map f).filter q).entries.map (fun e => e.2.block e.1) := by
    rw [blocks_eq, OrderedMap.map_entries_filter_map_filter]
    exact congrArg (fun g => d.sections.entries.filterMap g) (funext fun e => hblock e.1 e.2)
  rw [toText, hblocks]
  rfl

theorem head?_legibleText (d : Document) (ending : LineEnding) :
    (d.legibleText ending).head? ≠ some '\uFEFF' := by
  unfold legibleText
  cases d.sections.entries with
  | nil => exact nofun
  | cons e rest =>
    have hopen : (some Mark.headerOpen : Option Char) ≠ some '\uFEFF' := by decide
    rw [List.map_cons, List.flatMap_cons, Block.lines, List.cons_append, List.cons_append,
      LineEnding.join_cons, Section.block, Header.line_eq]
    exact hopen

theorem read_recoverable_blocks {d : Document} (hd : d.Recoverable) (ending : LineEnding) :
    (Sections.read ∅ (d.legibleText ending)).sections = d.recovered.sections ∧
      (Sections.read ∅ (d.legibleText ending)).events = #[] ∧
      (Sections.read ∅ (d.legibleText ending)).summary =
        { sections := d.size
          entries := (d.sections.entries.flatMap (fun e => e.2.entries)).length } := by
  have hlines : (d.legibleText ending).lines =
      (d.sections.entries.map (fun e => e.2.block e.1)).flatMap Block.lines ++ [[]] := by
    refine ending.lines_join (fun l hl => ?_) (d.head?_legibleText ending)
    obtain ⟨b, hb, hlb⟩ := List.mem_flatMap.1 hl
    obtain ⟨e, he, rfl⟩ := List.mem_map.1 hb
    exact (hd e he).hasLineBreak_of_mem_lines hlb
  obtain ⟨current, hrun⟩ := Reading.readLines_blocks (r := { sections := ∅ })
    d.sections.sorted_entries hd (fun _ _ => rfl) 1
  have hread : Sections.read ∅ (d.legibleText ending) =
      Reading.readLines { sections := ∅ }
        (((d.sections.entries.map (fun e => e.2.block e.1)).flatMap Block.lines).zipIdx 1) := by
    rw [Sections.read, hlines, List.zipIdx_append, Reading.readLines_append]
    rfl
  rw [hread, hrun]
  refine ⟨?_, rfl, ?_⟩
  · rw [← OrderedMap.ofList_entries d.recovered.sections, OrderedMap.ofList, recovered,
      OrderedMap.entries_map, List.foldl_map]
  · simp [size, OrderedMap.size_eq_length]

theorem Legible.recovered_eq {d : Document} (hd : d.Legible) : d.recovered = d := by
  have hentries : d.recovered.sections.entries = d.sections.entries := by
    rw [recovered, OrderedMap.entries_map]
    refine (List.map_congr_left fun e he => ?_).trans (List.map_id _)
    rw [(hd e he).recovered_eq]
    rfl
  exact congrArg Document.mk (OrderedMap.ext_entries hentries)

theorem read_blocks {d : Document} (hd : d.Legible) (ending : LineEnding) :
    (Sections.read ∅ (d.legibleText ending)).sections = d.sections ∧
      (Sections.read ∅ (d.legibleText ending)).events = #[] ∧
      (Sections.read ∅ (d.legibleText ending)).summary =
        { sections := d.size
          entries := (d.sections.entries.flatMap (fun e => e.2.entries)).length } := by
  have hread := read_recoverable_blocks (fun e he => (hd e he).recoverable) ending
  rwa [hd.recovered_eq] at hread

end Document

end Lineage
