import Lineage.Proofs.NormalForm
import Lineage.Proofs.ReadingBlocks

/-!
# Writing with inheritance preserved loses what cannot be written, and nothing else

The part of a document that can be written is the document without the sections whose names do not
fit a header, without the entries that do not fit a line, and then without the sections that have
neither an entry nor a parent. The text of a document is that of its written part
(`toText_preserve`).

A document is well headed if its sections can be told from the headers that are written for them:
the names are small, those with a parent are trimmed, and no parent of a section that is written
holds a line end. Its written part is recoverable then, so that reading the text recovers it
(`parse_toText_eq_recovered`). The written part of a canonical document is legible
(`legible_written`), so reading the text gives it back, without passing over a line
(`parse_toText_preserve`).
-/

namespace Lineage

open Text

/-- The section with those entries only that fit a line. -/
def Section.written (s : Section) : Section :=
  { s with values := s.values.filter (fun k v => Entry.fitsLine (k, v)) }

/-- The part of a document that can be written. -/
def Document.written (d : Document) : Document where
  sections :=
    ((d.sections.filter (fun name _ => name.fitsHeader)).map (fun _ s => s.written)).filter
      (fun _ s => !s.isEmpty || s.parent.isSome)

/-- The section can be told from the header that is written for it, if one is written. -/
structure Section.WellHeaded (name : Text) (s : Section) : Prop where
  small : ∀ c ∈ name, IsSmall c
  trim_name : s.parent.isSome → trim name = name
  normal : s.Normal
  parent_unbroken : name.fitsHeader = true → ∀ p ∈ s.parent, p.hasLineBreak = false

def Document.WellHeaded (d : Document) : Prop := d.sections.All Section.WellHeaded

/-- The name and the keys are in normal form, the name tells whether the section is abstract, and
the parent can stand at the end of a header. -/
structure Section.Canonical (name : Text) (s : Section) : Prop extends s.Named name where
  isAbstract_iff : s.isAbstract = true ↔ name.head? = some Mark.abstract
  parent_unbroken : ∀ p ∈ s.parent, p.hasLineBreak = false
  parent_edge : ∀ p ∈ s.parent, p.getLast? ≠ some Mark.headerOpen ∧
    p.getLast? ≠ some Mark.headerClose ∧ p.getLast? ≠ some Mark.parent

instance (name : Text) (s : Section) : Decidable (s.Canonical name) :=
  decidable_of_iff
    (s.Named name ∧ (s.isAbstract = true ↔ name.head? = some Mark.abstract) ∧
      (∀ p ∈ s.parent, p.hasLineBreak = false) ∧
      ∀ p ∈ s.parent, p.getLast? ≠ some Mark.headerOpen ∧
        p.getLast? ≠ some Mark.headerClose ∧ p.getLast? ≠ some Mark.parent)
    ⟨fun ⟨h₁, h₂, h₃, h₄⟩ => ⟨h₁, h₂, h₃, h₄⟩, fun ⟨h₁, h₂, h₃, h₄⟩ => ⟨h₁, h₂, h₃, h₄⟩⟩

def Document.Canonical (d : Document) : Prop := d.sections.All Section.Canonical

instance (d : Document) : Decidable d.Canonical :=
  inferInstanceAs (Decidable (d.sections.All Section.Canonical))

/-! ## What is written -/

namespace Section

theorem has_content_iff (s : Section) :
    (!s.isEmpty || s.parent.isSome) = true ↔ ¬ (s.entries = [] ∧ s.parent = none) := by
  rw [← isEmpty_iff]
  cases s.isEmpty <;> cases s.parent <;> simp

theorem entries_written (s : Section) : s.written.entries = s.entries.filter Entry.fitsLine :=
  OrderedMap.entries_filter _ _

theorem written_written (s : Section) : s.written.written = s.written := by
  have hvalues : s.written.written.values = s.written.values := by
    refine OrderedMap.ext_get? fun key => ?_
    rw [written, written, OrderedMap.get?_filter, OrderedMap.get?_filter, Option.filter_filter]
    simp
  exact congrArg (fun m => { s with values := m }) hvalues

theorem written_eq_self {s : Section} (h : ∀ e ∈ s.entries, Entry.fitsLine e = true) :
    s.written = s := by
  have hvalues : s.written.values = s.values := by
    apply OrderedMap.ext_entries
    show s.written.entries = s.entries
    rw [s.entries_written]
    exact List.filter_eq_self.2 h
  exact congrArg (fun m => { s with values := m }) hvalues

theorem normal_written {s : Section} (hs : s.Normal) : s.written.Normal where
  parent_isName := hs.parent_isName
  key_isName k v h := by
    rw [written, OrderedMap.get?_filter] at h
    exact hs.key_isName k v (Option.filter_eq_some_iff.1 h).1

end Section

namespace Section.WellHeaded

variable {name : Text} {s : Section} (h : s.WellHeaded name)

include h

theorem recoverable_written (hname : name.fitsHeader = true) : s.written.Recoverable name where
  header :=
    { fits := hname
      small := h.small
      trim_name := h.trim_name
      parent_isName := h.normal.parent_isName
      parent_unbroken := h.parent_unbroken hname }
  key_isName e he := by
    rw [entries_written, List.mem_filter] at he
    exact h.normal.key_isName e.1 e.2 ((OrderedMap.mem_entries_iff _).1 he.1)
  entry_fits e he := by
    rw [entries_written, List.mem_filter] at he
    exact he.2

end Section.WellHeaded

namespace Document

theorem block?_preserve (lineage : Text → List Visit) (name : Text) (s : Section) :
    block? lineage .preserve name s =
      if name.fitsHeader = true ∧ (!s.written.isEmpty || s.written.parent.isSome) = true then
        some (s.written.block name)
      else none := by
  have hparent : s.written.parent = s.parent := rfl
  have hcontent := s.written.has_content_iff
  rw [hparent] at hcontent
  unfold block? preservedBlock?
  simp only [hparent, hcontent, ← s.entries_written]
  by_cases hname : name.fitsHeader = true
  · by_cases hnone : s.written.entries = [] ∧ s.parent = none
    · simp [hname, hnone]
    · simp [hname, hnone, Section.block, hparent]
  · simp [hname]

theorem toText_preserve (d : Document) (ending : LineEnding) :
    d.toText { lineEnding := ending, inheritance := .preserve } = d.written.legibleText ending :=
  toText_eq_legibleText (block?_preserve d.lineage) ending

theorem get?_written (d : Document) (name : Text) :
    d.written.sections.get? name =
      (((d.sections.get? name).filter (fun _ => name.fitsHeader)).map Section.written).filter
        (fun s => !s.isEmpty || s.parent.isSome) := by
  rw [written, OrderedMap.get?_filter, OrderedMap.get?_map, OrderedMap.get?_filter]

/-- A section that is written is a section of the document, without what does not fit a line. -/
theorem exists_of_get?_written {d : Document} {name : Text} {t : Section}
    (h : d.written.sections.get? name = some t) :
    ∃ s, d.sections.get? name = some s ∧ name.fitsHeader = true ∧ t = s.written := by
  rw [get?_written] at h
  obtain ⟨hmap, -⟩ := Option.filter_eq_some_iff.1 h
  obtain ⟨s, hs, rfl⟩ := Option.map_eq_some_iff.1 hmap
  obtain ⟨hget, hname⟩ := Option.filter_eq_some_iff.1 hs
  exact ⟨s, hget, hname, rfl⟩

theorem get?_written_of_content {d : Document} {name : Text} {s : Section}
    (hs : d.sections.get? name = some s) (hname : name.fitsHeader = true)
    (hcontent : ¬ (s.written.entries = [] ∧ s.written.parent = none)) :
    d.written.sections.get? name = some s.written := by
  rw [get?_written, hs, Option.filter_some, if_pos hname, Option.map_some, Option.filter_some,
    if_pos (s.written.has_content_iff.2 hcontent)]

/-- What is written is written whole when it is written again. -/
theorem written_written (d : Document) : d.written.written = d.written := by
  have hget : ∀ name, d.written.written.sections.get? name = d.written.sections.get? name := by
    intro name
    rw [get?_written d.written]
    cases h : d.written.sections.get? name with
    | none => rfl
    | some t =>
      obtain ⟨s, -, hname, rfl⟩ := exists_of_get?_written h
      rw [get?_written] at h
      have hcontent := (Option.filter_eq_some_iff.1 h).2
      rw [Option.filter_some, if_pos hname, Option.map_some, Section.written_written,
        Option.filter_some, if_pos hcontent]
  exact congrArg Document.mk (OrderedMap.ext_get? hget)

/-! ## What is read back -/

theorem WellHeaded.recoverable_written {d : Document} (hd : d.WellHeaded) :
    d.written.Recoverable := by
  rintro ⟨name, t⟩ he
  obtain ⟨s, hs, hname, rfl⟩ := exists_of_get?_written ((OrderedMap.mem_entries_iff _).1 he)
  exact (hd name s hs).recoverable_written hname

theorem parse_toText_eq_recovered {d : Document} (hd : d.WellHeaded) (ending : LineEnding) :
    parse (d.toText { lineEnding := ending, inheritance := .preserve }) = d.written.recovered := by
  rw [toText_preserve]
  exact congrArg Document.mk (read_recoverable_blocks hd.recoverable_written ending).1

theorem parent_edge_any {p : Text} (hp : IsName p)
    (hedge : p.getLast? ≠ some Mark.headerOpen ∧ p.getLast? ≠ some Mark.headerClose ∧
      p.getLast? ≠ some Mark.parent) : p.getLast?.any Mark.headerEdges.contains = false := by
  have hblank := (trim_eq_self_iff.1 hp.trim_eq).2
  cases hlast : p.getLast? with
  | none => rfl
  | some c =>
    rw [hlast] at hedge hblank
    have hspace : c ≠ ' ' := by
      rintro rfl
      exact absurd hblank (by decide)
    have htab : c ≠ '\t' := by
      rintro rfl
      exact absurd hblank (by decide)
    simp only [ne_eq, Option.some.injEq] at hedge
    simp [Mark.headerEdges, hspace, htab]
    exact hedge

theorem wellHeaded_of_canonical {name : Text} {s : Section} (hn : s.Normal)
    (hs : s.Canonical name) : s.WellHeaded name where
  small := fun _ hc => hs.name_isName.isSmall hc
  trim_name := fun _ => hs.name_isName.trim_eq
  normal := hn
  parent_unbroken := fun _ => hs.parent_unbroken

theorem legible_written_section {name : Text} {s : Section} (hn : s.Normal)
    (hs : s.Canonical name) (hname : name.fitsHeader = true) : s.written.Legible name := by
  have hrecoverable := (wellHeaded_of_canonical hn hs).recoverable_written hname
  refine ⟨⟨hrecoverable.header, fun p hp => ?_⟩, ?_, hrecoverable.key_isName,
    hrecoverable.entry_fits⟩
  · exact parent_edge_any (hn.parent_isName p hp) (hs.parent_edge p hp)
  · rw [Bool.eq_iff_iff, decide_eq_true_iff]
    exact hs.isAbstract_iff

theorem legible_written {d : Document} (hn : d.Normal) (hd : d.Canonical) : d.written.Legible := by
  rintro ⟨name, t⟩ he
  obtain ⟨s, hs, hname, rfl⟩ := exists_of_get?_written ((OrderedMap.mem_entries_iff _).1 he)
  exact legible_written_section (hn _ _ hs) (hd _ _ hs) hname

/-- The document that is read is the written part, and no line is passed over or declares a
section again. That parents and keys are in normal form holds of every document that can be
reached (`Reachable.normal`). -/
theorem parse_toText_preserve {d : Document} (hn : d.Normal) (hd : d.Canonical)
    (ending : LineEnding) :
    let text := d.toText { lineEnding := ending, inheritance := .preserve }
    parse text = d.written ∧ (Sections.read ∅ text).summary.ignored = 0 ∧
      (Sections.read ∅ text).events = #[] := by
  intro text
  have htext : text = d.written.legibleText ending := d.toText_preserve ending
  obtain ⟨hsections, hevents, hsummary⟩ := read_blocks (legible_written hn hd) ending
  rw [htext]
  refine ⟨congrArg Document.mk hsections, ?_, hevents⟩
  rw [hsummary]

/-- Two sections that inherit from each other, one with an entry that does not fit a line, and a
section that does not fit a header. -/
def circle : Document where
  sections := .ofList
    [("a".toList, { parent := some "_b".toList
                    values := .ofList [("k".toList, " v ".toList), ("l=".toList, "w".toList)] }),
      ("_b".toList, { isAbstract := true, parent := some "a".toList }),
      ("c]".toList, { values := .ofList [("k".toList, "v".toList)] })]

theorem parse_toText_preserve_circle :
    circle.Normal ∧ circle.Canonical ∧
      parse (circle.toText { lineEnding := .crlf, inheritance := .preserve }) = circle.written ∧
      (Sections.read ∅
        (circle.toText { lineEnding := .crlf, inheritance := .preserve })).summary.ignored = 0 ∧
      (Sections.read ∅
        (circle.toText { lineEnding := .crlf, inheritance := .preserve })).events = #[] := by
  have hnormal : circle.Normal := by decide +kernel
  have hcanonical : circle.Canonical := by decide +kernel
  exact ⟨hnormal, hcanonical, parse_toText_preserve hnormal hcanonical .crlf⟩

end Document

end Lineage
