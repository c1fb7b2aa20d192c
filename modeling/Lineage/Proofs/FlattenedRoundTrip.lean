import Lineage.Proofs.NormalForm
import Lineage.Proofs.ReadingBlocks
import Lineage.Proofs.Walks

/-!
# A flattened document holds the resolved values that can be written

Flattening keeps the sections that are not abstract and gives each of them all its resolved values
that fit a line, and no parent; sections left without values go. The text of a document whose
inheritance is flattened is that of the flattened document (`toText_flatten`), which is legible
whatever the parents are (`legible_flattened`), since no header names them. So a value that can be
written is read from the text as it is read from the document, by whatever way it is inherited
there (`parse_toText_flatten`).

An empty value of a section hides the value of its ancestors and is not written, so its key is
missing in the flattened document.
-/

namespace Lineage.Document

open Text

/-- The section has the value, its own or an inherited one, and the value can be written. -/
def Shows (d : Document) (name : Text) (e : Entry) : Prop :=
  e ∈ (d.resolved name).entries ∧ e.2 ≠ [] ∧ e.1.fitsKey = true ∧ e.2.fitsValue = true

/-- All that a document shows is in another one, and nothing else: sections that are not abstract
and show a value, without parents, their names telling whether they are abstract. -/
structure ShownIn (d flat : Document) : Prop where
  contains_iff : ∀ name, flat.sections.contains name = true ↔
    ∃ s, d.sections.get? name = some s ∧ s.isAbstract = false ∧ name.fitsHeader = true ∧
      ∃ e, d.Shows name e
  parent_eq_none : ∀ name s, flat.sections.get? name = some s → s.parent = none
  isAbstract_iff : ∀ name s, flat.sections.get? name = some s →
    (s.isAbstract = true ↔ name.head? = some Mark.abstract)
  mem_entries_iff : ∀ name s, flat.sections.get? name = some s →
    ∀ e, e ∈ s.entries ↔ d.Shows name e
  read?_eq_some : ∀ name s, flat.sections.get? name = some s → ∀ e ∈ s.entries,
    flat.read? name e.1 = some e.2 ∧ d.read? name e.1 = some e.2

/-- The section that is written for the section of this name. -/
def flattenedSection (d : Document) (name : Text) : Section where
  isAbstract := name.head? = some Mark.abstract
  values := (d.resolved name).filter (fun k v => Entry.fitsLine (k, v))

/-- The document that is written when inheritance is flattened. -/
def flattened (d : Document) : Document where
  sections :=
    ((d.sections.filter (fun name s => name.fitsHeader && !s.isAbstract)).map
      (fun name _ => d.flattenedSection name)).filter (fun _ s => !s.isEmpty)

/-! ## What is written -/

theorem mem_entries_flattenedSection {d : Document} {name : Text} {e : Entry} :
    e ∈ (d.flattenedSection name).entries ↔ d.Shows name e := by
  have hfits : Entry.fitsLine e = true ↔ e.2 ≠ [] ∧ e.1.fitsKey = true ∧ e.2.fitsValue = true := by
    rw [Entry.fitsLine, Bool.and_eq_true]
    constructor
    · rintro ⟨hkey, hvalue⟩
      exact ⟨(Entry.fitsValue_iff.1 hvalue).1, hkey, hvalue⟩
    · rintro ⟨-, hkey, hvalue⟩
      exact ⟨hkey, hvalue⟩
  rw [Section.entries, flattenedSection, OrderedMap.entries_filter, List.mem_filter, Shows, ← hfits]

theorem not_isEmpty_flattenedSection {d : Document} {name : Text} :
    (!(d.flattenedSection name).isEmpty) = true ↔ (d.flattenedSection name).entries ≠ [] := by
  rw [Bool.not_eq_true', ← Bool.not_eq_true]
  exact not_congr (Section.isEmpty_iff _)

theorem block?_flatten (d : Document) (name : Text) (s : Section) :
    block? d.lineage .flatten name s =
      if (name.fitsHeader && !s.isAbstract) = true ∧ (!(d.flattenedSection name).isEmpty) = true then
        some ((d.flattenedSection name).block name)
      else none := by
  have hentries : (Visit.inherited (d.lineage name)).entries.filter Entry.fitsLine =
      (d.flattenedSection name).entries :=
    (OrderedMap.entries_filter (fun k v => Entry.fitsLine (k, v)) (d.resolved name)).symm
  have hparent : (d.flattenedSection name).parent = none := rfl
  unfold block? flattenedBlock?
  simp only [hentries, not_isEmpty_flattenedSection]
  by_cases hname : name.fitsHeader = true
  · by_cases habstract : s.isAbstract = true
    · simp [hname, habstract]
    · by_cases hnone : (d.flattenedSection name).entries = []
      · simp [hname, hnone]
      · simp [hname, habstract, hnone, Section.block, hparent]
  · simp [hname]

theorem toText_flatten (d : Document) (ending : LineEnding) :
    d.toText { lineEnding := ending, inheritance := .flatten } =
      d.flattened.legibleText ending :=
  toText_eq_legibleText d.block?_flatten ending

theorem get?_flattened_eq_some_iff {d : Document} {name : Text} {t : Section} :
    d.flattened.sections.get? name = some t ↔
      (∃ s, d.sections.get? name = some s ∧ s.isAbstract = false ∧ name.fitsHeader = true) ∧
        t = d.flattenedSection name ∧ ∃ e, d.Shows name e := by
  have hempty : (!(d.flattenedSection name).isEmpty) = true ↔ ∃ e, d.Shows name e := by
    rw [not_isEmpty_flattenedSection]
    constructor
    · intro hne
      obtain ⟨e, he⟩ := List.exists_mem_of_ne_nil _ hne
      exact ⟨e, mem_entries_flattenedSection.1 he⟩
    · rintro ⟨e, he⟩
      exact List.ne_nil_of_mem (mem_entries_flattenedSection.2 he)
  rw [flattened, OrderedMap.get?_filter, OrderedMap.get?_map, OrderedMap.get?_filter,
    Option.filter_eq_some_iff, Option.map_eq_some_iff]
  constructor
  · rintro ⟨⟨s, hs, rfl⟩, hne⟩
    obtain ⟨hget, hwritten⟩ := Option.filter_eq_some_iff.1 hs
    rw [Bool.and_eq_true, Bool.not_eq_true'] at hwritten
    exact ⟨⟨s, hget, hwritten.2, hwritten.1⟩, rfl, hempty.1 hne⟩
  · rintro ⟨⟨s, hget, habstract, hname⟩, rfl, hshows⟩
    refine ⟨⟨s, Option.filter_eq_some_iff.2 ⟨hget, ?_⟩, rfl⟩, hempty.2 hshows⟩
    rw [habstract, hname]
    rfl

/-! ## What is read back -/

section Named

variable {d : Document} (hd : d.Named)

include hd

theorem isName_of_mem_resolved {name : Text} {e : Entry} (he : e ∈ (d.resolved name).entries) :
    IsName e.1 := by
  rw [OrderedMap.mem_entries_iff] at he
  obtain ⟨n, s, hs, hvalue⟩ := exists_own_of_get?_resolved he
  exact (hd n s hs).key_isName e ((OrderedMap.mem_entries_iff _).2 hvalue)

theorem legible_flattened : d.flattened.Legible := by
  rintro ⟨name, t⟩ he
  have hget := (OrderedMap.mem_entries_iff _).1 he
  obtain ⟨⟨s, hs, -, hname⟩, rfl, -⟩ := get?_flattened_eq_some_iff.1 hget
  exact
    { header :=
        { fits := hname
          small := fun _ hc => (hd _ _ hs).name_isName.isSmall hc
          trim_name := nofun
          parent_isName := nofun
          parent_unbroken := nofun
          parent_edge := nofun }
      isAbstract_eq := rfl
      key_isName := fun _ he => isName_of_mem_resolved hd (mem_entries_flattenedSection.1 he).1
      entry_fits := fun e he => by
        obtain ⟨-, -, hkey, hvalue⟩ := mem_entries_flattenedSection.1 he
        rw [Entry.fitsLine, hkey, hvalue]
        rfl }

theorem parse_toText_flatten_eq (ending : LineEnding) :
    parse (d.toText { lineEnding := ending, inheritance := .flatten }) = d.flattened := by
  rw [toText_flatten]
  exact congrArg Document.mk (read_blocks (legible_flattened hd) ending).1

theorem read?_flattened {name : Text} {t : Section}
    (ht : d.flattened.sections.get? name = some t) {e : Entry} (he : e ∈ t.entries) :
    d.flattened.read? name e.1 = some e.2 ∧ d.read? name e.1 = some e.2 := by
  obtain ⟨⟨s, hs, -, -⟩, rfl, -⟩ := get?_flattened_eq_some_iff.1 ht
  have hshows := (mem_entries_flattenedSection.1 he).1
  obtain ⟨hne, hkey⟩ := isName_of_mem_resolved hd hshows
  have hkey' : toName e.1 ≠ [] := by rwa [hkey]
  constructor
  · have hroot : d.flattened.ancestors name = [(name, d.flattenedSection name)] := by
      rw [ancestors, (hd _ _ hs).name_isName.2]
      exact Sections.path_of_root ht rfl
    have hown : (d.flattenedSection name).get? e.1 = some e.2 := by
      rw [Section.get?, hkey]
      exact (OrderedMap.mem_entries_iff _).1 he
    rw [read?_eq_findSome? _ name hkey', hroot, List.findSome?_cons, hown]
  · rw [read?_eq_get?_resolved d name hkey', hkey]
    exact (OrderedMap.mem_entries_iff _).1 hshows

/-- The text of a document with its inheritance flattened is read as all that the document
shows. -/
theorem parse_toText_flatten (ending : LineEnding) :
    d.ShownIn (parse (d.toText { lineEnding := ending, inheritance := .flatten })) := by
  rw [parse_toText_flatten_eq hd ending]
  refine ⟨fun name => ?_, fun name t ht => ?_, fun name t ht => ?_, fun name t ht e => ?_,
    fun name t ht e he => read?_flattened hd ht he⟩
  · rw [OrderedMap.contains, Option.isSome_iff_exists]
    simp only [get?_flattened_eq_some_iff]
    constructor
    · rintro ⟨-, ⟨s, hs, habstract, hname⟩, -, hshows⟩
      exact ⟨s, hs, habstract, hname, hshows⟩
    · rintro ⟨s, hs, habstract, hname, hshows⟩
      exact ⟨_, ⟨s, hs, habstract, hname⟩, rfl, hshows⟩
  · obtain ⟨-, rfl, -⟩ := get?_flattened_eq_some_iff.1 ht
    rfl
  · obtain ⟨-, rfl, -⟩ := get?_flattened_eq_some_iff.1 ht
    exact decide_eq_true_iff
  · obtain ⟨-, rfl, -⟩ := get?_flattened_eq_some_iff.1 ht
    exact mem_entries_flattenedSection

end Named

/-- In the circle of `a` and `_b` the empty value of `a` hides a value of `_b`; no header could
name the parent of `c`. -/
def shadowed : Document where
  sections := .ofList
    [("a".toList, { parent := some "_b".toList, values := .ofList [("k".toList, [])] }),
      ("_b".toList, { parent := some "a".toList
                      values := .ofList [("k".toList, "v".toList), ("l".toList, " w".toList)] }),
      ("c".toList, { parent := some "x\ny]".toList
                     values := .ofList [("k=".toList, "v".toList), ("l".toList, "w".toList)] }),
      ("d".toList, { isAbstract := true, values := .ofList [("k".toList, "v".toList)] })]

theorem parse_toText_flatten_shadowed :
    shadowed.Named ∧
      shadowed.ShownIn (parse (shadowed.toText { lineEnding := .lf, inheritance := .flatten })) := by
  have hnamed : shadowed.Named := by decide +kernel
  exact ⟨hnamed, parse_toText_flatten hnamed .lf⟩

end Lineage.Document
