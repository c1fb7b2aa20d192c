import Lineage.Proofs.ExactConditions
import Lineage.Proofs.StoredNames

/-!
# The sections that a text can hold

Whatever a text is, the sections that are read from it are of one kind
(`Document.sections_of_parse`). A name is not empty and holds neither a colon nor a line end, and
its first character tells whether the section is abstract. Keys are names without an equals sign,
and entries hold no line ends. So only the first character of a key, or an empty value, can keep an
entry from being written.

A header is split at its first colon, so that a parent may hold the others. No section has such a
name, and the walk from a section with such a parent ends at once
(`Document.lineage_of_parent_mark`). The section is found under its own name all the same, since a
header that is split is trimmed.
-/

namespace Lineage

open Text

/-! ## Abstract sections -/

/-- The first header of a name declares the section, and later ones do not change it. -/
theorem Document.isAbstract_iff_of_parse (text : Text) :
    (parse text).sections.All fun name s =>
      s.isAbstract = true ↔ name.head? = some Mark.abstract := by
  apply all_parse
  · intro text h _ hh
    obtain ⟨-, -, -, -, -, habstract⟩ := Header.exists_parts_of_parse? hh
    exact habstract
  · intro name s text e hs _ _
    exact hs

/-! ## Entries -/

/-- Of the conditions on a key that is written, only those on its first character are left. -/
theorem Entry.Lined.fitsKey_iff {e : Entry} (he : e.Lined) :
    e.1.fitsKey = true ↔
      e.1.head? ≠ some Mark.headerOpen ∧ e.1.head? ≠ some Mark.comment := by
  rw [Entry.fitsKey_iff]
  constructor
  · rintro ⟨-, -, -, hopen, hcomment, -⟩
    exact ⟨hopen, hcomment⟩
  · rintro ⟨hopen, hcomment⟩
    exact ⟨he.key_isName.1, he.key_isName.trim_eq, he.key_mark, hopen, hcomment,
      he.key_unbroken⟩

theorem Entry.Lined.empty_or_fitsValue {e : Entry} (he : e.Lined) :
    e.2 = [] ∨ e.2.fitsValue = true := by
  by_cases hvalue : e.2 = []
  · exact Or.inl hvalue
  · exact Or.inr (Entry.fitsValue_iff.2 ⟨hvalue, he.value_unbroken⟩)

/-! ## Parents with a colon -/

/-- A walk ends at a section whose parent does not exist, and reports nothing. -/
theorem Sections.walk_of_missing_parent {m : Sections} {name p : Text} {s : Section}
    (hs : m.get? name = some s) (hp : s.parent = some p) (hmissing : m.get? p = none) :
    m.walk m name = [{ name, content := s }] := by
  have hcontains : m.contains p = false := by rw [OrderedMap.contains, hmissing, Option.isSome_none]
  have hrest : (m.erase name).get? p = none := by
    rw [OrderedMap.get?_erase, hmissing]
    split <;> rfl
  rw [walk_eq_cons m hs, hp, Option.filter_some, hcontains]
  show _ :: m.walk (m.erase name) p = _
  rw [walk_eq_nil m hrest]
  rfl

namespace Document

theorem lineage_of_parent_mark {d : Document}
    (hnames : d.sections.All fun name _ => Mark.parent ∉ name) {name p arg : Text} {s : Section}
    (hs : d.sections.get? name = some s) (hp : s.parent = some p) (hmark : Mark.parent ∈ p)
    (harg : toName arg = name) : d.lineage arg = [{ name, content := s }] := by
  have hmissing : d.sections.get? p = none := hnames.get?_eq_none fun _ hp => hp hmark
  rw [lineage, harg, Sections.walk_of_missing_parent hs hp hmissing]

/-- What can be said of every section that is read from a text: of its name, of whether it is
abstract, of its entries, and of its ancestors if its parent holds a colon. -/
theorem sections_of_parse {text name : Text} {s : Section}
    (hs : (parse text).sections.get? name = some s) :
    (name ≠ [] ∧ Mark.parent ∉ name ∧ name.hasLineBreak = false) ∧
      (s.isAbstract = true ↔ name.head? = some Mark.abstract) ∧
      (∀ key value, s.values.get? key = some value →
        (key ≠ [] ∧ toName key = key ∧ Mark.value ∉ key ∧ key.hasLineBreak = false ∧
          (key.fitsKey = true ↔
            key.head? ≠ some Mark.headerOpen ∧ key.head? ≠ some Mark.comment)) ∧
        value.hasLineBreak = false ∧ (value = [] ∨ value.fitsValue = true)) ∧
      ∀ p ∈ s.parent, Mark.parent ∈ p →
        toName name = name ∧
          ∀ arg, toName arg = name → (parse text).lineage arg = [{ name, content := s }] := by
  have hlined := lined_parse text name s hs
  have hspelled := spelled_parse text name s hs
  refine ⟨⟨hspelled.name_ne_nil, hlined.name_mark, hlined.name_unbroken⟩,
    isAbstract_iff_of_parse text name s hs, ?_, ?_⟩
  · intro key value hvalue
    have he := hlined.entry_lined (key, value) ((OrderedMap.mem_entries_iff _).2 hvalue)
    exact ⟨⟨he.key_isName.1, he.key_isName.2, he.key_mark, he.key_unbroken, he.fitsKey_iff⟩,
      he.value_unbroken, he.empty_or_fitsValue⟩
  · intro p hp hmark
    have htrim : trim name = name := hspelled.trim_name (by rw [hp, Option.isSome_some])
    have hnames : (parse text).sections.All fun name _ => Mark.parent ∉ name :=
      fun n t ht => (lined_parse text n t ht).name_mark
    refine ⟨toName_eq_self_iff.2 ⟨htrim, hspelled.small⟩, ?_⟩
    intro arg harg
    exact lineage_of_parent_mark hnames hs hp hmark harg

/-- The section that is read from a text with a header of three parts, a key that looks like a
header, and another header of the name. -/
def manyParents : Section where
  isAbstract := true
  parent := some "cat:dog".toList
  values := .ofList [("[tail".toList, []), ("legs".toList, "5".toList)]

theorem sections_of_parse_many_parents :
    let d := parse
      "[_Kitten\u00A0: Cat:Dog]\rLegs=4\n\u00A0[Tail=\n[_kitten:x]\nlegs=5\n[Cat:Dog]".toList
    let name : Text := "_kitten".toList
    let s := manyParents
    d.sections.get? name = some s ∧
      (name ≠ [] ∧ Mark.parent ∉ name ∧ name.hasLineBreak = false) ∧
      (s.isAbstract = true ↔ name.head? = some Mark.abstract) ∧
      (∀ key value, s.values.get? key = some value →
        (key ≠ [] ∧ toName key = key ∧ Mark.value ∉ key ∧ key.hasLineBreak = false ∧
          (key.fitsKey = true ↔
            key.head? ≠ some Mark.headerOpen ∧ key.head? ≠ some Mark.comment)) ∧
        value.hasLineBreak = false ∧ (value = [] ∨ value.fitsValue = true)) ∧
      ∀ p ∈ s.parent, Mark.parent ∈ p →
        toName name = name ∧
          ∀ arg, toName arg = name → d.lineage arg = [{ name, content := s }] := by
  intro d name s
  have hs : d.sections.get? name = some s := by decide +kernel
  exact ⟨hs, sections_of_parse hs⟩

end Document

end Lineage
