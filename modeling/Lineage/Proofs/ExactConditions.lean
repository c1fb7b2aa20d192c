import Lineage.Proofs.NormalForm
import Lineage.Proofs.ReadingBlocks

/-!
# The conditions on what is written are exact

`Text.fitsHeader`, `Text.fitsKey` and `Text.fitsValue` tell which names, keys and values are
written. A header and an entry that fit are read back from their lines, and no others are
(`Document.isSingle_iff_fits`).

Much of this holds of whatever a text can say. However its lines came about, no name that is read
holds a line end or a colon, no key a line end or an equals sign, and no value a line end
(`Document.lined_parse`). So if a name, a key or a value comes back, it holds none of these either,
and the two lines were read one by one. What is left is the edges of the name, which are taken off,
and the first character of the key, which may make another kind of line of the entry.
-/

namespace Lineage

open Text

/-! ## What a text can say -/

/-- An entry that a text can hold: it is on one line, where an equals sign ends the key. -/
structure Entry.Lined (e : Entry) : Prop where
  key_isName : IsName e.1
  key_mark : Mark.value ∉ e.1
  key_unbroken : e.1.hasLineBreak = false
  value_unbroken : e.2.hasLineBreak = false

/-- A section that a text can hold under a name: the name is on one line, where a colon would end
it, and so are all the entries. -/
structure Section.Lined (name : Text) (s : Section) : Prop where
  name_mark : Mark.parent ∉ name
  name_unbroken : name.hasLineBreak = false
  entry_lined : ∀ e ∈ s.entries, Entry.Lined e

theorem Header.colon_not_mem_parts (inside : Text) : Mark.parent ∉ (parts inside).1 := by
  unfold parts
  cases hcut : inside.cut? Mark.parent with
  | none => exact cut?_eq_none_iff.1 hcut
  | some ab =>
    obtain ⟨-, hcolon⟩ := cut?_eq_some_iff.1 hcut
    exact fun hmem => hcolon (mem_of_mem_trimMatches hmem)

theorem Header.name_of_parse? {text : Text} {h : Header} (hh : parse? text = some h)
    (htext : text.hasLineBreak = false) :
    Mark.parent ∉ h.name ∧ h.name.hasLineBreak = false := by
  obtain ⟨inner, -, hunbroken, ⟨hname, -⟩, -⟩ := exists_parts_of_parse? hh
  rw [hname]
  exact ⟨colon_not_mem_parts inner, hasLineBreak_of_subset (name_of_parts inner).1 (hunbroken htext)⟩

theorem Entry.lined_of_parse? {text : Text} {e : Entry} (he : parse? text = some e)
    (htext : text.hasLineBreak = false) : e.Lined := by
  have hname := isName_of_parse? he
  obtain ⟨key, value, rfl, hmark, -, rfl⟩ := parse?_eq_some_iff.1 he
  have hkey : (trim key).hasLineBreak = false := by
    apply hasLineBreak_of_subset _ htext
    exact fun c hc => List.mem_append_left _ (mem_of_mem_trimMatches hc)
  constructor
  · exact hname
  · intro hmem
    exact hmark (mem_of_mem_trimMatches (mem_of_mem_lowercase hmem (Or.inl (by decide))))
  · exact hasLineBreak_lowercase hkey
  · apply hasLineBreak_of_subset _ htext
    intro c hc
    exact List.mem_append_right _ (List.mem_cons_of_mem _ (mem_of_mem_decodeValue hc))

theorem Document.lined_parse (text : Text) : (parse text).sections.All Section.Lined := by
  apply all_parse
  · intro text h htext hh
    obtain ⟨hmark, hunbroken⟩ := Header.name_of_parse? hh htext
    exact ⟨hmark, hunbroken, nofun⟩
  · intro name s text e hs htext he
    have hlined := Entry.lined_of_parse? he htext
    refine ⟨hs.name_mark, hs.name_unbroken, fun f hf => ?_⟩
    rw [Section.entries, Section.set, hlined.key_isName.2] at hf
    rcases OrderedMap.eq_or_mem_of_mem_insert hf with rfl | hf
    · exact hlined
    · exact hs.entry_lined f hf

/-! ## A header and an entry -/

namespace Document

variable {name : Text} {e : Entry} {d : Document}

/-- The document has one section, of this name and with this entry alone. -/
def IsSingle (d : Document) (name : Text) (e : Entry) : Prop :=
  d.sections.entries.map (fun s => (s.1, s.2.entries)) = [(name, [e])]

instance (d : Document) (name : Text) (e : Entry) : Decidable (d.IsSingle name e) :=
  inferInstanceAs (Decidable (_ = _))

/-- The section and the entry stand on lines. -/
theorem IsSingle.lined {text : Text} (h : (parse text).IsSingle name e) :
    Mark.parent ∉ name ∧ name.hasLineBreak = false ∧ e.Lined := by
  obtain ⟨⟨n, s⟩, hentries, heq⟩ := List.map_eq_singleton_iff.1 h
  obtain ⟨rfl, hs⟩ := Prod.ext_iff.1 heq
  have hlined := Sections.All.iff_forall_entries.1 (lined_parse text) (n, s)
    (by rw [hentries]; exact List.mem_singleton_self _)
  refine ⟨hlined.name_mark, hlined.name_unbroken, hlined.entry_lined e ?_⟩
  dsimp only at hs
  rw [hs]
  exact List.mem_singleton_self e

theorem not_isSingle_of_no_entries (h : d.sections.All fun _ s => s.entries = []) :
    ¬ d.IsSingle name e := by
  intro hsingle
  obtain ⟨⟨n, s⟩, hentries, heq⟩ := List.map_eq_singleton_iff.1 hsingle
  obtain ⟨-, hs⟩ := Prod.ext_iff.1 heq
  have hnone := Sections.All.iff_forall_entries.1 h (n, s)
    (by rw [hentries]; exact List.mem_singleton_self _)
  dsimp only at hs hnone
  rw [hnone] at hs
  cases hs

end Document

namespace Reading

theorem no_entries_readLine_header {r : Reading}
    (hr : r.sections.All fun _ s => s.entries = []) (n : Nat) (h : Option Header) :
    (r.readLine n (.header h)).sections.All fun _ s => s.entries = [] := by
  cases h with
  | none => exact hr
  | some h => exact all_readHeader hr rfl n

end Reading

/-- A header without a parent and an entry after it, each on its line. -/
def LineEnding.headed (ending : LineEnding) (name : Text) (e : Entry) : Text :=
  ending.join [Header.line name none, Entry.line e.1 e.2]

section Headed

variable (ending : LineEnding) {name : Text} {e : Entry}

/-- Without line ends in them the two lines are read one by one. -/
theorem Sections.read_headed (hname : name.hasLineBreak = false) (he : e.Lined) :
    Sections.read ∅ (ending.headed name e) =
      (Reading.readLine { sections := ∅ } 1
        (.header (Header.parse? (Header.line name none)))).readLine 2
        (Line.parse (Entry.line e.1 e.2)) := by
  have hlines : (ending.headed name e).lines = [Header.line name none, Entry.line e.1 e.2, []] := by
    apply ending.lines_join
    · intro l hl
      rcases List.mem_pair.1 hl with rfl | rfl
      · exact Header.hasLineBreak_line hname nofun
      · exact Entry.hasLineBreak_line he.key_unbroken he.value_unbroken
    · have hhead : (ending.headed name e).head? = some Mark.headerOpen := by
        rw [LineEnding.headed, LineEnding.join_cons, Header.line_eq]
        rfl
      rw [← LineEnding.headed, hhead]
      decide
  rw [← Header.parse_line, Sections.read, hlines]
  rfl

/-- A header makes its section current, so that an entry after it is the first of the section. -/
theorem Reading.sections_readLine_header_content (n n' : Nat) {h : Header}
    (hparent : h.parent = none) (he : IsName e.1) :
    ((Reading.readLine { sections := ∅ } n (.header (some h))).readLine n'
        (.content (some e))).sections.entries =
      [(h.name, {
        isAbstract := h.isAbstract
        values := (∅ : OrderedMap Text Text).insert e.1 e.2 })] := by
  have hget : ((∅ : Sections).insert h.name (Section.declare h.isAbstract h.parent)).get? h.name =
      some (Section.declare h.isAbstract h.parent) := by
    rw [OrderedMap.get?_insert_self]
  rw [readLine_header_of_new rfl, readLine_content rfl hget, readEntry, hparent]
  dsimp only
  rw [OrderedMap.insert_insert, Section.set, he.2]
  rfl

theorem Document.isSingle_headed_iff_of_content (hsmall : ∀ c ∈ name, IsSmall c)
    (hmark : Mark.parent ∉ name) (hname : name.hasLineBreak = false) (he : e.Lined)
    (hcontent : Line.parse (Entry.line e.1 e.2) = .content (some e)) :
    (parse (ending.headed name e)).IsSingle name e ↔
      name ≠ [] ∧ name.trimMatches Mark.headerEdges.contains = name := by
  have hlower : lowercase (name.trimMatches Mark.headerEdges.contains) =
      name.trimMatches Mark.headerEdges.contains :=
    lowercase_eq_self fun c hc => hsmall c (mem_of_mem_trimMatches hc)
  have hread := Sections.read_headed ending hname he
  rw [Header.parse?_line_none hmark, hlower, hcontent] at hread
  generalize name.trimMatches Mark.headerEdges.contains = rest at hread
  dsimp only at hread
  show (Sections.read ∅ _).sections.entries.map _ = _ ↔ _
  rw [hread]
  by_cases hrest : rest = []
  · rw [if_pos hrest, Reading.readLine_outside_sections rfl]
    constructor
    · exact fun h => absurd h (by simp [Reading.readLine, Reading.ignore])
    · rintro ⟨hne, rfl⟩
      exact absurd hrest hne
  · rw [if_neg hrest, Reading.sections_readLine_header_content 1 2 rfl he.key_isName]
    constructor
    · intro h
      obtain ⟨rfl, -⟩ := Prod.ext_iff.1 (List.singleton_inj.1 h)
      exact ⟨hrest, rfl⟩
    · rintro ⟨-, rfl⟩
      rfl

/-- Between them, the name loses its edges, and the entry needs a key that does not make another
kind of line of it. -/
theorem Document.isSingle_headed_iff_of_lined (hsmall : ∀ c ∈ name, IsSmall c)
    (hmark : Mark.parent ∉ name) (hname : name.hasLineBreak = false) (he : e.Lined)
    (hvalue : e.2 ≠ []) :
    (parse (ending.headed name e)).IsSingle name e ↔
      (name ≠ [] ∧ name.trimMatches Mark.headerEdges.contains = name) ∧
        e.1.head? ≠ some Mark.headerOpen ∧ e.1.head? ≠ some Mark.comment := by
  have hline := Entry.parse_line_eq he.key_isName he.key_mark hvalue
  by_cases hhead : e.1.head? ≠ some Mark.headerOpen ∧ e.1.head? ≠ some Mark.comment
  · rw [if_neg hhead.2, if_neg hhead.1] at hline
    rw [isSingle_headed_iff_of_content ending hsmall hmark hname he hline]
    exact (and_iff_left hhead).symm
  · have hnone : (parse (ending.headed name e)).sections.All fun _ s => s.entries = [] := by
      show (Sections.read ∅ (ending.headed name e)).sections.All _
      rw [Sections.read_headed ending hname he, hline]
      have hfirst := Reading.no_entries_readLine_header (r := { sections := ∅ })
        Sections.All.empty 1 (Header.parse? (Header.line name none))
      split
      · exact hfirst
      · split
        · exact Reading.no_entries_readLine_header hfirst 2 _
        · rename_i hcomment hopen
          exact absurd ⟨hopen, hcomment⟩ hhead
    constructor
    · exact fun h => absurd h (not_isSingle_of_no_entries hnone)
    · exact fun h => absurd h.2 hhead

theorem Document.isSingle_headed_iff (hname : lowercase name = name) (hkey : toName e.1 = e.1)
    (hvalue : e.2 ≠ []) :
    (parse (ending.headed name e)).IsSingle name e ↔
      name.fitsHeader = true ∧ e.1.fitsKey = true ∧ e.2.fitsValue = true := by
  have hsmall : ∀ c ∈ name, IsSmall c := by
    intro c hc
    rw [← hname] at hc
    exact isSmall_of_mem_lowercase hc
  rw [Header.fitsHeader_iff, Entry.fitsKey_iff, Entry.fitsValue_iff]
  constructor
  · intro h
    obtain ⟨hmark, hunbroken, he⟩ := h.lined
    obtain ⟨⟨hne, htrim⟩, hopen, hcomment⟩ :=
      (isSingle_headed_iff_of_lined ending hsmall hmark hunbroken he hvalue).1 h
    exact ⟨⟨hne, htrim, hmark, hunbroken⟩,
      ⟨he.key_isName.1, he.key_isName.trim_eq, he.key_mark, hopen, hcomment, he.key_unbroken⟩,
      hvalue, he.value_unbroken⟩
  · rintro ⟨⟨hne, htrim, hmark, hunbroken⟩, ⟨hkne, -, hkmark, hopen, hcomment, hkbreak⟩, -, hvbreak⟩
    have he : e.Lined := ⟨⟨hkne, hkey⟩, hkmark, hkbreak, hvbreak⟩
    exact (isSingle_headed_iff_of_lined ending hsmall hmark hunbroken he hvalue).2
      ⟨⟨hne, htrim⟩, hopen, hcomment⟩

/-- A name comes back from a header in front of a plain entry, and an entry comes back from behind a
plain header, exactly if it is one that is written. An empty value would come back, but is not
written. -/
theorem Document.isSingle_iff_fits :
    (∀ name : Text, lowercase name = name →
      ((parse (ending.headed name ("k".toList, "v".toList))).IsSingle name
          ("k".toList, "v".toList) ↔ name.fitsHeader = true)) ∧
      ∀ key value : Text, toName key = key → value ≠ [] →
        ((parse (ending.headed "s".toList (key, value))).IsSingle "s".toList (key, value) ↔
          key.fitsKey = true ∧ value.fitsValue = true) := by
  constructor
  · intro name hname
    have hentry : fitsKey "k".toList = true ∧ fitsValue "v".toList = true := by decide +kernel
    have hiff := isSingle_headed_iff ending (e := ("k".toList, "v".toList)) hname
      (by decide +kernel) (List.cons_ne_nil _ _)
    exact hiff.trans (and_iff_left hentry)
  · intro key value hkey hvalue
    have hheader : fitsHeader "s".toList = true := by decide +kernel
    have hname : lowercase "s".toList = "s".toList := by decide +kernel
    have hiff := isSingle_headed_iff ending (e := (key, value)) hname hkey hvalue
    exact hiff.trans (and_iff_right hheader)

/-- A bracket stays inside a name and at the end of a key, but not at the end of a name or at the
beginning of a key. -/
theorem Document.isSingle_iff_fits_bracket :
    (parse (LineEnding.crlf.headed "a]b".toList ("k".toList, "v".toList))).IsSingle "a]b".toList
        ("k".toList, "v".toList) ∧
      ¬ (parse (LineEnding.crlf.headed "ab]".toList ("k".toList, "v".toList))).IsSingle
        "ab]".toList ("k".toList, "v".toList) ∧
      (parse (LineEnding.lf.headed "s".toList ("k[".toList, " = ".toList))).IsSingle "s".toList
        ("k[".toList, " = ".toList) ∧
      ¬ (parse (LineEnding.lf.headed "s".toList ("[k".toList, " = ".toList))).IsSingle "s".toList
        ("[k".toList, " = ".toList) := by
  obtain ⟨hcrlf, -⟩ := isSingle_iff_fits .crlf
  obtain ⟨-, hlf⟩ := isSingle_iff_fits .lf
  refine ⟨?_, ?_, ?_, ?_⟩
  · exact (hcrlf _ (by decide +kernel)).2 (by decide +kernel)
  · exact fun h => absurd ((hcrlf _ (by decide +kernel)).1 h) (by decide +kernel)
  · exact (hlf _ _ (by decide +kernel) (by decide)).2 (by decide +kernel)
  · exact fun h => absurd ((hlf _ _ (by decide +kernel) (by decide)).1 h) (by decide +kernel)

end Headed

end Lineage
