import Lineage.Proofs.TellingLines
import Lineage.Proofs.WordEnds

/-!
# The names in a header with a parent

A header is put in small letters before it is cut at its colon, whereas a lookup puts a name in
small letters by itself. Case ignores the colon, so a capital sigma next to it sees the word on the
other side. The section is stored under the name that lookups take (`Text.toName`) unless the name
ends with such a sigma and the parent begins with a word, and its parent is the one they take unless
the parent begins with such a sigma after a word (`Document.section_of_header`). Otherwise the
section is not found by the name that its header gives it, and a header of the same name without the
parent declares another section (`Document.not_found_of_sigma`).
-/

namespace Lineage

open Text

namespace Header

/-- A name and a parent that a header can hold: on one line, with the first colon between the two,
with no edge of a header at their ends, and not blank. -/
structure WellSpelled (name parent : Text) : Prop where
  name_unbroken : name.hasLineBreak = false
  parent_unbroken : parent.hasLineBreak = false
  name_colon : Mark.parent ∉ name
  name_edges : name.trimMatches Mark.headerEdges.contains = name
  parent_edges : parent.trimMatches Mark.headerEdges.contains = parent
  trim_name : trim name ≠ []
  trim_parent : trim parent ≠ []

/-- The name that is read in a header with a parent. -/
def nameBefore (name parent : Text) : Text := trim (lowerBetween [] name (Mark.parent :: parent))

/-- The parent that is read in a header after a name. -/
def parentAfter (name parent : Text) : Text :=
  trim (lowerAfter (Mark.parent :: name.reverse) parent)

theorem startsCased_colon (s : Text) : startsCased (Mark.parent :: s) = startsCased s := by
  have hignored : CharClass.caseIgnorable.contains Mark.parent = true := by decide +kernel
  rw [startsCased_cons, if_pos hignored]

theorem nameBefore_eq_toName_iff (name parent : Text) :
    nameBefore name parent = toName name ↔
      ¬ (EndsWithSigma name ∧ startsCased parent = true) := by
  rw [← startsCased_colon parent]
  exact trim_lowerBetween_eq_toName_iff

theorem parentAfter_eq_toName_iff (name parent : Text) :
    parentAfter name parent = toName parent ↔
      ¬ (BeginsWithSigma parent ∧ startsCased name.reverse = true) := by
  rw [← startsCased_colon name.reverse]
  exact trim_lowerAfter_eq_toName_iff

theorem lowercase_inside (name parent : Text) :
    lowercase (name ++ Mark.parent :: parent) =
      lowerBetween [] name (Mark.parent :: parent) ++
        Mark.parent :: lowerAfter (Mark.parent :: name.reverse) parent := by
  have hcolon : IsSmall Mark.parent := by decide +kernel
  rw [lowercase, lowerAfter_append, lowerAfter_cons, lowerWithin_of_isSmall _ hcolon,
    List.append_nil]
  rfl

namespace WellSpelled

variable {name parent : Text} (h : WellSpelled name parent)

include h

theorem name_ne_nil : name ≠ [] := by
  rintro rfl
  exact h.trim_name rfl

theorem trimMatches_inside :
    (inside name (some parent)).trimMatches Mark.headerEdges.contains =
      name ++ Mark.parent :: parent := by
  have hparent : parent ≠ [] := by
    rintro rfl
    exact h.trim_parent rfl
  apply trimMatches_eq_self_iff.2
  constructor
  · rw [inside, List.head?_append_of_ne_nil _ h.name_ne_nil]
    exact (trimMatches_eq_self_iff.1 h.name_edges).1
  · rw [inside, List.getLast?_append_of_ne_nil _ (List.cons_ne_nil _ _),
      List.getLast?_cons_of_ne_nil hparent]
    exact (trimMatches_eq_self_iff.1 h.parent_edges).2

/-- The colon that is written between the two is the first one in small letters, too. -/
theorem parts_inside :
    parts (lowercase (name ++ Mark.parent :: parent)) =
      (nameBefore name parent, some (parentAfter name parent)) := by
  have hcolon : Mark.parent ∉ lowerBetween [] name (Mark.parent :: parent) := by
    intro hmem
    rcases (mem_lowerBetween hmem).2 with hname | ⟨hletter, -⟩
    · exact h.name_colon hname
    · exact absurd hletter (by decide)
  have hparent : parentAfter name parent ≠ [] := by
    rw [parentAfter, ← lowerBetween_nil]
    exact trim_lowerBetween_ne_nil h.trim_parent _ _
  rw [lowercase_inside, parts, cut?_eq_some_iff.2 ⟨rfl, hcolon⟩]
  dsimp only
  rw [← nameBefore, ← parentAfter, Option.filter_some, if_pos (by simpa using hparent)]

theorem parse?_line :
    parse? (line name (some parent)) =
      some {
        name := nameBefore name parent
        parent := some (parentAfter name parent)
        isAbstract := (nameBefore name parent).head? = some Mark.abstract } := by
  have hne : nameBefore name parent ≠ [] := trim_lowerBetween_ne_nil h.trim_name _ _
  rw [parse?, trimMatches_headerEdges_line, h.trimMatches_inside, h.parts_inside]
  exact if_neg hne

/-- Alone, a name is put in small letters as a lookup does it, and not trimmed. -/
theorem parse?_line_alone (htrim : trim name = name) :
    parse? (line name none) =
      some { name := toName name, isAbstract := (toName name).head? = some Mark.abstract } := by
  have hlower : lowercase name = toName name := by rw [toName, htrim]
  have hne : toName name ≠ [] := by
    rw [← hlower]
    exact mt lowerAfter_eq_nil_iff.1 h.name_ne_nil
  rw [parse?_line_none h.name_colon, h.name_edges, hlower]
  exact if_neg hne

end WellSpelled

/-- The section that a header with a parent declares. -/
def sectionOf (name parent : Text) : Section where
  isAbstract := (nameBefore name parent).head? = some Mark.abstract
  parent := some (parentAfter name parent)

end Header

/-! ## One header -/

theorem Reading.contains_readHeader (r : Reading) (k : Nat) (h : Header) (n : Text) :
    (r.readHeader k h).sections.contains n = (decide (n = h.name) || r.sections.contains n) := by
  unfold readHeader
  split
  · rename_i hthere
    by_cases hn : n = h.name
    · rw [hn, hthere, Bool.or_true]
    · rw [decide_eq_false hn, Bool.false_or]
  · exact OrderedMap.contains_insert r.sections h.name n _

theorem Sections.read_line (m : Sections) {s : Text} (h : s.hasLineBreak = false)
    (hmark : s.head? ≠ some '\uFEFF') :
    m.read s = Reading.readLine { sections := m } 1 (Line.parse s) := by
  rw [read, lines_eq_singleton h hmark]
  rfl

namespace Header

theorem head?_line_ne (name : Text) (parent : Option Text) :
    (line name parent).head? ≠ some '\uFEFF' := by
  rw [head?_line]
  decide

namespace WellSpelled

variable {name parent : Text} (h : WellSpelled name parent)

include h

theorem hasLineBreak_line : (line name (some parent)).hasLineBreak = false := by
  apply Header.hasLineBreak_line h.name_unbroken
  rintro p ⟨⟩
  exact h.parent_unbroken

theorem read_line :
    Sections.read ∅ (line name (some parent)) = {
      sections := (∅ : Sections).insert (nameBefore name parent) (sectionOf name parent)
      current := some (nameBefore name parent)
      summary := { sections := 1 } } := by
  rw [Sections.read_line ∅ h.hasLineBreak_line (head?_line_ne _ _), parse_line, h.parse?_line,
    Reading.readLine_header_of_new rfl, Section.declare_of_parse? h.parse?_line]
  rfl

theorem read_line_alone (m : Sections) (htrim : trim name = name) :
    m.read (line name none) =
      Reading.readHeader { sections := m } 1
        { name := toName name, isAbstract := (toName name).head? = some Mark.abstract } := by
  have hbreak : (line name none).hasLineBreak = false :=
    Header.hasLineBreak_line h.name_unbroken nofun
  rw [Sections.read_line m hbreak (head?_line_ne _ _), parse_line, h.parse?_line_alone htrim]
  rfl

/-- The section stays, whatever text comes after its header. -/
theorem contains_read_line_append (between : Text) :
    (Sections.read ∅ (line name (some parent) ++ '\n' :: between)).sections.contains
      (nameBefore name parent) = true := by
  have hbreak := h.hasLineBreak_line
  have htelling : Lines.telling [line name (some parent)] = [line name (some parent)] := by
    have hcomment : some Mark.headerOpen ≠ some Mark.comment := by decide
    rw [Lines.telling, List.map_singleton, trimMatches_line, List.filter_singleton, head?_line]
    simp [hcomment, line]
  have hlines : Lines.telling (line name (some parent) ++ '\n' :: between).lines =
      line name (some parent) :: Lines.telling (pieces between) := by
    rw [Lines.telling_lines, dropByteOrderMark_append_cons _ _ rfl,
      dropByteOrderMark_eq_self (head?_line_ne _ _), pieces_append_cons _ _ rfl,
      pieces_eq_singleton hbreak, Lines.telling_append, htelling]
    rfl
  have hmeans : Reading.Means ∅ (Lines.telling (line name (some parent) ++ '\n' :: between).lines)
      (Sections.read ∅ (line name (some parent) ++ '\n' :: between)) :=
    Reading.means_readLines ∅ _
  rw [← Sections.isSome_declared?, hmeans.declared?_eq, Option.isSome_or, Option.isSome_map,
    Bool.or_eq_true, Lines.isSome_firstHeader?, hlines]
  exact Or.inr ⟨_, List.mem_cons_self, head?_line _ _, _, h.parse?_line, rfl⟩

/-- The name by itself, in a header at the end of a text. -/
theorem agreesAfter_line_alone (m : Sections) (before : Text) (htrim : trim name = name) :
    Reading.AgreesAfter (m.read before).summary
      (m.read (before ++ '\n' :: line name none))
      (Reading.readHeader { sections := (m.read before).sections } 1
        { name := toName name, isAbstract := (toName name).head? = some Mark.abstract }) := by
  have hbreak : (line name none).hasLineBreak = false :=
    Header.hasLineBreak_line h.name_unbroken nofun
  rw [← h.read_line_alone _ htrim]
  apply Reading.agreesAfter_newline_append
  rw [firstLine_eq_self hbreak, trimMatches_line]
  exact head?_line _ _

/-- Two headers declare what is stored and what is looked up. -/
theorem contains_read_again (htrim : trim name = name) (n : Text) :
    (Sections.read ∅ (line name (some parent) ++ '\n' :: line name none)).sections.contains n =
        true ↔
      n = nameBefore name parent ∨ n = toName name := by
  have hagain := (h.agreesAfter_line_alone ∅ (line name (some parent)) htrim).sections_eq
  rw [hagain, Reading.contains_readHeader, h.read_line, OrderedMap.contains_insert,
    Bool.or_eq_true, Bool.or_eq_true, decide_eq_true_iff, decide_eq_true_iff]
  constructor
  · rintro (hn | hn | hn)
    · exact Or.inr hn
    · exact Or.inl hn
    · cases hn
  · rintro (hn | hn)
    · exact Or.inr (Or.inl hn)
    · exact Or.inl hn

/-- A name that lookups find is the name of the same section when it is declared again. -/
theorem read_again (htrim : trim name = name) (hstored : nameBefore name parent = toName name)
    (between : Text) :
    let before := line name (some parent) ++ '\n' :: between
    let after := Sections.read ∅ (before ++ '\n' :: line name none)
    after.sections = (Sections.read ∅ before).sections ∧
      after.current = some (nameBefore name parent) ∧
      after.summary = (Sections.read ∅ before).summary := by
  intro before after
  have hagrees := h.agreesAfter_line_alone ∅ before htrim
  have hthere : (Sections.read ∅ before).sections.contains (toName name) = true := by
    rw [← hstored]
    exact h.contains_read_line_append between
  rw [Reading.readHeader, if_pos hthere] at hagrees
  refine ⟨hagrees.sections_eq, ?_, ?_⟩
  · rw [hagrees.current_eq, hstored]
  · exact hagrees.summary_eq

end WellSpelled

end Header

namespace Document

variable {name parent : Text}

/-- A header with a parent declares one section. Lookups find it by the name in the header, and take
its parent for the one in the header, unless a sigma next to the colon sees the word on the other
side. If they find it, the name by itself is later another header of the same section; if not, it
declares a second section. -/
theorem section_of_header (h : Header.WellSpelled name parent) :
    let stored := Header.nameBefore name parent
    let inherited := Header.parentAfter name parent
    let d := parse (Header.line name (some parent))
    let again := Sections.read ∅ (Header.line name (some parent) ++ '\n' :: Header.line name none)
    d.sections.entries = [(stored,
        { isAbstract := stored.head? = some Mark.abstract, parent := some inherited })] ∧
      (stored = toName name ↔ ¬ (EndsWithSigma name ∧ startsCased parent = true)) ∧
      (inherited = toName parent ↔ ¬ (BeginsWithSigma parent ∧ startsCased name.reverse = true)) ∧
      (d.hasSection name = true ↔ stored = toName name) ∧
      (trim name = name →
        (∀ n, again.sections.contains n = true ↔ n = stored ∨ n = toName name) ∧
        (stored = toName name → ∀ between,
          let before := Header.line name (some parent) ++ '\n' :: between
          let after := Sections.read ∅ (before ++ '\n' :: Header.line name none)
          after.sections = (Sections.read ∅ before).sections ∧ after.current = some stored ∧
            after.summary = (Sections.read ∅ before).summary)) := by
  intro stored inherited d again
  have hsections : d.sections = (∅ : Sections).insert stored (Header.sectionOf name parent) := by
    show (Sections.read ∅ _).sections = _
    rw [h.read_line]
  refine ⟨?_, Header.nameBefore_eq_toName_iff name parent,
    Header.parentAfter_eq_toName_iff name parent, ?_,
    fun htrim => ⟨h.contains_read_again htrim, h.read_again htrim⟩⟩
  · rw [hsections, OrderedMap.entries_insert]
    rfl
  · rw [hasSection, section?, hsections, OrderedMap.get?_insert]
    by_cases hname : toName name = stored
    · simp [hname]
    · simp [hname, Ne.symm hname]

/-- No word goes on after the sigma, so it ends one in the header as it does in a lookup. -/
theorem section_of_header_word_end :
    Header.WellSpelled "ΑΣ".toList "1".toList ∧
      (parse "[ΑΣ:1]".toList).sections.entries =
        [("ας".toList, { isAbstract := false, parent := some "1".toList })] ∧
      (parse "[ΑΣ:1]".toList).hasSection "ΑΣ".toList = true ∧
      ∀ between,
        (Sections.read ∅ ("[ΑΣ:1]\n".toList ++ between ++ "\n[ΑΣ]".toList)).sections =
          (Sections.read ∅ ("[ΑΣ:1]\n".toList ++ between)).sections := by
  have h : Header.WellSpelled "ΑΣ".toList "1".toList := by
    constructor <;> decide +kernel
  have hname : Header.nameBefore "ΑΣ".toList "1".toList = toName "ΑΣ".toList := by decide +kernel
  have htrim : trim "ΑΣ".toList = "ΑΣ".toList := by decide +kernel
  obtain ⟨hentries, -, -, hfound, hagain⟩ := section_of_header h
  refine ⟨h, hentries.trans (by decide +kernel), hfound.2 hname, fun between => ?_⟩
  obtain ⟨hsections, -, -⟩ := (hagain htrim).2 hname between
  exact hsections

/-- The word goes on after the sigma in the header, but not in a lookup. The same happens to a
sigma that begins the parent. -/
theorem not_found_of_sigma :
    let d := parse "[ΑΣ:Β]".toList
    let child := parse "[Α:Σ]".toList
    Header.WellSpelled "ΑΣ".toList "Β".toList ∧ Header.WellSpelled "Α".toList "Σ".toList ∧
      d.names true = ["ασ".toList] ∧ toName "ΑΣ".toList = "ας".toList ∧
      d.section? "ΑΣ".toList = none ∧
      (parse "[ΑΣ:Β]\n[ΑΣ]".toList).names true = ["ας".toList, "ασ".toList] ∧
      child.parent? "Α".toList = some "ς".toList ∧ toName "Σ".toList = "σ".toList := by
  intro d child
  refine ⟨?_, ?_, by decide +kernel⟩
  · constructor <;> decide +kernel
  · constructor <;> decide +kernel

end Document

end Lineage
