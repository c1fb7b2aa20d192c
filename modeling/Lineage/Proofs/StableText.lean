import Lineage.Proofs.Recovery
import Mathlib.Algebra.Order.BigOperators.Group.List
import Mathlib.Algebra.Order.Group.Nat

/-!
# Texts that writing again leaves as they are

A text that is read and written, and then read and written once more, is the same both times,
exactly if no parent that is written ends with a bracket or a colon (`toText_parse_toText_iff`).
Such a parent can come from a text: a blank that is no space or tab keeps a bracket before it from
counting as the end of the header, and is trimmed from the parent later
(`not_stable_of_bracketed_parent`). The bracket is then lost with the header that is written.

What is written for a section whose parent ends in this way gets shorter the second time
(`length_text_recovered_lt`), and nothing gets longer, so that the texts differ in length.
-/

namespace Lineage

open Text

/-- Texts that are put together of parts, none of which is longer and one is shorter, differ. -/
theorem Text.flatMap_ne_of_length_lt {α : Type} {l : List α} {f g : α → Text}
    (hle : ∀ e ∈ l, (f e).length ≤ (g e).length) (hlt : ∃ e ∈ l, (f e).length < (g e).length) :
    l.flatMap f ≠ l.flatMap g := by
  intro heq
  have hsum := List.sum_lt_sum _ _ hle hlt
  rw [← List.length_flatMap, ← List.length_flatMap, heq] at hsum
  exact lt_irrefl _ hsum

/-! ## The part of the text that a section has -/

/-- What is written for a section. -/
def Section.text (ending : LineEnding) (name : Text) (s : Section) : Text :=
  if name.fitsHeader = true ∧ (!s.written.isEmpty || s.written.parent.isSome) = true then
    ending.join (s.written.block name).lines
  else []

theorem Document.toText_eq_flatMap (d : Document) (ending : LineEnding) :
    d.toText { lineEnding := ending, inheritance := .preserve } =
      d.sections.entries.flatMap (fun e => e.2.text ending e.1) := by
  have hjoin : ∀ bs : List Block, ending.join (bs.flatMap Block.lines) =
      bs.flatMap (fun b => ending.join b.lines) := by
    intro bs
    exact List.flatMap_assoc
  rw [toText, hjoin, blocks_eq, List.filterMap_eq_flatMap_toList, List.flatMap_assoc]
  refine List.flatMap_congr fun e _ => ?_
  rw [block?_preserve, Section.text]
  split
  · exact List.flatMap_singleton _ _
  · rfl

namespace Section

variable {ending : LineEnding} {name : Text} {s : Section}

theorem text_of_parent (hname : name.fitsHeader = true) {p : Text} (hp : s.parent = some p) :
    s.text ending name = ending.join (s.written.block name).lines := by
  have hparent : s.written.parent = some p := hp
  rw [text, if_pos ⟨hname, by rw [hparent, Option.isSome_some, Bool.or_true]⟩]

/-- Whether a section is abstract is not written. -/
theorem text_congr {t : Section} (hparent : t.parent = s.parent) (hvalues : t.values = s.values) :
    t.text ending name = s.text ending name := by
  cases s
  cases t
  cases hparent
  cases hvalues
  rfl

theorem join_lines_block (t : Section) :
    ending.join (t.block name).lines = Header.line name t.parent ++
      (ending.text ++ ending.join (t.entries.map (fun e => Entry.line e.1 e.2) ++ [[]])) := by
  rw [Block.lines, List.cons_append, LineEnding.join_cons]
  rfl

theorem length_text_recovered_lt (hname : name.fitsHeader = true) {p : Text}
    (hp : s.parent = some p) (hedge : p.getLast?.any Mark.headerEdges.contains = true) :
    ((s.recovered name).text ending name).length < (s.text ending name).length := by
  have hline := Header.length_line_recoveredParent_lt name hedge
  have hparent : (s.recovered name).written.parent = Header.recoveredParent p := by
    rw [written, recovered, hp, Option.bind_some]
  have hparent' : s.written.parent = some p := hp
  have hentries : (s.recovered name).written.entries = s.written.entries := rfl
  have hlength : (ending.join ((s.recovered name).written.block name).lines).length <
      (ending.join (s.written.block name).lines).length := by
    rw [join_lines_block, join_lines_block, hparent, hparent', hentries]
    simp only [List.length_append]
    omega
  rw [text_of_parent hname hp, text]
  split
  · exact hlength
  · exact Nat.lt_of_le_of_lt (Nat.zero_le _) hlength

theorem text_recovered_eq (hs : s.Normal)
    (hedge : ∀ p ∈ s.parent, p.getLast?.any Mark.headerEdges.contains = false) :
    (s.recovered name).text ending name = s.text ending name := by
  refine text_congr ?_ rfl
  exact Header.bind_recoveredParent_eq_self hs.parent_isName hedge

theorem length_text_recovered_le (hs : s.Normal) (hname : name.fitsHeader = true) :
    ((s.recovered name).text ending name).length ≤ (s.text ending name).length := by
  by_cases hedge : ∃ p ∈ s.parent, p.getLast?.any Mark.headerEdges.contains = true
  · obtain ⟨p, hp, hedge⟩ := hedge
    exact (length_text_recovered_lt hname hp hedge).le
  · rw [text_recovered_eq hs fun p hp => by simpa using fun h => hedge ⟨p, hp, h⟩]

end Section

namespace Document

variable {d : Document}

theorem toText_written (d : Document) (ending : LineEnding) :
    d.written.toText { lineEnding := ending, inheritance := .preserve } =
      d.toText { lineEnding := ending, inheritance := .preserve } := by
  rw [toText_preserve, toText_preserve, written_written]

/-- No parent that is written ends with an edge of headers. -/
def ParentsEndPlain (d : Document) : Prop :=
  d.sections.All fun name s => name.fitsHeader = true →
    ∀ p ∈ s.parent, p.getLast?.any Mark.headerEdges.contains = false

instance (d : Document) : Decidable d.ParentsEndPlain :=
  inferInstanceAs (Decidable (d.sections.All _))

theorem toText_recovered (d : Document) (ending : LineEnding) :
    d.recovered.toText { lineEnding := ending, inheritance := .preserve } =
      d.sections.entries.flatMap (fun e => (e.2.recovered e.1).text ending e.1) := by
  rw [toText_eq_flatMap, recovered, OrderedMap.entries_map, List.flatMap_map]

/-- The two texts are compared section by section of what is written. -/
theorem toText_parse_toText_eq_iff (hd : d.WellHeaded) (ending : LineEnding) :
    let u := d.toText { lineEnding := ending, inheritance := .preserve }
    (parse u).toText { lineEnding := ending, inheritance := .preserve } = u ↔
      d.ParentsEndPlain := by
  intro u
  have hu : u = d.written.sections.entries.flatMap (fun e => e.2.text ending e.1) := by
    rw [← toText_eq_flatMap, toText_written]
  have hagain : (parse u).toText { lineEnding := ending, inheritance := .preserve } =
      d.written.sections.entries.flatMap (fun e => (e.2.recovered e.1).text ending e.1) := by
    rw [parse_toText_eq_recovered hd ending, toText_recovered]
  have hwritten : ∀ e ∈ d.written.sections.entries,
      ∃ s, d.sections.get? e.1 = some s ∧ e.1.fitsHeader = true ∧ e.2 = s.written :=
    fun e he => exists_of_get?_written ((OrderedMap.mem_entries_iff _).1 he)
  rw [hagain, hu]
  constructor
  · intro heq name s hs hname p hp
    by_contra hedge
    have hcontent : ¬ (s.written.entries = [] ∧ s.written.parent = none) := by
      rintro ⟨-, hnone⟩
      exact Option.some_ne_none p (hp.symm.trans hnone)
    have hmem : (name, s.written) ∈ d.written.sections.entries :=
      (OrderedMap.mem_entries_iff _).2 (get?_written_of_content hs hname hcontent)
    have hlt : ((s.written.recovered name).text ending name).length <
        (s.written.text ending name).length :=
      Section.length_text_recovered_lt hname hp (by simpa using hedge)
    apply flatMap_ne_of_length_lt _ ⟨_, hmem, hlt⟩ heq
    intro e he
    obtain ⟨t, ht, hfits, hwrite⟩ := hwritten e he
    rw [hwrite]
    exact Section.length_text_recovered_le (Section.normal_written (hd _ _ ht).normal) hfits
  · intro hplain
    refine List.flatMap_congr fun e he => ?_
    obtain ⟨t, ht, hfits, hwrite⟩ := hwritten e he
    rw [hwrite]
    exact Section.text_recovered_eq (Section.normal_written (hd _ _ ht).normal)
      (fun p hp => hplain _ _ ht hfits p hp)

/-- Reading a text and writing it gives a text that stays the same from then on, exactly if no
parent that is written ends with an edge of headers. -/
theorem toText_parse_toText_iff (text : Text) (ending : LineEnding) :
    let u := (parse text).toText { lineEnding := ending, inheritance := .preserve }
    (parse u).toText { lineEnding := ending, inheritance := .preserve } = u ↔
      (parse text).ParentsEndPlain :=
  toText_parse_toText_eq_iff (wellHeaded_parse text) ending

/-- The parent that is read is `b]`, and the text that is written has one bracket too many. -/
theorem not_stable_of_bracketed_parent :
    let u := (parse "[a:b]\u00A0".toList).toText { lineEnding := .crlf, inheritance := .preserve }
    u = "[a:b]]\r\n\r\n".toList ∧
      (parse u).toText { lineEnding := .crlf, inheritance := .preserve } ≠ u := by
  decide +kernel

end Document

end Lineage
