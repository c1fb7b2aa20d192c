import Lineage.Proofs.PreservedRoundTrip
import Lineage.Proofs.StoredNames

/-!
# What is read from a written document was in it

Whatever text a document was read from, its text is read as what can be recovered of it
(`wellHeaded_parse`). For a document that is restored from a snapshot this need not be so: nothing
screens its parents, though names, keys and values that do not fit a line are left out. A line end
in a parent ends the header, and what comes after it is read as lines of its own:
`not_own_of_broken_parent` restores a document whose text sets a key and opens a section that the
document does not have. Without such parents, all that is read was there, and all that can be
written is read (`own_of_parse_toText`).
-/

namespace Lineage

open Text

namespace Document

variable {d : Document}

/-! ## Documents that are well headed -/

/-- No parent that is written for a section holds a line end. -/
def ParentsUnbroken (d : Document) : Prop :=
  d.sections.All fun name s => name.fitsHeader = true → ∀ p ∈ s.parent, p.hasLineBreak = false

instance (d : Document) : Decidable d.ParentsUnbroken :=
  inferInstanceAs (Decidable (d.sections.All _))

theorem wellHeaded_of_reachable (h : d.Reachable) (hd : d.ParentsUnbroken) : d.WellHeaded := by
  intro name s hs
  have hspelled := h.spelled name s hs
  exact ⟨hspelled.small, hspelled.trim_name, h.normal name s hs, hd name s hs⟩

theorem parentsUnbroken_parse (text : Text) : (parse text).ParentsUnbroken := by
  apply all_parse
  · intro text h htext hh _
    rw [Section.declare_of_parse? hh]
    exact Header.unbroken_of_parse? hh htext
  · intro name s text e hs _ _
    exact hs

theorem wellHeaded_parse (text : Text) : (parse text).WellHeaded :=
  wellHeaded_of_reachable (.parse text) (parentsUnbroken_parse text)

theorem wellHeaded_of_ofJson? {j : Json} (hj : ofJson? j = some d) (hd : d.ParentsUnbroken) :
    d.WellHeaded :=
  wellHeaded_of_reachable (.ofJson hj) hd

/-! ## Nothing is invented -/

/-- Every section of a document is one of another document, and so is every value of its own. -/
def OwnIn (back d : Document) : Prop :=
  ∀ name s, back.sections.get? name = some s →
    ∃ t, d.sections.get? name = some t ∧
      ∀ key value, s.values.get? key = some value → t.values.get? key = some value

/-- Every own value of a document that can be written is one of another document. -/
def WrittenIn (d back : Document) : Prop :=
  ∀ name t key value, d.sections.get? name = some t → name.fitsHeader = true →
    t.values.get? key = some value → Entry.fitsLine (key, value) = true →
      ∃ s, back.sections.get? name = some s ∧ s.values.get? key = some value

theorem get?_values_written {s : Section} {key value : Text} :
    s.written.values.get? key = some value ↔
      s.values.get? key = some value ∧ Entry.fitsLine (key, value) = true := by
  rw [Section.written, OrderedMap.get?_filter, Option.filter_eq_some_iff]

theorem ownIn_written_recovered (d : Document) : d.written.recovered.OwnIn d := by
  intro name s hs
  rw [recovered, OrderedMap.get?_map] at hs
  obtain ⟨t, ht, rfl⟩ := Option.map_eq_some_iff.1 hs
  obtain ⟨u, hu, -, rfl⟩ := exists_of_get?_written ht
  exact ⟨u, hu, fun key value hvalue => (get?_values_written.1 hvalue).1⟩

theorem writtenIn_written_recovered (d : Document) : d.WrittenIn d.written.recovered := by
  intro name t key value ht hname hvalue hfits
  have hwritten := get?_values_written.2 ⟨hvalue, hfits⟩
  have hentry : (key, value) ∈ t.written.entries := (OrderedMap.mem_entries_iff _).2 hwritten
  have hget := get?_written_of_content ht hname fun h => List.ne_nil_of_mem hentry h.1
  refine ⟨t.written.recovered name, ?_, hwritten⟩
  rw [recovered, OrderedMap.get?_map, hget]
  rfl

/-- What is read from the text of a restored document was in it, if no parent that is written
holds a line end, and all that can be written is read. -/
theorem own_of_parse_toText {j : Json} (hj : ofJson? j = some d) (hd : d.ParentsUnbroken)
    (ending : LineEnding) :
    let back := parse (d.toText { lineEnding := ending, inheritance := .preserve })
    back.OwnIn d ∧ d.WrittenIn back := by
  intro back
  have hback : back = d.written.recovered :=
    parse_toText_eq_recovered (wellHeaded_of_ofJson? hj hd) ending
  rw [hback]
  exact ⟨ownIn_written_recovered d, writtenIn_written_recovered d⟩

/-- A snapshot of one section with a value and this parent. -/
def snapshotOf (parent : Text) : Json :=
  .object [("sections".toList, .object [("a".toList, .object [
    ("parent".toList, .string parent),
    ("values".toList, .object [("m".toList, .string "1".toList)])])])]

/-- A document of one section with a value and this parent. -/
def oneSection (parent : Text) : Document where
  sections := .ofList
    [("a".toList, { parent := some parent, values := .ofList [("m".toList, "1".toList)] })]

theorem own_of_parse_toText_bracketed :
    let d := oneSection "x:[y]".toList
    let back := parse (d.toText { lineEnding := .crlf, inheritance := .preserve })
    ofJson? (snapshotOf " X:[y]".toList) = some d ∧ d.ParentsUnbroken ∧
      back.OwnIn d ∧ d.WrittenIn back := by
  intro d back
  have hj : ofJson? (snapshotOf " X:[y]".toList) = some d := by decide +kernel
  have hparents : d.ParentsUnbroken := by decide +kernel
  exact ⟨hj, hparents, own_of_parse_toText hj hparents .crlf⟩

/-- The parent ends the header of `a`, sets `k` in it, and opens `b`. -/
theorem not_own_of_broken_parent :
    let d := oneSection "x]\nk=v\n[b".toList
    let back := parse (d.toText { lineEnding := .crlf, inheritance := .preserve })
    ofJson? (snapshotOf "x]\nk=v\n[b".toList) = some d ∧
      (d.section? "a".toList).bind (fun s => s.get? "k".toList) = none ∧
      (back.section? "a".toList).bind (fun s => s.get? "k".toList) = some "v".toList ∧
      (back.section? "b".toList).bind (fun s => s.get? "m".toList) = some "1".toList ∧
      ¬ back.OwnIn d := by
  intro d back
  have hj : ofJson? (snapshotOf "x]\nk=v\n[b".toList) = some d := by decide +kernel
  have hmissing : d.sections.get? "b".toList = none := by decide +kernel
  have hopened : back.sections.get? "b".toList =
      some { values := .ofList [("m".toList, "1".toList)] } := by decide +kernel
  refine ⟨hj, by decide +kernel, by decide +kernel, by decide +kernel, ?_⟩
  intro hown
  obtain ⟨t, ht, -⟩ := hown _ _ hopened
  rw [hmissing] at ht
  cases ht

end Document

end Lineage
