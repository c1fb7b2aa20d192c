import Lineage.Document.Typed
import Lineage.Proofs.IntegerTexts
import Lineage.Proofs.TextLines
import Lineage.Proofs.WriteVisibility

/-!
# Arrays are read back

Splitting a text at a separator gives the one array that is joined to the text and whose elements do
not hold the separator (`Text.splitArray_eq_iff`). The array of the empty text alone is the
exception: it is joined to the empty text as the array without elements is, and splitting gives that
one. So joining undoes splitting, and splitting undoes joining exactly for the arrays that splitting
can give (`Text.splitArray_joinArray_iff`).

Truth values and integers have no empty text, and are read back from their texts (`Value.Faithful`).
Therefore arrays of them are read back from a document, however many elements they have, if the
separator is in none of the texts (`Document.keepsArrays`). A document may have any value in the
place of the array, of its own or inherited: what is written to a section hides it.
-/

namespace Lineage

/-! ## Joining and splitting -/

namespace Text

variable {separator : Char} {elements : List Text}

theorem joinArray_splitArray (separator : Char) (s : Text) :
    joinArray separator (splitArray separator s) = s := by
  unfold splitArray
  split
  · rename_i hs
    subst hs
    rfl
  · exact List.intercalate_splitOn separator

theorem not_mem_of_mem_splitArray {s element : Text} (h : element ∈ splitArray separator s) :
    separator ∉ element := by
  unfold splitArray at h
  split at h
  · cases h
  · exact (mem_of_mem_splitOn h).1

theorem splitArray_ne_singleton_nil (separator : Char) (s : Text) :
    splitArray separator s ≠ [[]] := by
  intro h
  have hs : s = [] := by
    rw [← joinArray_splitArray separator s, h]
    rfl
  subst hs
  cases h

/-- Only the two smallest arrays are joined to the empty text. -/
theorem eq_of_joinArray_eq_nil (h : joinArray separator elements = []) :
    elements = [] ∨ elements = [[]] := by
  match elements with
  | [] => exact Or.inl rfl
  | [element] =>
    rw [joinArray, List.intercalate_singleton] at h
    exact Or.inr (by rw [h])
  | first :: second :: rest =>
    rw [joinArray, List.intercalate_cons_cons] at h
    simp at h

theorem splitArray_joinArray (hfree : ∀ element ∈ elements, separator ∉ element)
    (hne : elements ≠ [[]]) : splitArray separator (joinArray separator elements) = elements := by
  unfold splitArray
  split
  · rename_i hempty
    rcases eq_of_joinArray_eq_nil hempty with rfl | rfl
    · rfl
    · exact absurd rfl hne
  · rename_i htext
    apply List.splitOn_intercalate separator hfree
    rintro rfl
    exact htext rfl

theorem splitArray_eq_iff {s : Text} :
    splitArray separator s = elements ↔
      joinArray separator elements = s ∧ (∀ element ∈ elements, separator ∉ element) ∧
        elements ≠ [[]] := by
  constructor
  · rintro rfl
    exact ⟨joinArray_splitArray separator s, fun _ => not_mem_of_mem_splitArray,
      splitArray_ne_singleton_nil separator s⟩
  · rintro ⟨rfl, hfree, hne⟩
    exact splitArray_joinArray hfree hne

/-- An array is split as it was joined exactly if no element holds the separator and the empty text
is not the only element. A text is joined as it was split, whatever it is. -/
theorem splitArray_joinArray_iff (separator : Char) :
    (∀ elements, splitArray separator (joinArray separator elements) = elements ↔
      (∀ element ∈ elements, separator ∉ element) ∧ elements ≠ [[]]) ∧
      ∀ s, joinArray separator (splitArray separator s) = s := by
  refine ⟨fun elements => ?_, joinArray_splitArray separator⟩
  rw [splitArray_eq_iff]
  exact and_iff_right rfl

/-- Empty elements count, but for one that is alone. -/
example : splitArray ',' (joinArray ',' [[], "a".toList, [], []]) = [[], "a".toList, [], []] ∧
    splitArray ',' (joinArray ',' [[]]) = [] := by
  decide

end Text

/-! ## Arrays of values -/

namespace Value

/-- Every value is read back from its text, and none has the empty text. -/
structure Faithful (α : Type) [Value α] : Prop where
  ofText?_toText : ∀ v : α, ofText? (toText v) = some v
  toText_ne_nil : ∀ v : α, toText v ≠ []

theorem faithful_bool : Faithful Bool where
  ofText?_toText b := by cases b <;> decide
  toText_ne_nil b := by cases b <;> decide

theorem faithful_boundedInt (k : IntegerKind) : Faithful (BoundedInt k) where
  ofText?_toText := BoundedInt.ofText?_toText
  toText_ne_nil v := by
    rw [BoundedInt.toText_eq_format]
    exact NumberFormat.formatInt_ne_nil 0 v.val

/-- An element is read as it was written, so that the default is not asked for. -/
theorem Faithful.arrayOfText_arrayToText {α : Type} [Value α] [Inhabited α] (hα : Faithful α)
    {separator : Char} {values : List α} (hfree : ∀ v ∈ values, separator ∉ toText v) :
    arrayOfText separator (arrayToText separator values) = values := by
  -- the one array that splitting cannot give has an empty text
  have hne : values.map toText ≠ [[]] := by
    intro h
    obtain ⟨v, -, hv⟩ := List.mem_map.1 (h ▸ List.mem_singleton_self ([] : Text))
    exact hα.toText_ne_nil v hv
  have hread : ∀ v : α, ofTextD (toText v) default = v := by
    intro v
    rw [ofTextD, hα.ofText?_toText, Option.getD_some]
  rw [arrayOfText, arrayToText, Text.splitArray_joinArray (List.forall_mem_map.2 hfree) hne,
    List.map_map]
  exact (List.map_congr_left fun v _ => hread v).trans (List.map_id values)

end Value

/-! ## Arrays in documents -/

namespace Document

open Text

/-- An array whose texts do not hold the separator is accepted under the key, and read back. -/
def KeepsArrays (α : Type) [Value α] [Inhabited α] (d : Document) (name key : Text)
    (separator : Char) : Prop :=
  ∀ values : List α, (∀ v ∈ values, separator ∉ Value.toText v) →
    ∃ d', d.setArray? name key separator values = some d' ∧
      d'.getArray name key separator = values

variable {α : Type} [Value α] [Inhabited α] {d d' : Document} {name key : Text} {separator : Char}

/-- The text of the array is what is read, and no value that was there before. -/
theorem getArray_of_setArray? {values : List α}
    (h : d.setArray? name key separator values = some d') :
    d'.getArray name key separator =
      Value.arrayOfText (α := α) separator (Value.arrayToText separator values) := by
  rw [getArray, (seenAfter_of_write? h).read?_self, Option.getD_some]

theorem keepsArrays_of_faithful (hα : Value.Faithful α) (hname : trim name ≠ [])
    (hkey : trim key ≠ []) : d.KeepsArrays α name key separator := by
  intro values hfree
  have haccepted : d.setArray? name key separator values ≠ none := by
    intro hnone
    rcases write?_eq_none_iff.1 hnone with h | h
    · exact hname (toName_eq_nil_iff.1 h)
    · exact hkey (toName_eq_nil_iff.1 h)
  obtain ⟨d', hd'⟩ := Option.ne_none_iff_exists'.1 haccepted
  refine ⟨d', hd', ?_⟩
  rw [getArray_of_setArray? hd', hα.arrayOfText_arrayToText hfree]

/-- Arrays of integers of any kind and of truth values are read back from any document, if the
section and the key are not blank. -/
theorem keepsArrays (d : Document) {name key : Text} (hname : trim name ≠ [])
    (hkey : trim key ≠ []) (separator : Char) :
    (∀ k, d.KeepsArrays (BoundedInt k) name key separator) ∧
      d.KeepsArrays Bool name key separator :=
  ⟨fun k => keepsArrays_of_faithful (Value.faithful_boundedInt k) hname hkey,
    keepsArrays_of_faithful Value.faithful_bool hname hkey⟩

/-- Integers of eight bits, with the least and the greatest of them. -/
def signedBytes : List (BoundedInt ⟨true, 8⟩) :=
  [⟨-128, by decide, by decide⟩, ⟨0, by decide, by decide⟩, ⟨127, by decide, by decide⟩]

/-- The separator is a blank, and the array that was inherited is hidden. -/
theorem keepsArrays_blank_separator :
    let d := parse "[a:b]\n[b]\nk=7 8\n".toList
    trim " A".toList ≠ [] ∧ trim "K\u00A0".toList ≠ [] ∧
      d.read? "a".toList "k".toList = some "7 8".toList ∧
      (∀ v ∈ signedBytes, ' ' ∉ Value.toText v) ∧
      ∃ d', d.setArray? " A".toList "K\u00A0".toList ' ' signedBytes = some d' ∧
        d'.getArray " A".toList "K\u00A0".toList ' ' = signedBytes := by
  intro d
  have hname : trim " A".toList ≠ [] := by decide
  have hkey : trim "K\u00A0".toList ≠ [] := by decide
  have hfree : ∀ v ∈ signedBytes, ' ' ∉ Value.toText v := by decide
  refine ⟨hname, hkey, by decide +kernel, hfree, ?_⟩
  exact (keepsArrays d hname hkey ' ').1 ⟨true, 8⟩ signedBytes hfree

end Document

end Lineage
