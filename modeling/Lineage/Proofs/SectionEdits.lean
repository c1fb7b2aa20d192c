import Lineage.Proofs.SnapshotRoundTrip
import Mathlib.Data.List.Induction

/-!
# Sections that are edited

A section by itself is changed by storing a value under a key, by erasing a key and by erasing all.
What a key holds in the end is what the last edit that concerns it left (`Section.get?_edited`).

Storing takes a key to its name, even if that is empty. Reading a snapshot drops the empty key, and
so do writing to a document and reading a text. So a section that was edited comes back from its
snapshot without the value of the empty key: it is restored exactly if it has no such value, that is
unless the last edit that concerns the empty key stored a value (`Section.ofJson?_toJson_of_edited`,
`Section.not_restored_of_empty_key`).
-/

namespace Lineage

open Text

namespace Section

/-- A change of a section. -/
inductive Edit where
  | set (key value : Text)
  | erase (key : Text)
  | clear

namespace Edit

def apply (s : Section) : Edit → Section
  | set key value => s.set key value
  | erase key => s.erase key
  | clear => s.clear

/-- What a change leaves under a key, if it concerns the key. -/
def leaves? (key : Text) : Edit → Option (Option Text)
  | set k value => if key.toName = k.toName then some (some value) else none
  | erase k => if key.toName = k.toName then some none else none
  | clear => some none

theorem get?_apply (s : Section) (edit : Edit) (key : Text) :
    (edit.apply s).get? key = (edit.leaves? key).getD (s.get? key) := by
  cases edit with
  | set k value =>
    rw [apply, get?_set, leaves?]
    split <;> rfl
  | erase k =>
    rw [apply, get?_erase, leaves?]
    split <;> rfl
  | clear => rfl

theorem eq_set_of_leaves? {edit : Edit} {key value : Text}
    (h : edit.leaves? key = some (some value)) :
    ∃ k, edit = .set k value ∧ key.toName = k.toName := by
  cases edit with
  | set k v =>
    rw [leaves?] at h
    split at h
    · rename_i hk
      cases h
      exact ⟨k, rfl, hk⟩
    · cases h
  | erase k =>
    rw [leaves?] at h
    split at h <;> cases h
  | clear => cases h

end Edit

/-- The section after changes, one after another. -/
def edited (s : Section) (edits : List Edit) : Section := edits.foldl Edit.apply s

/-- The section was declared, or restored from a snapshot, and has not been changed since. -/
def Fresh (s : Section) : Prop :=
  (∃ isAbstract parent, s = declare isAbstract parent) ∨ ∃ j, ofJson? j = some s

theorem Fresh.normal {s : Section} (h : s.Fresh) : s.Normal := by
  rcases h with ⟨isAbstract, parent, rfl⟩ | ⟨j, hj⟩
  · exact normal_declare isAbstract parent
  · exact normal_of_ofJson? hj

/-- The last change that concerns a key decides what it holds. -/
theorem get?_edited (s : Section) (edits : List Edit) (key : Text) :
    (s.edited edits).get? key =
      (edits.reverse.findSome? (Edit.leaves? key)).getD (s.get? key) := by
  induction edits using List.reverseRecOn with
  | nil => rfl
  | append_singleton edits edit ih =>
    rw [edited, List.foldl_concat, Edit.get?_apply, List.reverse_concat, List.findSome?_cons]
    cases edit.leaves? key with
    | none => exact ih
    | some left => rfl

/-! ## Keys that stand for themselves -/

namespace Settled

variable {s : Section} (hs : s.Settled)

include hs

theorem set (key value : Text) : (s.set key value).Settled where
  parent_isName := hs.parent_isName
  toName_key k v h := by
    rcases OrderedMap.eq_or_get?_of_get?_insert h with ⟨rfl, -⟩ | h
    · exact toName_toName key
    · exact hs.toName_key k v h

theorem erase (key : Text) : (s.erase key).Settled where
  parent_isName := hs.parent_isName
  toName_key k v h := hs.toName_key k v (OrderedMap.get?_of_get?_erase h)

theorem clear : s.clear.Settled where
  parent_isName := hs.parent_isName
  toName_key k v h := by
    rw [Section.clear, OrderedMap.get?_empty] at h
    cases h

theorem apply (edit : Edit) : (edit.apply s).Settled := by
  cases edit with
  | set key value => exact hs.set key value
  | erase key => exact hs.erase key
  | clear => exact hs.clear

theorem edited (edits : List Edit) : (s.edited edits).Settled := by
  induction edits generalizing s with
  | nil => exact hs
  | cons edit rest ih => exact ih (hs.apply edit)

end Settled

/-! ## Edited sections and their snapshots -/

/-- A section that was edited comes back from its snapshot without the value of the empty key. It is
restored exactly if there is none, and the last edit that concerns the empty key decides that. -/
theorem ofJson?_toJson_of_edited {s : Section} (hs : s.Fresh) (edits : List Edit) :
    let t := s.edited edits
    ofJson? t.toJson = some (t.erase []) ∧
      (ofJson? t.toJson = some t ↔ t.get? [] = none) ∧
      t.get? [] = (edits.reverse.findSome? (Edit.leaves? [])).join ∧
      ((∀ key value, .set key value ∈ edits → toName key ≠ []) → ofJson? t.toJson = some t) := by
  intro t
  have hback : ofJson? t.toJson = some (t.erase []) :=
    (hs.normal.settled.edited edits).ofJson?_toJson
  have hiff : ofJson? t.toJson = some t ↔ t.get? [] = none := by
    rw [hback, Option.some_inj, erase_eq_self_iff]
  have hempty : t.get? [] = (edits.reverse.findSome? (Edit.leaves? [])).join := by
    have hnone : s.get? [] = none := hs.normal.get?_nil
    rw [get?_edited, hnone]
    cases edits.reverse.findSome? (Edit.leaves? []) <;> rfl
  refine ⟨hback, hiff, hempty, ?_⟩
  intro hset
  rw [hiff, hempty]
  cases hlast : edits.reverse.findSome? (Edit.leaves? []) with
  | none => rfl
  | some left =>
    cases left with
    | none => rfl
    | some value =>
      obtain ⟨edit, hedit, hleaves⟩ := List.exists_of_findSome?_eq_some hlast
      obtain ⟨key, rfl, hkey⟩ := Edit.eq_set_of_leaves? hleaves
      exact absurd hkey.symm (hset key value (List.mem_reverse.1 hedit))

/-- A snapshot of a section in which a blank parent and a blank key count as empty. -/
def blankSnapshot : Json :=
  .object [
    ("parent".toList, .string " \t".toList),
    ("values".toList, .object [
      ("\u00A0".toList, .string "x".toList), ("Name".toList, .string "Tom".toList)])]

/-- Two changes store a value under a blank key, and the second comes after all is erased. -/
def blankEdits : List Edit :=
  [.set " ".toList "y".toList, .clear, .set "Legs ".toList "4".toList, .set "\t".toList "z".toList,
    .erase "NAME".toList]

theorem ofJson?_toJson_of_edited_blank :
    let s : Section := { values := .ofList [("name".toList, "Tom".toList)] }
    let t := s.edited blankEdits
    s.Fresh ∧ ofJson? t.toJson = some (t.erase []) ∧
      (ofJson? t.toJson = some t ↔ t.get? [] = none) ∧
      t.get? [] = (blankEdits.reverse.findSome? (Edit.leaves? [])).join ∧
      ((∀ key value, .set key value ∈ blankEdits → toName key ≠ []) →
        ofJson? t.toJson = some t) := by
  intro s t
  have hs : s.Fresh := Or.inr ⟨blankSnapshot, by decide +kernel⟩
  exact ⟨hs, ofJson?_toJson_of_edited hs blankEdits⟩

/-- One value is stored, under the empty key, and it does not come back. -/
theorem not_restored_of_empty_key :
    let s := declare false none
    let t := s.edited [.set [] "x".toList]
    s.Fresh ∧ t.get? [] = some "x".toList ∧ ofJson? t.toJson = some s ∧
      ofJson? t.toJson ≠ some t := by
  intro s t
  have hs : s.Fresh := Or.inl ⟨false, none, rfl⟩
  exact ⟨hs, by decide +kernel⟩

end Section

end Lineage
