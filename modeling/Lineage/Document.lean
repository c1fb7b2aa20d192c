import Lineage.Section

/-!
# Documents

A document maps section names to sections. Callers may spell section names and keys in any case
and with blanks around them; the document takes them through `Text.toName`.

* `section?_of_write?`, `section?_of_eraseValue?`, `section?_of_eraseSection?`: what an accepted
  change does to all sections.
* `write?_eq_none_iff`, `eraseValue?_eq_none_iff`, `eraseSection?_eq_none_iff`: which changes are
  refused.
-/

namespace Lineage

/-- The sections of a document by name. -/
abbrev Sections := OrderedMap Text Section

/-- An INI document. -/
structure Document where
  sections : Sections := ∅
deriving DecidableEq, Inhabited

namespace Document

instance : EmptyCollection Document := ⟨{}⟩

def size (d : Document) : Nat := d.sections.size

def isEmpty (d : Document) : Bool := d.sections.isEmpty

def section? (d : Document) (name : Text) : Option Section := d.sections.get? name.toName

def hasSection (d : Document) (name : Text) : Bool := (d.section? name).isSome

/-- Whether there is a section of this name and it is abstract. -/
def isAbstract (d : Document) (name : Text) : Bool := (d.section? name).any Section.isAbstract

/-- The parent that the section of this name declares. -/
def parent? (d : Document) (name : Text) : Option Text := (d.section? name).bind Section.parent

/-- The section names in order, with or without those of abstract sections. -/
def names (d : Document) (withAbstract : Bool) : List Text :=
  (d.sections.entries.filter (fun e => withAbstract || !e.2.isAbstract)).map Prod.fst

/-- Stores a value in the section itself, which is created as a plain section if it is missing.
Refused if the section or the key is empty as a name. -/
def write? (d : Document) (name key value : Text) : Option Document :=
  if name.toName = [] ∨ key.toName = [] then none
  else
    let target := (d.sections.get? name.toName).getD (Section.declare false none)
    some { sections := d.sections.insert name.toName (target.set key.toName value) }

/-- Removes the section's own value of a key. Refused if there is none. The section stays, even
without values. -/
def eraseValue? (d : Document) (name key : Text) : Option Document :=
  match d.section? name with
  | some s =>
    if s.contains key then some { sections := d.sections.insert name.toName (s.erase key) }
    else none
  | none => none

/-- Removes a section. Refused if there is none of this name. -/
def eraseSection? (d : Document) (name : Text) : Option Document :=
  if d.hasSection name then some { sections := d.sections.erase name.toName } else none

/-! ## Changes -/

theorem write?_eq_none_iff {d : Document} {name key value : Text} :
    d.write? name key value = none ↔ name.toName = [] ∨ key.toName = [] := by
  unfold write?
  split <;> simp_all

theorem section?_of_write? {d d' : Document} {name key value : Text}
    (h : d.write? name key value = some d') (n : Text) :
    d'.section? n =
      if n.toName = name.toName then
        some (((d.section? name).getD (Section.declare false none)).set key.toName value)
      else d.section? n := by
  unfold write? at h
  split at h
  · cases h
  · cases h
    exact OrderedMap.get?_insert d.sections name.toName n.toName _

theorem eraseValue?_eq_none_iff {d : Document} {name key : Text} :
    d.eraseValue? name key = none ↔ ∀ s, d.section? name = some s → s.contains key = false := by
  unfold eraseValue?
  split
  · rename_i s hs
    cases hk : s.contains key <;> simp [hs, hk]
  · rename_i hs
    simp [hs]

theorem exists_section_of_eraseValue? {d d' : Document} {name key : Text}
    (h : d.eraseValue? name key = some d') :
    ∃ s, d.section? name = some s ∧ s.contains key = true ∧
      d'.sections = d.sections.insert name.toName (s.erase key) := by
  unfold eraseValue? at h
  split at h
  · rename_i s hs
    split at h
    · rename_i hkey
      cases h
      exact ⟨s, hs, hkey, rfl⟩
    · cases h
  · cases h

theorem section?_of_eraseValue? {d d' : Document} {name key : Text}
    (h : d.eraseValue? name key = some d') (n : Text) :
    d'.section? n =
      if n.toName = name.toName then (d.section? name).map (fun s => s.erase key)
      else d.section? n := by
  obtain ⟨s, hs, -, hsections⟩ := exists_section_of_eraseValue? h
  rw [hs, section?, hsections]
  exact OrderedMap.get?_insert d.sections name.toName n.toName _

theorem eraseSection?_eq_none_iff {d : Document} {name : Text} :
    d.eraseSection? name = none ↔ d.section? name = none := by
  unfold eraseSection? hasSection
  cases d.section? name <;> simp

theorem section?_of_eraseSection? {d d' : Document} {name : Text}
    (h : d.eraseSection? name = some d') (n : Text) :
    d'.section? n = if n.toName = name.toName then none else d.section? n := by
  unfold eraseSection? at h
  split at h
  · cases h
    exact OrderedMap.get?_erase d.sections name.toName n.toName
  · cases h

end Document

end Lineage
