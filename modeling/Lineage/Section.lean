import Lineage.OrderedMap
import Lineage.Line

/-!
# Sections

A section holds values under keys, may be abstract, and may name a parent whose values it
inherits. Keys and parents are names: every operation takes them through `Text.toName`.

* `get?_set`, `get?_erase`: what an operation does to the values of all keys.
-/

namespace Lineage

/-- A section of a document: what it declares and the values it holds itself. -/
structure Section where
  isAbstract : Bool := false
  parent : Option Text := none
  values : OrderedMap Text Text := ∅
deriving DecidableEq, Inhabited

namespace Section

/-- A section without values. A parent whose name is empty is no parent. -/
def declare (isAbstract : Bool) (parent : Option Text) : Section where
  isAbstract
  parent := (parent.map Text.toName).filter (· ≠ [])

def entries (s : Section) : List Entry := s.values.entries

def keys (s : Section) : List Text := s.values.keys

def size (s : Section) : Nat := s.values.size

def isEmpty (s : Section) : Bool := s.values.isEmpty

/-- The section's own value of a key. -/
def get? (s : Section) (key : Text) : Option Text := s.values.get? key.toName

/-- Whether the section itself holds a value of a key. -/
def contains (s : Section) (key : Text) : Bool := (s.get? key).isSome

/-- Stores a value under a key, over the value that was there. -/
def set (s : Section) (key value : Text) : Section :=
  { s with values := s.values.insert key.toName value }

def erase (s : Section) (key : Text) : Section :=
  { s with values := s.values.erase key.toName }

/-- Removes all entries; what the section declares stays. -/
def clear (s : Section) : Section := { s with values := ∅ }

/-- Adds the entries whose keys have no value yet and are not empty as names. Of two entries
with one name the first counts. -/
def addMissing (s : Section) (entries : List Entry) : Section :=
  entries.foldl (fun s e =>
    if e.1.toName = [] then s else { s with values := s.values.insertNew e.1.toName e.2 }) s

/-! ## Values -/

theorem get?_set (s : Section) (key value j : Text) :
    (s.set key value).get? j = if j.toName = key.toName then some value else s.get? j :=
  OrderedMap.get?_insert s.values key.toName j.toName value

theorem get?_erase (s : Section) (key j : Text) :
    (s.erase key).get? j = if j.toName = key.toName then none else s.get? j :=
  OrderedMap.get?_erase s.values key.toName j.toName

@[simp] theorem get?_declare (isAbstract : Bool) (parent : Option Text) (key : Text) :
    (declare isAbstract parent).get? key = none := rfl

@[simp] theorem get?_clear (s : Section) (key : Text) : s.clear.get? key = none := rfl

end Section

end Lineage
