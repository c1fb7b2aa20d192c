import Lineage.Document
import Lineage.Event

/-!
# Inheritance

The ancestors of a section are the section itself, its parent, the parent of that, and so on.
The walk ends at a section without a parent, at a parent that does not exist, and at a parent
that was visited before, so that sections may inherit in a circle. A value is inherited from the
first ancestor that holds one.

* `Sections.walk_eq_cons`, `Sections.walk_eq_nil`: one step of the walk.
* `Visit.get?_inherited`: a value of a walk is that of the first section that holds one.

Callers may also take the ancestors one at a time, from an `Ascent`.
-/

namespace Lineage

/-- A section met on a walk along parents. -/
structure Visit where
  name : Text
  content : Section
  /-- The parent, if the walk ends here because the parent was visited before. -/
  metAgain : Option Text := none
deriving DecidableEq

/-- What is reported when a section is visited. -/
def Visit.events (v : Visit) : List Event :=
  match v.metAgain with
  | some parent => [.cycleMet v.name parent]
  | none => []

/-- The values that the sections of a walk hold. Where several hold a key, the first counts. -/
def Visit.inherited (visits : List Visit) : OrderedMap Text Text :=
  visits.foldr (fun v found => v.content.values.union found) ∅

theorem Visit.get?_inherited (visits : List Visit) (key : Text) :
    (Visit.inherited visits).get? key = visits.findSome? (fun v => v.content.values.get? key) := by
  unfold Visit.inherited
  induction visits with
  | nil => exact OrderedMap.get?_empty key
  | cons v rest ih =>
    rw [List.foldr_cons, OrderedMap.get?_union, ih, List.findSome?_cons]
    cases v.content.values.get? key <;> rfl

/-- The walk along parents from a section on, where `rest` holds the sections of `all` that were
not visited yet. -/
def Sections.walk (all rest : Sections) (name : Text) : List Visit :=
  match h : rest.get? name with
  | none => []
  | some s =>
    have := OrderedMap.size_erase_lt h
    let unvisited := rest.erase name
    let metAgain := s.parent.filter (fun p => all.contains p && !unvisited.contains p)
    { name, content := s, metAgain } ::
      match s.parent with
      | some parent => walk all unvisited parent
      | none => []
termination_by rest.size

theorem Sections.walk_eq_nil (all : Sections) {rest : Sections} {name : Text}
    (h : rest.get? name = none) : all.walk rest name = [] := by
  rw [Sections.walk]
  split
  · rfl
  · rename_i s hs
    rw [h] at hs
    cases hs

theorem Sections.walk_eq_cons (all : Sections) {rest : Sections} {name : Text} {s : Section}
    (h : rest.get? name = some s) :
    all.walk rest name =
      { name, content := s,
        metAgain := s.parent.filter (fun p => all.contains p && !(rest.erase name).contains p) } ::
      match s.parent with
      | some parent => all.walk (rest.erase name) parent
      | none => [] := by
  rw [Sections.walk]
  split
  · rename_i hs
    rw [h] at hs
    cases hs
  · rename_i s' hs
    rw [h] at hs
    cases hs
    rfl

/-! ## Ancestors one at a time -/

/-- How far a walk along parents has come: the section that is handed out next, if there is one,
and the names of those that were handed out. -/
structure Ascent where
  sections : Sections
  next : Option (Text × Section)
  visited : List Text := []

namespace Ascent

/-- The walk from the section of a name on. -/
def start (sections : Sections) (name : Text) : Ascent where
  sections
  next := (sections.get? name).map (fun s => (name, s))

/-- Hands out the next section. The one after it is looked for at once, so a circle is met when the
last section of the walk is handed out. -/
def advance? (a : Ascent) : Option (Visit × Ascent) :=
  match a.next with
  | none => none
  | some (name, s) =>
    let visited := name :: a.visited
    match s.parent with
    | none => some ({ name, content := s }, { a with next := none, visited })
    | some parent =>
      if visited.contains parent then
        some ({ name, content := s, metAgain := some parent }, { a with next := none, visited })
      else
        let next := (a.sections.get? parent).map (fun t => (parent, t))
        some ({ name, content := s }, { a with next, visited })

/-- The walk hands out these sections in order, and then it is at its end. -/
inductive Yields : Ascent → List Visit → Prop
  | done {a : Ascent} : a.advance? = none → Yields a []
  | more {a b : Ascent} {v : Visit} {rest : List Visit} :
      a.advance? = some (v, b) → Yields b rest → Yields a (v :: rest)

theorem Yields.unique {a : Ascent} {visits others : List Visit} (h : Yields a visits)
    (h' : Yields a others) : visits = others := by
  induction h generalizing others with
  | done ha =>
    cases h' with
    | done _ => rfl
    | more hb _ =>
      rw [ha] at hb
      cases hb
  | more ha _ ih =>
    cases h' with
    | done hb =>
      rw [ha] at hb
      cases hb
    | more hb hrest =>
      rw [ha] at hb
      cases hb
      rw [ih hrest]

end Ascent

namespace Document

/-- The ancestors of a section, the section first. -/
def lineage (d : Document) (name : Text) : List Visit :=
  d.sections.walk d.sections name.toName

/-- The value of a key as the section has it, its own or the closest inherited one. -/
def read? (d : Document) (name key : Text) : Option Text :=
  if key.toName = [] then none
  else (d.lineage name).findSome? (fun v => v.content.values.get? key.toName)

/-- Whether the section has a value of the key, its own or an inherited one. -/
def hasValue (d : Document) (name key : Text) : Bool := (d.read? name key).isSome

/-- The values that a section has, its own and inherited ones, in key order. -/
def resolved (d : Document) (name : Text) : OrderedMap Text Text := Visit.inherited (d.lineage name)

/-- The keys that a section or one of its ancestors holds, in order. -/
def resolvedKeys (d : Document) (name : Text) : List Text :=
  (OrderedMap.ofList ((d.lineage name).flatMap (fun v => v.content.keys.map (·, ())))).keys

/-! ## What walks report -/

/-- The visits up to the first section that holds the key. -/
def visitsUntil (key : Text) : List Visit → List Visit
  | [] => []
  | v :: rest => v :: if v.content.values.contains key then [] else visitsUntil key rest

/-- What is reported when a value is looked up: the walk ends where the value is found. -/
def readLog (d : Document) (name key : Text) : List Event :=
  if key.toName = [] then []
  else (visitsUntil key.toName (d.lineage name)).flatMap Visit.events

/-- What is reported by a walk along all ancestors. -/
def walkLog (d : Document) (name : Text) : List Event :=
  (d.lineage name).flatMap Visit.events

end Document

end Lineage
