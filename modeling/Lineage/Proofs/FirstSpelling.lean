import Lineage.Proofs.ReadingMeaning
import Lineage.Proofs.SnapshotRoundTrip

/-!
# The first spelling counts

A snapshot may spell one name in several ways, and one key of a section too. Sections and keys come
in the order of code points of their spellings, and meet under the names that these stand for. Then
the first section of a name says what is declared, and a key has the value of the first section of
the name that spells the key in any way, by its first spelling there. Spellings of the empty name
do not count (`Document.meaning_of_ofJson?`).

A section that is added is asked only where the sections before it say nothing. That is said for one
section (`Document.declared?_addSnapshot`, `Document.value?_addSnapshot`), and the inductions over
all of them only add up such questions.
-/

namespace Lineage

open Text

/-! ## Objects -/

namespace Json

variable {α β : Type} {read? : Json → Option α}

theorem fieldD_map (fields : OrderedMap Text Json) (name : Text) (default : α) (f : α → β) :
    fieldD fields name (f default) (fun j => (read? j).map f) =
      (fieldD fields name default read?).map f := by
  unfold fieldD
  split <;> rfl

/-- Changing what the members are read as, in an object that is read. -/
theorem map?_map (f : α → β) (j : Json) :
    map? (fun j => (read? j).map f) j =
      (map? read? j).map (List.map (fun e => (e.1, f e.2))) := by
  unfold map?
  rw [Option.map_bind]
  congr 1
  funext members
  rw [Function.comp_apply, ← mapM_optionMap]
  congr 1
  funext e
  rw [Option.map_map, Option.map_map]
  rfl

theorem pairwise_of_map? {j : Json} {es : List (Text × α)} (h : map? read? j = some es) :
    es.Pairwise (fun a b => a.1 < b.1) := by
  obtain ⟨members, -, hmembers⟩ := Option.bind_eq_some_iff.1 h
  have hkeys : es.map Prod.fst = members.keys := by
    apply map_eq_of_mapM _ hmembers
    intro m e he
    obtain ⟨v, -, rfl⟩ := Option.map_eq_some_iff.1 he
    rfl
  rw [← List.pairwise_map, hkeys]
  exact members.pairwise_keys

end Json

/-! ## Sections as they are spelled -/

/-- A section as its snapshot spells it. -/
structure SectionSnapshot where
  isAbstract : Bool
  parent : Option Text
  values : List Entry

namespace SectionSnapshot

/-- Reads a section as it is spelled. All fields may be missing. -/
def ofJson? (j : Json) : Option SectionSnapshot := do
  let fields ← j.record? Section.fieldNames
  let isAbstract ← Json.fieldD fields "is_abstract".toList false Json.bool?
  let parent ← Json.fieldD fields "parent".toList none Json.stringOrNull?
  let values ← Json.fieldD fields "values".toList [] (Json.map? Json.string?)
  return { isAbstract, parent, values }

/-- What is declared. A parent counts by its name, and not at all if that is empty. -/
def declared (s : SectionSnapshot) : Bool × Option Text :=
  (s.isAbstract, (s.parent.map toName).filter (· ≠ []))

/-- The value of the first spelling of a key. -/
def value? (s : SectionSnapshot) (key : Text) : Option Text :=
  (s.values.find? (fun e => e.1.toName = key)).map Prod.snd

/-- The section that is restored. -/
def toSection (s : SectionSnapshot) : Section :=
  (Section.declare s.isAbstract s.parent).addMissing s.values

theorem declared_toSection (s : SectionSnapshot) :
    (s.toSection.isAbstract, s.toSection.parent) = s.declared := by
  rw [toSection, Section.addMissing_eq]
  rfl

theorem get?_toSection (s : SectionSnapshot) {key : Text} (hkey : key ≠ []) :
    s.toSection.values.get? key = s.value? key := by
  rw [toSection, Section.get?_addMissing _ _ hkey, Section.declare, OrderedMap.get?_empty,
    Option.none_or]
  rfl

theorem normal_toSection (s : SectionSnapshot) : s.toSection.Normal :=
  (Section.normal_declare _ _).addMissing _

theorem pairwise_values {j : Json} {s : SectionSnapshot} (h : ofJson? j = some s) :
    s.values.Pairwise (fun a b => a.1 < b.1) := by
  simp only [ofJson?, Option.bind_eq_bind, Option.bind_eq_some_iff, Option.pure_def,
    Option.some.injEq] at h
  obtain ⟨fields, -, isAbstract, -, parent, -, values, hvalues, rfl⟩ := h
  rcases Json.default_or_of_fieldD hvalues with rfl | ⟨members, hmembers⟩
  · exact List.Pairwise.nil
  · exact Json.pairwise_of_map? hmembers

end SectionSnapshot

theorem Section.ofJson?_eq (j : Json) :
    ofJson? j = (SectionSnapshot.ofJson? j).map SectionSnapshot.toSection := by
  simp only [ofJson?, SectionSnapshot.ofJson?, Option.bind_eq_bind, Option.map_bind,
    Function.comp_def, Option.pure_def, Option.map_some, SectionSnapshot.toSection]

namespace Document

/-- The sections of a snapshot as they are spelled, in the order of their names. -/
def spelled? (j : Json) : Option (List (Text × SectionSnapshot)) := do
  let fields ← j.record? ["sections".toList]
  Json.fieldD fields "sections".toList [] (Json.map? SectionSnapshot.ofJson?)

theorem snapshots?_eq (j : Json) :
    snapshots? j = (spelled? j).map (List.map (fun e => (e.1, e.2.toSection))) := by
  unfold snapshots? spelled?
  rw [Option.bind_eq_bind, Option.bind_eq_bind, Option.map_bind]
  congr 1
  funext fields
  rw [Function.comp_apply, ← Json.fieldD_map, List.map_nil]
  congr 1
  funext j
  rw [← Json.map?_map]
  congr 1
  funext j
  exact Section.ofJson?_eq j

theorem pairwise_spelled {j : Json} {es : List (Text × SectionSnapshot)}
    (h : spelled? j = some es) :
    es.Pairwise (fun a b => a.1 < b.1) ∧
      ∀ e ∈ es, e.2.values.Pairwise (fun a b => a.1 < b.1) := by
  simp only [spelled?, Option.bind_eq_bind, Option.bind_eq_some_iff] at h
  obtain ⟨fields, -, hfields⟩ := h
  rcases Json.default_or_of_fieldD hfields with rfl | ⟨members, hmembers⟩
  · exact ⟨List.Pairwise.nil, nofun⟩
  · refine ⟨Json.pairwise_of_map? hmembers, ?_⟩
    intro e he
    obtain ⟨j', hj'⟩ := Json.exists_of_mem_map? hmembers he
    exact SectionSnapshot.pairwise_values hj'

/-! ## Sections that are added -/

variable {d : Document} {name key : Text}

theorem get?_addSnapshot (d : Document) (n : Text) (s : Section) (hname : name ≠ []) :
    (d.addSnapshot n s).sections.get? name =
      if n.toName = name then
        some (((d.sections.get? name).map (fun first => first.addMissing s.entries)).getD s)
      else d.sections.get? name := by
  unfold addSnapshot
  split
  · rename_i hn
    rw [hn, if_neg hname.symm]
  · by_cases heq : n.toName = name
    · subst heq
      rw [if_pos rfl]
      cases d.sections.get? n.toName <;> exact (OrderedMap.get?_insert _ _ _ _).trans (if_pos rfl)
    · rw [if_neg heq]
      split <;> exact (OrderedMap.get?_insert _ _ _ _).trans (if_neg (Ne.symm heq))

/-- What a section declares counts if the sections of its name before it declare nothing. -/
theorem declared?_addSnapshot (d : Document) (n : Text) (s : Section) (hname : name ≠ []) :
    (d.addSnapshot n s).sections.declared? name =
      (d.sections.declared? name).or
        (if n.toName = name then some (s.isAbstract, s.parent) else none) := by
  rw [Sections.declared?, get?_addSnapshot d n s hname, Sections.declared?]
  split
  · cases d.sections.get? name with
    | none => rfl
    | some first =>
      show some ((first.addMissing s.entries).isAbstract, (first.addMissing s.entries).parent) = _
      rw [Section.addMissing_eq]
      rfl
  · rw [Option.or_none]

/-- The value of a key counts if the sections of the name before it have none. -/
theorem value?_addSnapshot (d : Document) (n : Text) {s : Section} (hs : s.Normal)
    (hname : name ≠ []) (hkey : key ≠ []) :
    (d.addSnapshot n s).sections.value? name key =
      (d.sections.value? name key).or (if n.toName = name then s.values.get? key else none) := by
  rw [Sections.value?, get?_addSnapshot d n s hname, Sections.value?]
  split
  · cases d.sections.get? name with
    | none => rfl
    | some first =>
      rw [Option.map_some, Option.getD_some, Option.bind_some, Section.get?_addMissing _ _ hkey,
        Section.entries, Section.find?_entries hs.settled.toName_entries]
      rfl
  · rw [Option.or_none]

theorem declared?_foldl_addSnapshot (es : List (Text × SectionSnapshot)) (d : Document)
    (hname : name ≠ []) :
    ((es.map (fun e => (e.1, e.2.toSection))).foldl
      (fun d e => d.addSnapshot e.1 e.2) d).sections.declared? name =
      (d.sections.declared? name).or
        ((es.find? (fun e => e.1.toName = name)).map (fun e => e.2.declared)) := by
  induction es generalizing d with
  | nil => exact Option.or_none.symm
  | cons e rest ih =>
    rw [List.map_cons, List.foldl_cons, ih, declared?_addSnapshot _ _ _ hname, Option.or_assoc,
      e.2.declared_toSection]
    by_cases he : e.1.toName = name
    · rw [if_pos he, List.find?_cons_of_pos (by simpa using he), Option.some_or, Option.map_some]
    · rw [if_neg he, List.find?_cons_of_neg (by simpa using he), Option.none_or]

theorem value?_foldl_addSnapshot (es : List (Text × SectionSnapshot)) (d : Document)
    (hname : name ≠ []) (hkey : key ≠ []) :
    ((es.map (fun e => (e.1, e.2.toSection))).foldl
      (fun d e => d.addSnapshot e.1 e.2) d).sections.value? name key =
      (d.sections.value? name key).or
        ((es.filter (fun e => e.1.toName = name)).findSome? (fun e => e.2.value? key)) := by
  induction es generalizing d with
  | nil => exact Option.or_none.symm
  | cons e rest ih =>
    rw [List.map_cons, List.foldl_cons, ih, value?_addSnapshot _ _ e.2.normal_toSection hname hkey,
      Option.or_assoc, e.2.get?_toSection hkey]
    by_cases he : e.1.toName = name
    · rw [if_pos he, List.filter_cons_of_pos (by simpa using he), List.findSome?_cons]
      cases e.2.value? key <;> rfl
    · rw [if_neg he, List.filter_cons_of_neg (by simpa using he), Option.none_or]

/-! ## The document that is restored -/

theorem ofJson?_eq (j : Json) :
    ofJson? j =
      (spelled? j).map (fun es => ofSnapshots (es.map (fun e => (e.1, e.2.toSection)))) := by
  rw [ofJson?, snapshots?_eq, Option.map_map]
  rfl

theorem value?_eq_none_of_nil (hd : d.sections.All fun name s => IsName name ∧ s.Normal)
    (h : name = [] ∨ key = []) : d.sections.value? name key = none := by
  cases hs : d.sections.get? name with
  | none => rw [Sections.value?, hs, Option.bind_none]
  | some s =>
    obtain ⟨hname, hnormal⟩ := hd name s hs
    have hkey : key = [] := h.resolve_left hname.1
    rw [Sections.value?, hs, Option.bind_some, hkey, hnormal.get?_nil]

/-- What is restored from a snapshot, in terms of the spellings in it: which sections there are,
what each declares, and the own value of every key. -/
theorem meaning_of_ofJson? {j : Json} (hj : ofJson? j = some d) :
    ∃ es, spelled? j = some es ∧
      (es.Pairwise (fun a b => a.1 < b.1) ∧
        ∀ e ∈ es, e.2.values.Pairwise (fun a b => a.1 < b.1)) ∧
      (∀ name, d.sections.contains name = true ↔
        name ≠ [] ∧ ∃ e ∈ es, e.1.toName = name) ∧
      (∀ name, d.sections.declared? name =
        if name = [] then none
        else (es.find? (fun e => e.1.toName = name)).map (fun e => e.2.declared)) ∧
      ∀ name key, d.sections.value? name key =
        if name = [] ∨ key = [] then none
        else (es.filter (fun e => e.1.toName = name)).findSome? (fun e => e.2.value? key) := by
  have hnamed := named_of_ofJson? hj
  rw [ofJson?_eq, Option.map_eq_some_iff] at hj
  obtain ⟨es, hes, hd⟩ := hj
  have hdeclared : ∀ name, d.sections.declared? name =
      if name = [] then none
      else (es.find? (fun e => e.1.toName = name)).map (fun e => e.2.declared) := by
    intro name
    split
    · rename_i hname
      have hnone := hnamed.get?_eq_none fun s hs => hs.1.1 hname
      rw [Sections.declared?, hnone, Option.map_none]
    · rename_i hname
      rw [← hd]
      exact (declared?_foldl_addSnapshot es ∅ hname).trans (Option.none_or)
  refine ⟨es, hes, pairwise_spelled hes, ?_, hdeclared, ?_⟩
  · intro name
    rw [← Sections.isSome_declared?, hdeclared]
    by_cases hname : name = []
    · simp [hname]
    · simp [hname]
  · intro name key
    split
    · rename_i hempty
      exact value?_eq_none_of_nil hnamed hempty
    · rename_i hfull
      obtain ⟨hname, hkey⟩ := not_or.1 hfull
      rw [← hd]
      exact (value?_foldl_addSnapshot es ∅ hname hkey).trans (Option.none_or)

/-- A snapshot in which spellings of one name differ in case, in blanks and in how a letter is
composed, and spellings of the empty name stand in between. -/
def manySpellings : Json :=
  .object [("sections".toList, .object [
    ("İx".toList, .object [
      ("values".toList, .object [
        (" ".toList, .string "0".toList), ("Key".toList, .string "1".toList),
        ("More".toList, .string "7".toList)])]),
    ("\t".toList, .object [
      ("values".toList, .object [("key".toList, .string "2".toList)])]),
    (" i̇X".toList, .object [
      ("is_abstract".toList, .bool true),
      ("parent".toList, .string " Base\n".toList),
      ("values".toList, .object [
        ("Tail".toList, .string "3".toList), ("tail ".toList, .string "4".toList)])]),
    ("i̇x".toList, .object [
      ("parent".toList, .string "other".toList),
      ("values".toList, .object [
        ("KEY".toList, .string "5".toList), ("key".toList, .string "6".toList)])])])]

/-- The document that is restored from it. What the section declares and the values of its keys come
from three spellings of its name. -/
def mergedSpellings : Document where
  sections := .ofList
    [("i̇x".toList,
      { isAbstract := true
        parent := some "base".toList
        values := .ofList
          [("key".toList, "5".toList), ("more".toList, "7".toList), ("tail".toList, "3".toList)] })]

theorem meaning_of_ofJson?_many_spellings :
    ofJson? manySpellings = some mergedSpellings ∧
      ∃ es, spelled? manySpellings = some es ∧
        (es.Pairwise (fun a b => a.1 < b.1) ∧
          ∀ e ∈ es, e.2.values.Pairwise (fun a b => a.1 < b.1)) ∧
        (∀ name, mergedSpellings.sections.contains name = true ↔
          name ≠ [] ∧ ∃ e ∈ es, e.1.toName = name) ∧
        (∀ name, mergedSpellings.sections.declared? name =
          if name = [] then none
          else (es.find? (fun e => e.1.toName = name)).map (fun e => e.2.declared)) ∧
        ∀ name key, mergedSpellings.sections.value? name key =
          if name = [] ∨ key = [] then none
          else (es.filter (fun e => e.1.toName = name)).findSome? (fun e => e.2.value? key) := by
  have hj : ofJson? manySpellings = some mergedSpellings := by decide +kernel
  exact ⟨hj, meaning_of_ofJson? hj⟩

end Document

end Lineage
