import Lineage.Proofs.Walks
import Mathlib.Data.List.Chain
import Mathlib.Data.List.Nodup

/-!
# The shape of the ancestors

The ancestors of a section are its name and its section, then those of the parent that it declares,
and so on, each name once; they go on as long as there is a parent that exists and was not visited
(`Sections.IsLine`). This holds whatever the parents are, in circles too.

Taken one at a time, the ancestors come to an end (`Ascent.yields_walk`). Between two calls an
ascent holds a section that is found but not yet handed out. Its name is not among the visited ones,
so what is left to visit is what both the walk and the ascent have not handed out
(`Ascent.Unvisited`), and the end is reached since that becomes less with every call.
-/

namespace Lineage

namespace Ascent

/-! ## Ancestors one at a time -/

/-- `rest` holds the sections of `all` that were not visited, and nothing else was visited. -/
structure Unvisited (all rest : Sections) (visited : List Text) : Prop where
  get?_eq : ∀ n, rest.get? n = if n ∈ visited then none else all.get? n
  contains_visited : ∀ n ∈ visited, all.contains n = true

namespace Unvisited

variable {all rest : Sections} {visited : List Text}

theorem nil : Unvisited all all [] where
  get?_eq _ := by rw [if_neg List.not_mem_nil]
  contains_visited := nofun

theorem get?_all (h : Unvisited all rest visited) {name : Text} {s : Section}
    (hs : rest.get? name = some s) : all.get? name = some s := by
  rw [h.get?_eq] at hs
  split at hs
  · cases hs
  · exact hs

theorem cons (h : Unvisited all rest visited) {name : Text} {s : Section}
    (hs : rest.get? name = some s) : Unvisited all (rest.erase name) (name :: visited) where
  get?_eq n := by
    rw [OrderedMap.get?_erase, h.get?_eq]
    by_cases hn : n = name
    · rw [if_pos hn, if_pos (List.mem_cons.2 (Or.inl hn))]
    · simp only [List.mem_cons, hn, false_or, if_false]
  contains_visited n hn := by
    rcases List.mem_cons.1 hn with rfl | hn
    · rw [OrderedMap.contains, h.get?_all hs]
      rfl
    · exact h.contains_visited n hn

theorem get?_of_mem (h : Unvisited all rest visited) {p : Text} (hp : p ∈ visited) :
    rest.get? p = none := by
  rw [h.get?_eq, if_pos hp]

theorem get?_of_not_mem (h : Unvisited all rest visited) {p : Text} (hp : p ∉ visited) :
    rest.get? p = all.get? p := by
  rw [h.get?_eq, if_neg hp]

/-- What exists and is not left was visited. -/
theorem contains_iff (h : Unvisited all rest visited) (p : Text) :
    (all.contains p && !rest.contains p) = decide (p ∈ visited) := by
  by_cases hp : p ∈ visited
  · rw [h.contains_visited p hp, OrderedMap.contains, h.get?_of_mem hp]
    simp [hp]
  · rw [OrderedMap.contains, OrderedMap.contains, h.get?_of_not_mem hp]
    simp [hp]

/-- A visit reports its parent exactly if that was visited, the visited section included. -/
theorem walk_of_step (h : Unvisited all rest visited) {name parent : Text} {s : Section}
    (hs : rest.get? name = some s) (hp : s.parent = some parent) :
    all.walk rest name =
      { name, content := s, metAgain := if parent ∈ name :: visited then some parent else none } ::
        all.walk (rest.erase name) parent := by
  have hmet : s.parent.filter (fun p => all.contains p && !(rest.erase name).contains p) =
      if parent ∈ name :: visited then some parent else none := by
    simp only [hp, Option.filter_some, (h.cons hs).contains_iff, decide_eq_true_eq]
  rw [Sections.walk_eq_cons all hs, hmet, hp]

end Unvisited

/-- An ascent that has handed out what is not in `rest` hands out the walk along `rest`. -/
theorem yields_walk {all rest : Sections} {visited : List Text} {name : Text}
    (h : Unvisited all rest visited) :
    Yields { sections := all, next := (rest.get? name).map (fun s => (name, s)), visited }
      (all.walk rest name) := by
  induction rest, name using Sections.walk_induction generalizing visited with
  | missing rest name hs =>
    rw [Sections.walk_eq_nil all hs, hs]
    exact .done rfl
  | root rest name s hs hp =>
    rw [Sections.walk_of_root hs hp, hs]
    refine .more (b := ⟨all, none, name :: visited⟩) ?_ (.done rfl)
    simp only [advance?, Option.map_some, hp]
  | step rest name s parent hs hp ih =>
    have hcons := h.cons hs
    rw [h.walk_of_step hs hp, hs]
    refine .more (b := ⟨all, ((rest.erase name).get? parent).map (fun t => (parent, t)),
      name :: visited⟩) ?_ (ih hcons)
    simp only [advance?, Option.map_some, hp]
    by_cases hmem : parent ∈ name :: visited
    · rw [if_pos (List.contains_iff_mem.2 hmem), if_pos hmem, hcons.get?_of_mem hmem]
      rfl
    · rw [if_neg (hmem ∘ List.contains_iff_mem.1), if_neg hmem, hcons.get?_of_not_mem hmem]

end Ascent

namespace Sections

variable {all rest : Sections}

/-! ## The shape of a walk -/

theorem head?_path (name : Text) :
    (all.path rest name).head? = (rest.get? name).map (fun s => (name, s)) := by
  cases hs : rest.get? name with
  | none =>
    rw [path_of_missing hs]
    rfl
  | some s =>
    obtain ⟨tail, htail⟩ : ∃ tail, all.path rest name = (name, s) :: tail :=
      exists_path_eq_cons hs
    rw [htail]
    rfl

theorem path_eq_nil_iff {name : Text} : all.path rest name = [] ↔ rest.get? name = none := by
  rw [← List.head?_eq_none_iff, head?_path, Option.map_eq_none_iff]

theorem ne_of_mem_path_erase {name start : Text} {e : Text × Section}
    (h : e ∈ all.path (rest.erase name) start) : e.1 ≠ name := by
  intro heq
  have hget := get?_of_mem_path h
  rw [heq, OrderedMap.get?_erase_self] at hget
  cases hget

theorem nodup_path (rest : Sections) (name : Text) :
    ((all.path rest name).map Prod.fst).Nodup := by
  induction rest, name using walk_induction with
  | missing rest name h =>
    rw [path_of_missing h]
    exact List.nodup_nil
  | root rest name s hs hp =>
    rw [path_of_root hs hp]
    exact List.nodup_singleton name
  | step rest name s parent hs hp ih =>
    rw [path_of_step hs hp, List.map_cons, List.nodup_cons]
    refine ⟨?_, ih⟩
    intro hmem
    obtain ⟨e, he, heq⟩ := List.mem_map.1 hmem
    exact ne_of_mem_path_erase he heq

theorem length_path_le (rest : Sections) (name : Text) :
    (all.path rest name).length ≤ rest.size := by
  induction rest, name using walk_induction with
  | missing rest name h =>
    rw [path_of_missing h]
    exact Nat.zero_le _
  | root rest name s hs hp =>
    have := OrderedMap.size_erase_lt hs
    rw [path_of_root hs hp, List.length_singleton]
    omega
  | step rest name s parent hs hp ih =>
    have := OrderedMap.size_erase_lt hs
    rw [path_of_step hs hp, List.length_cons]
    omega

theorem isChain_path (rest : Sections) (name : Text) :
    (all.path rest name).IsChain (fun e f => e.2.parent = some f.1) := by
  induction rest, name using walk_induction with
  | missing rest name h =>
    rw [path_of_missing h]
    exact .nil
  | root rest name s hs hp =>
    rw [path_of_root hs hp]
    exact .singleton _
  | step rest name s parent hs hp ih =>
    rw [path_of_step hs hp, List.isChain_cons]
    refine ⟨?_, ih⟩
    intro f hf
    rw [head?_path] at hf
    obtain ⟨t, -, rfl⟩ := Option.map_eq_some_iff.1 hf
    exact hp

/-- Where a walk ends although there is a parent, the parent is missing or was visited. -/
theorem stopped_of_getLast?_path {name : Text} {e : Text × Section}
    (he : (all.path rest name).getLast? = some e) {p : Text} (hp : e.2.parent = some p) :
    rest.get? p = none ∨ p ∈ (all.path rest name).map Prod.fst := by
  induction rest, name using walk_induction with
  | missing rest name h =>
    rw [path_of_missing h] at he
    cases he
  | root rest name s hs hroot =>
    rw [path_of_root hs hroot, List.getLast?_singleton, Option.some.injEq] at he
    rw [← he, hroot] at hp
    cases hp
  | step rest name s parent hs hparent ih =>
    rw [path_of_step hs hparent] at he ⊢
    rw [List.map_cons, List.mem_cons]
    have hleft : (rest.erase name).get? p = none ∨
        p ∈ (all.path (rest.erase name) parent).map Prod.fst := by
      rw [List.getLast?_cons, Option.some.injEq] at he
      cases hlast : (all.path (rest.erase name) parent).getLast? with
      | none =>
        -- The walk ends here, so its parent is not left to visit.
        rw [hlast, Option.getD_none] at he
        rw [← he, hparent] at hp
        cases hp
        exact Or.inl (path_eq_nil_iff.1 (List.getLast?_eq_none_iff.1 hlast))
      | some f =>
        rw [hlast, Option.getD_some] at he
        exact ih (he ▸ hlast)
    rcases hleft with hnone | hmem
    · rw [OrderedMap.get?_erase] at hnone
      split at hnone
      · rename_i hname
        exact Or.inr (Or.inl hname)
      · exact Or.inl hnone
    · exact Or.inr (Or.inr hmem)

/-- A list of sections with their names leads from a name up along parents, without a repetition and
as far as it can. -/
structure IsLine (all : Sections) (name : Text) (line : List (Text × Section)) : Prop where
  eq_nil_iff : line = [] ↔ all.get? name = none
  head?_eq : line.head? = (all.get? name).map (fun s => (name, s))
  get?_of_mem : ∀ e ∈ line, all.get? e.1 = some e.2
  nodup : (line.map Prod.fst).Nodup
  length_le : line.length ≤ all.size
  parents : line.IsChain (fun e f => e.2.parent = some f.1)
  maximal : ∀ e, line.getLast? = some e →
    e.2.parent = none ∨
      ∃ p, e.2.parent = some p ∧ (all.get? p = none ∨ p ∈ line.map Prod.fst)

theorem isLine_path (all : Sections) (name : Text) : all.IsLine name (all.path all name) where
  eq_nil_iff := path_eq_nil_iff
  head?_eq := head?_path name
  get?_of_mem _ he := get?_of_mem_path he
  nodup := nodup_path all name
  length_le := length_path_le all name
  parents := isChain_path all name
  maximal e he := by
    cases hp : e.2.parent with
    | none => exact Or.inl rfl
    | some p => exact Or.inr ⟨p, rfl, stopped_of_getLast?_path he hp⟩

end Sections

namespace Document

theorem yields_lineage_iff (d : Document) (name : Text) (visits : List Visit) :
    (Ascent.start d.sections name.toName).Yields visits ↔ visits = d.lineage name := by
  have hyields : (Ascent.start d.sections name.toName).Yields (d.lineage name) :=
    Ascent.yields_walk .nil
  constructor
  · intro h
    exact h.unique hyields
  · rintro rfl
    exact hyields

/-- Taking the ancestors one at a time comes to an end, at which exactly the ancestors of the
section were handed out. They lead from the section up along parents, as far as they can. -/
theorem shape_of_ancestors (d : Document) (name : Text) :
    (∀ visits, (Ascent.start d.sections name.toName).Yields visits ↔ visits = d.lineage name) ∧
      d.ancestors name = (d.lineage name).map (fun v => (v.name, v.content)) ∧
      d.sections.IsLine name.toName (d.ancestors name) :=
  ⟨d.yields_lineage_iff name, rfl, Sections.isLine_path d.sections name.toName⟩

end Document

end Lineage
