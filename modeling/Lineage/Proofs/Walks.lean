import Lineage.Document.Ancestry
import Lineage.Proofs.Maps

/-!
# Walks along parents

A walk is followed by the sections that it may still visit (`Sections.walk_induction`): it ends
where the name is missing among them, ends at a section without a parent, or goes on at the parent
among the sections that are left. All facts about walks are proved along these three cases, so
circles need no case of their own.

* `Sections.get?_of_mem_path`: a walk visits sections under their names.
* `Sections.path_erase_eq_takeWhile`: a walk that may not visit a section ends before it.
* `Sections.path_erase`: it loses nothing else if the parent of this section was visited before, or
  is where the walk begins.
-/

namespace Lineage

namespace Sections

variable {all : Sections}

@[elab_as_elim]
theorem walk_induction {motive : Sections → Text → Prop}
    (missing : ∀ rest name, rest.get? name = none → motive rest name)
    (root : ∀ rest name s, rest.get? name = some s → s.parent = none → motive rest name)
    (step : ∀ rest name s parent, rest.get? name = some s → s.parent = some parent →
      motive (rest.erase name) parent → motive rest name)
    (rest : Sections) (name : Text) : motive rest name := by
  generalize hn : rest.size = n
  induction n using Nat.strongRecOn generalizing rest name with
  | ind n ih =>
    cases hs : rest.get? name with
    | none => exact missing rest name hs
    | some s =>
      cases hp : s.parent with
      | none => exact root rest name s hs hp
      | some parent =>
        have hlt := OrderedMap.size_erase_lt hs
        exact step rest name s parent hs hp (ih _ (by omega) (rest.erase name) parent rfl)

theorem walk_of_root {rest : Sections} {name : Text} {s : Section} (hs : rest.get? name = some s)
    (hp : s.parent = none) : all.walk rest name = [{ name, content := s }] := by
  rw [walk_eq_cons all hs, hp]
  rfl

/-- The sections that a walk visits, without what it reports. -/
def path (all rest : Sections) (name : Text) : List (Text × Section) :=
  (all.walk rest name).map (fun v => (v.name, v.content))

theorem path_of_missing {rest : Sections} {name : Text} (h : rest.get? name = none) :
    all.path rest name = [] := by
  rw [path, walk_eq_nil all h]
  rfl

theorem path_of_root {rest : Sections} {name : Text} {s : Section} (hs : rest.get? name = some s)
    (hp : s.parent = none) : all.path rest name = [(name, s)] := by
  rw [path, walk_of_root hs hp]
  rfl

theorem path_of_step {rest : Sections} {name parent : Text} {s : Section}
    (hs : rest.get? name = some s) (hp : s.parent = some parent) :
    all.path rest name = (name, s) :: all.path (rest.erase name) parent := by
  rw [path, walk_eq_cons all hs, hp]
  rfl

/-- A walk visits the section it begins at first. -/
theorem exists_path_eq_cons {rest : Sections} {name : Text} {s : Section}
    (hs : rest.get? name = some s) : ∃ tail, all.path rest name = (name, s) :: tail := by
  cases hp : s.parent with
  | none => exact ⟨[], path_of_root hs hp⟩
  | some parent => exact ⟨_, path_of_step hs hp⟩

/-- All sections matter for what a walk reports only. -/
theorem path_eq_path (all other rest : Sections) (name : Text) :
    all.path rest name = other.path rest name := by
  induction rest, name using walk_induction with
  | missing rest name h => rw [path_of_missing h, path_of_missing h]
  | root rest name s hs hp => rw [path_of_root hs hp, path_of_root hs hp]
  | step rest name s parent hs hp ih => rw [path_of_step hs hp, path_of_step hs hp, ih]

theorem get?_of_mem_path {rest : Sections} {name : Text} {e : Text × Section}
    (h : e ∈ all.path rest name) : rest.get? e.1 = some e.2 := by
  induction rest, name using walk_induction with
  | missing rest name hs =>
    rw [path_of_missing hs] at h
    cases h
  | root rest name s hs hp =>
    rw [path_of_root hs hp, List.mem_singleton] at h
    exact h ▸ hs
  | step rest name s parent hs hp ih =>
    rw [path_of_step hs hp, List.mem_cons] at h
    rcases h with rfl | h
    · exact hs
    · exact OrderedMap.get?_of_get?_erase (ih h)

theorem erase_comm (rest : Sections) (a b : Text) :
    (rest.erase a).erase b = (rest.erase b).erase a := by
  refine OrderedMap.ext_get? fun k => ?_
  rw [OrderedMap.get?_erase, OrderedMap.get?_erase, OrderedMap.get?_erase, OrderedMap.get?_erase]
  split <;> split <;> rfl

/-- The walk without a section ends where the walk with it comes to it. -/
theorem path_erase_eq_takeWhile (rest : Sections) (n start : Text) :
    all.path (rest.erase n) start = (all.path rest start).takeWhile (fun e => e.1 ≠ n) := by
  induction rest, start using walk_induction with
  | missing rest start h =>
    rw [path_of_missing h, path_of_missing]
    · rfl
    · rw [OrderedMap.get?_erase, h, ite_self]
  | root rest start s hs hp =>
    by_cases hstart : start = n
    · rw [path_of_root hs hp, List.takeWhile_cons_of_neg (by simpa using hstart), path_of_missing]
      rw [hstart, OrderedMap.get?_erase_self]
    · have hs' : (rest.erase n).get? start = some s := by
        rw [OrderedMap.get?_erase_of_ne _ hstart, hs]
      rw [path_of_root hs hp, path_of_root hs' hp,
        List.takeWhile_cons_of_pos (by simpa using hstart), List.takeWhile_nil]
  | step rest start s parent hs hp ih =>
    by_cases hstart : start = n
    · rw [path_of_step hs hp, List.takeWhile_cons_of_neg (by simpa using hstart), path_of_missing]
      rw [hstart, OrderedMap.get?_erase_self]
    · have hs' : (rest.erase n).get? start = some s := by
        rw [OrderedMap.get?_erase_of_ne _ hstart, hs]
      rw [path_of_step hs hp, path_of_step hs' hp,
        List.takeWhile_cons_of_pos (by simpa using hstart), erase_comm rest n start, ih]

/-- A section whose parent was visited before, or is where the walk begins, is the last one that the
walk visits. -/
theorem dropWhile_path {rest : Sections} {n parent start : Text} {s : Section}
    (hs : rest.get? n = some s) (hp : s.parent = some parent)
    (hseen : rest.get? parent = none ∨ start = parent) :
    (all.path rest start).dropWhile (fun e => e.1 ≠ n) = [] ∨
      (all.path rest start).dropWhile (fun e => e.1 ≠ n) = [(n, s)] := by
  induction rest, start using walk_induction with
  | missing rest start h =>
    left
    rw [path_of_missing h]
    rfl
  | root rest start t ht htp =>
    have hne : start ≠ n := by
      rintro rfl
      rw [hs] at ht
      cases ht
      rw [hp] at htp
      cases htp
    left
    rw [path_of_root ht htp, List.dropWhile_cons_of_pos (by simpa using hne)]
    rfl
  | step rest start t q ht htp ih =>
    have hseen' : (rest.erase start).get? parent = none := by
      rw [OrderedMap.get?_erase]
      rcases hseen with hnone | rfl
      · rw [hnone, ite_self]
      · rw [if_pos rfl]
    by_cases hne : start = n
    · subst hne
      rw [hs] at ht
      cases ht
      rw [hp] at htp
      cases htp
      right
      rw [path_of_step hs hp, path_of_missing hseen', List.dropWhile_cons_of_neg (by simp)]
    · have hs' : (rest.erase start).get? n = some s := by
        rw [OrderedMap.get?_erase_of_ne _ (Ne.symm hne), hs]
      rw [path_of_step ht htp, List.dropWhile_cons_of_pos (by simpa using hne)]
      exact ih hs' (Or.inl hseen')

/-- Both walks are the same up to `n`. There the one without `n` ends, and the other has nowhere to
go. -/
theorem path_erase {rest : Sections} {n parent start : Text} {s : Section}
    (hs : rest.get? n = some s) (hp : s.parent = some parent)
    (hseen : rest.get? parent = none ∨ start = parent) :
    all.path rest start = all.path (rest.erase n) start ∨
      all.path rest start = all.path (rest.erase n) start ++ [(n, s)] := by
  have hsplit : (all.path rest start).takeWhile (fun e => e.1 ≠ n) ++
      (all.path rest start).dropWhile (fun e => e.1 ≠ n) = all.path rest start :=
    List.takeWhile_append_dropWhile
  rw [path_erase_eq_takeWhile]
  rcases dropWhile_path hs hp hseen with h | h
  · left
    rw [h, List.append_nil] at hsplit
    exact hsplit.symm
  · right
    rw [h] at hsplit
    exact hsplit.symm

end Sections

namespace Document

/-- The ancestors of a section with their names, the section first. -/
def ancestors (d : Document) (name : Text) : List (Text × Section) :=
  d.sections.path d.sections name.toName

theorem read?_eq_findSome? (d : Document) (name : Text) {key : Text} (hkey : key.toName ≠ []) :
    d.read? name key = (d.ancestors name).findSome? (fun e => e.2.get? key) := by
  rw [read?, if_neg hkey, ancestors, Sections.path, List.findSome?_map]
  rfl

theorem get?_resolved (d : Document) (name key : Text) :
    (d.resolved name).get? key =
      (d.ancestors name).findSome? (fun e => e.2.values.get? key) := by
  rw [resolved, Visit.get?_inherited, ancestors, Sections.path, List.findSome?_map]
  rfl

/-- What is resolved is the own value of some section. -/
theorem exists_own_of_get?_resolved {d : Document} {name key value : Text}
    (h : (d.resolved name).get? key = some value) :
    ∃ n s, d.sections.get? n = some s ∧ s.values.get? key = some value := by
  rw [get?_resolved] at h
  obtain ⟨e, he, hvalue⟩ := List.exists_of_findSome?_eq_some h
  exact ⟨e.1, e.2, Sections.get?_of_mem_path he, hvalue⟩

theorem read?_eq_get?_resolved (d : Document) (name : Text) {key : Text} (hkey : key.toName ≠ []) :
    d.read? name key = (d.resolved name).get? key.toName := by
  rw [read?_eq_findSome? d name hkey, get?_resolved]
  rfl

theorem mem_resolvedKeys_iff (d : Document) (name : Text) {key : Text} :
    key ∈ d.resolvedKeys name ↔ ∃ e ∈ d.ancestors name, key ∈ e.2.keys := by
  rw [resolvedKeys, OrderedMap.mem_keys_ofList]
  simp only [ancestors, Sections.path, List.mem_flatMap, List.mem_map]
  constructor
  · rintro ⟨e, ⟨v, hv, k, hk, rfl⟩, rfl⟩
    exact ⟨(v.name, v.content), ⟨v, hv, rfl⟩, hk⟩
  · rintro ⟨e, ⟨v, hv, rfl⟩, hk⟩
    exact ⟨(key, ()), ⟨v, hv, key, hk, rfl⟩, rfl⟩

theorem pairwise_resolvedKeys (d : Document) (name : Text) :
    (d.resolvedKeys name).Pairwise (· < ·) :=
  OrderedMap.pairwise_keys _

end Document

end Lineage
