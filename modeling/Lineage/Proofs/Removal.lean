import Lineage.Proofs.AncestorShape
import Lineage.Proofs.NormalForm
import Lineage.Proofs.WriteVisibility

/-!
# What removals change

A section that is removed cuts every walk that comes to it short: what came before it stays, and the
walk ends there (`Sections.path_erase_eq_takeWhile`). It does not matter how the walk ended before,
since up to the removed section it visits the same sections with and without it. So a key is found
in what is left of the walk, or not at all (`ancestors_of_eraseSection?`).

A value that is removed leaves all walks as they are, since its section stays, even without values,
and keeps its parent. Then every section sees what it would have seen if its walk had passed over
that section, and all other keys are seen as before (`reads_of_eraseValue?`).
-/

namespace Lineage

open Text

namespace Sections.Rerouted

variable {target : Text} {s new : Section} {walk walk' : List (Text × Section)}

theorem map_eq_self (h : ∀ e ∈ walk, e.1 ≠ target) :
    walk.map (fun e => if e.1 = target then (target, new) else e) = walk := by
  have hid : ∀ e ∈ walk, (if e.1 = target then (target, new) else e) = id e := by
    intro e he
    rw [if_neg (h e he), id]
  rw [List.map_congr_left hid, List.map_id]

/-- Where a section is replaced, it is replaced in all walks. -/
theorem eq_map (h : Rerouted target (some s) new walk walk') (hnodup : (walk.map Prod.fst).Nodup) :
    walk' = walk.map (fun e => if e.1 = target then (target, new) else e) := by
  cases h with
  | apart _ hwalk => rw [map_eq_self hwalk]
  | through before after hbefore =>
    have hafter : ∀ e ∈ after, e.1 ≠ target := by
      rw [List.map_append, List.nodup_append, Option.map_some, Option.toList_some,
        List.singleton_append, List.map_cons, List.nodup_cons] at hnodup
      intro e he htarget
      exact hnodup.2.1.1 (List.mem_map.2 ⟨e, he, htarget⟩)
    rw [List.map_append, List.map_append, map_eq_self hbefore, map_eq_self hafter]
    simp

end Sections.Rerouted

namespace Document

variable {d d' : Document} {name key : Text}

/-- Where keys are names, an empty key is found neither by a lookup nor in a section. -/
theorem read?_eq_findSome?_of_normal (hd : d.Normal) (n k : Text) :
    d.read? n k = (d.ancestors n).findSome? (fun e => e.2.get? k) := by
  by_cases hk : k.toName = []
  · rw [read?, if_pos hk, eq_comm, List.findSome?_eq_none_iff]
    intro e he
    rw [Section.get?, hk]
    exact (hd _ _ (Sections.get?_of_mem_path he)).get?_nil
  · exact read?_eq_findSome? d n hk

/-! ## Removing a section -/

theorem isSome_eraseSection? (d : Document) (name : Text) :
    (d.eraseSection? name).isSome = (d.section? name).isSome := by
  rw [Bool.eq_iff_iff, Option.isSome_iff_ne_none, Option.isSome_iff_ne_none, not_iff_not]
  exact eraseSection?_eq_none_iff

/-- Whether a section is removed or none is found, there is none afterwards and all others stay. -/
theorem sections_eraseSection? (d : Document) (name : Text) :
    ((d.eraseSection? name).getD d).sections = d.sections.erase name.toName := by
  unfold eraseSection? hasSection
  cases hs : d.section? name with
  | none => exact (OrderedMap.erase_eq_self _ hs).symm
  | some s => rfl

theorem ancestors_of_sections_erase (h : d'.sections = d.sections.erase name.toName) (n : Text) :
    d'.ancestors n = (d.ancestors n).takeWhile (fun e => e.1 ≠ name.toName) := by
  rw [ancestors, ancestors, h, ← Sections.path_erase_eq_takeWhile]
  exact Sections.path_eq_path _ _ _ _

theorem normal_of_sections_erase (h : d'.sections = d.sections.erase name.toName)
    (hd : d.Normal) : d'.Normal := by
  rw [Normal, h]
  exact hd.erase _

/-- Removing a section succeeds if there is one. Afterwards every walk consists of what came before
the section, unchanged, and lookups find what that holds. -/
theorem ancestors_of_eraseSection? (hd : d.Reachable) (name : Text) :
    let d' := (d.eraseSection? name).getD d
    (d.eraseSection? name).isSome = (d.section? name).isSome ∧
      (∀ m, d'.sections.get? m = if m = name.toName then none else d.sections.get? m) ∧
      ∀ n, d'.ancestors n = (d.ancestors n).takeWhile (fun e => e.1 ≠ name.toName) ∧
        ∀ key, d'.read? n key =
          ((d.ancestors n).takeWhile (fun e => e.1 ≠ name.toName)).findSome?
            (fun e => e.2.get? key) := by
  intro d'
  have hsections : d'.sections = d.sections.erase name.toName := sections_eraseSection? d name
  refine ⟨isSome_eraseSection? d name, ?_, ?_⟩
  · intro m
    rw [hsections, OrderedMap.get?_erase]
  · intro n
    have hancestors := ancestors_of_sections_erase hsections n
    refine ⟨hancestors, ?_⟩
    intro key
    have hnormal := normal_of_sections_erase hsections hd.normal
    rw [read?_eq_findSome?_of_normal hnormal, hancestors]

/-- In the circle, what `a` has of `k` came from `c`, which is behind the removed `b`. -/
theorem ancestors_of_eraseSection?_circle :
    let d := parse "[a:b]\nj=1\n[b:c]\nj=2\n[c:a]\nk=3\n".toList
    let d' := (d.eraseSection? " B".toList).getD d
    d.Reachable ∧ d.read? "a".toList "k".toList = some "3".toList ∧
      d'.read? "a".toList "k".toList = none ∧
      (d.eraseSection? " B".toList).isSome = (d.section? " B".toList).isSome ∧
      (∀ m, d'.sections.get? m = if m = toName " B".toList then none else d.sections.get? m) ∧
      ∀ n, d'.ancestors n = (d.ancestors n).takeWhile (fun e => e.1 ≠ toName " B".toList) ∧
        ∀ key, d'.read? n key =
          ((d.ancestors n).takeWhile (fun e => e.1 ≠ toName " B".toList)).findSome?
            (fun e => e.2.get? key) := by
  intro d d'
  have hd : d.Reachable := Reachable.parse _
  exact ⟨hd, by decide +kernel, by decide +kernel, ancestors_of_eraseSection? hd " B".toList⟩

/-! ## Removing a value -/

theorem isSome_eraseValue?_iff (d : Document) (name key : Text) :
    (d.eraseValue? name key).isSome = true ↔
      ∃ s, d.section? name = some s ∧ s.contains key = true := by
  constructor
  · intro h
    obtain ⟨d', hd'⟩ := Option.isSome_iff_exists.1 h
    obtain ⟨s, hs, hkey, -⟩ := exists_section_of_eraseValue? hd'
    exact ⟨s, hs, hkey⟩
  · rintro ⟨s, hs, hkey⟩
    simp [eraseValue?, hs, hkey]

/-- What is seen after a value was removed from a section: the section stays, and all others; walks
visit the same sections; the key is seen as if walks passed over the section, and every other key as
before. -/
structure RevealedAfter (d d' : Document) (name key : Text) : Prop where
  erased_section : ∃ s, d.section? name = some s ∧ d'.section? name = some (s.erase key)
  get?_of_other : ∀ m, m ≠ name.toName → d'.sections.get? m = d.sections.get? m
  ancestors_eq : ∀ n, d'.ancestors n =
    (d.ancestors n).map (fun e => if e.1 = name.toName then (e.1, e.2.erase key) else e)
  names_eq : ∀ n, (d'.ancestors n).map Prod.fst = (d.ancestors n).map Prod.fst
  read?_of_key : ∀ n k, k.toName = key.toName → d'.read? n k =
    ((d.ancestors n).filter (fun e => e.1 ≠ name.toName)).findSome? (fun e => e.2.get? key)
  read?_of_other : ∀ n k, k.toName ≠ key.toName → d'.read? n k = d.read? n k

section Accepted

variable (h : d.eraseValue? name key = some d')

include h

theorem ancestors_of_eraseValue? (n : Text) :
    d'.ancestors n =
      (d.ancestors n).map (fun e => if e.1 = name.toName then (e.1, e.2.erase key) else e) := by
  obtain ⟨s, hs, -, hsections⟩ := exists_section_of_eraseValue? h
  have hget : d.sections.get? name.toName = some s := hs
  have hrerouted : Sections.Rerouted name.toName (some s) (s.erase key) (d.ancestors n)
      (d'.ancestors n) := by
    rw [ancestors, ancestors, hsections, Sections.path_eq_path d.sections, ← hget]
    exact Sections.rerouted_insert (by rw [hget]; rfl) n.toName
  rw [hrerouted.eq_map (Sections.nodup_path _ _)]
  refine List.map_congr_left fun e he => ?_
  split
  · rename_i htarget
    have hcontent : d.sections.get? e.1 = some e.2 := Sections.get?_of_mem_path he
    rw [htarget, hget] at hcontent
    cases hcontent
    rw [htarget]
  · rfl

theorem revealedAfter_of_eraseValue? (hd : d.Normal) (hd' : d'.Normal) :
    d.RevealedAfter d' name key where
  erased_section := by
    obtain ⟨s, hs, -, hsections⟩ := exists_section_of_eraseValue? h
    refine ⟨s, hs, ?_⟩
    rw [section?, hsections, OrderedMap.get?_insert_self]
  get?_of_other m hm := by
    obtain ⟨s, -, -, hsections⟩ := exists_section_of_eraseValue? h
    rw [hsections, OrderedMap.get?_insert_of_ne _ hm]
  ancestors_eq := ancestors_of_eraseValue? h
  names_eq n := by
    rw [ancestors_of_eraseValue? h n, List.map_map]
    refine List.map_congr_left fun e _ => ?_
    rw [Function.comp_apply]
    split <;> rfl
  read?_of_key n k hk := by
    rw [d'.read?_congr n hk, read?_eq_findSome?_of_normal hd', ancestors_of_eraseValue? h n,
      List.findSome?_map, findSome?_filter]
    congr 1
    funext e
    by_cases htarget : e.1 = name.toName
    · simp [htarget, Section.get?_erase]
    · simp [htarget]
  read?_of_other n k hk := by
    rw [read?_eq_findSome?_of_normal hd', read?_eq_findSome?_of_normal hd,
      ancestors_of_eraseValue? h n, List.findSome?_map]
    congr 1
    funext e
    rw [Function.comp_apply]
    split
    · rw [Section.get?_erase, if_neg hk]
    · rfl

end Accepted

/-- Removing a value succeeds if the section itself holds it. If it fails, nothing changes, and
otherwise the next section that holds the key is found where that one was. -/
theorem reads_of_eraseValue? (hd : d.Reachable) (name key : Text) :
    let d' := (d.eraseValue? name key).getD d
    ((d.eraseValue? name key).isSome = true ↔
        ∃ s, d.section? name = some s ∧ s.contains key = true) ∧
      ((d.eraseValue? name key).isSome = false → d' = d) ∧
      ((d.eraseValue? name key).isSome = true → d.RevealedAfter d' name key) := by
  intro d'
  refine ⟨isSome_eraseValue?_iff d name key, ?_, ?_⟩
  · intro hrefused
    show (d.eraseValue? name key).getD d = d
    rw [Option.isSome_eq_false_iff, Option.isNone_iff_eq_none] at hrefused
    rw [hrefused, Option.getD_none]
  · intro haccepted
    obtain ⟨after, hafter⟩ := Option.isSome_iff_exists.1 haccepted
    have hd' : d' = after := by
      show (d.eraseValue? name key).getD d = after
      rw [hafter, Option.getD_some]
    rw [hd']
    exact revealedAfter_of_eraseValue? hafter hd.normal (hd.change (.eraseValue hafter)).normal

/-- The walk from `a` comes to `b`, which is left without values, and goes on to `c`. -/
theorem reads_of_eraseValue?_circle :
    let d := parse "[a:b]\nj=1\n[b:c]\nk=2\n[c:a]\nk=3\n".toList
    let d' := (d.eraseValue? "B".toList " K".toList).getD d
    d.Reachable ∧ d.read? "a".toList "k".toList = some "2".toList ∧
      d'.read? "a".toList "k".toList = some "3".toList ∧
      ((d.eraseValue? "B".toList " K".toList).isSome = true ↔
        ∃ s, d.section? "B".toList = some s ∧ s.contains " K".toList = true) ∧
      ((d.eraseValue? "B".toList " K".toList).isSome = false → d' = d) ∧
      ((d.eraseValue? "B".toList " K".toList).isSome = true →
        d.RevealedAfter d' "B".toList " K".toList) := by
  intro d d'
  have hd : d.Reachable := Reachable.parse _
  exact ⟨hd, by decide +kernel, by decide +kernel, reads_of_eraseValue? hd "B".toList " K".toList⟩

end Document

end Lineage
