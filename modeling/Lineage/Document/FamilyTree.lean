import Lineage.Document.Ancestry

/-!
# Family trees

The walk along parents from every section of a document. Where a parent stands among the sections
is found once for all walks, so that a walk looks up no name but its first.

* `lineage_familyTree`: the ancestors found in a family tree are those of the document.
-/

namespace Lineage

/-- The sections of a document, with the place of the parent of the section at each place. -/
structure FamilyTree where
  sections : Sections
  parents : Array (Option Nat)

/-- Finds the parents of all sections. -/
def Sections.familyTree (s : Sections) : FamilyTree where
  sections := s
  parents := s.array.map (fun e => e.2.parent.bind s.position?)

namespace FamilyTree

/-- At most `n` visits from the section at a place on, where `visited` tells for each place whether
it was visited before. -/
def walk (t : FamilyTree) : Nat → Array Bool → Nat → List Visit
  | 0, _, _ => []
  | n + 1, visited, i =>
    match t.sections.array[i]? with
    | none => []
    | some (name, content) =>
      let visited := visited.setIfInBounds i true
      match t.parents[i]?.join with
      | none => [{ name, content }]
      | some j =>
        if visited[j]? = some true then [{ name, content, metAgain := content.parent }]
        else { name, content } :: walk t n visited j

/-- The ancestors of a section, the section first. -/
def lineage (t : FamilyTree) (name : Text) : List Visit :=
  match t.sections.position? name.toName with
  | some i => t.walk t.sections.size (Array.replicate t.sections.size false) i
  | none => []

/-! ## Agreement with the walk by names -/

/-- `visited` marks the places of the sections of `all` that are not in `rest`. -/
structure Marks (all rest : Sections) (visited : Array Bool) : Prop where
  size_eq : visited.size = all.array.size
  get?_of_none {k : Text} : all.get? k = none → rest.get? k = none
  get?_key {j : Nat} (hj : j < all.array.size) :
    rest.get? all.array[j].1 = if visited[j]? = some true then none else some all.array[j].2

theorem Marks.replicate (all : Sections) : Marks all all (Array.replicate all.size false) where
  size_eq := Array.size_replicate
  get?_of_none := id
  get?_key {j} hj := by
    rw [if_neg, all.get?_key hj]
    rw [Array.getElem?_replicate]
    split <;> simp

theorem Marks.set {all rest : Sections} {visited : Array Bool} (h : Marks all rest visited)
    {i : Nat} (hi : i < all.array.size) :
    Marks all (rest.erase all.array[i].1) (visited.setIfInBounds i true) where
  size_eq := by rw [Array.size_setIfInBounds, h.size_eq]
  get?_of_none hk := by
    rw [OrderedMap.get?_erase, h.get?_of_none hk, ite_self]
  get?_key {j} hj := by
    rw [OrderedMap.get?_erase, h.get?_key hj, Array.getElem?_setIfInBounds]
    by_cases hij : i = j
    · subst hij
      simp [h.size_eq, hi]
    · rw [if_neg hij, if_neg fun hk => hij (OrderedMap.key_inj hi hj hk.symm)]

theorem join_parents (all : Sections) {i : Nat} (hi : i < all.array.size) :
    all.familyTree.parents[i]?.join = all.array[i].2.parent.bind all.position? := by
  simp [Sections.familyTree, hi]

theorem walk_eq {all : Sections} (n : Nat) {rest : Sections} {visited : Array Bool} {i : Nat}
    (h : Marks all rest visited) (hi : i < all.array.size) (hv : ¬ visited[i]? = some true)
    (hn : rest.size ≤ n) :
    all.familyTree.walk n visited i = all.walk rest all.array[i].1 := by
  have hget : rest.get? all.array[i].1 = some all.array[i].2 := by
    rw [h.get?_key hi, if_neg hv]
  have hlt := OrderedMap.size_erase_lt hget
  induction n generalizing rest visited i with
  | zero => omega
  | succ n ih =>
    have hset := h.set hi
    rw [Sections.walk_eq_cons all hget, walk, join_parents all hi]
    have hi' : all.familyTree.sections.array[i]? = some all.array[i] :=
      Array.getElem?_eq_getElem hi
    rw [hi']
    cases hp : all.array[i].2.parent with
    | none => rfl
    | some p =>
      cases hj : all.position? p with
      | none =>
        have hnone := OrderedMap.position?_eq_none_iff.1 hj
        simp [hj, all.walk_eq_nil (hset.get?_of_none hnone), OrderedMap.contains, hnone,
          Option.filter_some]
      | some j =>
        obtain ⟨hjlt, hkey⟩ := OrderedMap.key_of_position?_eq_some hj
        have hall := all.get?_key hjlt
        have hrest := hset.get?_key hjlt
        rw [hkey] at hall hrest
        by_cases hvj : (visited.setIfInBounds i true)[j]? = some true
        · rw [if_pos hvj] at hrest
          simp [hj, hvj, hp, all.walk_eq_nil hrest, OrderedMap.contains, hall, hrest,
            Option.filter_some]
        · have hrest' := hrest
          rw [if_neg hvj] at hrest'
          have := ih hset hjlt hvj (by omega)
            (by rw [hkey]; exact hrest') (by rw [hkey]; exact OrderedMap.size_erase_lt hrest')
          rw [hkey] at this
          simp [hj, hvj, OrderedMap.contains, hall, hrest', this, Option.filter_some]

end FamilyTree

/-- The ancestors found in a family tree are those of the document. -/
theorem lineage_familyTree (d : Document) : d.sections.familyTree.lineage = d.lineage := by
  funext name
  unfold FamilyTree.lineage Document.lineage
  have hsections : d.sections.familyTree.sections = d.sections := rfl
  rw [hsections]
  cases hi : d.sections.position? name.toName with
  | none =>
    exact (d.sections.walk_eq_nil (OrderedMap.position?_eq_none_iff.1 hi)).symm
  | some i =>
    obtain ⟨hlt, hkey⟩ := OrderedMap.key_of_position?_eq_some hi
    have := FamilyTree.walk_eq d.sections.size (FamilyTree.Marks.replicate d.sections) hlt
      (by simp [Array.getElem?_replicate]) (Nat.le_refl _)
    rw [hkey] at this
    exact this

end Lineage
