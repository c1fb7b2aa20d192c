import Lineage.Proofs.NormalForm
import Lineage.Proofs.Walks

/-!
# A section has what it holds itself and what its parent has

The walk that looks for a value from a section and the walk that looks for it from the parent keep
different sections out. They still agree: the ancestors of the parent are those of the section
without the section itself, which may come once more at the end, where it adds nothing
(`ancestors_of_parent`). So a section has its own values and those that its parent has, whatever
circle either walk runs into (`inheritance_equation`).
-/

namespace Lineage.Document

open Text

theorem ancestors_of_missing {d : Document} {name : Text} (h : d.section? name = none) :
    d.ancestors name = [] :=
  Sections.path_of_missing h

theorem ancestors_of_root {d : Document} {name : Text} {s : Section}
    (hs : d.section? name = some s) (hp : s.parent = none) :
    d.ancestors name = [(name.toName, s)] :=
  Sections.path_of_root hs hp

theorem ancestors_of_parent {d : Document} (hd : d.Normal) {name parent : Text} {s : Section}
    (hs : d.section? name = some s) (hp : s.parent = some parent) :
    ∃ rest, d.ancestors name = (name.toName, s) :: rest ∧
      (d.ancestors parent = rest ∨ d.ancestors parent = rest ++ [(name.toName, s)]) := by
  obtain ⟨-, hparent⟩ := (hd _ _ hs).parent_isName parent hp
  refine ⟨d.sections.path (d.sections.erase name.toName) parent, Sections.path_of_step hs hp, ?_⟩
  rw [ancestors, hparent]
  exact Sections.path_erase hs hp (Or.inr rfl)

theorem read?_of_parent {d : Document} (hd : d.Normal) {name key : Text} (hkey : key.toName ≠ [])
    {s : Section} (hs : d.section? name = some s) (hown : s.get? key = none) :
    d.read? name key = s.parent.bind (fun p => d.read? p key) := by
  cases hp : s.parent with
  | none =>
    rw [read?_eq_findSome? d name hkey, ancestors_of_root hs hp]
    simp [hown]
  | some parent =>
    obtain ⟨rest, hname, hparent⟩ := ancestors_of_parent hd hs hp
    rw [Option.bind_some, read?_eq_findSome? d name hkey, read?_eq_findSome? d parent hkey, hname]
    rcases hparent with h | h
    · simp [h, hown]
    · simp [h, hown, List.findSome?_append]

theorem mem_resolvedKeys_of_parent {d : Document} (hd : d.Normal) {name key : Text} {s : Section}
    (hs : d.section? name = some s) :
    key ∈ d.resolvedKeys name ↔
      key ∈ s.keys ∨ ∃ p, s.parent = some p ∧ key ∈ d.resolvedKeys p := by
  cases hp : s.parent with
  | none =>
    rw [mem_resolvedKeys_iff, ancestors_of_root hs hp]
    simp
  | some parent =>
    obtain ⟨rest, hname, hparent⟩ := ancestors_of_parent hd hs hp
    have hiff : (∃ p, some parent = some p ∧ key ∈ d.resolvedKeys p) ↔
        key ∈ d.resolvedKeys parent :=
      ⟨fun ⟨_, h, hkey⟩ => Option.some.inj h ▸ hkey, fun h => ⟨parent, rfl, h⟩⟩
    rw [hiff, mem_resolvedKeys_iff, mem_resolvedKeys_iff, hname]
    rcases hparent with h | h
    · rw [h]
      simp
    · rw [h]
      simp only [List.mem_cons, List.mem_append, List.not_mem_nil, or_false]
      constructor
      · rintro ⟨e, rfl | he, hkey⟩
        · exact Or.inl hkey
        · exact Or.inr ⟨e, Or.inl he, hkey⟩
      · rintro (hkey | ⟨e, he | rfl, hkey⟩)
        · exact ⟨_, Or.inl rfl, hkey⟩
        · exact ⟨e, Or.inr he, hkey⟩
        · exact ⟨_, Or.inl rfl, hkey⟩

/-- What a section has, in terms of what it holds and what its parent has. A missing section has
nothing; the section's own value counts even if it is empty. -/
theorem inheritance_equation {d : Document} (hd : d.Reachable) (name key : Text)
    (hkey : key.toName ≠ []) :
    (d.section? name = none → d.read? name key = none) ∧
      (∀ s value, d.section? name = some s → s.get? key = some value →
        d.read? name key = some value) ∧
      (∀ s, d.section? name = some s → s.get? key = none →
        d.read? name key = (d.parent? name).bind (fun p => d.read? p key)) ∧
      (d.resolvedKeys name).Pairwise (· < ·) ∧
      ∀ k, k ∈ d.resolvedKeys name ↔
        (∃ s, d.section? name = some s ∧ k ∈ s.keys) ∨
          ∃ p, d.parent? name = some p ∧ k ∈ d.resolvedKeys p := by
  refine ⟨fun hs => ?_, fun s value hs hown => ?_, fun s hs hown => ?_,
    d.pairwise_resolvedKeys name, fun k => ?_⟩
  · rw [read?_eq_findSome? d name hkey, ancestors_of_missing hs]
    rfl
  · rw [read?_eq_findSome? d name hkey]
    cases hp : s.parent with
    | none =>
      rw [ancestors_of_root hs hp]
      simp [hown]
    | some parent =>
      obtain ⟨rest, hname, -⟩ := ancestors_of_parent hd.normal hs hp
      rw [hname]
      simp [hown]
  · rw [parent?, hs, Option.bind_some]
    exact read?_of_parent hd.normal hkey hs hown
  · rw [parent?]
    cases hs : d.section? name with
    | none =>
      rw [mem_resolvedKeys_iff, ancestors_of_missing hs]
      simp
    | some s =>
      rw [mem_resolvedKeys_of_parent hd.normal hs]
      simp

/-- From `a` the walk runs into a circle that does not come back to `a`. -/
theorem inheritance_equation_circle :
    let d := parse "[a:b]\nj=\n[b:c]\n[c:b]\nk=1\nj=2\n".toList
    d.Reachable ∧ toName "K".toList ≠ [] ∧
      (d.section? "a".toList = none → d.read? "a".toList "K".toList = none) ∧
      (∀ s value, d.section? "a".toList = some s → s.get? "K".toList = some value →
        d.read? "a".toList "K".toList = some value) ∧
      (∀ s, d.section? "a".toList = some s → s.get? "K".toList = none →
        d.read? "a".toList "K".toList =
          (d.parent? "a".toList).bind (fun p => d.read? p "K".toList)) ∧
      (d.resolvedKeys "a".toList).Pairwise (· < ·) ∧
      ∀ k, k ∈ d.resolvedKeys "a".toList ↔
        (∃ s, d.section? "a".toList = some s ∧ k ∈ s.keys) ∨
          ∃ p, d.parent? "a".toList = some p ∧ k ∈ d.resolvedKeys p := by
  intro d
  have hd : d.Reachable := Reachable.parse _
  have hkey : toName "K".toList ≠ [] := by decide +kernel
  exact ⟨hd, hkey, inheritance_equation hd "a".toList "K".toList hkey⟩

end Lineage.Document
