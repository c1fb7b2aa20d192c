import Lineage.Proofs.NormalForm
import Lineage.Proofs.Walks
import Mathlib.Data.List.Sort

/-!
# The ways to look up a value agree

One key is looked up by a walk that ends at the first section that holds it, the keys of a section
are the union of the keys along the whole walk, and its values are those of the union of the maps
along it. The keys are those of the values (`resolvedKeys_eq_keys`), in every document. That a
looked up key is among them whenever there is a value needs that stored keys are names
(`isName_of_mem_resolvedKeys`): a key that is empty, or that is not its own name, would be listed
but never found. So the three agree in every document that can be reached (`lookups_agree`).
-/

namespace Lineage

theorem KeyOrder.eq_of_mem_iff {κ : Type} [LT κ] [KeyOrder κ] {ks js : List κ}
    (hks : ks.Pairwise (· < ·)) (hjs : js.Pairwise (· < ·)) (h : ∀ k, k ∈ ks ↔ k ∈ js) :
    ks = js := by
  have : Std.Irrefl (α := κ) (· < ·) := ⟨irrefl⟩
  have : Std.Antisymm (α := κ) (· < ·) :=
    ⟨fun a _ hab hba => absurd (trans hab hba) (irrefl a)⟩
  exact hks.eq_of_mem_iff hjs h

namespace Document

open Text

theorem mem_resolvedKeys_iff_contains (d : Document) (name : Text) {key : Text} :
    key ∈ d.resolvedKeys name ↔ (d.resolved name).contains key = true := by
  rw [mem_resolvedKeys_iff, OrderedMap.contains, get?_resolved, List.findSome?_isSome_iff]
  constructor
  · rintro ⟨e, he, hkey⟩
    exact ⟨e, he, (OrderedMap.mem_keys_iff _).1 hkey⟩
  · rintro ⟨e, he, hkey⟩
    exact ⟨e, he, (OrderedMap.mem_keys_iff _).2 hkey⟩

theorem resolvedKeys_eq_keys (d : Document) (name : Text) :
    d.resolvedKeys name = (d.resolved name).keys := by
  apply KeyOrder.eq_of_mem_iff (d.pairwise_resolvedKeys name) (d.resolved name).pairwise_keys
  intro k
  rw [mem_resolvedKeys_iff_contains, OrderedMap.mem_keys_iff]

theorem isName_of_mem_resolvedKeys {d : Document} (hd : d.Normal) {name key : Text}
    (h : key ∈ d.resolvedKeys name) : IsName key := by
  rw [mem_resolvedKeys_iff_contains, OrderedMap.contains, Option.isSome_iff_exists] at h
  obtain ⟨value, hvalue⟩ := h
  obtain ⟨n, s, hs, hown⟩ := exists_own_of_get?_resolved hvalue
  exact (hd n s hs).key_isName key value hown

theorem isSome_read?_iff {d : Document} (hd : d.Normal) (name key : Text) :
    (d.read? name key).isSome = true ↔ key.toName ∈ d.resolvedKeys name := by
  by_cases hkey : key.toName = []
  · have hnot : key.toName ∉ d.resolvedKeys name := by
      intro hmem
      exact (isName_of_mem_resolvedKeys hd hmem).1 hkey
    simp [read?, hkey, hkey ▸ hnot]
  · rw [read?_eq_get?_resolved d name hkey, mem_resolvedKeys_iff_contains]
    rfl

theorem read?_of_mem_resolved {d : Document} (hd : d.Normal) {name : Text} {e : Entry}
    (he : e ∈ (d.resolved name).entries) : d.read? name e.1 = some e.2 := by
  have hmem : e.1 ∈ d.resolvedKeys name := by
    rw [resolvedKeys_eq_keys]
    exact List.mem_map_of_mem he
  obtain ⟨hne, hname⟩ := isName_of_mem_resolvedKeys hd hmem
  have hkey : toName e.1 ≠ [] := by rwa [hname]
  rw [read?_eq_get?_resolved d name hkey, hname]
  exact (OrderedMap.mem_entries_iff _).1 he

/-- A key has a value exactly if it is listed, keys are listed in order, and the values are those
that the listed keys have, in their order. -/
theorem lookups_agree {d : Document} (hd : d.Reachable) (name key : Text) :
    ((d.read? name key).isSome = true ↔ key.toName ∈ d.resolvedKeys name) ∧
      (d.resolvedKeys name).Pairwise (· < ·) ∧
      (d.resolved name).entries.map (fun e => (e.1, some e.2)) =
        (d.resolvedKeys name).map (fun k => (k, d.read? name k)) := by
  refine ⟨isSome_read?_iff hd.normal name key, d.pairwise_resolvedKeys name, ?_⟩
  rw [resolvedKeys_eq_keys, OrderedMap.keys, List.map_map]
  refine List.map_congr_left fun e he => ?_
  rw [Function.comp_apply, read?_of_mem_resolved hd.normal he]

/-- In the circle the empty value of `a` hides that of `b`. -/
theorem lookups_agree_circle :
    let d := parse "[a:b]\nk=\n[b:a]\nk=1\nJ=2\n".toList
    d.Reachable ∧
      ((d.read? "A".toList " j ".toList).isSome = true ↔
        toName " j ".toList ∈ d.resolvedKeys "A".toList) ∧
      (d.resolvedKeys "A".toList).Pairwise (· < ·) ∧
      (d.resolved "A".toList).entries.map (fun e => (e.1, some e.2)) =
        (d.resolvedKeys "A".toList).map (fun k => (k, d.read? "A".toList k)) := by
  intro d
  have hd : d.Reachable := Reachable.parse _
  exact ⟨hd, lookups_agree hd "A".toList " j ".toList⟩

end Document

end Lineage
