import Lineage.OrderedMap

/-!
# More on ordered maps

The part of a map that a test accepts, and maps as the lists that build them.

* `get?_filter`, `get?_map`: what both do to every lookup.
* `map_entries_filter_map_filter`: maps made by picking and changing entries, as lists.
* `get?_foldl_insert`: what inserting entries in key order one after another does to every lookup.
* `ofList_entries`, `entries_ofList`: the map that the entries of a map build is the map itself, and
  pairs in key order are the entries of the map that they build.
* `size_insert`: how many entries there are after inserting one.
* `eq_or_get?_of_get?_insert`, `get?_of_get?_erase`: where a value that is found after a change came
  from.
* `erase_eq_self`: erasing a key that is not there changes nothing.
* `insert_insert`, `insert_comm`, `erase_insert_self`, `erase_insert_of_ne`: changes of one key one
  after another, and of two keys in either order.
-/

namespace Lineage.OrderedMap

variable {κ υ : Type} [LT κ]

/-- The entries that a test accepts. -/
def filter (p : κ → υ → Bool) (m : OrderedMap κ υ) : OrderedMap κ υ :=
  ⟨m.array.filter (fun e => p e.1 e.2), by
    rw [Array.toList_filter]
    exact m.sorted.filter _⟩

theorem entries_filter (p : κ → υ → Bool) (m : OrderedMap κ υ) :
    (m.filter p).entries = m.entries.filter (fun e => p e.1 e.2) :=
  Array.toList_filter

theorem entries_map {ω : Type} (f : κ → υ → ω) (m : OrderedMap κ υ) :
    (m.map f).entries = m.entries.map (fun e => (e.1, f e.1 e.2)) :=
  Array.toList_map

theorem pairwise_keys (m : OrderedMap κ υ) : m.keys.Pairwise (· < ·) :=
  List.pairwise_map.2 m.sorted_entries

theorem isEmpty_iff (m : OrderedMap κ υ) : m.isEmpty = true ↔ m.entries = [] := by
  rw [isEmpty, Array.isEmpty_iff, entries, Array.toList_eq_nil_iff]

/-- Picking entries, changing their values and picking again, in one pass over the entries. -/
theorem map_entries_filter_map_filter {ω β : Type} (p : κ → υ → Bool) (f : κ → υ → ω)
    (q : κ → ω → Bool) (g : κ × ω → β) (m : OrderedMap κ υ) :
    (((m.filter p).map f).filter q).entries.map g =
      m.entries.filterMap (fun e =>
        if p e.1 e.2 = true ∧ q e.1 (f e.1 e.2) = true then some (g (e.1, f e.1 e.2)) else none) := by
  rw [entries_filter, entries_map, entries_filter]
  induction m.entries with
  | nil => rfl
  | cons e es ih =>
    by_cases hp : p e.1 e.2 = true
    · by_cases hq : q e.1 (f e.1 e.2) = true
      · simp [hp, hq, ih]
      · simp [hp, hq, ih]
    · simp [hp, ih]

section Lookups

variable [DecidableEq κ] [KeyOrder κ]

theorem get?_filter (p : κ → υ → Bool) (m : OrderedMap κ υ) (k : κ) :
    (m.filter p).get? k = (m.get? k).filter (p k) := by
  refine Option.ext fun v => ?_
  rw [← mem_entries_iff, entries_filter, List.mem_filter, mem_entries_iff,
    Option.filter_eq_some_iff]

theorem get?_map {ω : Type} (f : κ → υ → ω) (m : OrderedMap κ υ) (k : κ) :
    (m.map f).get? k = (m.get? k).map (f k) := by
  refine Option.ext fun w => ?_
  rw [← mem_entries_iff, entries_map, List.mem_map, Option.map_eq_some_iff]
  constructor
  · rintro ⟨⟨j, v⟩, he, heq⟩
    cases heq
    exact ⟨v, (mem_entries_iff m).1 he, rfl⟩
  · rintro ⟨v, hv, rfl⟩
    exact ⟨(k, v), (mem_entries_iff m).2 hv, rfl⟩

theorem get?_foldl_insert {es : List (κ × υ)} (hs : es.Pairwise (fun a b => a.1 < b.1))
    (m : OrderedMap κ υ) (k : κ) :
    (es.foldl (fun m e => m.insert e.1 e.2) m).get? k = (es.lookup k).or (m.get? k) := by
  induction es generalizing m with
  | nil => rfl
  | cons e rest ih =>
    obtain ⟨he, hrest⟩ := List.pairwise_cons.1 hs
    rw [List.foldl_cons, ih hrest, get?_insert, lookup_cons_eq]
    by_cases hk : k = e.1
    · have hnone : rest.lookup k = none :=
        lookup_eq_none_of_forall_lt fun f hf => hk ▸ he f hf
      rw [if_pos hk, if_pos hk, hnone]
      rfl
    · rw [if_neg hk, if_neg hk]

theorem ofList_entries (m : OrderedMap κ υ) : ofList m.entries = m := by
  refine ext_get? fun k => ?_
  rw [ofList, get?_foldl_insert m.sorted_entries, get?_empty, Option.or_none, ← get?_eq_lookup]

theorem entries_ofList {es : List (κ × υ)} (hs : es.Pairwise (fun a b => a.1 < b.1)) :
    (ofList es).entries = es :=
  congrArg entries (ofList_entries ⟨es.toArray, hs⟩)

theorem get?_ofList {es : List (κ × υ)} (hs : es.Pairwise (fun a b => a.1 < b.1)) (k : κ) :
    (ofList es).get? k = es.lookup k := by
  rw [get?_eq_lookup, entries_ofList hs]

theorem contains_insert (m : OrderedMap κ υ) (k j : κ) (v : υ) :
    (m.insert k v).contains j = (decide (j = k) || m.contains j) := by
  rw [contains, get?_insert, contains]
  by_cases hj : j = k
  · rw [if_pos hj]
    simp [hj]
  · rw [if_neg hj]
    simp [hj]

omit [DecidableEq κ] in
theorem size_insert (m : OrderedMap κ υ) (k : κ) (v : υ) :
    (m.insert k v).size = if m.contains k = true then m.size else m.size + 1 := by
  show (m.insertInto k v).size = _
  unfold insertInto contains get? size
  split
  · split <;> simp
  · simp

theorem eq_or_get?_of_get?_insert {m : OrderedMap κ υ} {j k : κ} {v w : υ}
    (h : (m.insert k v).get? j = some w) : (j = k ∧ w = v) ∨ m.get? j = some w := by
  rw [get?_insert] at h
  split at h
  · rename_i hj
    cases h
    exact Or.inl ⟨hj, rfl⟩
  · exact Or.inr h

theorem get?_of_get?_erase {m : OrderedMap κ υ} {j k : κ} {v : υ}
    (h : (m.erase k).get? j = some v) : m.get? j = some v := by
  rw [get?_erase] at h
  split at h
  · cases h
  · exact h

theorem eq_or_mem_of_mem_insert {m : OrderedMap κ υ} {k : κ} {v : υ} {e : κ × υ}
    (he : e ∈ (m.insert k v).entries) : e = (k, v) ∨ e ∈ m.entries := by
  obtain ⟨j, w⟩ := e
  rcases eq_or_get?_of_get?_insert ((mem_entries_iff _).1 he) with ⟨rfl, rfl⟩ | h
  · exact Or.inl rfl
  · exact Or.inr ((mem_entries_iff m).2 h)

theorem mem_keys_ofList {es : List (κ × υ)} {k : κ} : k ∈ (ofList es).keys ↔ ∃ e ∈ es, e.1 = k := by
  have hfold : ∀ m : OrderedMap κ υ, (es.foldl (fun m e => m.insert e.1 e.2) m).contains k = true ↔
      (∃ e ∈ es, e.1 = k) ∨ m.contains k = true := by
    induction es with
    | nil => simp
    | cons e rest ih =>
      intro m
      rw [List.foldl_cons, ih, contains_insert, Bool.or_eq_true, decide_eq_true_iff]
      constructor
      · rintro (⟨f, hf, rfl⟩ | rfl | hm)
        · exact Or.inl ⟨f, List.mem_cons_of_mem _ hf, rfl⟩
        · exact Or.inl ⟨e, List.mem_cons_self, rfl⟩
        · exact Or.inr hm
      · rintro (⟨f, hf, rfl⟩ | hm)
        · rcases List.mem_cons.1 hf with rfl | hf
          · exact Or.inr (Or.inl rfl)
          · exact Or.inl ⟨f, hf, rfl⟩
        · exact Or.inr (Or.inr hm)
  rw [mem_keys_iff, ofList, hfold]
  simp [contains]

theorem erase_eq_self (m : OrderedMap κ υ) {k : κ} (h : m.get? k = none) : m.erase k = m := by
  refine ext_get? fun j => ?_
  rw [get?_erase]
  split
  · rename_i hj
    rw [hj, h]
  · rfl

theorem insert_insert (m : OrderedMap κ υ) (k : κ) (v w : υ) :
    (m.insert k v).insert k w = m.insert k w := by
  refine ext_get? fun j => ?_
  rw [get?_insert, get?_insert, get?_insert]
  split <;> rfl

theorem insert_comm (m : OrderedMap κ υ) {j k : κ} (h : j ≠ k) (v w : υ) :
    (m.insert j v).insert k w = (m.insert k w).insert j v := by
  refine ext_get? fun i => ?_
  rw [get?_insert, get?_insert, get?_insert, get?_insert]
  by_cases hi : i = j
  · subst hi
    rw [if_neg h, if_pos rfl, if_pos rfl]
  · rw [if_neg hi, if_neg hi]

theorem erase_insert_self (m : OrderedMap κ υ) (k : κ) (v : υ) :
    (m.insert k v).erase k = m.erase k := by
  refine ext_get? fun j => ?_
  rw [get?_erase, get?_erase, get?_insert]
  split <;> rfl

theorem erase_insert_of_ne (m : OrderedMap κ υ) {j k : κ} (h : j ≠ k) (v : υ) :
    (m.insert k v).erase j = (m.erase j).insert k v := by
  refine ext_get? fun i => ?_
  rw [get?_erase, get?_insert, get?_insert, get?_erase]
  by_cases hi : i = j
  · rw [if_pos hi, if_neg (hi ▸ h), if_pos hi]
  · rw [if_neg hi, if_neg hi]

end Lookups

end Lineage.OrderedMap
