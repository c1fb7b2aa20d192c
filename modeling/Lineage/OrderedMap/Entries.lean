import Lineage.KeyOrder

/-!
# Entries in key order

Lists of entries whose keys are in strictly ascending order, so that no key occurs twice.

* `lookup_insertEntry`, `lookup_filter_key_ne`: what inserting and erasing do to every lookup.
* `sorted_insertEntry`: inserting keeps the order.
* `lookup_eq_some_iff`: the entries are what lookups find.
* `eq_of_mem_iff`: a list is determined by its entries.
-/

namespace Lineage.OrderedMap

variable {κ υ : Type} [LT κ] [KeyOrder κ]

theorem lookup_eq_none_of_forall_lt [DecidableEq κ] {es : List (κ × υ)} {k : κ}
    (h : ∀ e ∈ es, k < e.1) : es.lookup k = none := by
  induction es with
  | nil => rfl
  | cons e rest ih =>
    have hne : k ≠ e.1 := fun hk => KeyOrder.irrefl e.1 (hk ▸ h e List.mem_cons_self)
    rw [List.lookup_cons, beq_false_of_ne hne]
    exact ih (fun e he => h e (List.mem_cons_of_mem _ he))

theorem lookup_eq_some_iff [DecidableEq κ] {es : List (κ × υ)}
    (h : es.Pairwise (fun a b => a.1 < b.1)) {k : κ} {v : υ} :
    es.lookup k = some v ↔ (k, v) ∈ es := by
  induction es with
  | nil => simp
  | cons e rest ih =>
    obtain ⟨a, b⟩ := e
    have ⟨ha, hrest⟩ := List.pairwise_cons.1 h
    rw [List.lookup_cons]
    by_cases hka : k = a
    · subst hka
      have hnot : ∀ w, (k, w) ∉ rest := fun w hw => KeyOrder.irrefl k (ha _ hw)
      simp [hnot, eq_comm]
    · simp [beq_false_of_ne hka, ih hrest, hka]

theorem eq_of_mem_iff {es fs : List (κ × υ)}
    (hes : es.Pairwise (fun a b => a.1 < b.1)) (hfs : fs.Pairwise (fun a b => a.1 < b.1))
    (hmem : ∀ e, e ∈ es ↔ e ∈ fs) : es = fs := by
  induction es generalizing fs with
  | nil => cases fs with
    | nil => rfl
    | cons b _ => exact absurd ((hmem b).2 List.mem_cons_self) (by simp)
  | cons a es ih => cases fs with
    | nil => exact absurd ((hmem a).1 List.mem_cons_self) (by simp)
    | cons b fs =>
      have ⟨ha, hes'⟩ := List.pairwise_cons.1 hes
      have ⟨hb, hfs'⟩ := List.pairwise_cons.1 hfs
      have hab : a = b := by
        rcases List.mem_cons.1 ((hmem a).1 List.mem_cons_self) with h | h
        · exact h
        · rcases List.mem_cons.1 ((hmem b).2 List.mem_cons_self) with h' | h'
          · exact h'.symm
          · exact absurd (KeyOrder.trans (hb a h) (ha b h')) (KeyOrder.irrefl b.1)
      subst hab
      refine congrArg (a :: ·) (ih hes' hfs' fun e => ?_)
      have he := hmem e
      simp only [List.mem_cons] at he
      constructor
      · intro hm
        rcases he.1 (.inr hm) with rfl | hn
        · exact absurd (ha e hm) (KeyOrder.irrefl e.1)
        · exact hn
      · intro hn
        rcases he.2 (.inr hn) with rfl | hm
        · exact absurd (hb e hn) (KeyOrder.irrefl e.1)
        · exact hm

/-! ## Insertion -/

/-- The entry list with `k` bound to `v`, in its place among ascending keys. -/
def insertEntry (k : κ) (v : υ) : List (κ × υ) → List (κ × υ)
  | [] => [(k, v)]
  | e :: rest =>
    if k < e.1 then (k, v) :: e :: rest
    else if e.1 < k then e :: insertEntry k v rest
    else (k, v) :: rest

theorem mem_insertEntry {k : κ} {v : υ} {es : List (κ × υ)} {e : κ × υ}
    (h : e ∈ insertEntry k v es) : e = (k, v) ∨ e ∈ es := by
  induction es with
  | nil => simpa [insertEntry] using h
  | cons a rest ih =>
    unfold insertEntry at h
    split at h
    · simpa using h
    · split at h
      · rcases List.mem_cons.1 h with h | h
        · exact .inr (by simp [h])
        · exact (ih h).imp id (List.mem_cons_of_mem _)
      · rcases List.mem_cons.1 h with h | h
        · exact .inl h
        · exact .inr (List.mem_cons_of_mem _ h)

theorem sorted_insertEntry (k : κ) (v : υ) {es : List (κ × υ)}
    (h : es.Pairwise (fun a b => a.1 < b.1)) :
    (insertEntry k v es).Pairwise (fun a b => a.1 < b.1) := by
  induction es with
  | nil => simp [insertEntry]
  | cons a rest ih =>
    have ⟨ha, hrest⟩ := List.pairwise_cons.1 h
    unfold insertEntry
    split
    · rename_i hlt
      refine List.pairwise_cons.2 ⟨fun b hb => ?_, h⟩
      rcases List.mem_cons.1 hb with rfl | hb
      · exact hlt
      · exact KeyOrder.trans hlt (ha b hb)
    · split
      · rename_i hlt
        refine List.pairwise_cons.2 ⟨fun b hb => ?_, ih hrest⟩
        rcases mem_insertEntry hb with rfl | hb
        · exact hlt
        · exact ha b hb
      · rename_i h₁ h₂
        have hk : k = a.1 := KeyOrder.eq_of_not_lt h₁ h₂
        exact List.pairwise_cons.2 ⟨fun b hb => hk ▸ ha b hb, hrest⟩

theorem lookup_insertEntry [DecidableEq κ] (es : List (κ × υ)) (k j : κ) (v : υ) :
    (insertEntry k v es).lookup j = if j = k then some v else es.lookup j := by
  induction es with
  | nil =>
    by_cases h : j = k
    · simp [insertEntry, h]
    · simp [insertEntry, List.lookup_cons, h, beq_false_of_ne h]
  | cons e rest ih =>
    obtain ⟨a, b⟩ := e
    unfold insertEntry
    simp only
    split
    · by_cases h : j = k
      · simp [h]
      · simp [List.lookup_cons, h, beq_false_of_ne h]
    · split
      · rename_i hlt
        rw [List.lookup_cons, List.lookup_cons, ih]
        by_cases hja : j = a
        · have hne : a ≠ k := fun h => KeyOrder.irrefl k (h ▸ hlt)
          simp [hja, hne]
        · simp [beq_false_of_ne hja]
      · rename_i h₁ h₂
        have hka : k = a := KeyOrder.eq_of_not_lt h₁ h₂
        subst hka
        by_cases h : j = k
        · simp [h]
        · simp [List.lookup_cons, h, beq_false_of_ne h]

omit [LT κ] [KeyOrder κ] in
theorem lookup_filter_key_ne [DecidableEq κ] (es : List (κ × υ)) (k j : κ) :
    (es.filter (fun e => e.1 ≠ k)).lookup j = if j = k then none else es.lookup j := by
  induction es with
  | nil => simp
  | cons e rest ih =>
    obtain ⟨a, b⟩ := e
    by_cases hak : a = k
    · subst hak
      rw [List.filter_cons_of_neg (by simp), ih, List.lookup_cons]
      split
      · rfl
      · rename_i hj
        simp [beq_false_of_ne hj]
    · rw [List.filter_cons_of_pos (by simpa using hak), List.lookup_cons, List.lookup_cons, ih]
      by_cases hja : j = a
      · simp [hja, hak]
      · simp [beq_false_of_ne hja]

end Lineage.OrderedMap
