import Lineage.OrderedMap.Entries

/-!
# Search among entries in key order

The place of a key is the number of entries before it. It decides what the entries say about the key
and where an entry of it goes, and it is found by halving.

* `lookup_eq`, `insertEntry_eq`, `filter_key_ne_eq`: looking up, inserting and erasing a key need
  nothing but its place.
* `search_eq_place`: halving finds the place.
-/

namespace Lineage.OrderedMap

variable {κ υ : Type} [LT κ] [KeyOrder κ]

/-! ## Places -/

/-- The number of entries before a key. -/
def place (k : κ) (es : List (κ × υ)) : Nat := (es.takeWhile (fun e => e.1 < k)).length

theorem place_cons_of_lt {k : κ} {e : κ × υ} (rest : List (κ × υ)) (h : e.1 < k) :
    place k (e :: rest) = place k rest + 1 := by
  simp [place, h]

theorem place_cons_of_not_lt {k : κ} {e : κ × υ} (rest : List (κ × υ)) (h : ¬ e.1 < k) :
    place k (e :: rest) = 0 := by
  simp [place, h]

theorem place_le (k : κ) (es : List (κ × υ)) : place k es ≤ es.length :=
  (List.takeWhile_sublist _).length_le

theorem getElem_lt_iff {es : List (κ × υ)} (h : es.Pairwise (fun a b => a.1 < b.1)) (k : κ)
    {i : Nat} (hi : i < es.length) : es[i].1 < k ↔ i < place k es := by
  induction es generalizing i with
  | nil => exact absurd hi (Nat.not_lt_zero _)
  | cons e rest ih =>
    have ⟨he, hrest⟩ := List.pairwise_cons.1 h
    by_cases hek : e.1 < k
    · rw [place_cons_of_lt rest hek]
      cases i with
      | zero => simpa using hek
      | succ i =>
        have := ih hrest (Nat.lt_of_succ_lt_succ hi)
        simpa using this
    · rw [place_cons_of_not_lt rest hek]
      cases i with
      | zero => simpa using hek
      | succ i =>
        refine iff_of_false (fun hlt => hek ?_) (Nat.not_lt_zero _)
        exact KeyOrder.trans (he _ (List.getElem_mem (Nat.lt_of_succ_lt_succ hi))) hlt

/-- The entry at the place of a key is the only one that may be of the key. -/
theorem lookup_eq [DecidableEq κ] {es : List (κ × υ)} (h : es.Pairwise (fun a b => a.1 < b.1))
    (k : κ) :
    es.lookup k =
      if hi : place k es < es.length then
        if k < es[place k es].1 then none else some es[place k es].2
      else none := by
  induction es with
  | nil => rfl
  | cons e rest ih =>
    obtain ⟨a, b⟩ := e
    have ⟨he, hrest⟩ := List.pairwise_cons.1 h
    by_cases hek : a < k
    · have hne : k ≠ a := fun hk => KeyOrder.irrefl k (hk ▸ hek)
      have hplace : place k ((a, b) :: rest) = place k rest + 1 := place_cons_of_lt rest hek
      rw [List.lookup_cons, beq_false_of_ne hne]
      simp [hplace, ih hrest]
    · have hplace : place k ((a, b) :: rest) = 0 := place_cons_of_not_lt rest hek
      by_cases hka : a = k
      · subst hka
        simp [hplace, hek]
      · have hlt : k < a := Decidable.byContradiction fun hn =>
          hka (KeyOrder.eq_of_not_lt hek hn)
        rw [lookup_eq_none_of_forall_lt (fun f hf => ?_)]
        · simp [hplace, hlt]
        · rcases List.mem_cons.1 hf with rfl | hf
          · exact hlt
          · exact KeyOrder.trans hlt (he f hf)

/-- A new entry goes to the place of its key, unless there is one of the key already. -/
theorem insertEntry_eq (k : κ) (v : υ) (es : List (κ × υ)) :
    insertEntry k v es =
      if hi : place k es < es.length then
        if k < es[place k es].1 then es.insertIdx (place k es) (k, v)
        else es.set (place k es) (k, v)
      else es ++ [(k, v)] := by
  induction es with
  | nil => rfl
  | cons e rest ih =>
    unfold insertEntry
    by_cases hek : e.1 < k
    · have hke : ¬ k < e.1 := fun hke => KeyOrder.irrefl k (KeyOrder.trans hke hek)
      rw [if_neg hke, if_pos hek, ih]
      simp only [place_cons_of_lt rest hek, List.length_cons, Nat.add_lt_add_iff_right,
        List.getElem_cons_succ, List.insertIdx_succ_cons, List.set_cons_succ, List.cons_append]
      split
      · split <;> rfl
      · rfl
    · rw [if_neg hek]
      simp [place_cons_of_not_lt rest hek]

theorem filter_key_ne_eq [DecidableEq κ] {es : List (κ × υ)}
    (h : es.Pairwise (fun a b => a.1 < b.1)) (k : κ) :
    es.filter (fun e => e.1 ≠ k) =
      if hi : place k es < es.length then
        if k < es[place k es].1 then es else es.eraseIdx (place k es)
      else es := by
  induction es with
  | nil => rfl
  | cons e rest ih =>
    have ⟨he, hrest⟩ := List.pairwise_cons.1 h
    by_cases hek : e.1 < k
    · have hne : e.1 ≠ k := fun hk => KeyOrder.irrefl k (hk ▸ hek)
      rw [List.filter_cons_of_pos (by simpa using hne), ih hrest]
      simp only [place_cons_of_lt rest hek, List.length_cons, Nat.add_lt_add_iff_right,
        List.getElem_cons_succ, List.eraseIdx_cons_succ]
      split
      · split <;> rfl
      · rfl
    · have hall : rest.filter (fun f => f.1 ≠ k) = rest :=
        List.filter_eq_self.2 fun f hf =>
          decide_eq_true fun hfk => hek (hfk ▸ he f hf)
      by_cases hka : e.1 = k
      · rw [List.filter_cons_of_neg (by simpa using hka), hall]
        simp [place_cons_of_not_lt rest hek, hka, KeyOrder.irrefl]
      · have hlt : k < e.1 := Decidable.byContradiction fun hn =>
          hka (KeyOrder.eq_of_not_lt hek hn)
        rw [List.filter_cons_of_pos (by simpa using hka), hall]
        simp [place_cons_of_not_lt rest hek, hlt]

/-! ## Search -/

/-- The place of a key, if it is at least `lo` and at most `hi`. -/
def search (es : Array (κ × υ)) (k : κ) (lo hi : Nat) (h : hi ≤ es.size) : Nat :=
  if hlt : lo < hi then
    if es[(lo + hi) / 2].1 < k then search es k ((lo + hi) / 2 + 1) hi h
    else search es k lo ((lo + hi) / 2) (by omega)
  else lo
termination_by hi - lo

theorem search_eq_place {es : Array (κ × υ)}
    (hs : es.toList.Pairwise (fun a b => a.1 < b.1)) (k : κ) {lo hi : Nat} (h : hi ≤ es.size)
    (hlo : lo ≤ place k es.toList) (hhi : place k es.toList ≤ hi) :
    search es k lo hi h = place k es.toList := by
  fun_induction search es k lo hi h with
  | case1 lo hi h hlt hkey ih =>
    refine ih ?_ hhi
    exact (getElem_lt_iff hs k (by simp; omega)).1 (by rwa [Array.getElem_toList])
  | case2 lo hi h hlt hkey ih =>
    refine ih hlo (Nat.le_of_not_lt fun hp => hkey ?_)
    have := (getElem_lt_iff hs k (by simp; omega)).2 hp
    rwa [Array.getElem_toList] at this
  | case3 lo hi h hlt => omega

end Lineage.OrderedMap
