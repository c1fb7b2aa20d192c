import Lineage.OrderedMap.Entries

/-!
# Unions of entries in key order

Two lists of entries are put together in one pass over both.

* `lookup_unionEntries`: what the union says about every key.
* `sorted_unionEntries`: the union is in order.
* `toList_unionFrom`: the pass over two arrays gives the union of their lists.
-/

namespace Lineage.OrderedMap

variable {κ υ : Type} [LT κ] [KeyOrder κ]

/-- The entries of both lists, where of two entries with one key that of the first list stays. -/
def unionEntries : List (κ × υ) → List (κ × υ) → List (κ × υ)
  | [], fs => fs
  | es, [] => es
  | e :: es, f :: fs =>
    if e.1 < f.1 then e :: unionEntries es (f :: fs)
    else if f.1 < e.1 then f :: unionEntries (e :: es) fs
    else e :: unionEntries es fs
termination_by es fs => es.length + fs.length

@[simp] theorem unionEntries_nil (es : List (κ × υ)) : unionEntries es [] = es := by
  cases es <;> simp [unionEntries]

theorem mem_unionEntries {es fs : List (κ × υ)} {x : κ × υ} (h : x ∈ unionEntries es fs) :
    x ∈ es ∨ x ∈ fs := by
  fun_induction unionEntries es fs with
  | case1 fs => exact .inr h
  | case2 es => exact .inl h
  | case3 e es f fs _ ih => grind
  | case4 e es f fs _ _ ih => grind
  | case5 e es f fs _ _ ih => grind

theorem sorted_unionEntries {es fs : List (κ × υ)} (hes : es.Pairwise (fun a b => a.1 < b.1))
    (hfs : fs.Pairwise (fun a b => a.1 < b.1)) :
    (unionEntries es fs).Pairwise (fun a b => a.1 < b.1) := by
  fun_induction unionEntries es fs with
  | case1 fs => exact hfs
  | case2 es => exact hes
  | case3 e es f fs hef ih =>
    have ⟨he, hes'⟩ := List.pairwise_cons.1 hes
    have ⟨hf, _⟩ := List.pairwise_cons.1 hfs
    refine List.pairwise_cons.2 ⟨fun x hx => ?_, ih hes' hfs⟩
    rcases mem_unionEntries hx with hx | hx
    · exact he x hx
    · rcases List.mem_cons.1 hx with rfl | hx
      · exact hef
      · exact KeyOrder.trans hef (hf x hx)
  | case4 e es f fs _ hfe ih =>
    have ⟨he, _⟩ := List.pairwise_cons.1 hes
    have ⟨hf, hfs'⟩ := List.pairwise_cons.1 hfs
    refine List.pairwise_cons.2 ⟨fun x hx => ?_, ih hes hfs'⟩
    rcases mem_unionEntries hx with hx | hx
    · rcases List.mem_cons.1 hx with rfl | hx
      · exact hfe
      · exact KeyOrder.trans hfe (he x hx)
    · exact hf x hx
  | case5 e es f fs hef hfe ih =>
    have ⟨he, hes'⟩ := List.pairwise_cons.1 hes
    have ⟨hf, hfs'⟩ := List.pairwise_cons.1 hfs
    refine List.pairwise_cons.2 ⟨fun x hx => ?_, ih hes' hfs'⟩
    rcases mem_unionEntries hx with hx | hx
    · exact he x hx
    · exact KeyOrder.eq_of_not_lt hef hfe ▸ hf x hx

omit [LT κ] [KeyOrder κ] in
theorem lookup_cons_eq [DecidableEq κ] (e : κ × υ) (es : List (κ × υ)) (k : κ) :
    (e :: es).lookup k = if k = e.1 then some e.2 else es.lookup k := by
  rw [List.lookup_cons]
  by_cases h : k = e.1
  · simp [h]
  · simp [h, beq_false_of_ne h]

theorem lookup_unionEntries [DecidableEq κ] {es : List (κ × υ)} (fs : List (κ × υ))
    (hes : es.Pairwise (fun a b => a.1 < b.1)) (k : κ) :
    (unionEntries es fs).lookup k = (es.lookup k).or (fs.lookup k) := by
  fun_induction unionEntries es fs with
  | case1 fs => rfl
  | case2 es => simp
  | case3 e es f fs _ ih =>
    rw [lookup_cons_eq, lookup_cons_eq e es, ih (List.pairwise_cons.1 hes).2]
    split <;> rfl
  | case4 e es f fs _ hfe ih =>
    have ⟨he, _⟩ := List.pairwise_cons.1 hes
    rw [lookup_cons_eq, lookup_cons_eq f fs, ih hes]
    split
    · rename_i hk
      rw [lookup_eq_none_of_forall_lt fun x hx => ?_]
      · rfl
      · rcases List.mem_cons.1 hx with rfl | hx
        · exact hk ▸ hfe
        · exact hk ▸ KeyOrder.trans hfe (he x hx)
    · rfl
  | case5 e es f fs hef hfe ih =>
    rw [lookup_cons_eq, lookup_cons_eq e es, lookup_cons_eq f fs,
      ih (List.pairwise_cons.1 hes).2, KeyOrder.eq_of_not_lt hef hfe]
    split <;> rfl

/-- The entries of two arrays from the places `i` and `j` on, after those that are in order
already. -/
def unionFrom (es fs : Array (κ × υ)) (i j : Nat) (found : Array (κ × υ)) : Array (κ × υ) :=
  if hi : i < es.size then
    if hj : j < fs.size then
      if es[i].1 < fs[j].1 then unionFrom es fs (i + 1) j (found.push es[i])
      else if fs[j].1 < es[i].1 then unionFrom es fs i (j + 1) (found.push fs[j])
      else unionFrom es fs (i + 1) (j + 1) (found.push es[i])
    else found ++ es.extract i
  else found ++ fs.extract j
termination_by es.size - i + (fs.size - j)

omit [LT κ] [KeyOrder κ] in
theorem toList_extract_from (es : Array (κ × υ)) (i : Nat) :
    (es.extract i).toList = es.toList.drop i := by
  simp [List.take_of_length_le]

theorem toList_unionFrom (es fs : Array (κ × υ)) (i j : Nat) (found : Array (κ × υ)) :
    (unionFrom es fs i j found).toList =
      found.toList ++ unionEntries (es.toList.drop i) (fs.toList.drop j) := by
  have drop_eq : ∀ {a : Array (κ × υ)} {n : Nat} (hn : n < a.size),
      a.toList.drop n = a[n] :: a.toList.drop (n + 1) := fun hn => by
    rw [List.drop_eq_getElem_cons (by simpa using hn), Array.getElem_toList]
  fun_induction unionFrom es fs i j found with
  | case1 i j found hi hj h ih =>
    rw [ih, drop_eq hi, drop_eq hj, unionEntries, if_pos h, Array.toList_push, List.append_assoc]
    rfl
  | case2 i j found hi hj h h' ih =>
    rw [ih, drop_eq hi, drop_eq hj, unionEntries, if_neg h, if_pos h', Array.toList_push,
      List.append_assoc]
    rfl
  | case3 i j found hi hj h h' ih =>
    rw [ih, drop_eq hi, drop_eq hj, unionEntries, if_neg h, if_neg h', Array.toList_push,
      List.append_assoc]
    rfl
  | case4 i j found hi hj =>
    rw [List.drop_eq_nil_of_le (i := j) (by simpa using hj), unionEntries_nil,
      ← toList_extract_from]
    simp
  | case5 i j found hi =>
    rw [List.drop_eq_nil_of_le (i := i) (by simpa using hi), unionEntries, ← toList_extract_from]
    simp

end Lineage.OrderedMap
