import Lineage.OrderedMap.Search
import Lineage.OrderedMap.Union

/-!
# Ordered maps

A finite map kept as its entries in strictly ascending key order, so that two maps with the same
lookups are equal and the entries come out sorted. The entries lie in an array, in which the place
of a key is found by halving; `entries` is the list of them, on which all laws rest.

* `get?_eq_lookup`, `entries_insert`, `entries_erase`, `entries_union`: what each operation is on
  the entry list.
* `get?_insert`, `get?_insertNew`, `get?_erase`, `get?_union`: what each operation does to every
  lookup.
* `ext_get?`: a map is determined by its lookups.
* `size_erase_lt`: erasing a key that has a value makes the map smaller.
* `mem_entries_iff`: the entries are the pairs that lookups find.
-/

namespace Lineage

/-- Entries in strictly ascending key order; in particular no key occurs twice. -/
structure OrderedMap (κ υ : Type) [LT κ] where
  array : Array (κ × υ) := #[]
  sorted : array.toList.Pairwise (fun a b => a.1 < b.1) := by simp

namespace OrderedMap

variable {κ υ : Type} [LT κ]

instance [DecidableEq κ] [DecidableEq υ] : DecidableEq (OrderedMap κ υ) := fun m n =>
  if h : m.array = n.array then
    isTrue (by cases m; cases n; cases h; rfl)
  else
    isFalse (fun hmn => h (congrArg array hmn))

instance : EmptyCollection (OrderedMap κ υ) := ⟨{}⟩

instance : Inhabited (OrderedMap κ υ) := ⟨∅⟩

/-- The entries in ascending key order. -/
def entries (m : OrderedMap κ υ) : List (κ × υ) := m.array.toList

/-- The keys in ascending order. -/
def keys (m : OrderedMap κ υ) : List κ := m.entries.map Prod.fst

def size (m : OrderedMap κ υ) : Nat := m.array.size

def isEmpty (m : OrderedMap κ υ) : Bool := m.array.isEmpty

theorem sorted_entries (m : OrderedMap κ υ) : m.entries.Pairwise (fun a b => a.1 < b.1) := m.sorted

theorem ext_entries {m n : OrderedMap κ υ} (h : m.entries = n.entries) : m = n := by
  cases m
  cases n
  cases Array.toList_inj.1 h
  rfl

@[simp] theorem entries_empty : (∅ : OrderedMap κ υ).entries = [] := rfl

theorem size_eq_length (m : OrderedMap κ υ) : m.size = m.entries.length := Array.length_toList.symm

/-! ## Operations -/

section Operations

variable [KeyOrder κ]

/-- The place of a key in the array. -/
def position (m : OrderedMap κ υ) (k : κ) : Nat := search m.array k 0 m.array.size (Nat.le_refl _)

/-- The place of a key in the array, if there is an entry of it. -/
def position? (m : OrderedMap κ υ) (k : κ) : Option Nat :=
  if h : m.position k < m.array.size then
    if k < m.array[m.position k].1 then none else some (m.position k)
  else none

def get? (m : OrderedMap κ υ) (k : κ) : Option υ :=
  if h : m.position k < m.array.size then
    if k < m.array[m.position k].1 then none else some m.array[m.position k].2
  else none

def contains (m : OrderedMap κ υ) (k : κ) : Bool := (m.get? k).isSome

/-- The array with `k` bound to `v`. -/
def insertInto (m : OrderedMap κ υ) (k : κ) (v : υ) : Array (κ × υ) :=
  if h : m.position k < m.array.size then
    if k < m.array[m.position k].1 then m.array.insertIdx (m.position k) (k, v) (Nat.le_of_lt h)
    else m.array.set (m.position k) (k, v)
  else m.array.push (k, v)

/-- The array without the entry of a key. -/
def eraseFrom (m : OrderedMap κ υ) (k : κ) : Array (κ × υ) :=
  if h : m.position k < m.array.size then
    if k < m.array[m.position k].1 then m.array else m.array.eraseIdx (m.position k)
  else m.array

theorem position_eq_place (m : OrderedMap κ υ) (k : κ) : m.position k = place k m.entries :=
  search_eq_place m.sorted k _ (Nat.zero_le _) (place_le k m.entries)

theorem get?_eq_lookup [DecidableEq κ] (m : OrderedMap κ υ) (k : κ) :
    m.get? k = m.entries.lookup k := by
  rw [get?, position_eq_place, lookup_eq m.sorted_entries]
  rfl

theorem toList_insertInto (m : OrderedMap κ υ) (k : κ) (v : υ) :
    (m.insertInto k v).toList = insertEntry k v m.entries := by
  simp only [insertInto, position_eq_place, insertEntry_eq, apply_dite Array.toList,
    apply_ite Array.toList, Array.toList_insertIdx, Array.toList_set, Array.toList_push]
  rfl

theorem toList_eraseFrom [DecidableEq κ] (m : OrderedMap κ υ) (k : κ) :
    (m.eraseFrom k).toList = m.entries.filter (fun e => e.1 ≠ k) := by
  simp only [eraseFrom, position_eq_place, filter_key_ne_eq m.sorted_entries,
    apply_dite Array.toList, apply_ite Array.toList, Array.toList_eraseIdx]
  rfl

/-- Binds a key, replacing the value it had. -/
def insert (m : OrderedMap κ υ) (k : κ) (v : υ) : OrderedMap κ υ :=
  ⟨m.insertInto k v, by rw [toList_insertInto]; exact sorted_insertEntry k v m.sorted⟩

/-- Binds a key unless it has a value already. -/
def insertNew (m : OrderedMap κ υ) (k : κ) (v : υ) : OrderedMap κ υ :=
  if m.contains k then m else m.insert k v

/-- The map of a list of pairs, where a later pair wins over an earlier one of the same key. -/
def ofList (es : List (κ × υ)) : OrderedMap κ υ := es.foldl (fun m e => m.insert e.1 e.2) ∅

def erase (m : OrderedMap κ υ) (k : κ) : OrderedMap κ υ :=
  ⟨m.eraseFrom k, by classical rw [toList_eraseFrom]; exact m.sorted.filter _⟩

/-- The map that binds what either map binds, where the first map wins over the second. -/
def union (m n : OrderedMap κ υ) : OrderedMap κ υ :=
  if m.array.isEmpty then n
  else if n.array.isEmpty then m
  else ⟨unionFrom m.array n.array 0 0 #[], by
    rw [toList_unionFrom]
    exact sorted_unionEntries m.sorted n.sorted⟩

theorem entries_insert (m : OrderedMap κ υ) (k : κ) (v : υ) :
    (m.insert k v).entries = insertEntry k v m.entries :=
  toList_insertInto m k v

theorem entries_erase [DecidableEq κ] (m : OrderedMap κ υ) (k : κ) :
    (m.erase k).entries = m.entries.filter (fun e => e.1 ≠ k) :=
  toList_eraseFrom m k

theorem entries_union (m n : OrderedMap κ υ) :
    (m.union n).entries = unionEntries m.entries n.entries := by
  unfold union
  split
  · rename_i h
    simp [entries, Array.isEmpty_iff.1 h, unionEntries]
  · split
    · rename_i h
      simp [entries, Array.isEmpty_iff.1 h]
    · exact toList_unionFrom m.array n.array 0 0 #[]

end Operations

/-- Applies a function to every value. -/
def map {ω : Type} (f : κ → υ → ω) (m : OrderedMap κ υ) : OrderedMap κ ω :=
  ⟨m.array.map (fun e => (e.1, f e.1 e.2)), by
    rw [Array.toList_map]
    exact List.pairwise_map.2 (m.sorted.imp (fun h => h))⟩

/-! ## Lookups -/

section Lookups

variable [DecidableEq κ] [KeyOrder κ]

@[simp] theorem get?_empty (k : κ) : (∅ : OrderedMap κ υ).get? k = none :=
  get?_eq_lookup ∅ k

theorem get?_insert (m : OrderedMap κ υ) (k j : κ)
    (v : υ) : (m.insert k v).get? j = if j = k then some v else m.get? j := by
  rw [get?_eq_lookup, get?_eq_lookup, entries_insert, lookup_insertEntry]

theorem get?_erase (m : OrderedMap κ υ) (k j : κ) :
    (m.erase k).get? j = if j = k then none else m.get? j := by
  rw [get?_eq_lookup, get?_eq_lookup, entries_erase, lookup_filter_key_ne]

@[simp]
theorem get?_insert_self (m : OrderedMap κ υ) (k : κ) (v : υ) : (m.insert k v).get? k = some v := by
  rw [get?_insert, if_pos rfl]

theorem get?_insert_of_ne (m : OrderedMap κ υ) {j k : κ} (h : j ≠ k) (v : υ) :
    (m.insert k v).get? j = m.get? j := by
  rw [get?_insert, if_neg h]

@[simp]
theorem get?_erase_self (m : OrderedMap κ υ) (k : κ) : (m.erase k).get? k = none := by
  rw [get?_erase, if_pos rfl]

theorem get?_erase_of_ne (m : OrderedMap κ υ) {j k : κ} (h : j ≠ k) :
    (m.erase k).get? j = m.get? j := by
  rw [get?_erase, if_neg h]

theorem get?_insertNew (m : OrderedMap κ υ) (k j : κ)
    (v : υ) : (m.insertNew k v).get? j = if j = k then some ((m.get? k).getD v) else m.get? j := by
  unfold insertNew contains
  cases h : m.get? k with
  | none => simp [get?_insert]
  | some w =>
    by_cases hj : j = k
    · simp [hj, h]
    · simp [hj]

theorem get?_union (m n : OrderedMap κ υ) (k : κ) :
    (m.union n).get? k = (m.get? k).or (n.get? k) := by
  rw [get?_eq_lookup, get?_eq_lookup, get?_eq_lookup, entries_union,
    lookup_unionEntries _ m.sorted_entries]

end Lookups

/-! ## Places -/

section Places

variable [KeyOrder κ]

theorem key_of_position?_eq_some {m : OrderedMap κ υ} {k : κ} {i : Nat}
    (h : m.position? k = some i) : ∃ hi : i < m.array.size, m.array[i].1 = k := by
  unfold position? at h
  split at h
  · rename_i hi
    split at h
    · cases h
    · rename_i hk
      cases h
      refine ⟨hi, KeyOrder.eq_of_not_lt (fun hlt => ?_) hk⟩
      have := (getElem_lt_iff m.sorted k (by simpa using hi)).1 (by rwa [Array.getElem_toList])
      rw [position_eq_place] at this
      exact Nat.lt_irrefl _ this
  · cases h

theorem position?_eq_none_iff {m : OrderedMap κ υ} {k : κ} :
    m.position? k = none ↔ m.get? k = none := by
  unfold position? get?
  split
  · split <;> simp
  · simp

theorem key_inj {m : OrderedMap κ υ} {i j : Nat} (hi : i < m.array.size) (hj : j < m.array.size)
    (h : m.array[i].1 = m.array[j].1) : i = j := by
  have hlt := List.pairwise_iff_getElem.1 m.sorted
  rcases Nat.lt_trichotomy i j with hij | hij | hij
  · have := hlt i j (by simpa using hi) (by simpa using hj) hij
    rw [Array.getElem_toList, Array.getElem_toList, h] at this
    exact absurd this (KeyOrder.irrefl _)
  · exact hij
  · have := hlt j i (by simpa using hj) (by simpa using hi) hij
    rw [Array.getElem_toList, Array.getElem_toList, h] at this
    exact absurd this (KeyOrder.irrefl _)

end Places

/-! ## Entries and lookups -/

section Extensionality

variable [DecidableEq κ] [KeyOrder κ]

theorem mem_entries_iff (m : OrderedMap κ υ) {k : κ} {v : υ} :
    (k, v) ∈ m.entries ↔ m.get? k = some v := by
  rw [get?_eq_lookup]
  exact (lookup_eq_some_iff m.sorted_entries).symm

theorem get?_key (m : OrderedMap κ υ) {i : Nat} (hi : i < m.array.size) :
    m.get? m.array[i].1 = some m.array[i].2 :=
  (mem_entries_iff m).1 (Array.getElem_mem_toList hi)

theorem size_erase_lt {m : OrderedMap κ υ} {k : κ} {v : υ} (h : m.get? k = some v) :
    (m.erase k).size < m.size := by
  rw [size_eq_length, size_eq_length, entries_erase]
  exact List.length_filter_lt_length_iff_exists.2 ⟨(k, v), (mem_entries_iff m).2 h, by simp⟩

theorem mem_keys_iff (m : OrderedMap κ υ) {k : κ} : k ∈ m.keys ↔ m.contains k = true := by
  simp only [keys, contains, List.mem_map, Prod.exists, exists_and_right, exists_eq_right,
    mem_entries_iff, Option.isSome_iff_exists]

theorem ext_get? {m n : OrderedMap κ υ} (h : ∀ k, m.get? k = n.get? k) : m = n :=
  ext_entries (eq_of_mem_iff m.sorted_entries n.sorted_entries fun ⟨k, v⟩ => by
    rw [mem_entries_iff, mem_entries_iff, h])

end Extensionality

end OrderedMap

end Lineage
