/-!
# More on lists

Lists that are read element by element with an optional function, and searches in the part of a
list that a test accepts. Nothing here is about documents.

* `mapM_cons_eq_some_iff`: the first element and the rest are read, each on its own.
* `mapM_eq_self`, `mapM_optionMap`: reading what reads as itself, and changing what is read.
* `map_eq_of_mapM`, `mem_of_mem_mapM`: what the elements that were read have from those that they
  were read from.
* `findSome?_filter`: a search that passes over what the test refuses.
-/

namespace Lineage

variable {α β γ : Type}

theorem mapM_cons_eq_some_iff {f : α → Option β} {a : α} {as : List α} {bs : List β} :
    (a :: as).mapM f = some bs ↔
      ∃ b, f a = some b ∧ ∃ rest, as.mapM f = some rest ∧ b :: rest = bs := by
  simp only [List.mapM_cons, Option.bind_eq_bind, Option.bind_eq_some_iff, Option.pure_def,
    Option.some.injEq]

theorem mapM_eq_self {f : α → Option α} {as : List α} (h : ∀ a ∈ as, f a = some a) :
    as.mapM f = some as := by
  induction as with
  | nil => rfl
  | cons a rest ih =>
    have hrest := ih fun b hb => h b (List.mem_cons_of_mem _ hb)
    exact mapM_cons_eq_some_iff.2 ⟨a, h a List.mem_cons_self, rest, hrest, rfl⟩

theorem mapM_optionMap (f : α → Option β) (g : β → γ) (as : List α) :
    as.mapM (fun a => (f a).map g) = (as.mapM f).map (List.map g) := by
  induction as with
  | nil => rfl
  | cons a rest ih =>
    rw [List.mapM_cons, List.mapM_cons, ih]
    cases f a with
    | none => rfl
    | some b => cases rest.mapM f <;> rfl

theorem map_eq_of_mapM {f : α → Option β} {g : α → γ} {g' : β → γ}
    (hkept : ∀ a b, f a = some b → g' b = g a) {as : List α} {bs : List β}
    (h : as.mapM f = some bs) : bs.map g' = as.map g := by
  induction as generalizing bs with
  | nil =>
    cases h
    rfl
  | cons a rest ih =>
    obtain ⟨b, hb, bs, hbs, rfl⟩ := mapM_cons_eq_some_iff.1 h
    rw [List.map_cons, List.map_cons, hkept a b hb, ih hbs]

theorem mem_of_mem_mapM {f : α → Option β} {as : List α} {bs : List β} (h : as.mapM f = some bs)
    {b : β} (hb : b ∈ bs) : ∃ a ∈ as, f a = some b := by
  induction as generalizing bs with
  | nil =>
    rw [List.mapM_nil] at h
    cases h
    cases hb
  | cons a as ih =>
    obtain ⟨c, hc, cs, hcs, rfl⟩ := mapM_cons_eq_some_iff.1 h
    rcases List.mem_cons.1 hb with rfl | hb
    · exact ⟨a, List.mem_cons_self, hc⟩
    · obtain ⟨x, hx, hfx⟩ := ih hcs hb
      exact ⟨x, List.mem_cons_of_mem _ hx, hfx⟩

theorem findSome?_filter (p : α → Bool) (f : α → Option β) (as : List α) :
    (as.filter p).findSome? f = as.findSome? (fun a => if p a then f a else none) := by
  induction as with
  | nil => rfl
  | cons a as ih =>
    by_cases hp : p a = true
    · rw [List.filter_cons_of_pos hp, List.findSome?_cons, List.findSome?_cons, if_pos hp, ih]
    · rw [List.filter_cons_of_neg hp, List.findSome?_cons, if_neg hp, ih]

end Lineage
