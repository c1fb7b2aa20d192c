import Lineage.Text.CharClass

/-!
# Splitting a text

A text is split at the first occurrence of a character, as headers and entries are, or at every
occurrence, as arrays are.

* `cut?_eq_some_iff`: a cut is the text around the first occurrence.
-/

namespace Lineage.Text

/-- What lies before and after the first occurrence of a character. -/
def cut? (mark : Char) : Text → Option (Text × Text)
  | [] => none
  | c :: rest =>
    if c = mark then some ([], rest) else (cut? mark rest).map (fun p => (c :: p.1, p.2))

theorem cut?_eq_none_iff {mark : Char} {s : Text} : cut? mark s = none ↔ mark ∉ s := by
  induction s with
  | nil => simp [cut?]
  | cons c rest ih =>
    by_cases h : c = mark
    · simp [cut?, h]
    · simp [cut?, h, ih, Ne.symm h]

theorem cut?_eq_some_iff {mark : Char} {s a b : Text} :
    cut? mark s = some (a, b) ↔ s = a ++ mark :: b ∧ mark ∉ a := by
  induction s generalizing a with
  | nil => simp [cut?]
  | cons c rest ih =>
    by_cases h : c = mark
    · subst h
      cases a with
      | nil => simp [cut?, eq_comm]
      | cons x a =>
        simp only [cut?, if_true, Option.some.injEq, Prod.mk.injEq, List.nil_eq, reduceCtorEq,
          false_and, List.cons_append, List.cons.injEq, List.mem_cons, not_or, false_iff, not_and]
        intro hx
        simp [hx.1]
    · cases a with
      | nil => simp [cut?, h]
      | cons x a =>
        simp only [cut?, h, if_false, Option.map_eq_some_iff, Prod.exists, Prod.mk.injEq,
          List.cons.injEq, List.cons_append, List.mem_cons, not_or]
        constructor
        · rintro ⟨p, q, hpq, ⟨rfl, rfl⟩, rfl⟩
          obtain ⟨rfl, hp⟩ := ih.1 hpq
          exact ⟨⟨rfl, rfl⟩, Ne.symm h, hp⟩
        · rintro ⟨⟨rfl, rfl⟩, _, ha⟩
          exact ⟨a, b, ih.2 ⟨rfl, ha⟩, ⟨rfl, rfl⟩, rfl⟩

end Lineage.Text
