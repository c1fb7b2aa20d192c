import Lineage.Number.Decimal
import Mathlib.Algebra.Group.Nat.Defs
import Mathlib.Data.Nat.Log

/-!
# Digits and the numbers they stand for

A number `n` has `Nat.log 10 n + 1` decimal digits (`length_digits`), and zeros before them change
neither that they are digits nor what they stand for (`natOfText?_padded`). What is read from some
digits is below ten to their number (`lt_of_natOfText?`).
-/

namespace Lineage.Decimal

/-! ## Digits of a number -/

theorem isDigit_of_mem_digits {c : Char} {n : Nat} (h : c ∈ digits n) : c.isDigit = true :=
  Nat.isDigit_of_mem_toDigits (by decide) (by decide) h

theorem digits_ne_nil (n : Nat) : digits n ≠ [] := Nat.toDigits_ne_nil

theorem length_digits_le_iff {n k : Nat} (hk : 0 < k) : (digits n).length ≤ k ↔ n < 10 ^ k :=
  Nat.length_toDigits_le_iff (by decide) hk

theorem length_digits (n : Nat) : (digits n).length = Nat.log 10 n + 1 := by
  apply Nat.le_antisymm
  · exact (length_digits_le_iff (Nat.succ_pos _)).2 (Nat.lt_pow_succ_log_self (by decide) n)
  · have hpos : 0 < (digits n).length := List.length_pos_iff.2 (digits_ne_nil n)
    exact Nat.log_lt_of_lt_pow' hpos.ne' ((length_digits_le_iff hpos).1 (Nat.le_refl _))

/-! ## What digits stand for -/

theorem value_eq (s : Text) : value s = Nat.ofDigitChars 10 s 0 := Nat.ofDigitChars_eq_foldl.symm

theorem value_digits (n : Nat) : value (digits n) = n := by
  rw [value_eq]
  exact Nat.ofDigitChars_ten_toDigits

theorem value_cons (c : Char) (s : Text) :
    value (c :: s) = 10 ^ s.length * (c.toNat - '0'.toNat) + value s := by
  rw [value_eq, value_eq, Nat.ofDigitChars_cons, Nat.ofDigitChars_eq_ofDigitChars_zero,
    Nat.mul_zero, Nat.zero_add]

/-- Zeros before a number do not count. -/
theorem value_replicate_append (n : Nat) (s : Text) :
    value (List.replicate n '0' ++ s) = value s := by
  rw [value_eq, value_eq, Nat.ofDigitChars_append, Nat.ofDigitChars_replicate_zero, Nat.mul_zero]

theorem value_lt {s : Text} (h : ∀ c ∈ s, c.isDigit = true) : value s < 10 ^ s.length := by
  induction s with
  | nil => decide
  | cons c s ih =>
    have hc : c.toNat - '0'.toNat ≤ 9 := by
      obtain ⟨-, hlast⟩ := Char.isDigit_iff_toNat.1 (h c List.mem_cons_self)
      exact Nat.sub_le_iff_le_add.2 hlast
    have hs := ih fun d hd => h d (List.mem_cons_of_mem _ hd)
    -- nine of the power that the rest stays below, and one more for the rest
    have hfirst := Nat.mul_le_mul_left (10 ^ s.length) hc
    rw [value_cons, List.length_cons, Nat.pow_succ]
    omega

theorem natOfText?_eq_some_iff {s : Text} {n : Nat} :
    natOfText? s = some n ↔ s ≠ [] ∧ (∀ c ∈ s, c.isDigit = true) ∧ value s = n := by
  unfold natOfText?
  split
  · rename_i h
    rw [List.all_eq_true] at h
    rw [Option.some_inj]
    exact ⟨fun hvalue => ⟨h.1, h.2, hvalue⟩, fun hvalue => hvalue.2.2⟩
  · rename_i h
    rw [List.all_eq_true] at h
    constructor
    · exact nofun
    · rintro ⟨hne, hdigits, -⟩
      exact absurd ⟨hne, hdigits⟩ h

theorem lt_of_natOfText? {s : Text} {n : Nat} (h : natOfText? s = some n) :
    n < 10 ^ s.length := by
  obtain ⟨-, hdigits, rfl⟩ := natOfText?_eq_some_iff.1 h
  exact value_lt hdigits

/-! ## Numbers with zeros before them -/

theorem isDigit_of_mem_padded {c : Char} {width n : Nat} (h : c ∈ padded width n) :
    c.isDigit = true := by
  rcases List.mem_append.1 h with h | h
  · rw [List.eq_of_mem_replicate h]
    decide
  · exact isDigit_of_mem_digits h

theorem padded_ne_nil (width n : Nat) : padded width n ≠ [] :=
  List.append_ne_nil_of_right_ne_nil _ (digits_ne_nil n)

theorem length_padded (width n : Nat) :
    (padded width n).length = max width (Nat.log 10 n + 1) := by
  rw [padded, List.length_append, List.length_replicate, length_digits]
  omega

theorem padded_zero (n : Nat) : padded 0 n = digits n := by
  rw [padded, Nat.zero_sub, List.replicate_zero, List.nil_append]

theorem natOfText?_padded (width n : Nat) : natOfText? (padded width n) = some n := by
  refine natOfText?_eq_some_iff.2 ⟨padded_ne_nil width n, fun c => isDigit_of_mem_padded, ?_⟩
  rw [padded, value_replicate_append, value_digits]

theorem natOfText?_digits (n : Nat) : natOfText? (digits n) = some n := by
  rw [← padded_zero, natOfText?_padded]

end Lineage.Decimal
