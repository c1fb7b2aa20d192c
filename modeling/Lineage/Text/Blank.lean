import Lineage.Text.CharClass

/-!
# Blank characters and trimming

The blank characters are those with the Unicode property White_Space. Trimming removes the
longest run of characters of a class from both ends of a text.

* `trimMatches_trimMatches`: trimming twice is trimming once.
* `trimMatches_append`: characters of the class around a text do not change what trimming leaves.
-/

namespace Lineage

/-- The property White_Space. -/
def CharClass.blank : CharClass where
  ranges :=
    [(0x0009, 0x000D), (0x0020, 0x0020), (0x0085, 0x0085), (0x00A0, 0x00A0), (0x1680, 0x1680),
      (0x2000, 0x200A), (0x2028, 0x2029), (0x202F, 0x202F), (0x205F, 0x205F), (0x3000, 0x3000)]

namespace Text

/-- Whether a character is blank. -/
def isBlank (c : Char) : Bool := CharClass.blank.contains c

/-- The text without the longest runs of `p` at its start and at its end. -/
def trimMatches (p : Char → Bool) (s : Text) : Text :=
  ((s.dropWhile p).reverse.dropWhile p).reverse

/-- The text without blank characters at its start and at its end. -/
def trim (s : Text) : Text := trimMatches isBlank s

/-! ## Trimming -/

theorem trimMatches_append {p : Char → Bool} {a b : Text} (s : Text) (ha : ∀ c ∈ a, p c)
    (hb : ∀ c ∈ b, p c) : trimMatches p (a ++ s ++ b) = trimMatches p s := by
  unfold trimMatches
  rw [List.append_assoc, List.dropWhile_append_of_pos ha]
  by_cases h : (s.dropWhile p).isEmpty
  · have hs := List.isEmpty_iff.1 h
    have hb' : b.dropWhile p = [] := by
      have happ : (b ++ []).dropWhile p = [] := List.dropWhile_append_of_pos hb
      simpa using happ
    rw [List.dropWhile_append, if_pos h, hs, hb']
  · rw [List.dropWhile_append, if_neg h, List.reverse_append,
      List.dropWhile_append_of_pos (by simpa using hb)]

theorem dropWhile_eq_self {p : Char → Bool} {s : Text} (h : s.head?.any p = false) :
    s.dropWhile p = s := by
  cases s with
  | nil => rfl
  | cons c s => exact List.dropWhile_cons_of_neg (by simpa using h)

theorem head?_dropWhile_any (p : Char → Bool) (s : Text) :
    (s.dropWhile p).head?.any p = false := by
  induction s with
  | nil => rfl
  | cons c s ih => by_cases hc : p c <;> simp [hc, ih]

/-- Trimming leaves a text alone exactly if neither end is in the class. -/
theorem trimMatches_eq_self_iff {p : Char → Bool} {s : Text} :
    trimMatches p s = s ↔ s.head?.any p = false ∧ s.getLast?.any p = false := by
  constructor
  · intro h
    have hlen : (s.dropWhile p).length = s.length ∧
        ((s.dropWhile p).reverse.dropWhile p).length = (s.dropWhile p).length := by
      have h₁ := congrArg List.length h
      unfold trimMatches at h₁
      have h₂ := (List.dropWhile_sublist p (l := s)).length_le
      have h₃ := (List.dropWhile_sublist p (l := (s.dropWhile p).reverse)).length_le
      simp only [List.length_reverse] at h₁ h₃
      omega
    have hs := (List.dropWhile_sublist p (l := s)).eq_of_length hlen.1
    have ht := (List.dropWhile_sublist p (l := (s.dropWhile p).reverse)).eq_of_length
      (by simpa using hlen.2)
    constructor
    · rw [← hs]
      exact head?_dropWhile_any p s
    · rw [hs] at ht
      rw [← List.head?_reverse, ← ht]
      exact head?_dropWhile_any p _
  · rintro ⟨h₁, h₂⟩
    unfold trimMatches
    rw [dropWhile_eq_self h₁, dropWhile_eq_self (by simpa using h₂), List.reverse_reverse]

theorem trimMatches_trimMatches (p : Char → Bool) (s : Text) :
    trimMatches p (trimMatches p s) = trimMatches p s := by
  rw [trimMatches_eq_self_iff]
  unfold trimMatches
  constructor
  · rw [List.head?_reverse]
    by_cases hn : (s.dropWhile p).reverse.dropWhile p = []
    · simp [hn]
    · have hlast : ((s.dropWhile p).reverse.dropWhile p).getLast? =
          (s.dropWhile p).reverse.getLast? := by
        obtain ⟨t, ht⟩ := List.dropWhile_suffix p (l := (s.dropWhile p).reverse)
        have happ := congrArg List.getLast? ht
        rw [List.getLast?_append, List.getLast?_eq_some_getLast hn] at happ
        rw [List.getLast?_eq_some_getLast hn, ← happ, Option.some_or]
      rw [hlast, List.getLast?_reverse]
      exact head?_dropWhile_any p s
  · rw [List.getLast?_reverse]
    exact head?_dropWhile_any p _

end Text

end Lineage
