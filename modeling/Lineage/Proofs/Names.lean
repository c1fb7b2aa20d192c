import Lineage.Proofs.SmallLetters
import Lineage.Text.Name

/-!
# Names are in normal form

A text is a name if it is not empty and stands for itself: nothing blank at its ends, nothing but
small characters in it (`toName_eq_self_iff`). What a text stands for is a name or empty, since
small letters add no blanks at the ends (`trim_lowercase`) and stay small. They also stay as they are
in a longer text that is put together from names (`toName_stable`).
-/

namespace Lineage.Text

/-! ## Trimming -/

theorem mem_of_mem_trimMatches {p : Char → Bool} {s : Text} {c : Char}
    (h : c ∈ trimMatches p s) : c ∈ s := by
  unfold trimMatches at h
  have h₁ := (List.dropWhile_sublist p).subset (List.mem_reverse.1 h)
  exact (List.dropWhile_sublist p).subset (List.mem_reverse.1 h₁)

theorem length_trimMatches_le (p : Char → Bool) (s : Text) :
    (trimMatches p s).length ≤ s.length := by
  unfold trimMatches
  have h₁ := (List.dropWhile_sublist p (l := s)).length_le
  have h₂ := (List.dropWhile_sublist p (l := (s.dropWhile p).reverse)).length_le
  simp only [List.length_reverse] at h₂ ⊢
  omega

theorem length_trim_le (s : Text) : (trim s).length ≤ s.length := length_trimMatches_le isBlank s

theorem trim_eq_self_iff {s : Text} :
    trim s = s ↔ s.head?.any isBlank = false ∧ s.getLast?.any isBlank = false :=
  trimMatches_eq_self_iff

/-- Signs, digits and letters of the first block of characters are not blank. -/
theorem isBlank_of_between {c : Char} (hlow : 0x21 ≤ c.toNat) (hhigh : c.toNat ≤ 0x7E) :
    isBlank c = false := by
  simp only [isBlank, CharClass.contains, CharClass.blank, List.any_cons, List.any_nil,
    Bool.or_false, Bool.or_eq_false_iff, Bool.and_eq_false_iff, decide_eq_false_iff_not]
  omega

theorem trim_of_not_blank {s : Text} (h : ∀ c ∈ s, isBlank c = false) : trim s = s := by
  refine trim_eq_self_iff.2 ⟨?_, ?_⟩
  · cases hs : s.head? with
    | none => rfl
    | some c => exact h c (List.mem_of_head? hs)
  · cases hs : s.getLast? with
    | none => rfl
    | some c => exact h c (List.mem_of_getLast? hs)

theorem trim_trim (s : Text) : trim (trim s) = trim s := trimMatches_trimMatches isBlank s

theorem trim_lowercase {s : Text} (h : trim s = s) : trim (lowercase s) = lowercase s := by
  obtain ⟨hhead, hlast⟩ := trim_eq_self_iff.1 h
  exact trim_eq_self_iff.2
    ⟨head?_lowercase_any_isBlank hhead, getLast?_lowercase_any_isBlank hlast⟩

/-! ## Names -/

theorem toName_eq_self_iff {s : Text} : toName s = s ↔ trim s = s ∧ ∀ c ∈ s, IsSmall c := by
  constructor
  · intro h
    have hsmall : ∀ c ∈ s, IsSmall c := by
      intro c hc
      rw [← h] at hc
      exact isSmall_of_mem_lowercase hc
    have hkept : lowercase (trim s) = trim s :=
      lowercase_eq_self fun c hc => hsmall c (mem_of_mem_trimMatches hc)
    refine ⟨?_, hsmall⟩
    rwa [toName, hkept] at h
  · rintro ⟨htrim, hsmall⟩
    rw [toName, htrim, lowercase_eq_self hsmall]

theorem toName_toName (s : Text) : toName (toName s) = toName s := by
  refine toName_eq_self_iff.2 ⟨?_, fun c hc => isSmall_of_mem_lowercase hc⟩
  exact trim_lowercase (trim_trim s)

/-- Only a blank text stands for the empty name. -/
theorem toName_eq_nil_iff {s : Text} : toName s = [] ↔ trim s = [] := lowerAfter_eq_nil_iff

/-- A name stands for itself. -/
def IsName (s : Text) : Prop := s ≠ [] ∧ toName s = s

instance (s : Text) : Decidable (IsName s) := inferInstanceAs (Decidable (_ ∧ _))

theorem isName_toName {s : Text} (h : toName s ≠ []) : IsName (toName s) := ⟨h, toName_toName s⟩

namespace IsName

variable {s : Text} (h : IsName s)

include h

theorem trim_eq : trim s = s := (toName_eq_self_iff.1 h.2).1

theorem isSmall {c : Char} (hc : c ∈ s) : IsSmall c := (toName_eq_self_iff.1 h.2).2 c hc

end IsName

/-! ## Texts made of names -/

/-- A part of a text: what some text stands for as a name, or one small character. -/
inductive Piece where
  | name (s : Text)
  | sign (c : Char) (hc : IsSmall c)

/-- The characters of a part. -/
def Piece.text : Piece → Text
  | .name s => toName s
  | .sign c _ => [c]

theorem Piece.isSmall {p : Piece} {c : Char} (h : c ∈ p.text) : IsSmall c := by
  cases p with
  | name s => exact isSmall_of_mem_lowercase h
  | sign d hd =>
    rw [text, List.mem_singleton] at h
    rwa [h]

/-- Small letters leave alone whatever is put together from names. -/
theorem lowercase_pieces (pieces : List Piece) :
    lowercase (pieces.flatMap Piece.text) = pieces.flatMap Piece.text := by
  apply lowercase_eq_self
  intro c hc
  obtain ⟨p, -, hp⟩ := List.mem_flatMap.1 hc
  exact p.isSmall hp

/-- Names are stable, alone and beside each other or small characters: a sigma that ends a name stays
as it is even if a word goes on after it. -/
theorem toName_stable (s : Text) :
    toName (toName s) = toName s ∧
      ((toName s).head?.any isBlank = false ∧ (toName s).getLast?.any isBlank = false) ∧
      (∀ c ∈ toName s, IsSmall c) ∧
      (toName s = s ↔
        (s.head?.any isBlank = false ∧ s.getLast?.any isBlank = false) ∧ ∀ c ∈ s, IsSmall c) ∧
      ∀ pieces : List Piece,
        lowercase (pieces.flatMap Piece.text) = pieces.flatMap Piece.text := by
  obtain ⟨htrim, hsmall⟩ := toName_eq_self_iff.1 (toName_toName s)
  refine ⟨toName_toName s, trim_eq_self_iff.1 htrim, hsmall, ?_, lowercase_pieces⟩
  rw [toName_eq_self_iff, trim_eq_self_iff]

/-- Taken together before they are taken as names, two words make one. -/
example : lowercase (toName "ΑΣ".toList ++ ':' :: toName "Β".toList) = "ας:β".toList ∧
    lowercase "ΑΣ:Β".toList = "ασ:β".toList := by decide +kernel

end Lineage.Text
