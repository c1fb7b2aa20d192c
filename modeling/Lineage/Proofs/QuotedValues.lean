import Lineage.Proofs.Names
import Lineage.Text.Quoted
import Mathlib.Data.List.Basic

/-!
# Quoted values

What a text is read as is told by what trimming leaves of it: this is the value in one layer of
quotes, or the value alone if reading does not alter it (`decodeValue_eq_iff`). So there is no
choice for a value that reading alters. It is written in quotes, and every other value is written as
it stands (`encodeValue_eq`).

* `decodeValue_encodeValue`: the quotes around a value are those that reading removes.
* `encodeValue_exact`: quotes are written exactly where they are needed, and no text that is read as
  a value is shorter than the one that is written for it.
-/

namespace Lineage.Text

variable {s v : Text}

/-! ## Reading -/

/-- Quotes go in pairs. -/
theorem unquote_eq_self_or (s : Text) : unquote s = s ∨ s = '"' :: unquote s ++ ['"'] := by
  unfold unquote
  split
  · rename_i rest
    split
    · rename_i hlast
      have hrest : rest.dropLast ++ ['"'] = rest := List.dropLast_append_getLast? '"' hlast
      right
      rw [List.cons_append, hrest]
    · exact Or.inl rfl
  · exact Or.inl rfl

theorem unquote_quoted (v : Text) : unquote ('"' :: v ++ ['"']) = v := by
  simp [unquote]

theorem trim_quoted (v : Text) : trim ('"' :: v ++ ['"']) = '"' :: v ++ ['"'] := by
  have hquote : isBlank '"' = false := by decide
  rw [trim_eq_self_iff, List.getLast?_concat]
  exact ⟨by simpa using hquote, by simpa using hquote⟩

theorem decodeValue_eq_iff :
    decodeValue s = v ↔ trim s = '"' :: v ++ ['"'] ∨ trim s = v ∧ decodeValue v = v := by
  constructor
  · rintro rfl
    rcases unquote_eq_self_or (trim s) with hsame | hquoted
    · right
      have htrim : decodeValue s = trim s := hsame
      refine ⟨htrim.symm, ?_⟩
      rw [htrim, decodeValue, trim_trim, hsame]
    · exact Or.inl hquoted
  · rintro (hquoted | ⟨rfl, hv⟩)
    · rw [decodeValue, hquoted, unquote_quoted]
    · rwa [decodeValue, trim_trim] at hv

/-- A value that reading does not alter has neither blanks nor quotes around it. -/
theorem decodeValue_eq_self_iff : decodeValue v = v ↔ trim v = v ∧ unquote v = v := by
  constructor
  · intro h
    have htrim : trim v = v := by
      rcases decodeValue_eq_iff.1 h with hquoted | ⟨htrim, -⟩
      · have hle := length_trim_le v
        rw [hquoted, List.length_append, List.length_cons] at hle
        omega
      · exact htrim
    refine ⟨htrim, ?_⟩
    rwa [decodeValue, htrim] at h
  · rintro ⟨htrim, hunquote⟩
    rw [decodeValue, htrim, hunquote]

theorem mem_of_mem_decodeValue {c : Char} (h : c ∈ decodeValue s) : c ∈ s := by
  have htrim : c ∈ trim s := by
    rcases (decodeValue_eq_iff (s := s)).1 rfl with hquoted | ⟨hsame, -⟩
    · rw [hquoted]
      exact List.mem_append_left _ (List.mem_cons_of_mem _ h)
    · rwa [hsame]
  exact mem_of_mem_trimMatches htrim

/-! ## Writing -/

theorem encodeValue_eq (v : Text) :
    encodeValue v = if decodeValue v = v then v else '"' :: v ++ ['"'] := by
  unfold encodeValue
  by_cases h : decodeValue v = v
  · obtain ⟨htrim, hunquote⟩ := decodeValue_eq_self_iff.1 h
    rw [if_pos h, if_neg (not_or.2 ⟨not_not.2 htrim, not_not.2 hunquote⟩)]
  · have halter : trim v ≠ v ∨ unquote v ≠ v :=
      not_and_or.1 (mt decodeValue_eq_self_iff.2 h)
    rw [if_neg h, if_pos halter]

theorem decodeValue_encodeValue (v : Text) : decodeValue (encodeValue v) = v := by
  rw [encodeValue_eq]
  split
  · assumption
  · exact decodeValue_eq_iff.2 (Or.inl (trim_quoted v))

theorem trim_encodeValue (v : Text) : trim (encodeValue v) = encodeValue v := by
  rw [encodeValue_eq]
  split
  · rename_i h
    exact (decodeValue_eq_self_iff.1 h).1
  · exact trim_quoted v

theorem encodeValue_ne_nil (h : v ≠ []) : encodeValue v ≠ [] := by
  rw [encodeValue_eq]
  split
  · exact h
  · simp

theorem length_encodeValue_le (h : decodeValue s = v) : (encodeValue v).length ≤ s.length := by
  have hle := length_trim_le s
  rw [encodeValue_eq]
  rcases decodeValue_eq_iff.1 h with hquoted | ⟨htrim, hv⟩
  · rw [hquoted] at hle
    split
    · rw [List.length_append, List.length_cons] at hle
      omega
    · exact hle
  · rwa [if_pos hv, ← htrim]

/-- Quotes are written exactly where reading would alter the value. -/
theorem encodeValue_exact (v : Text) :
    decodeValue (encodeValue v) = v ∧
      (encodeValue v = '"' :: v ++ ['"'] ↔ decodeValue v ≠ v) ∧
      (encodeValue v = v ↔ decodeValue v = v) ∧
      ∀ s, decodeValue s = v → (encodeValue v).length ≤ s.length := by
  have hlonger : '"' :: v ++ ['"'] ≠ v := by
    intro h
    have hlength := congrArg List.length h
    rw [List.length_append, List.length_cons] at hlength
    omega
  refine ⟨decodeValue_encodeValue v, ?_, ?_, fun s hs => length_encodeValue_le hs⟩
  · rw [encodeValue_eq]
    split
    · rename_i h
      exact iff_of_false hlonger.symm (not_not.2 h)
    · rename_i h
      exact iff_of_true rfl h
  · rw [encodeValue_eq]
    split
    · rename_i h
      exact iff_of_true rfl h
    · rename_i h
      exact iff_of_false hlonger h

/-- A single quote needs no quotes, two of them do. -/
example : [['"'], ['"', '"'], [' ']].map encodeValue =
    [['"'], ['"', '"', '"', '"'], ['"', ' ', '"']] := by decide

end Lineage.Text
