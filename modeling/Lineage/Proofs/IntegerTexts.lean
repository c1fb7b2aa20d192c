import Lineage.Proofs.DecimalDigits
import Lineage.Proofs.Names
import Lineage.Value.Integer

/-!
# Texts of integers

An integer is written as its digits after a sign, which only negative integers have. A format may
ask for zeros between the two. The plain text is the one without such zeros
(`NumberFormat.ofInt_eq_formatInt`), so that what is said of the padded texts holds of it too.

However wide the padding is, the integer is read back within the bounds of its kind, the least one
included (`BoundedInt.texts_in_formats`). The zeros do not bring a number out of bounds, since only
what is read at the end is compared with them.
-/

namespace Lineage

open Text

/-! ## Digits after a sign -/

theorem Text.isBlank_of_isDigit {c : Char} (h : c.isDigit = true) : isBlank c = false := by
  obtain ⟨hlow, hhigh⟩ := Char.isDigit_iff_toNat.1 h
  change 48 ≤ c.toNat at hlow
  change c.toNat ≤ 57 at hhigh
  exact isBlank_of_between (by omega) (by omega)

/-- Digits alone are read as a number that is not negative. -/
theorem Decimal.intOfText?_of_isDigit {s : Text} (h : ∀ c ∈ s, c.isDigit = true) :
    intOfText? s = (natOfText? s).map Int.ofNat := by
  unfold intOfText?
  split
  · exact absurd (h '-' List.mem_cons_self) (by decide)
  · exact absurd (h '+' List.mem_cons_self) (by decide)
  · rfl

namespace NumberFormat

theorem formatInt_of_neg {v : Int} (hv : v < 0) (width : Nat) :
    (decimal width).formatInt v = '-' :: Decimal.padded width v.natAbs := by
  rw [formatInt, if_pos hv]
  rfl

theorem formatInt_of_nonneg {v : Int} (hv : 0 ≤ v) (width : Nat) :
    (decimal width).formatInt v = Decimal.padded width v.natAbs := by
  rw [formatInt, if_neg (Int.not_lt.2 hv), List.nil_append]

/-- The plain text of an integer is the one that asks for no zeros. -/
theorem ofInt_eq_formatInt (v : Int) : Decimal.ofInt v = (decimal 0).formatInt v := by
  rcases Int.lt_or_le v 0 with hv | hv
  · rw [formatInt_of_neg hv, Decimal.padded_zero, Decimal.ofInt, if_pos hv]
  · rw [formatInt_of_nonneg hv, Decimal.padded_zero, Decimal.ofInt, if_neg (Int.not_lt.2 hv)]

theorem intOfText?_formatInt (width : Nat) (v : Int) :
    Decimal.intOfText? ((decimal width).formatInt v) = some v := by
  rcases Int.lt_or_le v 0 with hv | hv
  · rw [formatInt_of_neg hv, Decimal.intOfText?, Decimal.natOfText?_padded]
    change some (-(v.natAbs : Int)) = some v
    rw [Int.ofNat_natAbs_of_nonpos (Int.le_of_lt hv), Int.neg_neg]
  · rw [formatInt_of_nonneg hv,
      Decimal.intOfText?_of_isDigit fun c => Decimal.isDigit_of_mem_padded,
      Decimal.natOfText?_padded, Option.map_some]
    exact congrArg some (Int.natAbs_of_nonneg hv)

/-- Of the texts of integers, those of negative ones begin with a minus sign. -/
theorem head?_formatInt_eq_minus_iff {width : Nat} {v : Int} :
    ((decimal width).formatInt v).head? = some '-' ↔ v < 0 := by
  rcases Int.lt_or_le v 0 with hv | hv
  · rw [formatInt_of_neg hv]
    exact iff_of_true rfl hv
  · rw [formatInt_of_nonneg hv]
    refine iff_of_false (fun hhead => ?_) (Int.not_lt.2 hv)
    have hminus := Decimal.isDigit_of_mem_padded (List.mem_of_head? hhead)
    exact absurd hminus (by decide)

theorem formatInt_ne_nil (width : Nat) (v : Int) : (decimal width).formatInt v ≠ [] :=
  List.append_ne_nil_of_right_ne_nil _ (Decimal.padded_ne_nil width v.natAbs)

theorem trim_formatInt (width : Nat) (v : Int) :
    trim ((decimal width).formatInt v) = (decimal width).formatInt v := by
  have hdigits : ∀ c ∈ Decimal.padded width v.natAbs, isBlank c = false := fun c hc =>
    isBlank_of_isDigit (Decimal.isDigit_of_mem_padded hc)
  apply trim_of_not_blank
  rcases Int.lt_or_le v 0 with hv | hv
  · rw [formatInt_of_neg hv]
    exact List.forall_mem_cons.2 ⟨by decide, hdigits⟩
  · rw [formatInt_of_nonneg hv]
    exact hdigits

end NumberFormat

/-! ## Integers within bounds -/

namespace BoundedInt

variable {k : IntegerKind}

theorem ofInt?_val (v : BoundedInt k) : ofInt? k v.val = some v := dif_pos ⟨v.least_le, v.le_greatest⟩

/-- Only signed integers can be negative. -/
theorem signed_of_neg {v : BoundedInt k} (hv : v.val < 0) : k.signed = true := by
  have hleast := v.least_le
  unfold IntegerKind.least at hleast
  split at hleast
  · assumption
  · omega

theorem ofText?_format (width : Nat) (v : BoundedInt k) :
    Value.ofText? (Numeric.format (.decimal width) v) = some v := by
  change ofText? k (trim ((NumberFormat.decimal width).formatInt v.val)) = some v
  -- no unsigned integer is negative, so the refusal of a minus sign does not concern the text
  have hsign : ¬ (¬ k.signed ∧ ((NumberFormat.decimal width).formatInt v.val).head? = some '-') := by
    rintro ⟨hunsigned, hhead⟩
    exact hunsigned (signed_of_neg (NumberFormat.head?_formatInt_eq_minus_iff.1 hhead))
  rw [NumberFormat.trim_formatInt, ofText?, if_neg hsign, NumberFormat.intOfText?_formatInt,
    Option.bind_some, ofInt?_val]

theorem toText_eq_format (v : BoundedInt k) : Value.toText v = Numeric.format (.decimal 0) v :=
  NumberFormat.ofInt_eq_formatInt v.val

theorem ofText?_toText (v : BoundedInt k) : Value.ofText? (Value.toText v) = some v := by
  rw [toText_eq_format, ofText?_format]

/-- A format that asks for a number of digits gives a minus sign to negative integers only, then as
many digits as it asks for or as the integer has, whichever is more; the integer is read back from
them. It is read back from the plain text too, which two of the other formats give. -/
theorem texts_in_formats (v : BoundedInt k) :
    (∀ width, ∃ ds : Text,
      Numeric.format (.decimal width) v = (if v.val < 0 then ['-'] else []) ++ ds ∧
        (∀ c ∈ ds, c.isDigit = true) ∧ ds.length = max width (Nat.log 10 v.val.natAbs + 1) ∧
        Value.ofText? (Numeric.format (.decimal width) v) = some v) ∧
      Numeric.format .general v = Value.toText v ∧ Numeric.format (.fixed 0) v = Value.toText v ∧
      Value.ofText? (Value.toText v) = some v := by
  refine ⟨fun width => ?_, rfl, rfl, ofText?_toText v⟩
  refine ⟨Decimal.padded width v.val.natAbs, rfl, fun c => Decimal.isDigit_of_mem_padded, ?_, ?_⟩
  · exact Decimal.length_padded width v.val.natAbs
  · exact ofText?_format width v

/-- The least integer has no positive counterpart of its kind. -/
example :
    let v : BoundedInt ⟨true, 8⟩ := ⟨-128, by decide, by decide⟩
    Numeric.format (.decimal 5) v = "-00128".toList ∧
      Value.ofText? "-00128".toList = some v ∧
      (Value.ofText? "00128".toList : Option (BoundedInt ⟨true, 8⟩)) = none := by
  decide

end BoundedInt

end Lineage
