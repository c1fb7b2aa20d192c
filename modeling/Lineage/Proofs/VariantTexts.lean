import Lineage.Proofs.Names
import Lineage.Value.Enumeration

/-!
# Texts of variants

The name of a variant is its text. A text is read as the first variant that has this name but for
the case of letters (`Enumeration.ofText?_eq_some_iff`). Names hold no blanks, so every name is
read, though not always as the variant that it names: an earlier variant may have the same letters
in another case (`Enumeration.variants_of_texts`).

Blanks around a text and the case of its letters do not matter, whatever the text is. No letter is
blank in either case, so trimming a text and changing its letters may be done in either order
(`Text.trim_map_toLower`).
-/

namespace Lineage

namespace Text

/-! ## Letters and blanks -/

theorem isBlank_toLower (c : Char) : isBlank c.toLower = isBlank c := by
  unfold Char.toLower
  split
  · rename_i hupper
    have hlow : 0x41 ≤ c.toNat := hupper.1
    have hhigh : c.toNat ≤ 0x5A := hupper.2
    have hlower : (c.val + ('a'.val - 'A'.val)).toNat = c.toNat + 0x20 := by
      have hmod : (c.val + ('a'.val - 'A'.val)).toNat = (c.toNat + 0x20) % 2 ^ 32 :=
        UInt32.toNat_add c.val ('a'.val - 'A'.val)
      omega
    have hblank := isBlank_of_between (c := c) (by omega) (by omega)
    rw [hblank]
    apply isBlank_of_between
    · show 0x21 ≤ (c.val + ('a'.val - 'A'.val)).toNat
      omega
    · show (c.val + ('a'.val - 'A'.val)).toNat ≤ 0x7E
      omega
  · rfl

theorem trimMatches_map {p : Char → Bool} {f : Char → Char} (hf : ∀ c, p (f c) = p c) (s : Text) :
    trimMatches p (s.map f) = (trimMatches p s).map f := by
  have hcomp : p ∘ f = p := funext hf
  unfold trimMatches
  rw [List.dropWhile_map, hcomp, ← List.map_reverse, List.dropWhile_map, hcomp, List.map_reverse]

theorem trim_map_toLower (s : Text) : trim (s.map Char.toLower) = (trim s).map Char.toLower :=
  trimMatches_map isBlank_toLower s

end Text

namespace Enumeration

open Text

variable {e : Enumeration} {s t : Text}

theorem sameLetters_iff : sameLetters s t = true ↔ s.map Char.toLower = t.map Char.toLower :=
  decide_eq_true_iff

theorem sameLetters_self (s : Text) : sameLetters s s = true := sameLetters_iff.2 rfl

theorem sameLetters_congr (h : sameLetters s t = true) (name : Text) :
    sameLetters s name = sameLetters t name := by
  rw [sameLetters, sameLetters, sameLetters_iff.1 h]

theorem sameLetters_trim (h : sameLetters s t = true) : sameLetters s.trim t.trim = true := by
  rw [sameLetters_iff] at h ⊢
  rw [← trim_map_toLower, ← trim_map_toLower, h]

/-! ## The first variant of a name -/

/-- The variant has this name but for the case of letters, and no earlier one has. -/
structure Variant.IsFirst (v : e.Variant) (name : Text) : Prop where
  sameLetters_name : sameLetters name v.name = true
  not_before : ∀ u : e.Variant, u.index < v.index → sameLetters name u.name = false

theorem getElem_variants {i : Nat} (hi : i < e.variants.length) :
    e.variants[i] = ⟨⟨i, by simpa [variants] using hi⟩⟩ := by
  simp [variants]

theorem mem_variants (v : e.Variant) : v ∈ e.variants :=
  List.mem_map.2 ⟨v.index, List.mem_finRange v.index, rfl⟩

theorem ofText?_eq_some_iff {v : e.Variant} : Value.ofText? s = some v ↔ v.IsFirst s.trim := by
  show e.variants.find? (fun u => sameLetters s.trim u.name) = some v ↔ _
  rw [List.find?_eq_some_iff_getElem]
  constructor
  · rintro ⟨hsame, i, hi, rfl, hbefore⟩
    refine ⟨hsame, fun u hu => ?_⟩
    rw [getElem_variants] at hu
    have hu' := hbefore u.index hu
    rw [getElem_variants] at hu'
    simpa using hu'
  · rintro ⟨hsame, hbefore⟩
    refine ⟨hsame, v.index, by simp [variants], getElem_variants _, fun j hj => ?_⟩
    rw [getElem_variants, hbefore _ hj]
    rfl

theorem trim_name (v : e.Variant) : trim v.name = v.name :=
  trim_of_not_blank (e.notBlank v.name (List.getElem_mem v.index.2))

theorem exists_isFirst (v : e.Variant) :
    ∃ w : e.Variant, Value.ofText? (Value.toText v) = some w ∧ w.IsFirst v.name := by
  have hfound : (Value.ofText? v.name : Option e.Variant).isSome = true := by
    apply List.find?_isSome.2
    refine ⟨v, mem_variants v, ?_⟩
    rw [trim_name]
    exact sameLetters_self v.name
  obtain ⟨w, hw⟩ := Option.isSome_iff_exists.1 hfound
  have hfirst := ofText?_eq_some_iff.1 hw
  rw [trim_name] at hfirst
  exact ⟨w, hw, hfirst⟩

theorem isFirst_name_iff {v : e.Variant} :
    v.IsFirst v.name ↔ ∀ u : e.Variant, u.index < v.index → sameLetters v.name u.name = false :=
  ⟨fun h => h.not_before, fun h => ⟨sameLetters_self v.name, h⟩⟩

theorem ofText?_congr (h : sameLetters s t = true) {before after : Text}
    (hbefore : ∀ c ∈ before, isBlank c = true) (hafter : ∀ c ∈ after, isBlank c = true) :
    (Value.ofText? (before ++ s ++ after) : Option e.Variant) = Value.ofText? t := by
  have htrim : trim (before ++ s ++ after) = trim s := trimMatches_append s hbefore hafter
  show e.variants.find? _ = e.variants.find? _
  rw [htrim]
  congr 1
  funext u
  exact sameLetters_congr (sameLetters_trim h) u.name

/-- Every variant's name is read as the first variant of that name, which is the variant itself
exactly if no earlier one has its name but for the case of letters. A text is read without regard
to the blanks around it and the case of its letters. -/
theorem variants_of_texts (e : Enumeration) :
    (∀ v : e.Variant, ∃ w : e.Variant,
      Value.ofText? (Value.toText v) = some w ∧ w.IsFirst v.name) ∧
      (∀ v : e.Variant, Value.ofText? (Value.toText v) = some v ↔
        ∀ u : e.Variant, u.index < v.index → sameLetters v.name u.name = false) ∧
      ∀ s t : Text, sameLetters s t = true → ∀ before after : Text,
        (∀ c ∈ before, isBlank c = true) → (∀ c ∈ after, isBlank c = true) →
          (Value.ofText? (before ++ s ++ after) : Option e.Variant) = Value.ofText? t := by
  refine ⟨exists_isFirst, fun v => ?_, fun s t h before after => ofText?_congr h⟩
  show Value.ofText? v.name = some v ↔ _
  rw [ofText?_eq_some_iff, trim_name, isFirst_name_iff]

/-- Of two names with the same letters the first is read, and of letters beyond `Z` the case
counts. -/
example :
    let e : Enumeration :=
      { names := ["Abc".toList, "ABC".toList, "Ärger".toList]
        notBlank := by simp [isBlank, CharClass.contains, CharClass.blank]
        default := 0 }
    (Value.ofText? "ABC".toList : Option e.Variant) = some ⟨0⟩ ∧
      (Value.ofText? " ÄRGER\n".toList : Option e.Variant) = some ⟨2⟩ ∧
      (Value.ofText? "ärger".toList : Option e.Variant) = none := by
  decide

end Enumeration

end Lineage
