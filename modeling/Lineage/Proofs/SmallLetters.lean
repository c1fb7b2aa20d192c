import Lineage.Text.Lowercase
import Lineage.Text.Blank

/-!
# Small letters stay small

The mapping to small letters leaves alone whatever it has produced. The table of runs decides
this: no image of a run is a capital letter of any run (`caseRuns_misses`), no image is blank or
comes before the letter `a` (`caseRuns_letters`).

* `lowercase_eq_self`: a text of small characters is its own small form, wherever its sigmas stand.
* `lowerAfter_append`: the small form of a part of a text, between what stands around it.
* `isSmall_of_mem_lowercase`: every character of a small form is small.
* `mem_of_mem_lowercase`: a character of a small form that is blank or comes before the letter `a`
  was there before.
* `head?_lowercase_any_isBlank`, `getLast?_lowercase_any_isBlank`: small forms have blanks at an
  end only if the text had.
-/

namespace Lineage

/-! ## Runs -/

namespace CaseRun

/-- No image of `r` is a capital letter of `q`: the images lie apart from `q`, or they are even
and `q` is odd, or the other way. -/
def misses (r q : CaseRun) : Bool :=
  Nat.blt (r.image + (r.last - r.first)) q.first || Nat.blt q.last r.image ||
    ((r.first == r.last || r.step == 2) && q.step == 2 && (r.image + q.first) % 2 == 1)

theorem small?_eq_some {r : CaseRun} {n m : Nat} (h : r.small? n = some m) :
    ∃ i, i ≤ r.last - r.first ∧ i % r.step = 0 ∧ m = r.image + i := by
  unfold small? at h
  split at h
  · cases h
    exact ⟨n - r.first, by omega, by omega, rfl⟩
  · cases h

theorem small?_eq_none {r q : CaseRun} (hrq : r.misses q = true) {n m : Nat}
    (h : r.small? n = some m) : q.small? m = none := by
  obtain ⟨i, hi, hstep, rfl⟩ := small?_eq_some h
  unfold small?
  rw [if_neg]
  rintro ⟨hlo, hhi, hq⟩
  simp only [misses, Bool.or_eq_true, Bool.and_eq_true, Nat.blt_eq, beq_iff_eq] at hrq
  rcases hrq with (hlt | hlt) | ⟨⟨hr, hq2⟩, hodd⟩
  · omega
  · omega
  · rw [hq2] at hq
    have heven : i % 2 = 0 := by
      rcases hr with hone | htwo
      · omega
      · rwa [htwo] at hstep
    omega

end CaseRun

/-- The dotted capital letter that has no run. -/
def dottedRun : CaseRun := ⟨0x0130, 0x0130, 1, 0⟩

theorem caseRuns_misses : caseRuns.all (fun r => (dottedRun :: caseRuns).all r.misses) = true := by
  decide +kernel

/-- The images of a run are characters, come after the sign before `a`, and are not blank. -/
def CaseRun.letters (r : CaseRun) : Bool :=
  Nat.ble 0x61 r.image &&
    (Nat.blt (r.image + (r.last - r.first)) 0xD800 ||
      (Nat.blt 0xDFFF r.image && Nat.blt (r.image + (r.last - r.first)) 0x110000)) &&
    CharClass.blank.ranges.all (fun b =>
      Nat.blt (r.image + (r.last - r.first)) b.1 || Nat.blt b.2 r.image)

theorem caseRuns_letters : caseRuns.all CaseRun.letters = true := by decide +kernel

namespace Text

/-! ## Small characters -/

/-- The mapping to small letters leaves the character alone. -/
def IsSmall (c : Char) : Prop := lowerChar c = [c]

instance (c : Char) : Decidable (IsSmall c) := inferInstanceAs (Decidable (_ = _))

theorem isSmall_of_no_run {c : Char} (hc : c ≠ 'İ') (h : ∀ r ∈ caseRuns, r.small? c.toNat = none) :
    IsSmall c := by
  unfold IsSmall lowerChar
  rw [if_neg hc, List.findSome?_eq_none_iff.2 h]

/-- What the table says about the small form of a capital letter. -/
theorem lowerChar_of_run {c : Char} (hc : c ≠ 'İ') {n : Nat}
    (h : caseRuns.findSome? (fun r => r.small? c.toNat) = some n) :
    lowerChar c = [Char.ofNat n] ∧ IsSmall (Char.ofNat n) ∧ 0x61 ≤ (Char.ofNat n).toNat ∧
      isBlank (Char.ofNat n) = false := by
  obtain ⟨r, hr, hn⟩ := List.exists_of_findSome?_eq_some h
  obtain ⟨i, hi, -, rfl⟩ := CaseRun.small?_eq_some hn
  have hletters := List.all_eq_true.1 caseRuns_letters r hr
  simp only [CaseRun.letters, Bool.and_eq_true, Bool.or_eq_true, Nat.blt_eq, Nat.ble_eq,
    List.all_eq_true] at hletters
  obtain ⟨⟨hlow, hvalid⟩, hblank⟩ := hletters
  have htoNat : (Char.ofNat (r.image + i)).toNat = r.image + i := by
    have : (r.image + i).isValidChar := by
      unfold Nat.isValidChar
      omega
    rw [Char.ofNat, dif_pos this]
    rfl
  have hmiss := List.all_eq_true.1 (List.all_eq_true.1 caseRuns_misses r hr)
  refine ⟨by rw [lowerChar, if_neg hc, h], ?_, by omega, ?_⟩
  · refine isSmall_of_no_run ?_ fun q hq => ?_
    · intro hdot
      have hd := CaseRun.small?_eq_none (hmiss dottedRun List.mem_cons_self) hn
      rw [← htoNat, hdot] at hd
      exact absurd hd (by decide)
    · rw [htoNat]
      exact CaseRun.small?_eq_none (hmiss q (List.mem_cons_of_mem _ hq)) hn
  · simp only [isBlank, CharClass.contains, List.any_eq_false, Bool.and_eq_true, decide_eq_true_eq,
      htoNat]
    intro b hb
    rcases hblank b hb with h | h <;> omega

/-- A character of a small form is the character itself or a new letter. -/
theorem mem_lowerChar {c d : Char} (h : d ∈ lowerChar c) :
    IsSmall d ∧ (d = c ∨ 0x61 ≤ d.toNat ∧ isBlank d = false) := by
  by_cases hc : c = 'İ'
  · subst hc
    have hd : d = 'i' ∨ d = '\u0307' := by simpa [lowerChar] using h
    rcases hd with rfl | rfl
    · exact ⟨by decide +kernel, Or.inr (by decide)⟩
    · exact ⟨by decide +kernel, Or.inr (by decide)⟩
  · cases hrun : caseRuns.findSome? (fun r => r.small? c.toNat) with
    | none =>
      have hsmall := isSmall_of_no_run hc (List.findSome?_eq_none_iff.1 hrun)
      rw [hsmall, List.mem_singleton] at h
      exact ⟨h ▸ hsmall, Or.inl h⟩
    | some n =>
      obtain ⟨heq, hsmall, hlow, hblank⟩ := lowerChar_of_run hc hrun
      rw [heq, List.mem_singleton] at h
      subst h
      exact ⟨hsmall, Or.inr ⟨hlow, hblank⟩⟩

theorem lowerChar_ne_nil (c : Char) : lowerChar c ≠ [] := by
  unfold lowerChar
  split
  · simp
  · split <;> simp

/-- The small form of a character between the texts before and after it. -/
def lowerWithin (seen : Text) (c : Char) (rest : Text) : Text :=
  if c = 'Σ' then [if startsCased seen && !startsCased rest then 'ς' else 'σ'] else lowerChar c

/-- The small form of a text between the texts before and after it. -/
def lowerBetween (seen : Text) : Text → Text → Text
  | [], _ => []
  | c :: rest, after => lowerWithin seen c (rest ++ after) ++ lowerBetween (c :: seen) rest after

theorem lowerAfter_cons (seen : Text) (c : Char) (rest : Text) :
    lowerAfter seen (c :: rest) = lowerWithin seen c rest ++ lowerAfter (c :: seen) rest := rfl

theorem lowerWithin_ne_nil (seen : Text) (c : Char) (rest : Text) :
    lowerWithin seen c rest ≠ [] := by
  unfold lowerWithin
  split
  · simp
  · exact lowerChar_ne_nil c

theorem mem_lowerWithin {seen rest : Text} {c d : Char} (h : d ∈ lowerWithin seen c rest) :
    IsSmall d ∧ (d = c ∨ 0x61 ≤ d.toNat ∧ isBlank d = false) := by
  unfold lowerWithin at h
  split at h
  · rw [List.mem_singleton] at h
    subst h
    split
    · exact ⟨by decide +kernel, Or.inr (by decide)⟩
    · exact ⟨by decide +kernel, Or.inr (by decide)⟩
  · exact mem_lowerChar h

/-- A capital sigma is not small, so among small characters no word end is ever looked for. -/
theorem lowerWithin_of_isSmall (seen : Text) {c : Char} (hc : IsSmall c) (rest : Text) :
    lowerWithin seen c rest = [c] := by
  unfold lowerWithin
  rw [if_neg]
  · exact hc
  · rintro rfl
    exact absurd hc (by decide +kernel)

/-! ## Small forms -/

theorem lowerAfter_append (seen a b : Text) :
    lowerAfter seen (a ++ b) = lowerBetween seen a b ++ lowerAfter (a.reverse ++ seen) b := by
  induction a generalizing seen with
  | nil => rfl
  | cons c a ih =>
    rw [List.cons_append, lowerAfter_cons, ih, lowerBetween, List.append_assoc,
      List.reverse_cons, List.append_assoc]
    rfl

theorem lowerBetween_nil (seen s : Text) : lowerBetween seen s [] = lowerAfter seen s := by
  have happend := lowerAfter_append seen s []
  rw [List.append_nil] at happend
  rw [happend]
  exact (List.append_nil _).symm

theorem lowerBetween_eq_self (seen : Text) {s : Text} (h : ∀ c ∈ s, IsSmall c) (after : Text) :
    lowerBetween seen s after = s := by
  induction s generalizing seen with
  | nil => rfl
  | cons c rest ih =>
    rw [lowerBetween, lowerWithin_of_isSmall seen (h c List.mem_cons_self),
      ih _ fun d hd => h d (List.mem_cons_of_mem _ hd)]
    rfl

theorem lowerAfter_eq_self (seen : Text) {s : Text} (h : ∀ c ∈ s, IsSmall c) :
    lowerAfter seen s = s := by
  rw [← lowerBetween_nil, lowerBetween_eq_self seen h]

theorem lowercase_eq_self {s : Text} (h : ∀ c ∈ s, IsSmall c) : lowercase s = s :=
  lowerAfter_eq_self [] h

theorem mem_lowerBetween {seen s after : Text} {d : Char} (h : d ∈ lowerBetween seen s after) :
    IsSmall d ∧ (d ∈ s ∨ 0x61 ≤ d.toNat ∧ isBlank d = false) := by
  induction s generalizing seen with
  | nil => cases h
  | cons c rest ih =>
    rw [lowerBetween, List.mem_append] at h
    rcases h with h | h
    · obtain ⟨hsmall, rfl | hnew⟩ := mem_lowerWithin h
      · exact ⟨hsmall, Or.inl List.mem_cons_self⟩
      · exact ⟨hsmall, Or.inr hnew⟩
    · obtain ⟨hsmall, hmem | hnew⟩ := ih h
      · exact ⟨hsmall, Or.inl (List.mem_cons_of_mem _ hmem)⟩
      · exact ⟨hsmall, Or.inr hnew⟩

theorem mem_lowerAfter {seen s : Text} {d : Char} (h : d ∈ lowerAfter seen s) :
    IsSmall d ∧ (d ∈ s ∨ 0x61 ≤ d.toNat ∧ isBlank d = false) := by
  rw [← lowerBetween_nil] at h
  exact mem_lowerBetween h

theorem isSmall_of_mem_lowercase {s : Text} {c : Char} (h : c ∈ lowercase s) : IsSmall c :=
  (mem_lowerAfter h).1

theorem mem_of_mem_lowercase {s : Text} {c : Char} (h : c ∈ lowercase s)
    (hc : c.toNat < 0x61 ∨ isBlank c = true) : c ∈ s := by
  rcases (mem_lowerAfter h).2 with hmem | ⟨hlow, hblank⟩
  · exact hmem
  · rcases hc with hc | hc
    · omega
    · rw [hblank] at hc
      cases hc

theorem lowerAfter_eq_nil_iff {seen s : Text} : lowerAfter seen s = [] ↔ s = [] := by
  cases s with
  | nil => simp [lowerAfter]
  | cons c rest => simp [lowerAfter_cons, lowerWithin_ne_nil]

/-! ## Blanks at the ends -/

theorem isBlank_lowerWithin {seen rest : Text} {c d : Char} (hc : isBlank c = false)
    (h : d ∈ lowerWithin seen c rest) : isBlank d = false := by
  rcases (mem_lowerWithin h).2 with rfl | ⟨-, hd⟩
  · exact hc
  · exact hd

theorem head?_lowercase_any_isBlank {s : Text} (h : s.head?.any isBlank = false) :
    (lowercase s).head?.any isBlank = false := by
  cases s with
  | nil => rfl
  | cons c rest =>
    obtain ⟨d, ds, hd⟩ := List.exists_cons_of_ne_nil (lowerWithin_ne_nil [] c rest)
    have hblank : isBlank d = false :=
      isBlank_lowerWithin (by simpa using h) (hd ▸ List.mem_cons_self)
    rw [lowercase, lowerAfter_cons, hd]
    simpa using hblank

theorem getLast?_lowerAfter_any_isBlank {seen s : Text} (h : s.getLast?.any isBlank = false) :
    (lowerAfter seen s).getLast?.any isBlank = false := by
  induction s generalizing seen with
  | nil => rfl
  | cons c rest ih =>
    rw [lowerAfter_cons, List.getLast?_append]
    by_cases hrest : rest = []
    · subst hrest
      obtain ⟨d, hd⟩ := Option.isSome_iff_exists.1
        (List.getLast?_isSome.2 (lowerWithin_ne_nil seen c []))
      have hblank : isBlank d = false :=
        isBlank_lowerWithin (by simpa using h) (List.mem_of_getLast? hd)
      rw [hd]
      simpa [lowerAfter] using hblank
    · have hlast : (lowerAfter (c :: seen) rest).getLast?.isSome :=
        List.getLast?_isSome.2 (mt lowerAfter_eq_nil_iff.1 hrest)
      obtain ⟨d, hd⟩ := Option.isSome_iff_exists.1 hlast
      have hih : (lowerAfter (c :: seen) rest).getLast?.any isBlank = false := by
        rw [List.getLast?_cons_of_ne_nil hrest] at h
        exact ih h
      rw [hd] at hih ⊢
      exact hih

theorem getLast?_lowercase_any_isBlank {s : Text} (h : s.getLast?.any isBlank = false) :
    (lowercase s).getLast?.any isBlank = false :=
  getLast?_lowerAfter_any_isBlank h

end Text

end Lineage
