import Lineage.Proofs.WrittenLines

/-!
# Where words end

The small form of a capital sigma depends on the text around it, and on nothing of it but whether a
cased character is met on either side (`startsCased`). So the small form of a part of a text is that
of the part by itself, unless a sigma at its edge is seen in another place of its word:

* `trim_lowerBetween_eq_toName_iff`: what follows the part counts if the part ends with a sigma that
  would end a word (`EndsWithSigma`), and a word goes on after it.
* `trim_lowerAfter_eq_toName_iff`: what stands before the part counts if the part begins with a
  sigma that would stand alone (`BeginsWithSigma`), and a word comes before it.

Blanks are neither cased nor ignored, so they stand between words as the end of a text does, and it
is the same to trim before small letters or after them (`trim_lowercase_eq_toName`).
-/

namespace Lineage

/-! ## Classes that lie apart -/

namespace CharClass

/-- No character is in both classes, as their ranges show. -/
def apart (k q : CharClass) : Bool :=
  k.ranges.all (fun r => q.ranges.all (fun t => Nat.blt r.2 t.1 || Nat.blt t.2 r.1))

/-- The characters between the ends of the runs of capital letters. -/
def capital : CharClass where
  ranges := caseRuns.map (fun r => (r.first, r.last))

variable {k q : CharClass} {c : Char}

theorem not_contains_of_apart (h : k.apart q = true) (hc : k.contains c = true) :
    q.contains c = false := by
  obtain ⟨r, hr, hrc⟩ := List.any_eq_true.1 hc
  have hbounds : r.1 ≤ c.toNat ∧ c.toNat ≤ r.2 := by simpa using hrc
  apply List.any_eq_false.2
  intro t ht hct
  have hbounds' : t.1 ≤ c.toNat ∧ c.toNat ≤ t.2 := by simpa using hct
  have happart := List.all_eq_true.1 (List.all_eq_true.1 h r hr) t ht
  rw [Bool.or_eq_true, Nat.blt_eq, Nat.blt_eq] at happart
  omega

theorem small?_eq_none_of_not_capital (hc : capital.contains c = false) {r : CaseRun}
    (hr : r ∈ caseRuns) : r.small? c.toNat = none := by
  have hrange := List.any_eq_false.1 hc (r.first, r.last) (List.mem_map.2 ⟨r, hr, rfl⟩)
  have hout : ¬ (r.first ≤ c.toNat ∧ c.toNat ≤ r.last) := by simpa using hrange
  rw [CaseRun.small?, if_neg]
  intro hin
  exact hout ⟨hin.1, hin.2.1⟩

end CharClass

namespace Text

/-! ## What is seen of a text -/

section Seen

variable {a b s t : Text}

theorem startsCased_cons (c : Char) (s : Text) :
    startsCased (c :: s) =
      if CharClass.caseIgnorable.contains c = true then startsCased s
      else CharClass.cased.contains c := by
  unfold startsCased
  by_cases hc : CharClass.caseIgnorable.contains c = true
  · rw [List.dropWhile_cons_of_pos hc, if_pos hc]
  · rw [List.dropWhile_cons_of_neg hc, if_neg hc]
    rfl

theorem startsCased_cons_congr (c : Char) (h : startsCased s = startsCased t) :
    startsCased (c :: s) = startsCased (c :: t) := by
  rw [startsCased_cons, startsCased_cons, h]

theorem startsCased_append_congr (a : Text) (h : startsCased s = startsCased t) :
    startsCased (a ++ s) = startsCased (a ++ t) := by
  induction a with
  | nil => exact h
  | cons c a ih => exact startsCased_cons_congr c ih

theorem startsCased_append (ha : ∀ c ∈ a, CharClass.caseIgnorable.contains c = true) (s : Text) :
    startsCased (a ++ s) = startsCased s := by
  rw [startsCased, List.dropWhile_append_of_pos ha]
  rfl

/-- A text that case does not ignore as a whole hides what comes after it. -/
theorem startsCased_append_of_not (h : ¬ ∀ c ∈ a, CharClass.caseIgnorable.contains c = true)
    (s : Text) : startsCased (a ++ s) = startsCased a := by
  induction a with
  | nil => exact absurd (List.forall_mem_nil _) h
  | cons c a ih =>
    rw [List.cons_append, startsCased_cons, startsCased_cons]
    by_cases hc : CharClass.caseIgnorable.contains c = true
    · rw [if_pos hc, if_pos hc]
      apply ih
      intro ha
      exact h (List.forall_mem_cons.2 ⟨hc, ha⟩)
    · rw [if_neg hc, if_neg hc]

/-- A capital sigma is cased and not ignored. -/
theorem startsCased_sigma (s : Text) : startsCased ('Σ' :: s) = true := by
  have hignored : CharClass.caseIgnorable.contains 'Σ' = false := by decide +kernel
  have hcased : CharClass.cased.contains 'Σ' = true := by decide +kernel
  rw [startsCased_cons, hignored, hcased]
  rfl

theorem sigma_not_mem (h : ∀ c ∈ a, CharClass.caseIgnorable.contains c = true) : 'Σ' ∉ a := by
  intro hmem
  exact absurd (h 'Σ' hmem) (by decide +kernel)

end Seen

/-! ## Small forms of parts -/

section Parts

variable {seen seen' after after' : Text}

theorem lowerBetween_append (seen a b after : Text) :
    lowerBetween seen (a ++ b) after =
      lowerBetween seen a (b ++ after) ++ lowerBetween (a.reverse ++ seen) b after := by
  induction a generalizing seen with
  | nil => rfl
  | cons c a ih =>
    rw [List.cons_append, lowerBetween, lowerBetween, ih, List.append_assoc, List.append_assoc,
      List.reverse_cons, List.append_assoc]
    rfl

/-- Of what stands around a text it counts only whether a cased character is met there. -/
theorem lowerBetween_congr (s : Text) (hseen : startsCased seen = startsCased seen')
    (hafter : startsCased after = startsCased after') :
    lowerBetween seen s after = lowerBetween seen' s after' := by
  induction s generalizing seen seen' with
  | nil => rfl
  | cons c rest ih =>
    have hrest := startsCased_append_congr rest hafter
    rw [lowerBetween, lowerBetween, ih (startsCased_cons_congr c hseen), lowerWithin, lowerWithin,
      hseen, hrest]

theorem lowerBetween_of_not_mem {s : Text} (h : 'Σ' ∉ s) (seen after : Text) :
    lowerBetween seen s after = s.flatMap lowerChar := by
  induction s generalizing seen with
  | nil => rfl
  | cons c rest ih =>
    obtain ⟨hc, hrest⟩ := not_or.1 (mt List.mem_cons.2 h)
    rw [lowerBetween, ih hrest, lowerWithin, if_neg (Ne.symm hc), List.flatMap_cons]

/-- A sigma hides the texts on either side of it from each other. -/
theorem lowerBetween_sigma (seen a b after : Text) :
    lowerBetween seen (a ++ 'Σ' :: b) after =
      lowerBetween seen a ['Σ'] ++
        (if startsCased (a.reverse ++ seen) && !startsCased (b ++ after) then 'ς' else 'σ') ::
          lowerBetween ['Σ'] b after := by
  have hbefore : lowerBetween seen a ('Σ' :: b ++ after) = lowerBetween seen a ['Σ'] := by
    apply lowerBetween_congr a rfl
    rw [List.cons_append, startsCased_sigma, startsCased_sigma]
  have hbehind :
      lowerBetween ('Σ' :: (a.reverse ++ seen)) b after = lowerBetween ['Σ'] b after := by
    apply lowerBetween_congr b _ rfl
    rw [startsCased_sigma, startsCased_sigma]
  rw [lowerBetween_append, hbefore, lowerBetween, hbehind]
  rfl

end Parts

/-! ## Blanks -/

theorem blank_apart : [CharClass.capital, CharClass.cased, CharClass.caseIgnorable].all
    CharClass.blank.apart = true := by
  decide +kernel

/-- Small forms leave blanks alone, and blanks end words. -/
theorem plain_of_isBlank {c : Char} (h : isBlank c = true) :
    IsSmall c ∧ startsCased [c] = false ∧ CharClass.caseIgnorable.contains c = false := by
  have hclass : ∀ k ∈ [CharClass.capital, CharClass.cased, CharClass.caseIgnorable],
      k.contains c = false := fun k hk =>
    CharClass.not_contains_of_apart (List.all_eq_true.1 blank_apart k hk) h
  simp only [List.forall_mem_cons] at hclass
  obtain ⟨hcapital, hcased, hignored, -⟩ := hclass
  refine ⟨?_, ?_, hignored⟩
  · have hdotted : c ≠ 'İ' := by
      rintro rfl
      exact absurd h (by decide)
    exact isSmall_of_no_run hdotted fun r hr => CharClass.small?_eq_none_of_not_capital hcapital hr
  · rw [startsCased_cons, hignored, hcased]
    rfl

theorem startsCased_of_blank {s : Text} (h : ∀ c ∈ s, isBlank c = true) :
    startsCased s = false := by
  cases s with
  | nil => rfl
  | cons c s =>
    obtain ⟨-, hcased, hkept⟩ := plain_of_isBlank (h c List.mem_cons_self)
    rw [startsCased_cons, hkept] at hcased ⊢
    exact hcased

theorem exists_eq_append_trim (s : Text) :
    ∃ a b, s = a ++ (trim s ++ b) ∧ (∀ c ∈ a, isBlank c = true) ∧ ∀ c ∈ b, isBlank c = true := by
  refine ⟨s.takeWhile isBlank, (s.dropWhile isBlank).rtakeWhile isBlank, ?_, ?_, ?_⟩
  · have hback : trim s ++ (s.dropWhile isBlank).rtakeWhile isBlank = s.dropWhile isBlank :=
      List.rdropWhile_append_rtakeWhile
    rw [hback, List.takeWhile_append_dropWhile]
  · intro c hc
    exact List.mem_takeWhile_imp hc
  · intro c hc
    exact List.mem_rtakeWhile_imp hc

/-- It is the same to trim a text before or after it is put in small letters. -/
theorem trim_lowercase_eq_toName (s : Text) : trim (lowercase s) = toName s := by
  obtain ⟨a, b, hs, ha, hb⟩ := exists_eq_append_trim s
  have hfront : lowerBetween [] a (trim s ++ b) = a :=
    lowerBetween_eq_self [] (fun c hc => (plain_of_isBlank (ha c hc)).1) _
  have hback : lowerAfter ((trim s).reverse ++ (a.reverse ++ [])) b = b :=
    lowerAfter_eq_self _ fun c hc => (plain_of_isBlank (hb c hc)).1
  have hinner : lowerBetween (a.reverse ++ []) (trim s) b = toName s := by
    rw [toName, lowercase, ← lowerBetween_nil]
    apply lowerBetween_congr
    · rw [List.append_nil]
      exact startsCased_of_blank fun c hc => ha c (List.mem_reverse.1 hc)
    · exact startsCased_of_blank hb
  have hlower : lowercase s = a ++ toName s ++ b := by
    calc lowercase s = lowerAfter [] (a ++ (trim s ++ b)) := congrArg lowercase hs
      _ = lowerBetween [] a (trim s ++ b) ++
            (lowerBetween (a.reverse ++ []) (trim s) b ++
              lowerAfter ((trim s).reverse ++ (a.reverse ++ [])) b) := by
        rw [lowerAfter_append, lowerAfter_append]
      _ = a ++ toName s ++ b := by rw [hfront, hinner, hback, List.append_assoc]
  rw [hlower, trim, trimMatches_append (toName s) ha hb]
  exact trim_lowercase (trim_trim s)

theorem exists_not_blank_of_trim_ne_nil {s : Text} (h : trim s ≠ []) :
    ∃ c ∈ s, isBlank c = false := by
  by_contra hnone
  have hall : ∀ c ∈ s, isBlank c = true := fun c hc =>
    Bool.of_not_eq_false fun hblank => hnone ⟨c, hc, hblank⟩
  have htrim := trimMatches_append (b := []) [] hall nofun
  rw [List.append_nil, List.append_nil] at htrim
  exact h htrim

theorem trim_ne_nil_of_mem {s : Text} {c : Char} (hc : c ∈ s) (hblank : isBlank c = false) :
    trim s ≠ [] := by
  obtain ⟨a, b, rfl⟩ := List.append_of_mem hc
  rw [trim, trimMatches_append_cons a hblank b]
  simp

/-- A character that is not blank has a small form that is not. -/
theorem trim_lowerBetween_ne_nil {s : Text} (h : trim s ≠ []) (seen after : Text) :
    trim (lowerBetween seen s after) ≠ [] := by
  obtain ⟨c, hc, hblank⟩ := exists_not_blank_of_trim_ne_nil h
  obtain ⟨a, b, rfl⟩ := List.append_of_mem hc
  obtain ⟨d, ds, hd⟩ :=
    List.exists_cons_of_ne_nil (lowerWithin_ne_nil (a.reverse ++ seen) c (b ++ after))
  have hmem : d ∈ lowerWithin (a.reverse ++ seen) c (b ++ after) := by
    rw [hd]
    exact List.mem_cons_self
  rw [lowerBetween_append, lowerBetween]
  apply trim_ne_nil_of_mem _ (isBlank_lowerWithin hblank hmem)
  exact List.mem_append_right _ (List.mem_append_left _ hmem)

/-! ## Sigmas at the edges -/

/-- But for characters that case ignores, the text ends with a capital sigma within a word. Where
nothing follows, this sigma ends the word. -/
def EndsWithSigma (s : Text) : Prop :=
  ∃ a b, s = a ++ 'Σ' :: b ∧ (∀ c ∈ b, CharClass.caseIgnorable.contains c = true) ∧
    startsCased a.reverse = true

/-- But for characters that case ignores, the text begins with a capital sigma after which no word
goes on. Where nothing stands before it, this sigma is not the end of a word. -/
def BeginsWithSigma (s : Text) : Prop :=
  ∃ a b, s = a ++ 'Σ' :: b ∧ (∀ c ∈ a, CharClass.caseIgnorable.contains c = true) ∧
    startsCased b = false

/-- Two texts that are different in a character that is not blank are different when trimmed. -/
theorem trim_append_cons_inj {a b : Text} {x y : Char} (hx : isBlank x = false)
    (hy : isBlank y = false) (h : trim (a ++ x :: b) = trim (a ++ y :: b)) : x = y := by
  have htrim : ∀ {z : Char}, isBlank z = false →
      trim (a ++ z :: b) = a.dropWhile isBlank ++ z :: b.rdropWhile isBlank := fun hz =>
    trimMatches_append_cons a hz b
  rw [htrim hx, htrim hy] at h
  exact (List.cons.inj (List.append_cancel_left h)).1

section Edges

variable {s : Text}

/-- The induction goes through the text from its start, so what is before a sigma comes to lie
behind, in `seen`. -/
theorem lowerBetween_of_not_ends (seen : Text)
    (h : ∀ a b, s = a ++ 'Σ' :: b → (∀ c ∈ b, CharClass.caseIgnorable.contains c = true) →
      startsCased (a.reverse ++ seen) = false) (after after' : Text) :
    lowerBetween seen s after = lowerBetween seen s after' := by
  induction s generalizing seen with
  | nil => rfl
  | cons c rest ih =>
    have hbehind : lowerBetween (c :: seen) rest after = lowerBetween (c :: seen) rest after' := by
      apply ih
      intro a b hrest hb
      have hseen := h (c :: a) b (by rw [hrest]; rfl) hb
      rwa [List.reverse_cons, List.append_assoc] at hseen
    have hhead : lowerWithin seen c (rest ++ after) = lowerWithin seen c (rest ++ after') := by
      by_cases hall : ∀ d ∈ rest, CharClass.caseIgnorable.contains d = true
      · by_cases hc : c = 'Σ'
        · have hseen : startsCased seen = false := h [] rest (by rw [hc]; rfl) hall
          rw [lowerWithin, lowerWithin, hseen]
          rfl
        · rw [lowerWithin, lowerWithin, if_neg hc, if_neg hc]
      · rw [lowerWithin, lowerWithin, startsCased_append_of_not hall,
          startsCased_append_of_not hall]
    rw [lowerBetween, lowerBetween, hbehind, hhead]

theorem lowerBetween_of_not_begins {after : Text}
    (h : ∀ a b, s = a ++ 'Σ' :: b → (∀ c ∈ a, CharClass.caseIgnorable.contains c = true) →
      startsCased (b ++ after) = true) (seen seen' : Text) :
    lowerBetween seen s after = lowerBetween seen' s after := by
  induction s generalizing seen seen' with
  | nil => rfl
  | cons c rest ih =>
    by_cases hc : c = 'Σ'
    · have hrest : startsCased (rest ++ after) = true := h [] rest (by rw [hc]; rfl) nofun
      have hbehind :
          lowerBetween (c :: seen) rest after = lowerBetween (c :: seen') rest after := by
        apply lowerBetween_congr rest _ rfl
        rw [hc, startsCased_sigma, startsCased_sigma]
      rw [lowerBetween, lowerBetween, hbehind, lowerWithin, lowerWithin, hrest, Bool.not_true,
        Bool.and_false, Bool.and_false]
    · have hbehind :
          lowerBetween (c :: seen) rest after = lowerBetween (c :: seen') rest after := by
        by_cases hignored : CharClass.caseIgnorable.contains c = true
        · apply ih
          intro a b hrest ha
          exact h (c :: a) b (by rw [hrest]; rfl) (List.forall_mem_cons.2 ⟨hignored, ha⟩)
        · apply lowerBetween_congr rest _ rfl
          rw [startsCased_cons, startsCased_cons, if_neg hignored, if_neg hignored]
      rw [lowerBetween, lowerBetween, hbehind, lowerWithin, lowerWithin, if_neg hc, if_neg hc]

/-- What follows a text is seen in its small form if the text ends with a sigma that would end a
word, and a word goes on. -/
theorem trim_lowerBetween_eq_toName_iff {after : Text} :
    trim (lowerBetween [] s after) = toName s ↔
      ¬ (EndsWithSigma s ∧ startsCased after = true) := by
  constructor
  · rintro h ⟨⟨a, b, rfl, hb, ha⟩, hafter⟩
    have hlast : startsCased (b ++ after) = true ∧ startsCased (b ++ []) = false :=
      ⟨(startsCased_append hb after).trans hafter, startsCased_append hb []⟩
    rw [← trim_lowercase_eq_toName, lowercase, ← lowerBetween_nil, lowerBetween_sigma,
      lowerBetween_sigma, lowerBetween_of_not_mem (sigma_not_mem hb),
      lowerBetween_of_not_mem (sigma_not_mem hb), List.append_nil, ha, hlast.1, hlast.2] at h
    exact absurd (trim_append_cons_inj (by decide) (by decide) h) (by decide)
  · intro h
    have hsame : lowerBetween [] s after = lowercase s := by
      rw [lowercase, ← lowerBetween_nil]
      by_cases hafter : startsCased after = true
      · apply lowerBetween_of_not_ends
        intro a b hs hb
        rw [List.append_nil]
        by_contra ha
        exact h ⟨⟨a, b, hs, hb, by simpa using ha⟩, hafter⟩
      · exact lowerBetween_congr s rfl (eq_false_of_ne_true hafter)
    rw [hsame, trim_lowercase_eq_toName]

/-- What stands before a text is seen in its small form if the text begins with a sigma that would
stand alone, and a word comes before it. -/
theorem trim_lowerAfter_eq_toName_iff {seen : Text} :
    trim (lowerAfter seen s) = toName s ↔ ¬ (BeginsWithSigma s ∧ startsCased seen = true) := by
  rw [← lowerBetween_nil]
  constructor
  · rintro h ⟨⟨a, b, rfl, ha, hb⟩, hseen⟩
    have ha' : ∀ c ∈ a.reverse, CharClass.caseIgnorable.contains c = true := fun c hc =>
      ha c (List.mem_reverse.1 hc)
    have hfirst : startsCased (a.reverse ++ seen) = true ∧ startsCased (a.reverse ++ []) = false :=
      ⟨(startsCased_append ha' seen).trans hseen, startsCased_append ha' []⟩
    rw [← trim_lowercase_eq_toName, lowercase, ← lowerBetween_nil, lowerBetween_sigma,
      lowerBetween_sigma, lowerBetween_of_not_mem (sigma_not_mem ha),
      lowerBetween_of_not_mem (sigma_not_mem ha), hfirst.1, hfirst.2, List.append_nil, hb] at h
    exact absurd (trim_append_cons_inj (by decide) (by decide) h) (by decide)
  · intro h
    have hsame : lowerBetween seen s [] = lowercase s := by
      rw [lowercase, ← lowerBetween_nil]
      by_cases hseen : startsCased seen = true
      · apply lowerBetween_of_not_begins
        intro a b hs ha
        rw [List.append_nil]
        by_contra hb
        exact h ⟨⟨a, b, hs, ha, by simpa using hb⟩, hseen⟩
      · exact lowerBetween_congr s (eq_false_of_ne_true hseen) rfl
    rw [hsame, trim_lowercase_eq_toName]

end Edges

end Text

end Lineage
