import Lineage.Proofs.IntegerTexts

/-!
# Specifiers of number formats

The specifier of a format is its letter and, except for the plain text, its number in digits. A
specifier that is read has two digits at most, whereas the number of a format is not bounded. So a
format is read back from its specifier exactly if its number is at most 99, and from any other
specifier the plain text is read (`parse_toText`).

Reading gives no other numbers: two digits make a number of that size, and digits that make no
number, those of other scripts, stand for the letter's own (`le_of_parse`). Hence what is read
from any text is read back from its own specifier (`parse_toText_iff`).
-/

namespace Lineage.NumberFormat

open Text

/-- The number of a format; the plain text has none. -/
def number? : NumberFormat → Option Nat
  | general => none
  | fixed n | exponential n | decimal n => some n

/-- The letter of a format. -/
def letter : NumberFormat → Char
  | general => 'G'
  | fixed _ => 'F'
  | exponential _ => 'E'
  | decimal _ => 'D'

/-- The digits of a number, if there is one. -/
def optionalDigits (number : Option Nat) : Text := number.elim [] Decimal.digits

theorem toText_eq (f : NumberFormat) : f.toText = f.letter :: optionalDigits f.number? := by
  cases f <;> rfl

theorem ofLetter_letter (f : NumberFormat) : ofLetter f.letter f.number? = f := by cases f <;> rfl

theorem isBlank_letter (f : NumberFormat) : isBlank f.letter = false := by
  cases f <;> rfl

/-! ## Specifiers that are written -/

theorem decimalDigit_of_isDigit {c : Char} (h : c.isDigit = true) :
    CharClass.decimalDigit.contains c = true := by
  obtain ⟨hlow, hhigh⟩ := Char.isDigit_iff_toNat.1 h
  refine List.any_eq_true.2 ⟨(0x30, 0x39), List.mem_cons_self, ?_⟩
  exact Bool.and_eq_true_iff.2 ⟨decide_eq_true hlow, decide_eq_true hhigh⟩

theorem isDigit_of_mem_optionalDigits {c : Char} {number : Option Nat}
    (h : c ∈ optionalDigits number) : c.isDigit = true := by
  cases number with
  | none => cases h
  | some n => exact Decimal.isDigit_of_mem_digits h

theorem natOfText?_optionalDigits (number : Option Nat) :
    Decimal.natOfText? (optionalDigits number) = number := by
  cases number with
  | none => rfl
  | some n => exact Decimal.natOfText?_digits n

theorem length_optionalDigits_le_two_iff {number : Option Nat} :
    (optionalDigits number).length ≤ 2 ↔ ∀ n ∈ number, n ≤ 99 := by
  cases number with
  | none => exact iff_of_true (Nat.zero_le 2) nofun
  | some n =>
    rw [optionalDigits, Option.elim_some, Decimal.length_digits_le_iff (by decide)]
    simp only [Option.mem_some_iff, forall_eq']
    exact Nat.lt_succ_iff

/-- A letter and digits without blanks are read as they stand, unless there are too many digits. -/
theorem parse_cons {c : Char} {number : Text} (hc : isBlank c = false)
    (hnumber : ∀ d ∈ number, d.isDigit = true) :
    parse (c :: number) =
      if number.length ≤ 2 then ofLetter c (Decimal.natOfText? number) else general := by
  have htrim : trim (c :: number) = c :: number :=
    trim_of_not_blank
      (List.forall_mem_cons.2 ⟨hc, fun d hd => isBlank_of_isDigit (hnumber d hd)⟩)
  have hall : number.all CharClass.decimalDigit.contains = true :=
    List.all_eq_true.2 fun d hd => decimalDigit_of_isDigit (hnumber d hd)
  rw [parse, htrim]
  simp only [hall, and_true]

theorem parse_toText (f : NumberFormat) :
    parse f.toText = if ∀ n ∈ f.number?, n ≤ 99 then f else general := by
  have hdigits : ∀ d ∈ optionalDigits f.number?, d.isDigit = true :=
    fun _ => isDigit_of_mem_optionalDigits
  rw [toText_eq, parse_cons f.isBlank_letter hdigits, natOfText?_optionalDigits, ofLetter_letter]
  exact if_congr length_optionalDigits_le_two_iff rfl rfl

/-! ## Specifiers that are read -/

/-- The letter's own numbers have one digit. -/
theorem le_of_ofLetter {c : Char} {number : Option Nat} (hnumber : ∀ n ∈ number, n ≤ 99) :
    ∀ n ∈ (ofLetter c number).number?, n ≤ 99 := by
  have hgetD : ∀ own ≤ 99, number.getD own ≤ 99 := by
    intro own hown
    cases number with
    | none => exact hown
    | some n => exact hnumber n rfl
  unfold ofLetter
  split
  · exact fun n hn => Option.some_inj.1 hn ▸ hgetD 2 (by decide)
  · exact fun n hn => Option.some_inj.1 hn ▸ hgetD 6 (by decide)
  · exact fun n hn => Option.some_inj.1 hn ▸ hgetD 1 (by decide)
  · exact nofun

theorem le_of_parse (s : Text) : ∀ n ∈ (parse s).number?, n ≤ 99 := by
  unfold parse
  split
  · exact nofun
  · rename_i c number _
    split
    · rename_i hnumber
      apply le_of_ofLetter
      intro n hn
      have hlt := Decimal.lt_of_natOfText? hn
      have hpow : 10 ^ number.length ≤ 10 ^ 2 := Nat.pow_le_pow_right (by decide) hnumber.1
      omega
    · exact nofun

/-- A format is read back from its specifier exactly if it has no number or one of two digits. That
is so of every format that is read, from whatever text. -/
theorem parse_toText_iff :
    (∀ f : NumberFormat, parse f.toText = f ↔ ∀ n ∈ f.number?, n ≤ 99) ∧
      ∀ s : Text, (∀ n ∈ (parse s).number?, n ≤ 99) ∧ parse (parse s).toText = parse s := by
  constructor
  · intro f
    rw [parse_toText]
    split
    · rename_i hsmall
      exact iff_of_true rfl hsmall
    · rename_i hsmall
      refine iff_of_false (fun hgeneral => hsmall ?_) hsmall
      rw [← hgeneral]
      exact nofun
  · intro s
    refine ⟨le_of_parse s, ?_⟩
    rw [parse_toText, if_pos (le_of_parse s)]

/-- Blanks around a specifier and the case of its letter do not count, and digits of other scripts
make no number. -/
example : parse "\u2003d07\n".toList = decimal 7 ∧ parse "e\u0663".toList = exponential 6 ∧
    parse "F100".toList = general := by
  decide

end Lineage.NumberFormat
