import Lineage.Line
import Lineage.Proofs.QuotedValues
import Mathlib.Data.List.Basic
import Mathlib.Data.List.DropRight

/-!
# Written lines are read back

An entry that has a written form is read from it unchanged. So is a header, but for the end of its
parent: nothing keeps a parent from ending with a bracket or a colon, which are taken for the end
of the header, and then with a blank. The lines hold no line end.

* `Header.Recoverable.parse_line`: the line of a header is read under its name, with what is left
  of the parent.
* `Header.bind_recoveredParent_eq_self`: which parents are left whole.
* `Entry.parse_line`: the line of an entry whose key is a name is that entry. Without the conditions
  on its key it may be a comment or a header (`Entry.parse_line_eq`).
* `Header.names_of_parse?`, `Entry.isName_of_parse?`: what any line says is in normal form.
* `Header.unbroken_of_parse?`: what a line without line ends says holds none.
-/

namespace Lineage

namespace Text

/-! ## Line ends -/

theorem hasLineBreak_eq_false_iff {s : Text} :
    s.hasLineBreak = false ↔ '\n' ∉ s ∧ '\r' ∉ s := by
  simp only [hasLineBreak, List.any_eq_false, Bool.or_eq_true, decide_eq_true_eq, not_or]
  constructor
  · intro h
    exact ⟨fun hn => (h _ hn).1 rfl, fun hr => (h _ hr).2 rfl⟩
  · rintro ⟨hn, hr⟩ c hc
    exact ⟨fun h => hn (h ▸ hc), fun h => hr (h ▸ hc)⟩

@[simp] theorem hasLineBreak_append (a b : Text) :
    hasLineBreak (a ++ b) = (a.hasLineBreak || b.hasLineBreak) := List.any_append

@[simp] theorem hasLineBreak_cons (c : Char) (s : Text) :
    hasLineBreak (c :: s) = ((c = '\n' || c = '\r') || s.hasLineBreak) := List.any_cons

@[simp] theorem hasLineBreak_nil : hasLineBreak [] = false := rfl

theorem hasLineBreak_of_subset {s t : Text} (h : ∀ c ∈ t, c ∈ s) (hs : s.hasLineBreak = false) :
    t.hasLineBreak = false := by
  obtain ⟨hn, hr⟩ := hasLineBreak_eq_false_iff.1 hs
  exact hasLineBreak_eq_false_iff.2 ⟨fun hc => hn (h _ hc), fun hc => hr (h _ hc)⟩

theorem hasLineBreak_lowercase {s : Text} (h : s.hasLineBreak = false) :
    (lowercase s).hasLineBreak = false := by
  obtain ⟨hn, hr⟩ := hasLineBreak_eq_false_iff.1 h
  exact hasLineBreak_eq_false_iff.2
    ⟨fun hc => hn (mem_of_mem_lowercase hc (Or.inl (by decide))),
      fun hc => hr (mem_of_mem_lowercase hc (Or.inl (by decide)))⟩

theorem hasLineBreak_encodeValue {v : Text} (h : v.hasLineBreak = false) :
    (encodeValue v).hasLineBreak = false := by
  rw [encodeValue_eq]
  split
  · exact h
  · simp [h]

/-! ## Edges -/

theorem isBlank_of_lineEdge {c : Char} (h : Mark.lineEdges.contains c = true) :
    isBlank c = true := by
  have hc : c = ' ' ∨ c = '\t' := by simpa [Mark.lineEdges] using h
  rcases hc with rfl | rfl
  · decide
  · decide

theorem any_lineEdge_of_any_isBlank {o : Option Char} (h : o.any isBlank = false) :
    o.any Mark.lineEdges.contains = false := by
  cases o with
  | none => rfl
  | some c =>
    rw [Option.any_some] at h ⊢
    by_contra hedge
    have hblank := isBlank_of_lineEdge (by simpa only [Bool.not_eq_false] using hedge)
    rw [hblank] at h
    cases h

/-! ## Trimming at one end -/

section Trimming

variable {p : Char → Bool} {a s : Text}

theorem rdropWhile_append (p : Char → Bool) (a b : Text) :
    (a ++ b).rdropWhile p =
      if b.rdropWhile p = [] then a.rdropWhile p else a ++ b.rdropWhile p := by
  unfold List.rdropWhile
  rw [List.reverse_append, List.dropWhile_append]
  by_cases hb : b.reverse.dropWhile p = []
  · simp [hb]
  · simp [hb, List.reverse_append]

theorem rdropWhile_eq_self (h : s.getLast?.any p = false) : s.rdropWhile p = s := by
  rw [List.rdropWhile, dropWhile_eq_self (by rwa [List.head?_reverse]), List.reverse_reverse]

theorem length_rdropWhile_lt (h : s.getLast?.any p = true) :
    (s.rdropWhile p).length < s.length := by
  cases s using List.reverseRecOn with
  | nil => cases h
  | append_singleton s c =>
    rw [List.getLast?_concat, Option.any_some] at h
    have hle := (List.rdropWhile_prefix p s).length_le
    rw [List.rdropWhile_concat_pos p s c h, List.length_append]
    exact Nat.lt_of_le_of_lt hle (Nat.lt_succ_self _)

theorem trimMatches_append_of_head (hne : a ≠ []) (hhead : a.head?.any p = false)
    (hlast : a.getLast?.any p = false) (b : Text) :
    trimMatches p (a ++ b) = a ++ b.rdropWhile p := by
  have hstart : (a ++ b).dropWhile p = a ++ b := by
    refine dropWhile_eq_self ?_
    rwa [List.head?_append_of_ne_nil _ hne]
  have hend : trimMatches p (a ++ b) = (a ++ b).rdropWhile p := by
    rw [trimMatches, hstart, List.rdropWhile]
  rw [hend, rdropWhile_append, rdropWhile_eq_self hlast]
  split
  · rename_i hb
    rw [hb, List.append_nil]
  · rfl

/-- A character that is not in the class keeps what is around it apart. -/
theorem trimMatches_append_cons (a : Text) {c : Char} (hc : p c = false) (b : Text) :
    trimMatches p (a ++ c :: b) = a.dropWhile p ++ c :: b.rdropWhile p := by
  have hstart : (a ++ c :: b).dropWhile p = a.dropWhile p ++ c :: b := by
    rw [List.dropWhile_append]
    split
    · rename_i ha
      rw [List.isEmpty_iff.1 ha, List.dropWhile_cons_of_neg (by simp [hc]), List.nil_append]
    · rfl
  have hend : (c :: b).rdropWhile p = c :: b.rdropWhile p := by
    have happend := rdropWhile_append p [c] b
    rw [List.singleton_append] at happend
    rw [happend]
    split
    · rename_i hb
      rw [hb]
      exact List.rdropWhile_concat_neg p [] c (by simp [hc])
    · rfl
  have htrim : trimMatches p (a ++ c :: b) = (a.dropWhile p ++ c :: b).rdropWhile p := by
    rw [trimMatches, hstart, List.rdropWhile]
  rw [htrim, rdropWhile_append, hend, if_neg (List.cons_ne_nil _ _)]

end Trimming

end Text

open Text

/-- A line that begins with a bracket is a header, whatever else it holds. -/
theorem Line.parse_of_head? {raw : Text}
    (h : (raw.trimMatches Mark.lineEdges.contains).head? = some Mark.headerOpen) :
    Line.parse raw = .header (Header.parse? (raw.trimMatches Mark.lineEdges.contains)) := by
  have hne : raw.trimMatches Mark.lineEdges.contains ≠ [] := by
    intro hnil
    rw [hnil] at h
    cases h
  have hcomment : some Mark.headerOpen ≠ some Mark.comment := by decide
  unfold Line.parse
  dsimp only
  rw [h, if_neg (not_or.2 ⟨hne, hcomment⟩), if_pos rfl]

namespace Header

/-! ## Headers -/

/-- A header of this name and parent is read from its line under its name. A name that stands
before a parent is trimmed like the parent, a name that stands alone is not. -/
structure Recoverable (name : Text) (parent : Option Text) : Prop where
  fits : name.fitsHeader = true
  small : ∀ c ∈ name, IsSmall c
  trim_name : parent.isSome → trim name = name
  parent_isName : ∀ p ∈ parent, IsName p
  parent_unbroken : ∀ p ∈ parent, p.hasLineBreak = false

/-- A header of this name and parent is read back from its line. -/
structure Legible (name : Text) (parent : Option Text) : Prop extends Recoverable name parent where
  parent_edge : ∀ p ∈ parent, p.getLast?.any Mark.headerEdges.contains = false

/-- What is left of a parent that is written in a header. -/
def recoveredParent (parent : Text) : Option Text :=
  (some (trim (parent.rdropWhile Mark.headerEdges.contains))).filter (· ≠ [])

/-- What stands between the brackets of a written header. -/
def inside (name : Text) : Option Text → Text
  | some parent => name ++ Mark.parent :: parent
  | none => name

theorem line_eq (name : Text) (parent : Option Text) :
    line name parent = Mark.headerOpen :: inside name parent ++ [Mark.headerClose] := by
  cases parent <;> rfl

theorem hasLineBreak_line {name : Text} {parent : Option Text} (hname : name.hasLineBreak = false)
    (hparent : ∀ p ∈ parent, p.hasLineBreak = false) : (line name parent).hasLineBreak = false := by
  rw [line_eq]
  cases parent with
  | none => simp [inside, hname, Mark.headerOpen, Mark.headerClose]
  | some p =>
    have hp := hparent p rfl
    simp [inside, hname, hp, Mark.headerOpen, Mark.headerClose, Mark.parent]

theorem head?_line (name : Text) (parent : Option Text) :
    (line name parent).head? = some Mark.headerOpen := by
  rw [line_eq]
  rfl

theorem trimMatches_line (name : Text) (parent : Option Text) :
    (line name parent).trimMatches Mark.lineEdges.contains = line name parent := by
  have hopen : Mark.lineEdges.contains Mark.headerOpen = false := by decide
  have hclose : Mark.lineEdges.contains Mark.headerClose = false := by decide
  rw [line_eq]
  refine trimMatches_eq_self_iff.2 ⟨hopen, ?_⟩
  rw [List.getLast?_concat]
  exact hclose

/-- The brackets are edges of headers, so only what stands between them is read. -/
theorem trimMatches_headerEdges_line (name : Text) (parent : Option Text) :
    (line name parent).trimMatches Mark.headerEdges.contains =
      (inside name parent).trimMatches Mark.headerEdges.contains := by
  have hopen : ∀ c ∈ [Mark.headerOpen], Mark.headerEdges.contains c = true :=
    List.forall_mem_singleton.2 rfl
  have hclose : ∀ c ∈ [Mark.headerClose], Mark.headerEdges.contains c = true :=
    List.forall_mem_singleton.2 rfl
  rw [line_eq]
  exact trimMatches_append (inside name parent) hopen hclose

theorem parse_line (name : Text) (parent : Option Text) :
    Line.parse (line name parent) = .header (parse? (line name parent)) := by
  have htrim := trimMatches_line name parent
  have hhead := head?_line name parent
  rw [← htrim] at hhead
  rw [Line.parse_of_head? hhead, htrim]

/-- The line of a name without a parent. The name loses its edges. -/
theorem parse?_line_none {name : Text} (hcolon : Mark.parent ∉ name) :
    parse? (line name none) =
      let rest := lowercase (name.trimMatches Mark.headerEdges.contains)
      if rest = [] then none
      else some { name := rest, isAbstract := rest.head? = some Mark.abstract } := by
  have hrest : Mark.parent ∉ lowercase (name.trimMatches Mark.headerEdges.contains) := by
    intro hmem
    exact hcolon (mem_of_mem_trimMatches (mem_of_mem_lowercase hmem (Or.inl (by decide))))
  rw [parse?, trimMatches_headerEdges_line, inside, parts, cut?_eq_none_iff.2 hrest]

theorem fitsHeader_iff {name : Text} :
    name.fitsHeader = true ↔ name ≠ [] ∧ name.trimMatches Mark.headerEdges.contains = name ∧
      Mark.parent ∉ name ∧ name.hasLineBreak = false := by
  simp [fitsHeader, and_assoc]

/-! ### What is left of a parent -/

section Parent

variable {p q : Text}

theorem recoveredParent_eq_some (h : q ∈ recoveredParent p) :
    q = trim (p.rdropWhile Mark.headerEdges.contains) ∧ q ≠ [] := by
  obtain ⟨heq, hne⟩ := Option.filter_eq_some_iff.1 h
  cases heq
  exact ⟨rfl, by simpa using hne⟩

theorem isName_of_recoveredParent (hp : IsName p) (h : q ∈ recoveredParent p) : IsName q := by
  obtain ⟨rfl, hne⟩ := recoveredParent_eq_some h
  refine ⟨hne, toName_eq_self_iff.2 ⟨trim_trim _, fun c hc => hp.isSmall ?_⟩⟩
  exact (List.rdropWhile_prefix _ p).subset (mem_of_mem_trimMatches hc)

theorem recoveredParent_eq_self (hp : IsName p)
    (hedge : p.getLast?.any Mark.headerEdges.contains = false) : recoveredParent p = some p := by
  rw [recoveredParent, rdropWhile_eq_self hedge, hp.trim_eq, Option.filter_some]
  simp [hp.1]

/-- A parent that ends with an edge of headers comes back shorter. -/
theorem length_recoveredParent_lt (hedge : p.getLast?.any Mark.headerEdges.contains = true)
    (h : q ∈ recoveredParent p) : q.length < p.length := by
  obtain ⟨rfl, -⟩ := recoveredParent_eq_some h
  have htrim := length_trim_le (p.rdropWhile Mark.headerEdges.contains)
  exact Nat.lt_of_le_of_lt htrim (length_rdropWhile_lt hedge)

theorem length_line_recoveredParent_lt (name : Text)
    (hedge : p.getLast?.any Mark.headerEdges.contains = true) :
    (line name (recoveredParent p)).length < (line name (some p)).length := by
  have hinside : (inside name (recoveredParent p)).length < (inside name (some p)).length := by
    rw [inside, List.length_append, List.length_cons]
    cases hq : recoveredParent p with
    | none =>
      rw [inside]
      omega
    | some q =>
      have hlt := length_recoveredParent_lt hedge hq
      rw [inside, List.length_append, List.length_cons]
      omega
  rw [line_eq, line_eq]
  simp only [List.length_append, List.length_cons]
  omega

end Parent

namespace Recoverable

variable {name : Text} {parent : Option Text} (h : Recoverable name parent)

include h

theorem hasLineBreak_line : (line name parent).hasLineBreak = false := by
  obtain ⟨-, -, -, hbreak⟩ := fitsHeader_iff.1 h.fits
  exact Header.hasLineBreak_line hbreak h.parent_unbroken

theorem isSmall_of_mem_inside {c : Char} (hc : c ∈ inside name parent) : IsSmall c := by
  cases parent with
  | none => exact h.small c hc
  | some p =>
    rw [inside, List.mem_append, List.mem_cons] at hc
    rcases hc with hc | rfl | hc
    · exact h.small c hc
    · decide +kernel
    · exact (h.parent_isName p rfl).isSmall hc

/-- The name is the part before the first colon, whether or not a colon is left after it. -/
theorem parts_inside :
    parts ((inside name parent).trimMatches Mark.headerEdges.contains) =
      (name, parent.bind recoveredParent) := by
  obtain ⟨hne, htrim, hcolon, -⟩ := fitsHeader_iff.1 h.fits
  have halone : parts name = (name, none) := by rw [parts, cut?_eq_none_iff.2 hcolon]
  cases parent with
  | none => rw [inside, htrim, halone, Option.bind_none]
  | some p =>
    obtain ⟨hhead, hlast⟩ := trimMatches_eq_self_iff.1 htrim
    have hinside : (inside name (some p)).trimMatches Mark.headerEdges.contains =
        name ++ (Mark.parent :: p).rdropWhile Mark.headerEdges.contains := by
      rw [inside, trimMatches_append_of_head hne hhead hlast]
    have hcons := rdropWhile_append Mark.headerEdges.contains [Mark.parent] p
    rw [List.singleton_append] at hcons
    rw [hinside, hcons, Option.bind_some, recoveredParent]
    by_cases hp : p.rdropWhile Mark.headerEdges.contains = []
    · have hnone : [Mark.parent].rdropWhile Mark.headerEdges.contains = [] := rfl
      rw [if_pos hp, hnone, List.append_nil, halone, hp]
      rfl
    · have hcut : (name ++ Mark.parent :: p.rdropWhile Mark.headerEdges.contains).cut? Mark.parent =
          some (name, p.rdropWhile Mark.headerEdges.contains) := cut?_eq_some_iff.2 ⟨rfl, hcolon⟩
      rw [if_neg hp, List.singleton_append, parts, hcut]
      dsimp only
      rw [h.trim_name rfl]

theorem parse?_line :
    parse? (line name parent) =
      some ⟨name, parent.bind recoveredParent, name.head? = some Mark.abstract⟩ := by
  obtain ⟨hne, -, -, -⟩ := fitsHeader_iff.1 h.fits
  have hlower : lowercase ((inside name parent).trimMatches Mark.headerEdges.contains) =
      (inside name parent).trimMatches Mark.headerEdges.contains :=
    lowercase_eq_self fun c hc => h.isSmall_of_mem_inside (mem_of_mem_trimMatches hc)
  rw [parse?, trimMatches_headerEdges_line, hlower, h.parts_inside]
  simp [hne]

theorem parse_line :
    Line.parse (line name parent) =
      .header (some ⟨name, parent.bind recoveredParent, name.head? = some Mark.abstract⟩) := by
  rw [Header.parse_line, h.parse?_line]

end Recoverable

theorem bind_recoveredParent_eq_self {parent : Option Text} (hname : ∀ p ∈ parent, IsName p)
    (hedge : ∀ p ∈ parent, p.getLast?.any Mark.headerEdges.contains = false) :
    parent.bind recoveredParent = parent := by
  cases parent with
  | none => rfl
  | some p => exact recoveredParent_eq_self (hname p rfl) (hedge p rfl)

/-! ### What any line says -/

theorem name_of_parts (inside : Text) :
    (∀ c ∈ (parts inside).1, c ∈ inside) ∧
      ((parts inside).2.isSome → trim (parts inside).1 = (parts inside).1) := by
  unfold parts
  cases hcut : inside.cut? Mark.parent with
  | none => exact ⟨fun _ hc => hc, nofun⟩
  | some ab =>
    obtain ⟨rfl, -⟩ := cut?_eq_some_iff.1 hcut
    exact ⟨fun c hc => List.mem_append_left _ (mem_of_mem_trimMatches hc),
      fun _ => trim_trim ab.1⟩

theorem parent_of_parts {inside p : Text} (hp : p ∈ (parts inside).2) :
    p ≠ [] ∧ trim p = p ∧ ∀ c ∈ p, c ∈ inside := by
  unfold parts at hp
  cases hcut : inside.cut? Mark.parent with
  | none =>
    rw [hcut] at hp
    cases hp
  | some ab =>
    obtain ⟨a, b⟩ := ab
    have hfilter : Option.filter (fun q => decide (q ≠ [])) (some (trim b)) = some p := by
      rwa [hcut] at hp
    obtain ⟨rfl, -⟩ := cut?_eq_some_iff.1 hcut
    obtain ⟨heq, hne⟩ := Option.filter_eq_some_iff.1 hfilter
    cases heq
    refine ⟨by simpa using hne, trim_trim b, fun c hc => ?_⟩
    exact List.mem_append_right _ (List.mem_cons_of_mem _ (mem_of_mem_trimMatches hc))

/-- A header holds the parts of what stands between its edges, in small letters. -/
theorem exists_parts_of_parse? {text : Text} {h : Header} (hh : parse? text = some h) :
    ∃ inner : Text, (∀ c ∈ inner, IsSmall c) ∧
      (text.hasLineBreak = false → inner.hasLineBreak = false) ∧
      (h.name = (parts inner).1 ∧ h.parent = (parts inner).2) ∧ h.name ≠ [] ∧
      (h.isAbstract = true ↔ h.name.head? = some Mark.abstract) := by
  unfold parse? at hh
  dsimp only at hh
  split at hh
  · cases hh
  · rename_i hne
    cases hh
    refine ⟨_, fun c hc => isSmall_of_mem_lowercase hc, fun htext => ?_, ⟨rfl, rfl⟩, hne,
      decide_eq_true_iff⟩
    apply hasLineBreak_lowercase
    exact hasLineBreak_of_subset (fun c hc => mem_of_mem_trimMatches hc) htext

/-- The name is not trimmed where there is no parent, so it need not be a name. -/
theorem names_of_parse? {text : Text} {h : Header} (hh : parse? text = some h) :
    h.name ≠ [] ∧ (∀ c ∈ h.name, IsSmall c) ∧ (h.parent.isSome → trim h.name = h.name) ∧
      ∀ p ∈ h.parent, IsName p := by
  obtain ⟨inner, hsmall, -, ⟨hname, hparent⟩, hne, -⟩ := exists_parts_of_parse? hh
  obtain ⟨hmem, htrim⟩ := name_of_parts inner
  rw [hname] at hne
  rw [hname, hparent]
  refine ⟨hne, fun c hc => hsmall c (hmem c hc), htrim, fun p hp => ?_⟩
  obtain ⟨hpne, hptrim, hpmem⟩ := parent_of_parts hp
  exact ⟨hpne, toName_eq_self_iff.2 ⟨hptrim, fun c hc => hsmall c (hpmem c hc)⟩⟩

theorem unbroken_of_parse? {text : Text} {h : Header} (hh : parse? text = some h)
    (htext : text.hasLineBreak = false) : ∀ p ∈ h.parent, p.hasLineBreak = false := by
  intro p hp
  obtain ⟨inner, -, hunbroken, ⟨-, hparent⟩, -⟩ := exists_parts_of_parse? hh
  rw [hparent] at hp
  obtain ⟨-, -, hmem⟩ := parent_of_parts hp
  exact hasLineBreak_of_subset hmem (hunbroken htext)

end Header

namespace Entry

/-! ## Entries -/

theorem fitsKey_iff {key : Text} :
    key.fitsKey = true ↔ key ≠ [] ∧ trim key = key ∧ Mark.value ∉ key ∧
      key.head? ≠ some Mark.headerOpen ∧ key.head? ≠ some Mark.comment ∧
        key.hasLineBreak = false := by
  simp [fitsKey, and_assoc]

theorem fitsValue_iff {value : Text} :
    value.fitsValue = true ↔ value ≠ [] ∧ value.hasLineBreak = false := by
  simp [fitsValue]

variable {key value : Text}

theorem hasLineBreak_line (hkey : key.hasLineBreak = false) (hvalue : value.hasLineBreak = false) :
    (line key value).hasLineBreak = false := by
  have hencoded := hasLineBreak_encodeValue hvalue
  simp [line, hkey, hencoded, Mark.value]

theorem head?_line (hne : key ≠ []) (value : Text) : (line key value).head? = key.head? :=
  List.head?_append_of_ne_nil _ hne

theorem trimMatches_line (hname : IsName key) (hne : value ≠ []) :
    (line key value).trimMatches Mark.lineEdges.contains = line key value := by
  have hlast : (line key value).getLast? = (encodeValue value).getLast? := by
    rw [line, List.getLast?_append_of_ne_nil _ (by simp),
      List.getLast?_cons_of_ne_nil (encodeValue_ne_nil hne)]
  apply trimMatches_eq_self_iff.2
  constructor
  · rw [head?_line hname.1]
    exact any_lineEdge_of_any_isBlank (trim_eq_self_iff.1 hname.trim_eq).1
  · rw [hlast]
    exact any_lineEdge_of_any_isBlank (trim_eq_self_iff.1 (trim_encodeValue value)).2

/-- An entry holds what stands on either side of the first equals sign. -/
theorem parse?_eq_some_iff {text : Text} {e : Entry} :
    parse? text = some e ↔ ∃ key value, text = key ++ Mark.value :: value ∧ Mark.value ∉ key ∧
      toName key ≠ [] ∧ e = (toName key, decodeValue value) := by
  unfold parse?
  constructor
  · intro h
    split at h
    · rename_i key value hcut
      obtain ⟨htext, hmark⟩ := cut?_eq_some_iff.1 hcut
      split at h
      · cases h
      · rename_i hne
        cases h
        exact ⟨key, value, htext, hmark, hne, rfl⟩
    · cases h
  · rintro ⟨key, value, htext, hmark, hne, rfl⟩
    rw [cut?_eq_some_iff.2 ⟨htext, hmark⟩]
    exact if_neg hne

theorem isName_of_parse? {text : Text} {e : Entry} (h : parse? text = some e) : IsName e.1 := by
  obtain ⟨key, value, -, -, hne, rfl⟩ := parse?_eq_some_iff.1 h
  exact isName_toName hne

/-- The key ends at the first equals sign. -/
theorem parse?_line (hname : IsName key) (hmark : Mark.value ∉ key) (value : Text) :
    parse? (line key value) = some (key, value) := by
  have hne : toName key ≠ [] := by
    rw [hname.2]
    exact hname.1
  refine parse?_eq_some_iff.2 ⟨key, value.encodeValue, rfl, hmark, hne, ?_⟩
  rw [hname.2, decodeValue_encodeValue]

/-- What a written line says is told by its first character. -/
theorem parse_line_eq (hname : IsName key) (hmark : Mark.value ∉ key) (hne : value ≠ []) :
    Line.parse (line key value) =
      if key.head? = some Mark.comment then .silent
      else if key.head? = some Mark.headerOpen then .header (Header.parse? (line key value))
      else .content (some (key, value)) := by
  have hline : line key value ≠ [] := by
    rw [line]
    exact List.append_ne_nil_of_right_ne_nil _ (List.cons_ne_nil _ _)
  unfold Line.parse
  rw [trimMatches_line hname hne]
  dsimp only
  rw [head?_line hname.1, parse?_line hname hmark]
  simp [hline]

theorem parse_line (hname : IsName key) (hk : key.fitsKey = true) (hv : value.fitsValue = true) :
    Line.parse (line key value) = .content (some (key, value)) := by
  obtain ⟨-, -, hmark, hopen, hcomment, -⟩ := fitsKey_iff.1 hk
  rw [parse_line_eq hname hmark (fitsValue_iff.1 hv).1, if_neg hcomment, if_neg hopen]

end Entry

end Lineage
