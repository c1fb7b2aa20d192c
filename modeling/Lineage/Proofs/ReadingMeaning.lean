import Lineage.Document.Reading
import Lineage.Proofs.ReadingBlocks
import Mathlib.Data.List.Induction

/-!
# What the lines of a text say, all at once

Reading goes through a text once and carries a current section along. What it arrives at can be
said of the text as a whole: a section is declared by the first header of its name, and the value
of a key is that of the last line that gives one (`Sections.read_meaning`). Sections and values
that were there before stand in where no line says anything, except that they also come before
every header.

The induction is over the lines from the first to the last, and its invariant is what is said of
the lines read so far (`Reading.Means`). Names and keys that are not in normal form do no harm: no
line reaches such a key.
-/

namespace Lineage

open Text

namespace Lines

/-! ## What lines say -/

/-- The lines that say something, without the spaces and tabs around them: neither blank lines nor
comments. -/
def telling (lines : List Text) : List Text :=
  (lines.map (fun l => l.trimMatches Mark.lineEdges.contains)).filter
    (fun l => l ≠ [] ∧ l.head? ≠ some Mark.comment)

def IsHeader (l : Text) : Prop := l.head? = some Mark.headerOpen

instance (l : Text) : Decidable (IsHeader l) :=
  inferInstanceAs (Decidable (l.head? = some Mark.headerOpen))

/-- The name in the last header, to whose section the next line belongs. There is none if that
header has no name. -/
def current? (before : List Text) : Option Text :=
  ((before.reverse.find? (fun l => IsHeader l)).bind Header.parse?).map Header.name

/-- The first header of a name. -/
def firstHeader? (ls : List Text) (name : Text) : Option Header :=
  ((ls.filter (fun l => IsHeader l)).filterMap Header.parse?).find? (fun h => h.name = name)

/-- The value that a line after others gives to a key of a section. -/
def valueAfter? (before : List Text) (name key l : Text) : Option Text :=
  if ¬ IsHeader l ∧ current? before = some name then
    ((Entry.parse? l).filter (fun e => e.1 = key)).map Prod.snd
  else none

/-- The value that the line in a place gives to a key of a section. -/
def valueAt? (ls : List Text) (name key : Text) (i : Nat) : Option Text :=
  ls[i]?.bind (valueAfter? (ls.take i) name key)

/-- The last value that is given to a key of a section. -/
def lastValue? (ls : List Text) (name key : Text) : Option Text :=
  ((List.range ls.length).filterMap (valueAt? ls name key)).getLast?

/-! ## One line more -/

variable {ls : List Text} {l : Text}

theorem telling_append (a b : List Text) : telling (a ++ b) = telling a ++ telling b := by
  rw [telling, List.map_append, List.filter_append]
  rfl

theorem current?_header (hl : IsHeader l) :
    current? (ls ++ [l]) = (Header.parse? l).map Header.name := by
  simp [current?, hl]

theorem current?_content (hl : ¬ IsHeader l) : current? (ls ++ [l]) = current? ls := by
  simp [current?, hl]

theorem firstHeader?_header (hl : IsHeader l) (name : Text) :
    firstHeader? (ls ++ [l]) name =
      (firstHeader? ls name).or ((Header.parse? l).filter (fun h => h.name = name)) := by
  have hlast : ([l].filter (fun l => IsHeader l)).filterMap Header.parse? =
      (Header.parse? l).toList := by
    rw [List.filter_singleton, decide_eq_true hl]
    rfl
  unfold firstHeader?
  rw [List.filter_append, List.filterMap_append, List.find?_append, hlast]
  cases Header.parse? l with
  | none => rfl
  | some h =>
    rw [Option.toList_some, List.find?_singleton, Option.filter_some]

theorem firstHeader?_content (hl : ¬ IsHeader l) (name : Text) :
    firstHeader? (ls ++ [l]) name = firstHeader? ls name := by
  simp [firstHeader?, hl]

theorem lastValue?_append (name key : Text) :
    lastValue? (ls ++ [l]) name key =
      (valueAfter? ls name key l).or (lastValue? ls name key) := by
  have hbefore : (List.range ls.length).filterMap (valueAt? (ls ++ [l]) name key) =
      (List.range ls.length).filterMap (valueAt? ls name key) := by
    refine List.filterMap_congr fun i hi => ?_
    have hlt := List.mem_range.1 hi
    rw [valueAt?, valueAt?, List.getElem?_append_left hlt,
      List.take_append_of_le_length (by omega)]
  have hlast : valueAt? (ls ++ [l]) name key ls.length = valueAfter? ls name key l := by
    rw [valueAt?, List.getElem?_concat_length, List.take_left]
    rfl
  rw [lastValue?, List.length_append, List.length_singleton, List.range_succ,
    List.filterMap_append, List.getLast?_append, hbefore, List.filterMap_cons, hlast]
  cases valueAfter? ls name key l with
  | none => rfl
  | some v => rfl

theorem lastValue?_header (hl : IsHeader l) (name key : Text) :
    lastValue? (ls ++ [l]) name key = lastValue? ls name key := by
  rw [lastValue?_append, valueAfter?, if_neg (fun h => h.1 hl)]
  rfl

theorem isSome_firstHeader? {name : Text} :
    (firstHeader? ls name).isSome = true ↔
      ∃ l ∈ ls, IsHeader l ∧ ∃ h, Header.parse? l = some h ∧ h.name = name := by
  simp only [firstHeader?, List.find?_isSome, List.mem_filterMap, List.mem_filter,
    decide_eq_true_eq]
  constructor
  · rintro ⟨h, ⟨l, ⟨hl, hheader⟩, hh⟩, hname⟩
    exact ⟨l, hl, hheader, h, hh, hname⟩
  · rintro ⟨l, hl, hheader, h, hh, hname⟩
    exact ⟨h, ⟨l, ⟨hl, hheader⟩, hh⟩, hname⟩

end Lines

/-- A line that is read, in the terms of what lines say. -/
theorem Line.parse_cases (raw : Text) :
    (Lines.telling [raw] = [] ∧ Line.parse raw = .silent) ∨
      ∃ l, Lines.telling [raw] = [l] ∧
        (Lines.IsHeader l ∧ Line.parse raw = .header (Header.parse? l) ∨
          ¬ Lines.IsHeader l ∧ Line.parse raw = .content (Entry.parse? l)) := by
  unfold Line.parse
  dsimp only
  generalize hl : raw.trimMatches Mark.lineEdges.contains = l
  by_cases hsilent : l = [] ∨ l.head? = some Mark.comment
  · left
    rw [if_pos hsilent]
    refine ⟨?_, rfl⟩
    rcases hsilent with h | h <;> simp [Lines.telling, hl, h]
  · right
    obtain ⟨hne, hcomment⟩ := not_or.1 hsilent
    refine ⟨l, by simp [Lines.telling, hl, hne, hcomment], ?_⟩
    rw [if_neg hsilent]
    by_cases hheader : Lines.IsHeader l
    · exact Or.inl ⟨hheader, if_pos hheader⟩
    · exact Or.inr ⟨hheader, if_neg hheader⟩

namespace Sections

/-- What the section of a name declares: whether it is abstract, and its parent. -/
def declared? (m : Sections) (name : Text) : Option (Bool × Option Text) :=
  (m.get? name).map (fun s => (s.isAbstract, s.parent))

/-- The own value of a key in the section of a name. -/
def value? (m : Sections) (name key : Text) : Option Text :=
  (m.get? name).bind (fun s => s.values.get? key)

theorem isSome_declared? (m : Sections) (name : Text) :
    (m.declared? name).isSome = m.contains name := Option.isSome_map

theorem declared?_insert (m : Sections) (n name : Text) (s : Section) :
    Sections.declared? (m.insert n s) name =
      if name = n then some (s.isAbstract, s.parent) else m.declared? name := by
  rw [declared?, OrderedMap.get?_insert]
  split <;> rfl

theorem value?_insert (m : Sections) (n name key : Text) (s : Section) :
    Sections.value? (m.insert n s) name key =
      if name = n then s.values.get? key else m.value? name key := by
  rw [value?, OrderedMap.get?_insert]
  split <;> rfl

end Sections

namespace Reading

/-! ## The invariant -/

/-- A reading that began with some sections has taken in all that the lines say, and nothing
else. -/
structure Means (before : Sections) (ls : List Text) (r : Reading) : Prop where
  current_eq : r.current = Lines.current? ls
  contains_current : ∀ n ∈ r.current, r.sections.contains n = true
  declared?_eq : ∀ name, r.sections.declared? name =
    (before.declared? name).or
      ((Lines.firstHeader? ls name).map (fun h => (h.isAbstract, h.parent)))
  value?_eq : ∀ name key, r.sections.value? name key =
    (Lines.lastValue? ls name key).or (before.value? name key)

namespace Means

variable {before : Sections} {ls : List Text} {r : Reading} {l : Text}

theorem nil (m : Sections) : Means m [] { sections := m } where
  current_eq := rfl
  contains_current := nofun
  declared?_eq _ := Option.or_none.symm
  value?_eq _ _ := rfl

variable (hr : Means before ls r)

include hr

/-- The header of a section that is there changes the current section only. -/
theorem header_again {h : Header} (hl : Lines.IsHeader l) (hh : Header.parse? l = some h)
    (hthere : r.sections.contains h.name = true) (n : Nat) :
    Means before (ls ++ [l]) (r.readHeader n h) := by
  rw [readHeader, if_pos hthere]
  refine ⟨?_, ?_, fun name => ?_, fun name key => ?_⟩
  · rw [Lines.current?_header hl, hh]
    rfl
  · rintro n ⟨⟩
    exact hthere
  · rw [hr.declared?_eq, Lines.firstHeader?_header hl, hh]
    by_cases hname : h.name = name
    -- The name was declared before all lines or by an earlier header, which then stays the first.
    · have hsome := hr.declared?_eq name
      rw [← Sections.isSome_declared?, hname, hsome] at hthere
      cases hb : before.declared? name with
      | some d => rfl
      | none =>
        rw [hb, Option.none_or] at hthere
        obtain ⟨d, hd⟩ := Option.isSome_iff_exists.1 hthere
        obtain ⟨first, hfirst, -⟩ := Option.map_eq_some_iff.1 hd
        rw [hfirst]
        rfl
    · simp [Option.filter_some, hname]
  · rw [hr.value?_eq, Lines.lastValue?_header hl]

theorem header_new {h : Header} (hl : Lines.IsHeader l) (hh : Header.parse? l = some h)
    (hnew : r.sections.contains h.name = false) (n : Nat) :
    Means before (ls ++ [l]) (r.readHeader n h) := by
  have hget : r.sections.get? h.name = none := by
    rwa [OrderedMap.contains, Option.isSome_eq_false_iff, Option.isNone_iff_eq_none] at hnew
  rw [readHeader, if_neg (by simp [hnew]), Section.declare_of_parse? hh]
  refine ⟨?_, ?_, fun name => ?_, fun name key => ?_⟩
  · rw [Lines.current?_header hl, hh]
    rfl
  · rintro n ⟨⟩
    rw [OrderedMap.contains_insert]
    simp
  · rw [Sections.declared?_insert, Lines.firstHeader?_header hl, hh]
    have heq := hr.declared?_eq name
    by_cases hname : name = h.name
    · subst hname
      rw [Sections.declared?, hget, Option.map_none, eq_comm, Option.or_eq_none_iff,
        Option.map_eq_none_iff] at heq
      rw [if_pos rfl, heq.1, heq.2]
      simp [Option.filter_some]
    · rw [if_neg hname, heq]
      simp [Option.filter_some, Ne.symm hname]
  · rw [Sections.value?_insert, Lines.lastValue?_header hl, ← hr.value?_eq]
    split
    · rename_i hname
      rw [hname, Sections.value?, hget]
      exact OrderedMap.get?_empty key
    · rfl

theorem header (hl : Lines.IsHeader l) (n : Nat) :
    Means before (ls ++ [l]) (r.readLine n (.header (Header.parse? l))) := by
  cases hh : Header.parse? l with
  | none =>
    refine ⟨?_, nofun, fun name => ?_, fun name key => ?_⟩
    · rw [Lines.current?_header hl, hh]
      rfl
    · rw [Lines.firstHeader?_header hl, hh, Option.filter_none, Option.or_none]
      exact hr.declared?_eq name
    · rw [Lines.lastValue?_header hl]
      exact hr.value?_eq name key
  | some h =>
    cases hthere : r.sections.contains h.name with
    | true => exact hr.header_again hl hh hthere n
    | false => exact hr.header_new hl hh hthere n

/-- A line that gives no value changes nothing. -/
theorem content_of_none (hl : ¬ Lines.IsHeader l)
    (hnone : ∀ name key, Lines.valueAfter? ls name key l = none) (e : Event) :
    Means before (ls ++ [l]) (r.ignore e) where
  current_eq := by
    rw [Lines.current?_content hl]
    exact hr.current_eq
  contains_current := hr.contains_current
  declared?_eq name := by
    rw [Lines.firstHeader?_content hl]
    exact hr.declared?_eq name
  value?_eq name key := by
    rw [Lines.lastValue?_append, hnone, Option.none_or]
    exact hr.value?_eq name key

theorem entry {name : Text} {s : Section} {e : Entry} (hl : ¬ Lines.IsHeader l)
    (hcurrent : r.current = some name) (hs : r.sections.get? name = some s)
    (he : Entry.parse? l = some e) : Means before (ls ++ [l]) (r.readEntry name s e) := by
  obtain ⟨-, hkey⟩ := Entry.isName_of_parse? he
  have hgiven : ∀ n k, Lines.valueAfter? ls n k l =
      if n = name ∧ k = e.1 then some e.2 else none := by
    intro n k
    rw [Lines.valueAfter?, ← hr.current_eq, hcurrent, he]
    by_cases hn : n = name
    · by_cases hk : k = e.1
      · simp [hl, hn, hk]
      · simp [hl, hn, hk, Ne.symm hk]
    · simp [hn, Ne.symm hn]
  refine ⟨?_, fun n hn => ?_, fun n => ?_, fun n k => ?_⟩
  · rw [Lines.current?_content hl]
    exact hr.current_eq
  · rw [readEntry, OrderedMap.contains_insert, hr.contains_current n hn, Bool.or_true]
  · rw [readEntry, Sections.declared?_insert, Lines.firstHeader?_content hl, ← hr.declared?_eq]
    split
    · rename_i hn
      rw [hn, Sections.declared?, hs]
      rfl
    · rfl
  · rw [readEntry, Sections.value?_insert, Lines.lastValue?_append, hgiven, Option.or_assoc,
      ← hr.value?_eq, Section.set, hkey, OrderedMap.get?_insert]
    by_cases hn : n = name
    · have hown : r.sections.value? n k = s.values.get? k := by
        rw [Sections.value?, hn, hs]
        rfl
      by_cases hk : k = e.1
      · rw [if_pos hn, if_pos hk, if_pos ⟨hn, hk⟩]
        rfl
      · rw [if_pos hn, if_neg hk, if_neg fun h => hk h.2, hown]
        rfl
    · rw [if_neg hn, if_neg fun h => hn h.1]
      rfl

theorem content (hl : ¬ Lines.IsHeader l) (n : Nat) :
    Means before (ls ++ [l]) (r.readLine n (.content (Entry.parse? l))) := by
  cases hcurrent : r.current with
  | none =>
    have hnone : ∀ name key, Lines.valueAfter? ls name key l = none := by
      intro name key
      rw [Lines.valueAfter?, ← hr.current_eq, hcurrent]
      simp
    rw [readLine_outside_sections hcurrent]
    exact hr.content_of_none hl hnone _
  | some name =>
    obtain ⟨s, hs⟩ := Option.isSome_iff_exists.1 (hr.contains_current name hcurrent)
    cases he : Entry.parse? l with
    | none =>
      have hnone : ∀ name key, Lines.valueAfter? ls name key l = none := by
        intro name key
        rw [Lines.valueAfter?, he]
        simp
      rw [readLine_not_understood hcurrent hs]
      exact hr.content_of_none hl hnone _
    | some e =>
      rw [readLine_content hcurrent hs]
      exact hr.entry hl hcurrent hs he

theorem readLine (raw : Text) (n : Nat) :
    Means before (ls ++ Lines.telling [raw]) (r.readLine n (Line.parse raw)) := by
  rcases Line.parse_cases raw with ⟨htelling, hparse⟩ | ⟨l, htelling, ⟨hl, hparse⟩ | ⟨hl, hparse⟩⟩
  · rw [htelling, hparse, List.append_nil]
    exact hr
  · rw [htelling, hparse]
    exact hr.header hl n
  · rw [htelling, hparse]
    exact hr.content hl n

end Means

theorem means_readLines (m : Sections) (raws : List Text) :
    Means m (Lines.telling raws) (readLines { sections := m } (raws.zipIdx 1)) := by
  induction raws using List.reverseRecOn with
  | nil => exact Means.nil m
  | append_singleton raws raw ih =>
    rw [Lines.telling_append, List.zipIdx_append, readLines_append]
    exact ih.readLine raw _

end Reading

/-- What reading a text into sections arrives at, in terms of the lines of the text: which sections
there are, what each declares, and the own value of every key. -/
theorem Sections.read_meaning (m : Sections) (text : Text) :
    let ls := Lines.telling text.lines
    let after := (m.read text).sections
    (∀ name, after.contains name = true ↔ m.contains name = true ∨
        ∃ l ∈ ls, Lines.IsHeader l ∧ ∃ h, Header.parse? l = some h ∧ h.name = name) ∧
      (∀ name, after.declared? name =
        (m.declared? name).or
          ((Lines.firstHeader? ls name).map (fun h => (h.isAbstract, h.parent)))) ∧
      ∀ name key, after.value? name key =
        (Lines.lastValue? ls name key).or (m.value? name key) := by
  intro ls after
  have hmeans : Reading.Means m ls (m.read text) := Reading.means_readLines m text.lines
  refine ⟨fun name => ?_, hmeans.declared?_eq, hmeans.value?_eq⟩
  rw [← isSome_declared?, hmeans.declared?_eq, Option.isSome_or, Option.isSome_map,
    Bool.or_eq_true, isSome_declared?, Lines.isSome_firstHeader?]

end Lineage
