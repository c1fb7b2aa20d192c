import Lineage.Proofs.ReadingMeaning

/-!
# Reading goes by the lines that say something

Blank lines and comments say nothing: without them reading arrives at the same sections and counts
the same, and only the numbers of the lines it reports are different. Two readings that stand at
the same sections and the same current section go on alike over lines of which the same are telling
(`Reading.AgreesAfter.readLines`). A header makes the current section anew, so there it need not
even be the same before (`Reading.agreesAfter_readLines_of_header`).

Which lines of a text are telling does not depend on how they are ended. A text may as well be cut
at every character that ends a line, whatever follows it: all that this adds is an empty piece
between a carriage return and the line feed that belongs to it (`Lines.telling_lines`).

* `Sections.read_endedLines`: lines may be ended in any mixture of ways.
* `Sections.read_newline_append`: a text that begins with a header is read after another text as it
  is read by itself into what the other text left.
-/

namespace Lineage

open Text

/-! ## Pieces between line ends -/

namespace Text

/-- Whether a character ends a line, alone or with another. -/
def isLineEnd (c : Char) : Bool := c = '\n' || c = '\r'

/-- The pieces of a text between the characters that end lines. -/
def pieces (s : Text) : List Text := s.splitOnP isLineEnd

/-- What comes before the first character that ends a line. -/
def firstLine (s : Text) : Text := s.takeWhile (fun c => !isLineEnd c)

theorem isLineEnd_iff {c : Char} : isLineEnd c = true ↔ c = '\n' ∨ c = '\r' := by
  simp [isLineEnd]

theorem hasLineBreak_iff_isLineEnd {s : Text} :
    s.hasLineBreak = false ↔ ∀ c ∈ s, isLineEnd c = false := by
  simp only [hasLineBreak, List.any_eq_false, Bool.not_eq_true]
  rfl

theorem pieces_append_cons (a b : Text) {c : Char} (hc : isLineEnd c = true) :
    pieces (a ++ c :: b) = pieces a ++ pieces b := List.splitOnP_append_cons a b hc

theorem pieces_eq_singleton {s : Text} (h : s.hasLineBreak = false) : pieces s = [s] :=
  List.splitOnP_eq_singleton (hasLineBreak_iff_isLineEnd.1 h)

theorem dropByteOrderMark_append_cons (a b : Text) {c : Char} (hc : isLineEnd c = true) :
    dropByteOrderMark (a ++ c :: b) = dropByteOrderMark a ++ c :: b := by
  cases a with
  | nil =>
    have hmark : c ≠ '\uFEFF' := by
      rintro rfl
      exact absurd hc (by decide)
    rw [List.nil_append, dropByteOrderMark_eq_self (by simpa using hmark)]
    rfl
  | cons d a =>
    by_cases hd : d = '\uFEFF'
    · rw [hd]
      rfl
    · rw [List.cons_append, dropByteOrderMark_eq_self (by simpa using hd),
        dropByteOrderMark_eq_self (by simpa using hd), List.cons_append]

theorem hasLineBreak_firstLine (s : Text) : (firstLine s).hasLineBreak = false := by
  apply hasLineBreak_iff_isLineEnd.2
  intro c hc
  simpa using List.mem_takeWhile_imp hc

theorem firstLine_eq_self {s : Text} (h : s.hasLineBreak = false) : firstLine s = s := by
  apply List.takeWhile_eq_self_iff.2
  intro c hc
  rw [hasLineBreak_iff_isLineEnd.1 h c hc]
  rfl

theorem exists_unifyLineEnds_eq_cons {c : Char} (hc : isLineEnd c = true) (s : Text) :
    ∃ t, unifyLineEnds (c :: s) = '\n' :: t := by
  rcases isLineEnd_iff.1 hc with rfl | rfl
  · exact ⟨_, unifyLineEnds_cons (by decide) s⟩
  · unfold unifyLineEnds
    split
    · rename_i hnil
      cases hnil
    · exact ⟨_, rfl⟩
    · rename_i heq
      cases heq
      exact ⟨_, rfl⟩

theorem exists_eq_firstLine_append (s : Text) :
    ∃ rest, s = firstLine s ++ rest ∧ (rest = [] ∨ ∃ c t, rest = c :: t ∧ isLineEnd c = true) := by
  refine ⟨s.dropWhile (fun c => !isLineEnd c), List.takeWhile_append_dropWhile.symm, ?_⟩
  cases hrest : s.dropWhile (fun c => !isLineEnd c) with
  | nil => exact Or.inl rfl
  | cons c t =>
    have hc := head?_dropWhile_any (fun c => !isLineEnd c) s
    rw [hrest] at hc
    exact Or.inr ⟨c, t, rfl, by simpa using hc⟩

end Text

namespace Lines

theorem telling_cons (l : Text) (ls : List Text) : telling (l :: ls) = telling [l] ++ telling ls :=
  telling_append [l] ls

/-- An empty piece is blank. -/
theorem telling_nil_cons (ls : List Text) : telling ([] :: ls) = telling ls := rfl

/-- The induction follows the text as its line ends are unified. What stands before them, up to the
last line end, becomes the first piece on both sides. -/
theorem telling_splitOn_unifyLineEnds (s : Text) {before : Text}
    (hbefore : before.hasLineBreak = false) :
    telling ((before ++ unifyLineEnds s).splitOn '\n') = telling (pieces (before ++ s)) := by
  have hn : ∀ {l : Text}, l.hasLineBreak = false → '\n' ∉ l := fun h =>
    (hasLineBreak_eq_false_iff.1 h).1
  fun_induction unifyLineEnds s generalizing before with
  | case1 =>
    rw [List.append_nil, pieces_eq_singleton hbefore, List.splitOn_eq_singleton (hn hbefore)]
  | case2 rest ih =>
    have hpieces : pieces (before ++ '\r' :: '\n' :: rest) = before :: [] :: pieces rest := by
      rw [pieces_append_cons before _ rfl, pieces_eq_singleton hbefore,
        ← List.nil_append ('\n' :: rest), pieces_append_cons [] rest rfl]
      rfl
    rw [List.splitOn_append_cons_self_of_not_mem (hn hbefore), hpieces, telling_cons,
      telling_cons before ([] :: _), telling_nil_cons]
    exact congrArg (telling [before] ++ ·) (ih hasLineBreak_nil)
  | case3 c rest _ ih =>
    cases hc : isLineEnd c with
    | true =>
      have hunified : (if c = '\r' then '\n' else c) = '\n' := by
        split
        · rfl
        · exact (isLineEnd_iff.1 hc).resolve_right ‹_›
      rw [hunified, List.splitOn_append_cons_self_of_not_mem (hn hbefore),
        pieces_append_cons before rest hc, pieces_eq_singleton hbefore, telling_cons,
        List.singleton_append, telling_cons before (pieces rest)]
      exact congrArg (telling [before] ++ ·) (ih hasLineBreak_nil)
    | false =>
      have hkept : c ≠ '\n' ∧ c ≠ '\r' := by simpa [isLineEnd] using hc
      have hlonger : (before ++ [c]).hasLineBreak = false := by simp [hbefore, hkept]
      have hih := ih hlonger
      rw [if_neg hkept.2]
      rwa [List.append_assoc, List.append_assoc] at hih

/-- The telling lines of a text are those of its pieces, however its lines are ended. -/
theorem telling_lines (s : Text) : telling s.lines = telling (pieces (dropByteOrderMark s)) :=
  telling_splitOn_unifyLineEnds _ hasLineBreak_nil

end Lines

namespace Line

/-- A line is read as what is left of it without the spaces and tabs around it. -/
theorem parse_trimMatches (raw : Text) :
    Line.parse (raw.trimMatches Mark.lineEdges.contains) = Line.parse raw := by
  unfold Line.parse
  rw [trimMatches_trimMatches]

theorem parse_of_telling {raw l : Text} (h : Lines.telling [raw] = [l]) :
    Line.parse l = Line.parse raw := by
  have hl : l ∈ Lines.telling [raw] := by
    rw [h]
    exact List.mem_singleton_self l
  have htrim : l = raw.trimMatches Mark.lineEdges.contains :=
    List.mem_singleton.1 (List.mem_filter.1 hl).1
  rw [htrim, parse_trimMatches]

end Line

/-! ## Readings that go on alike -/

instance : Add Summary where
  add a b :=
    { sections := a.sections + b.sections
      entries := a.entries + b.entries
      ignored := a.ignored + b.ignored }

@[simp] theorem Summary.sections_add (a b : Summary) :
    (a + b).sections = a.sections + b.sections := rfl

@[simp] theorem Summary.entries_add (a b : Summary) :
    (a + b).entries = a.entries + b.entries := rfl

@[simp] theorem Summary.ignored_add (a b : Summary) :
    (a + b).ignored = a.ignored + b.ignored := rfl

theorem Summary.empty_add (s : Summary) : ({} : Summary) + s = s := by
  show Summary.mk _ _ _ = s
  rw [Nat.zero_add, Nat.zero_add, Nat.zero_add]

theorem Summary.add_empty (s : Summary) : s + {} = s := rfl

namespace Reading

/-- The first reading stands where the second one stands, and has counted something before. What
they have reported may be different. -/
structure AgreesAfter (past : Summary) (r r' : Reading) : Prop where
  sections_eq : r.sections = r'.sections
  current_eq : r.current = r'.current
  summary_eq : r.summary = past + r'.summary

variable {past : Summary} {r r' : Reading}

theorem agreesAfter_empty (r : Reading) : AgreesAfter {} r r :=
  ⟨rfl, rfl, (Summary.empty_add r.summary).symm⟩

/-- A header makes the current section anew. -/
theorem agreesAfter_header (hsections : r.sections = r'.sections)
    (hsummary : r.summary = past + r'.summary) (n n' : Nat) (h : Option Header) :
    AgreesAfter past (r.readLine n (.header h)) (r'.readLine n' (.header h)) := by
  cases h with
  | none => exact ⟨hsections, rfl, by rw [readLine, ignore, hsummary]; rfl⟩
  | some h =>
    unfold readLine readHeader
    dsimp only
    rw [hsections]
    split
    · exact ⟨rfl, rfl, hsummary⟩
    · exact ⟨rfl, rfl, by rw [hsummary]; rfl⟩

namespace AgreesAfter

theorem trans_symm {r'' : Reading} (h : AgreesAfter past r r') (h' : AgreesAfter {} r'' r') :
    AgreesAfter past r r'' where
  sections_eq := h.sections_eq.trans h'.sections_eq.symm
  current_eq := h.current_eq.trans h'.current_eq.symm
  summary_eq := by rw [h.summary_eq, h'.summary_eq, Summary.empty_add]

variable (h : AgreesAfter past r r')

include h

theorem ignore (e e' : Event) : AgreesAfter past (r.ignore e) (r'.ignore e') where
  sections_eq := h.sections_eq
  current_eq := h.current_eq
  summary_eq := by
    rw [Reading.ignore, h.summary_eq]
    rfl

theorem readEntry (name : Text) (s : Section) (e : Entry) :
    AgreesAfter past (r.readEntry name s e) (r'.readEntry name s e) where
  sections_eq := by rw [Reading.readEntry, Reading.readEntry, h.sections_eq]
  current_eq := h.current_eq
  summary_eq := by
    rw [Reading.readEntry, h.summary_eq]
    rfl

theorem readLine (n n' : Nat) (l : Line) :
    AgreesAfter past (r.readLine n l) (r'.readLine n' l) := by
  cases l with
  | silent => exact h
  | header o => exact agreesAfter_header h.sections_eq h.summary_eq n n' o
  | content o =>
    have hcurrent : r.currentSection? = r'.currentSection? := by
      rw [currentSection?, currentSection?, h.current_eq, h.sections_eq]
    unfold Reading.readLine
    rw [hcurrent]
    cases r'.currentSection? with
    | none => exact h.ignore _ _
    | some s =>
      cases o with
      | none => exact h.ignore _ _
      | some e => exact h.readEntry s.1 s.2 e

/-- Lines that say nothing may be left out. -/
theorem readLines_telling (raws : List Text) (n n' : Nat) :
    AgreesAfter past (r.readLines (raws.zipIdx n))
      (r'.readLines ((Lines.telling raws).zipIdx n')) := by
  induction raws generalizing r r' n n' with
  | nil => exact h
  | cons raw rest ih =>
    rw [List.zipIdx_cons, readLines_cons, Lines.telling_cons]
    rcases Line.parse_cases raw with ⟨htelling, hparse⟩ | ⟨l, htelling, -⟩
    · rw [htelling, hparse]
      exact ih h (n + 1) n'
    · have hparse : Line.parse l = Line.parse raw := Line.parse_of_telling htelling
      rw [htelling, List.singleton_append, List.zipIdx_cons, readLines_cons, hparse]
      exact ih (h.readLine n n' _) (n + 1) (n' + 1)

theorem readLines {raws raws' : List Text} (htelling : Lines.telling raws = Lines.telling raws')
    (n n' : Nat) :
    AgreesAfter past (r.readLines (raws.zipIdx n)) (r'.readLines (raws'.zipIdx n')) := by
  have hleft := h.readLines_telling raws n 1
  rw [htelling] at hleft
  exact hleft.trans_symm ((agreesAfter_empty r').readLines_telling raws' n' 1)

end AgreesAfter

/-- Before a header, only the sections need to be the same. -/
theorem agreesAfter_readLines_of_header {raw : Text} {raws : List Text}
    (hraw : Lines.IsHeader (raw.trimMatches Mark.lineEdges.contains))
    (hsections : r.sections = r'.sections) (hsummary : r.summary = past + r'.summary)
    (n n' : Nat) :
    AgreesAfter past (r.readLines ((raw :: raws).zipIdx n))
      (r'.readLines ((raw :: raws).zipIdx n')) := by
  have hparse := Line.parse_of_head? hraw
  rw [List.zipIdx_cons, List.zipIdx_cons, readLines_cons, readLines_cons, hparse]
  exact (agreesAfter_header hsections hsummary n n' _).readLines rfl (n + 1) (n' + 1)

end Reading

/-! ## One text after another -/

section Append

variable {b : Text} (hb : Lines.IsHeader ((firstLine b).trimMatches Mark.lineEdges.contains))

include hb

/-- A byte order mark would stand before the bracket. -/
theorem Text.head?_ne_of_isHeader : b.head? ≠ some '\uFEFF' := by
  intro hmark
  obtain ⟨t, rfl⟩ := List.head?_eq_some_iff.1 hmark
  have hfirst : firstLine ('\uFEFF' :: t) = ['\uFEFF'] ++ firstLine t := rfl
  have hopen : some '\uFEFF' ≠ some Mark.headerOpen := by decide
  rw [hfirst, trimMatches_append_of_head (List.cons_ne_nil _ _) rfl rfl] at hb
  exact hopen hb

theorem Text.exists_lines_eq_cons : ∃ rest, b.lines = firstLine b :: rest := by
  obtain ⟨rest, hrest, hend⟩ := exists_eq_firstLine_append b
  have hfirst := hasLineBreak_firstLine b
  have hnewline : '\n' ∉ firstLine b := (hasLineBreak_eq_false_iff.1 hfirst).1
  rw [lines, dropByteOrderMark_eq_self (head?_ne_of_isHeader hb)]
  generalize firstLine b = first at hrest hfirst hnewline
  rw [hrest, unifyLineEnds_append hfirst]
  rcases hend with rfl | ⟨c, t, rfl, hc⟩
  · refine ⟨[], ?_⟩
    show (first ++ []).splitOn '\n' = [first]
    rw [List.append_nil, List.splitOn_eq_singleton hnewline]
  · obtain ⟨t', ht'⟩ := exists_unifyLineEnds_eq_cons hc t
    rw [ht', List.splitOn_append_cons_self_of_not_mem hnewline]
    exact ⟨_, rfl⟩

/-- The line feed ends the last line of the first text, or it belongs to a carriage return that
ended it. Both ways the same lines tell something. -/
theorem Lines.telling_lines_newline_append (a : Text) :
    telling (a ++ '\n' :: b).lines = telling (a.lines ++ b.lines) := by
  rw [telling_append, telling_lines, telling_lines a, telling_lines b,
    dropByteOrderMark_append_cons a b rfl, pieces_append_cons _ b rfl,
    dropByteOrderMark_eq_self (head?_ne_of_isHeader hb), telling_append]

theorem Reading.agreesAfter_newline_append (m : Sections) (a : Text) :
    AgreesAfter (m.read a).summary (m.read (a ++ '\n' :: b)) ((m.read a).sections.read b) := by
  obtain ⟨rest, hlines⟩ := exists_lines_eq_cons hb
  have hjoined : AgreesAfter {} (m.read (a ++ '\n' :: b))
      (readLines { sections := m } ((a.lines ++ b.lines).zipIdx 1)) :=
    (agreesAfter_empty _).readLines (Lines.telling_lines_newline_append hb a) 1 1
  have hparts : AgreesAfter (m.read a).summary
      (readLines { sections := m } ((a.lines ++ b.lines).zipIdx 1))
      ((m.read a).sections.read b) := by
    rw [List.zipIdx_append, readLines_append, hlines]
    show AgreesAfter _ ((m.read a).readLines _) (readLines { sections := (m.read a).sections } _)
    rw [hlines]
    apply agreesAfter_readLines_of_header hb
    · rfl
    · exact (Summary.add_empty _).symm
  exact ⟨hjoined.sections_eq.trans hparts.sections_eq, hjoined.current_eq.trans hparts.current_eq,
    by rw [hjoined.summary_eq, Summary.empty_add, hparts.summary_eq]⟩

/-- A text that begins with a header can be read by itself, into what the text before it left.
This holds if that text ends with a carriage return, to which the line feed between the two then
belongs, and if the header has no name. -/
theorem Sections.read_newline_append (m : Sections) (a : Text) :
    (m.read (a ++ '\n' :: b)).sections = ((m.read a).sections.read b).sections ∧
      (m.read (a ++ '\n' :: b)).summary =
        (m.read a).summary + ((m.read a).sections.read b).summary := by
  have hagrees := Reading.agreesAfter_newline_append hb m a
  exact ⟨hagrees.sections_eq, hagrees.summary_eq⟩

end Append

theorem Sections.read_newline_append_nameless :
    let m : Sections := ∅
    let a := "[s:p]\nk=1\nx\r".toList
    let b := "\t[ ]\nk=2\n[S]\nk=3".toList
    Lines.IsHeader ((firstLine b).trimMatches Mark.lineEdges.contains) ∧
      (m.read (a ++ '\n' :: b)).sections = ((m.read a).sections.read b).sections ∧
      (m.read (a ++ '\n' :: b)).summary =
        (m.read a).summary + ((m.read a).sections.read b).summary := by
  intro m a b
  have hb : Lines.IsHeader ((firstLine b).trimMatches Mark.lineEdges.contains) := by decide
  exact ⟨hb, Sections.read_newline_append hb m a⟩

/-! ## Lines that are ended in different ways -/

/-- What may end a line of a text that is read. -/
inductive LineEnd where
  | lf
  | crlf
  | cr
deriving DecidableEq, Repr

/-- The characters that end a line. -/
def LineEnd.text : LineEnd → Text
  | lf => ['\n']
  | crlf => ['\r', '\n']
  | cr => ['\r']

/-- A text of lines with their ends, where every place may have another end. -/
def Text.endedLines (ends : Nat → LineEnd) (contents : List Text) : Text :=
  contents.zipIdx.flatMap (fun l => l.1 ++ (ends l.2).text)

namespace Lines

theorem dropByteOrderMark_append_end (a b : Text) (e : LineEnd) :
    dropByteOrderMark (a ++ (e.text ++ b)) = dropByteOrderMark a ++ (e.text ++ b) := by
  cases e with
  | lf => exact dropByteOrderMark_append_cons a b rfl
  | crlf => exact dropByteOrderMark_append_cons a ('\n' :: b) rfl
  | cr => exact dropByteOrderMark_append_cons a b rfl

theorem telling_pieces_append_end (a b : Text) (e : LineEnd) :
    telling (pieces (a ++ (e.text ++ b))) = telling (pieces a) ++ telling (pieces b) := by
  have hafter : ∀ {c : Char}, isLineEnd c = true →
      telling (pieces (a ++ c :: b)) = telling (pieces a) ++ telling (pieces b) := fun hc => by
    rw [pieces_append_cons a b hc, telling_append]
  cases e with
  | lf => exact hafter rfl
  | cr => exact hafter rfl
  | crlf =>
    have hfeed : pieces ('\n' :: b) = [] :: pieces b := pieces_append_cons [] b rfl
    show telling (pieces (a ++ '\r' :: '\n' :: b)) = _
    rw [pieces_append_cons a _ rfl, hfeed, telling_append, telling_nil_cons]

theorem telling_pieces_endedLines (ends : Nat → LineEnd) (contents : List Text) (n : Nat)
    (rest : Text) :
    telling (pieces ((contents.zipIdx n).flatMap (fun l => l.1 ++ (ends l.2).text) ++ rest)) =
      telling (contents.flatMap pieces) ++ telling (pieces rest) := by
  induction contents generalizing n with
  | nil => rfl
  | cons l contents ih =>
    rw [List.zipIdx_cons, List.flatMap_cons, List.append_assoc, List.append_assoc,
      telling_pieces_append_end, ih, List.flatMap_cons, telling_append, List.append_assoc]

theorem telling_lines_endedLines (ends ends' : Nat → LineEnd) (contents : List Text)
    (rest : Text) :
    telling (endedLines ends contents ++ rest).lines =
      telling (endedLines ends' contents ++ rest).lines := by
  cases contents with
  | nil => rfl
  | cons l contents =>
    have htelling : ∀ ends : Nat → LineEnd,
        telling (endedLines ends (l :: contents) ++ rest).lines =
          telling (pieces (dropByteOrderMark l)) ++
            (telling (contents.flatMap pieces) ++ telling (pieces rest)) := fun ends => by
      rw [telling_lines, endedLines, List.zipIdx_cons, List.flatMap_cons, List.append_assoc,
        List.append_assoc, dropByteOrderMark_append_end, telling_pieces_append_end,
        telling_pieces_endedLines]
    rw [htelling ends, htelling ends']

end Lines

/-- Lines may be ended in any mixture of ways, and after them may come a line that is not ended. A
carriage return before an empty line that ends with a line feed makes one line end of the two, so
that the numbers of lines are different; the sections and the counts are not. The contents may
even hold line ends themselves. -/
theorem Sections.read_endedLines (m : Sections) (contents : List Text) (ends ends' : Nat → LineEnd)
    (rest : Text) :
    (m.read (endedLines ends contents ++ rest)).sections =
        (m.read (endedLines ends' contents ++ rest)).sections ∧
      (m.read (endedLines ends contents ++ rest)).summary =
        (m.read (endedLines ends' contents ++ rest)).summary := by
  have htelling := Lines.telling_lines_endedLines ends ends' contents rest
  have hagrees : Reading.AgreesAfter {} (m.read (endedLines ends contents ++ rest))
      (m.read (endedLines ends' contents ++ rest)) :=
    (Reading.agreesAfter_empty { sections := m }).readLines htelling 1 1
  refine ⟨hagrees.sections_eq, ?_⟩
  rw [hagrees.summary_eq, Summary.empty_add]

/-- The carriage return and the line feed after it are taken for one line end. -/
example :
    let contents := ["[s]".toList, [], "k=v".toList]
    lines (endedLines (fun i => if i = 0 then .cr else .lf) contents) =
        ["[s]".toList, "k=v".toList, []] ∧
      lines (endedLines (fun _ => .lf) contents) = ["[s]".toList, [], "k=v".toList, []] := by
  decide +kernel

end Lineage
