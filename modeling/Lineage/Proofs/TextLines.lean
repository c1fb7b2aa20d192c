import Lineage.Document.Writing
import Lineage.Proofs.WrittenLines

/-!
# Lines of a text

No line of a text holds a line end (`hasLineBreak_of_mem_lines`). Lines that hold none are the
lines of the text they are joined to, whichever line ending joins them (`lines_join`). That text
ends with a line end, so that one empty line comes after them.
-/

namespace Lineage

namespace Text

theorem unifyLineEnds_cons {c : Char} (hc : c ≠ '\r') (rest : Text) :
    unifyLineEnds (c :: rest) = c :: unifyLineEnds rest := by
  rw [unifyLineEnds]
  · rw [if_neg hc]
  · rintro rest' rfl
    exact absurd rfl hc

theorem not_mem_unifyLineEnds (s : Text) : '\r' ∉ unifyLineEnds s := by
  fun_induction unifyLineEnds s with
  | case1 => exact nofun
  | case2 rest ih =>
    rw [List.mem_cons, not_or]
    exact ⟨by decide, ih⟩
  | case3 c rest _ ih =>
    rw [List.mem_cons, not_or]
    refine ⟨?_, ih⟩
    split
    · decide
    · rename_i hc
      exact Ne.symm hc

/-- A piece of a text that is split holds no mark, and nothing that the text does not hold. -/
theorem mem_of_mem_splitOn {mark : Char} {s l : Text} (h : l ∈ s.splitOn mark) :
    mark ∉ l ∧ ∀ c ∈ l, c ∈ s := by
  induction s generalizing l with
  | nil =>
    obtain rfl : l = [] := List.mem_singleton.1 h
    exact ⟨nofun, nofun⟩
  | cons d s ih =>
    have hsplit : (d :: s).splitOn mark =
        if (d == mark) = true then [] :: s.splitOn mark
        else (s.splitOn mark).modifyHead (List.cons d) :=
      List.splitOnP_cons_eq_if_modifyHead d s
    rw [hsplit] at h
    split at h
    · rcases List.mem_cons.1 h with rfl | h
      · exact ⟨nofun, nofun⟩
      · obtain ⟨hmark, hmem⟩ := ih h
        exact ⟨hmark, fun c hc => List.mem_cons_of_mem _ (hmem c hc)⟩
    · rename_i hd
      obtain ⟨first, rest, hpieces⟩ : ∃ first rest, s.splitOn mark = first :: rest :=
        List.exists_cons_of_ne_nil (List.splitOnP_ne_nil _ s)
      rw [hpieces, List.modifyHead_cons, List.mem_cons] at h
      rw [hpieces] at ih
      rcases h with rfl | h
      · obtain ⟨hmark, hmem⟩ := ih List.mem_cons_self
        rw [List.mem_cons, not_or]
        refine ⟨⟨fun h => hd (beq_iff_eq.2 h.symm), hmark⟩, List.forall_mem_cons.2 ⟨?_, ?_⟩⟩
        · exact List.mem_cons_self
        · exact fun c hc => List.mem_cons_of_mem _ (hmem c hc)
      · obtain ⟨hmark, hmem⟩ := ih (List.mem_cons_of_mem _ h)
        exact ⟨hmark, fun c hc => List.mem_cons_of_mem _ (hmem c hc)⟩

theorem hasLineBreak_of_mem_lines {s l : Text} (h : l ∈ s.lines) : l.hasLineBreak = false := by
  obtain ⟨hn, hmem⟩ := mem_of_mem_splitOn h
  exact hasLineBreak_eq_false_iff.2 ⟨hn, fun hr => not_mem_unifyLineEnds _ (hmem _ hr)⟩

theorem unifyLineEnds_append {l : Text} (h : l.hasLineBreak = false) (rest : Text) :
    unifyLineEnds (l ++ rest) = l ++ unifyLineEnds rest := by
  induction l with
  | nil => rfl
  | cons c l ih =>
    obtain ⟨hc, hl⟩ : (c ≠ '\n' ∧ c ≠ '\r') ∧ hasLineBreak l = false := by
      simpa using h
    rw [List.cons_append, unifyLineEnds_cons hc.2, ih hl, List.cons_append]

theorem unifyLineEnds_lineEnding (ending : LineEnding) (rest : Text) :
    unifyLineEnds (ending.text ++ rest) = '\n' :: unifyLineEnds rest := by
  cases ending with
  | crlf => rfl
  | lf => exact unifyLineEnds_cons (by decide) rest

theorem dropByteOrderMark_eq_self {s : Text} (h : s.head? ≠ some '\uFEFF') :
    dropByteOrderMark s = s := by
  unfold dropByteOrderMark
  split
  · exact absurd rfl h
  · rfl

theorem lines_eq_singleton {s : Text} (h : s.hasLineBreak = false)
    (hmark : s.head? ≠ some '\uFEFF') : s.lines = [s] := by
  have hunified := unifyLineEnds_append h []
  rw [List.append_nil, unifyLineEnds, List.append_nil] at hunified
  rw [lines, dropByteOrderMark_eq_self hmark, hunified]
  exact List.splitOn_eq_singleton (hasLineBreak_eq_false_iff.1 h).1

end Text

namespace LineEnding

open Text

variable (ending : LineEnding)

theorem join_cons (l : Text) (ls : List Text) :
    ending.join (l :: ls) = l ++ (ending.text ++ ending.join ls) := by
  rw [join, List.flatMap_cons, List.append_assoc]
  rfl

theorem splitOn_unifyLineEnds_join {ls : List Text} (h : ∀ l ∈ ls, l.hasLineBreak = false) :
    (unifyLineEnds (ending.join ls)).splitOn '\n' = ls ++ [[]] := by
  induction ls with
  | nil => rfl
  | cons l ls ih =>
    have hl := h l List.mem_cons_self
    have hnewline : '\n' ∉ l := (hasLineBreak_eq_false_iff.1 hl).1
    rw [join_cons, unifyLineEnds_append hl, unifyLineEnds_lineEnding,
      List.splitOn_append_cons_self_of_not_mem hnewline,
      ih fun m hm => h m (List.mem_cons_of_mem _ hm), List.cons_append]

theorem lines_join {ls : List Text} (h : ∀ l ∈ ls, l.hasLineBreak = false)
    (hmark : (ending.join ls).head? ≠ some '\uFEFF') : (ending.join ls).lines = ls ++ [[]] := by
  rw [lines, dropByteOrderMark_eq_self hmark]
  exact ending.splitOn_unifyLineEnds_join h

end LineEnding

end Lineage
