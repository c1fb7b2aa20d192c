import Lineage.Text.CharClass

/-!
# Lines

A line is ended by a line feed, by a carriage return, or by both in this order. The lines of a
text are what lies between these ends, after one byte order mark at the start is left out.
-/

namespace Lineage.Text

/-- Whether a text holds a line feed or a carriage return. -/
def hasLineBreak (s : Text) : Bool := s.any (fun c => c = '\n' || c = '\r')

/-- Writes every line end as one line feed. -/
def unifyLineEnds : Text → Text
  | [] => []
  | '\r' :: '\n' :: rest => '\n' :: unifyLineEnds rest
  | c :: rest => (if c = '\r' then '\n' else c) :: unifyLineEnds rest

/-- Leaves out one byte order mark at the start. -/
def dropByteOrderMark : Text → Text
  | '\uFEFF' :: rest => rest
  | s => s

/-- The lines of a text. The empty text has one line, which is empty. -/
def lines (s : Text) : List Text := (unifyLineEnds (dropByteOrderMark s)).splitOn '\n'

end Lineage.Text
