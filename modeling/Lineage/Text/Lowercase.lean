import Lineage.Text.CaseTable

/-!
# Small letters

The full mapping to small letters. It takes one character at a time, except that a capital
sigma has two small forms: `ς` at the end of a word and `σ` elsewhere. A sigma ends a word if,
passing over characters that case ignores, a cased character comes before it and none after it.
-/

namespace Lineage.Text

/-- The small form of a character outside of any word. -/
def lowerChar (c : Char) : Text :=
  if c = 'İ' then ['i', '\u0307']
  else match caseRuns.findSome? (fun r => r.small? c.toNat) with
    | some n => [Char.ofNat n]
    | none => [c]

/-- Whether the first character that case does not ignore is a cased one. -/
def startsCased (s : Text) : Bool :=
  (s.dropWhile CharClass.caseIgnorable.contains).head?.any CharClass.cased.contains

/-- The small form of a text, where `seen` holds the characters before it, the last one first. -/
def lowerAfter (seen : Text) : Text → Text
  | [] => []
  | c :: rest =>
    let small :=
      if c = 'Σ' then [if startsCased seen && !startsCased rest then 'ς' else 'σ']
      else lowerChar c
    small ++ lowerAfter (c :: seen) rest

/-- The text in small letters. -/
def lowercase (s : Text) : Text := lowerAfter [] s

/-- Case ignores dots and colons, so a sigma before a colon may be within a word. -/
example : lowercase "ΟΔΟΣ. Σ ΑΣ:Β ΑΣ:".toList = "οδος. σ ασ:β ας:".toList := by decide +kernel

end Lineage.Text
