import Lineage.Text.Blank
import Lineage.Text.Lowercase

/-!
# Names

Sections and keys are named without regard to case and to blanks around the name: two texts
mean the same name if trimming and small letters make them equal.
-/

namespace Lineage.Text

/-- The name that a text stands for: trimmed, in small letters. -/
def toName (s : Text) : Text := lowercase (trim s)

end Lineage.Text
