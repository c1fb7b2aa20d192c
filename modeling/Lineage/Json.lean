import Lineage.OrderedMap
import Lineage.Text.CharClass

/-!
# JSON values

The values that snapshots are made of. A record may be read from an object, by the names of its
fields, or from an array, by their places.
-/

namespace Lineage

/-- A JSON value. A number is `mantissa * 10 ^ -exponent`. -/
inductive Json where
  | null
  | bool (value : Bool)
  | number (mantissa : Int) (exponent : Nat)
  | string (value : Text)
  | array (elements : List Json)
  | object (members : List (Text × Json))
deriving Inhabited

namespace Json

/-- The members of an object by name. Of members with one name the last counts. -/
def members? : Json → Option (OrderedMap Text Json)
  | object members => some (.ofList members)
  | _ => none

/-- The fields of a record by name, given their names in order. Members of an object with other
names do not count; an array must not have more elements than there are fields, and the fields
that it does not reach are missing. -/
def record? (names : List Text) : Json → Option (OrderedMap Text Json)
  | object members => some (.ofList members)
  | array elements =>
    if elements.length ≤ names.length then some (.ofList (names.zip elements)) else none
  | _ => none

def bool? : Json → Option Bool
  | bool value => some value
  | _ => none

def string? : Json → Option Text
  | string value => some value
  | _ => none

/-- A string or null. -/
def stringOrNull? : Json → Option (Option Text)
  | null => some none
  | string value => some (some value)
  | _ => none

/-- A name out of a list of names: as a string, or as the only member of an object, which is
null. -/
def choice? : Json → Option Text
  | string value => some value
  | object [(name, null)] => some name
  | _ => none

/-- A field that may be missing. -/
def fieldD {α : Type} (fields : OrderedMap Text Json) (name : Text) (default : α)
    (read? : Json → Option α) : Option α :=
  match fields.get? name with
  | some value => read? value
  | none => some default

def ofOption : Option Text → Json
  | some value => string value
  | none => null

end Json

end Lineage
