import IndexAlgebra.Json.Basic
/-!
# Exchange

How values are exchanged as JSON. A record is an object with its fields in any order, or an array of
exactly its fields in their order; in an object, fields of other names do not count, but a field
that is missing or repeated does. A variant without contents is written as its name, and one with
contents as an object whose only member has its name; a variant without contents may also be read
from such an object, with the value null.
-/

namespace IndexAlgebra

/-- Values that are exchanged as JSON, and have an outline that shows their structure. -/
class Exchange (α : Type) where
  decode? : Json → Option α
  encode : α → Json
  outline : α → String

namespace Json

/-- The value of the only member with a name. -/
def member? (members : List (String × Json)) (name : String) : Option Json :=
  match members.filter fun m => m.1 == name with
  | [(_, value)] => some value
  | _ => none

/-- The fields of a record, in the order of their names. -/
def fields? (names : List String) : Json → Option (List Json)
  | .array items => if items.length = names.length then some items else none
  | .object members => names.mapM (member? members)
  | _ => none

/-- The name of a variant and its contents, if there are any. -/
def variant? : Json → Option (String × Option Json)
  | .text name => some (name, none)
  | .object [(name, value)] => some (name, some value)
  | _ => none

/-- The name of a variant without contents. -/
def unitVariant? (value : Json) : Option String :=
  match value.variant? with
  | some (name, none) => some name
  | some (name, some .null) => some name
  | _ => none

/-- An integer between two limits. -/
def intIn? (lo hi : Int) : Json → Option Int
  | .int n => if lo ≤ n ∧ n ≤ hi then some n else none
  | _ => none

def word? : Json → Option Int := intIn? (-0x8000000000000000) 0x7fffffffffffffff

def text? : Json → Option String
  | .text s => some s
  | _ => none

end Json

end IndexAlgebra
