import IndexAlgebra.DataType.Basic
import IndexAlgebra.Text.Quoted
/-!
# Reading data types

`DataType.parse` reads what `DataType.text` writes, and a little more: numbers may have a sign `+`
and leading zeros, and a single lane may be spelt out. A width lies between 1 and 64, and there is
at least one lane.
-/

namespace IndexAlgebra

/-- A text that names no data type. -/
structure DataTypeError where
  input : String
deriving DecidableEq, Inhabited

/-- What is said of a text that names no data type. -/
def DataTypeError.message (e : DataTypeError) : String :=
  "Cannot parse data type: " ++ Text.quoted e.input

namespace DataType

/-- The number that a nonempty run of digits writes, if it is no larger than `limit`. -/
def parseDigits? (limit : Nat) (digits : List Char) : Option Nat :=
  if digits.isEmpty || !digits.all Char.isDigit then none
  else
    let n := digits.foldl (fun n d => 10 * n + (d.toNat - 48)) 0
    if n ≤ limit then some n else none

/-- The number that digits after an optional sign `+` write, if it is no larger than `limit`. -/
def parseNumber? (limit : Nat) : List Char → Option Nat
  | '+' :: digits => parseDigits? limit digits
  | digits => parseDigits? limit digits

/-- What follows a word at the start of a text. -/
def after? : List Char → List Char → Option (List Char)
  | [], rest => some rest
  | w :: word, c :: cs => if w = c then after? word cs else none
  | _ :: _, [] => none

/-- A single element whose kind is followed by its width. -/
def parseWidth? (make : UInt8 → DataType) (digits : List Char) : Option DataType :=
  match parseNumber? 255 digits with
  | some n => if 1 ≤ n ∧ n ≤ 64 then some (make (.ofNat n)) else none
  | none => none

/-- A single element. -/
def parseScalar? (cs : List Char) : Option DataType :=
  if cs = "bool".toList then some bool
  else if cs = "handle".toList then some handle
  else
    match after? "uint".toList cs with
    | some digits => parseWidth? uint digits
    | none =>
      match after? "int".toList cs with
      | some digits => parseWidth? int digits
      | none =>
        match after? "float".toList cs with
        | some digits => parseWidth? float digits
        | none => none

/-- The text before the first `x`, and the text after it if there is one. -/
def splitLanes : List Char → List Char × Option (List Char)
  | [] => ([], none)
  | c :: cs =>
    if c = 'x' then ([], some cs)
    else
      let (scalar, lanes) := splitLanes cs
      (c :: scalar, lanes)

/-- The number of lanes after the `x`, one if there is no `x`. -/
def parseLanes? : Option (List Char) → Option Nat
  | none => some 1
  | some digits =>
    match parseNumber? 65535 digits with
    | some n => if n = 0 then none else some n
    | none => none

/-- The data type that characters name. -/
def parseChars? (cs : List Char) : Option DataType :=
  let (scalar, lanes) := splitLanes cs
  match parseLanes? lanes, parseScalar? scalar with
  | some n, some ty => some (ty.withLanes (.ofNat n))
  | _, _ => none

def parse (s : String) : Except DataTypeError DataType :=
  match parseChars? s.toList with
  | some ty => .ok ty
  | none => .error ⟨s⟩

end DataType

end IndexAlgebra
