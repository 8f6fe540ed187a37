import IndexAlgebra.Analysis.Basic
import IndexAlgebra.Congruence
import IndexAlgebra.DataType.Parser
import IndexAlgebra.Exchange.Basic
import IndexAlgebra.Folding
/-!
# Exchanged types

The JSON forms and outlines of the types that are exchanged: data types, operators, bounds,
congruence classes, and the errors.
-/

namespace IndexAlgebra

/-! ## Data types -/

/-- The kind with a name. -/
def ScalarKind.ofText? (s : String) : Option ScalarKind :=
  [int, uint, float, bool, handle].find? fun kind => kind.text == s

instance : Exchange ScalarKind where
  decode? j := j.unitVariant?.bind ScalarKind.ofText?
  encode kind := .text kind.text
  outline := ScalarKind.outline

instance : Exchange DataType where
  decode? j := do
    let [kind, bits, lanes] ← j.fields? ["code", "bits", "lanes"] | none
    let kind ← Exchange.decode? kind
    let bits ← bits.intIn? 0 255
    let lanes ← lanes.intIn? 0 65535
    return ⟨kind, .ofNat bits.toNat, .ofNat lanes.toNat⟩
  encode ty :=
    .object [("code", Exchange.encode ty.kind), ("bits", .int ty.bits.toNat),
      ("lanes", .int ty.lanes.toNat)]
  outline := DataType.outline

instance : Exchange DataTypeError where
  decode? j := j.text?.map .mk
  encode e := .text e.input
  outline e := applied "DataTypeParseError" [Text.quoted e.input]

/-! ## Operators, bounds and classes -/

instance : Exchange BinaryOp where
  decode? j := j.unitVariant?.bind BinaryOp.ofName?
  encode op := .text op.name
  outline := BinaryOp.name

instance : Exchange Bound where
  decode? j := do
    let [lo, hi] ← j.fields? ["min_value", "max_value"] | none
    return ⟨← lo.word?, ← hi.word?⟩
  encode b := .object [("min_value", .int b.lo), ("max_value", .int b.hi)]
  outline b :=
    record "ConstIntBound" [("min_value", toString b.lo), ("max_value", toString b.hi)]

instance : Exchange CongruenceClass where
  decode? j := do
    let [coeff, base] ← j.fields? ["coeff", "base"] | none
    return ⟨← coeff.word?, ← base.word?⟩
  encode c := .object [("coeff", .int c.coeff), ("base", .int c.base)]
  outline c := record "ModularSet" [("coeff", toString c.coeff), ("base", toString c.base)]

/-! ## Errors -/

instance : Exchange FoldError where
  decode? j :=
    match j.variant? with
    | some ("DivideByZero", none) => some .divideByZero
    | some ("DivideByZero", some .null) => some .divideByZero
    | some ("NegativeShift", some amount) => amount.word?.map fun n => .negativeShift (.ofInt n)
    | _ => none
  encode
    | .divideByZero => .text "DivideByZero"
    | .negativeShift amount => .object [("NegativeShift", .int amount.toInt)]
  outline
    | .divideByZero => "DivideByZero"
    | .negativeShift amount => applied "NegativeShift" [toString amount.toInt]

instance : Exchange BoundError where
  decode? j :=
    match j.variant? with
    | some ("ConflictingBound", some contents) => do
      let [name, recorded, new] ← contents.fields? ["var", "original", "new"] | none
      return .conflicting (← name.text?) (← Exchange.decode? recorded) (← Exchange.decode? new)
    | some ("EmptyBound", some contents) => do
      let [name, lo, hi] ← contents.fields? ["var", "min", "max"] | none
      return .empty (← name.text?) (← lo.word?) (← hi.word?)
    | _ => none
  encode
    | .conflicting name recorded new =>
      .object [("ConflictingBound", .object
        [("var", .text name), ("original", Exchange.encode recorded),
          ("new", Exchange.encode new)])]
    | .empty name lo hi =>
      .object [("EmptyBound", .object
        [("var", .text name), ("min", .int lo), ("max", .int hi)])]
  outline
    | .conflicting name recorded new =>
      record "ConflictingBound"
        [("var", Text.quoted name), ("original", Exchange.outline recorded),
          ("new", Exchange.outline new)]
    | .empty name lo hi =>
      record "EmptyBound"
        [("var", Text.quoted name), ("min", toString lo), ("max", toString hi)]

end IndexAlgebra
