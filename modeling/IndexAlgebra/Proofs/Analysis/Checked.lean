import IndexAlgebra.Analysis.Record
import IndexAlgebra.Analysis.Scope
import IndexAlgebra.Proofs.Analysis.Rules
import IndexAlgebra.Proofs.Bound.Checked
/-!
# Checked analysis

The analyzer written again with checked arithmetic: where it would misuse an operation on endpoints,
or find for a node a bound that is not as asserted, it has no result. All the rest is the same, step
for step. On normal bounds, each rule for nodes has the result of the unchecked rule.
-/

namespace IndexAlgebra

open Endpoint

/-! ## The rules -/

namespace Bound.Checked

open Endpoint.Checked (fits?)

def binary (op : BinaryOp) (a b : Bound) : Option Bound :=
  match op with
  | .add => add a b
  | .sub => sub a b
  | .mul => some (a.mul b)
  | .div => division Int.tdiv a b
  | .mod => mod a b
  | .floorDiv => division Int.fdiv a b
  | .floorMod => floorMod a b
  | .min => some (a.minimum b)
  | .max => some (a.maximum b)
  | _ => some everything

def call (k : Builtins) (op : Op) (a b : Bound) : Option Bound :=
  if op = k.rightShift then rightShift a b
  else if op = k.leftShift then leftShift a b
  else if op = k.bitAnd then some (a.bitAnd b)
  else some everything

def ramp (base stride lanes : Bound) : Option Bound := do
  let steps ← sub lanes (make 1 1)
  let last ← add base (steps.mul stride)
  return base.union last

def ofDataType (ty : DataType) : Option Bound :=
  let bits := max 1 ty.bits.toNat
  match ty.kind with
  | .bool => some (make 0 1)
  | .int =>
    if 64 ≤ bits then some everything
    else do
      let half ← fits? (1 <<< (bits - 1) : Nat)
      let lowest ← Endpoint.Checked.neg half
      return make lowest (half - 1)
  | .uint =>
    if 63 ≤ bits then some (make 0 posInf)
    else do
      let above ← fits? (1 <<< bits : Nat)
      return make 0 (above - 1)
  | .float | .handle => some everything

def cast (ty : DataType) (b : Bound) : Option Bound := do
  let target ← ofDataType ty
  return if target.subsumes b then b else target

def assumed? (op : BinaryOp) (b : Bound) : Option (Option Bound) :=
  match op with
  | .lt => do
    let hi ← Endpoint.Checked.add b.hi (-1)
    return some (make negInf (hi.getD posInf))
  | .gt => do
    let lo ← Endpoint.Checked.add b.lo 1
    return some (make (lo.getD negInf) posInf)
  | op => some (b.assumed? op)

def rangeBound (first extent : Bound) : Option Bound := do
  let offset ← Endpoint.Checked.add extent.hi (-1)
  let last ← match offset with
    | some offset => Endpoint.Checked.add first.hi offset
    | none => some none
  return make first.lo (max (last.getD posInf) first.lo)

variable {a b : Bound}

theorem binary_eq (ha : a.Normal) (hb : b.Normal) (op : BinaryOp) :
    binary op a b = some (a.binary op b) := by
  cases op
  case add => exact add_eq hb
  case sub => exact sub_eq hb
  case div => exact division_eq div_dividesAs ha hb
  case mod => exact mod_eq hb
  case floorDiv => exact division_eq floorDiv_dividesAs ha hb
  case floorMod => exact floorMod_eq hb
  all_goals rfl

theorem call_eq (ha : a.Normal) (hb : b.Normal) (k : Builtins) (op : Op) :
    call k op a b = some (a.call k op b) := by
  unfold call Bound.call
  split
  · exact rightShift_eq ha hb
  · split
    · exact leftShift_eq ha hb
    · split <;> rfl

theorem ramp_eq (a b c : Bound) : ramp a b c = some (a.ramp b c) := by
  unfold ramp Bound.ramp
  rw [sub_eq (normal_make (Int.le_refl 1))]
  dsimp only [Option.bind_eq_bind, Option.bind_some]
  rw [add_eq (Normal.mul _ _)]
  rfl

/-- The powers of two in the bounds of data types fit. -/
theorem fits?_shiftLeft_one {n : Nat} (h : n ≤ 62) :
    fits? (1 <<< n : Nat) = some ((1 <<< n : Nat) : Int) ∧
      fits? (-(1 <<< n : Nat)) = some (-((1 <<< n : Nat) : Int)) := by
  rw [shiftLeft_one_cast]
  have h1 := one_le_two_pow n
  have h2 := two_pow_mono h
  constructor
  · exact Endpoint.Checked.fits?_eq (by simp only [negInf_eq]; omega)
      (by simp only [posInf_eq]; omega)
  · exact Endpoint.Checked.fits?_eq (by simp only [negInf_eq]; omega)
      (by simp only [posInf_eq]; omega)

theorem ofDataType_eq (ty : DataType) : ofDataType ty = some (.ofDataType ty) := by
  unfold ofDataType Bound.ofDataType
  cases ty.kind with
  | bool | float | handle => rfl
  | int =>
    dsimp only
    split
    · rfl
    · next h =>
      obtain ⟨hhalf, hneg⟩ := fits?_shiftLeft_one (n := max 1 ty.bits.toNat - 1) (by omega)
      rw [hhalf]
      dsimp only [Option.bind_eq_bind, Option.bind_some, Endpoint.Checked.neg]
      rw [hneg]
      rfl
  | uint =>
    dsimp only
    split
    · rfl
    · next h =>
      rw [(fits?_shiftLeft_one (n := max 1 ty.bits.toNat) (by omega)).1]
      rfl

theorem cast_eq (ty : DataType) (b : Bound) : cast ty b = some (b.cast ty) := by
  unfold cast
  rw [ofDataType_eq]
  rfl

theorem assumed?_eq (op : BinaryOp) (b : Bound) : assumed? op b = some (b.assumed? op) := by
  unfold assumed? Bound.assumed?
  split
  · rw [Endpoint.Checked.add_eq (by decide) (by decide)]
    rfl
  · rw [Endpoint.Checked.add_eq (by decide) (by decide)]
    rfl
  · rfl

theorem rangeBound_eq (first extent : Bound) :
    rangeBound first extent = some (Analyzer.rangeBound first extent) := by
  unfold rangeBound Analyzer.rangeBound
  rw [Endpoint.Checked.add_eq (by decide) (by decide)]
  cases hoffset : add? extent.hi (-1) with
  | none => rfl
  | some offset =>
    obtain ⟨hl, hh⟩ := add?_mem hoffset
    dsimp only [Option.bind_eq_bind, Option.bind_some]
    rw [Endpoint.Checked.add_eq hl hh]
    rfl

end Bound.Checked

namespace Analyzer

/-! ## The analyzer -/

/-- What an analyzer does, which a failed check ends without a result. -/
abbrev CheckedAnalysis := StateT Analyzer Option

namespace Checked

/-- What is asserted of the bound of a node. -/
def asserted (b : Bound) : Option Bound := if b.lo ≤ b.hi ∧ negInf ≤ b.lo then some b else none

def remember (e : Expr) (compute : CheckedAnalysis Bound) : CheckedAnalysis Bound := fun a =>
  match a.known? e with
  | some b => some (b, a)
  | none => do
    let (b, a) ← compute.run a
    let b ← asserted b
    return (b, a.learn e b)

def analyze : Expr → CheckedAnalysis Bound
  | .var v => do asserted ((← get).boundOf v)
  | e@(.int _ value) => remember e do return .unit value.toInt
  | e@(.float ..) => remember e do return .everything
  | e@(.str ..) => remember e do return .everything
  | e@(.cast _ value ty) => remember e do
    if ty.isInteger then Bound.Checked.cast ty (← analyze value) else Bound.Checked.ofDataType ty
  | e@(.binary _ op x y) => remember e do
    if op.isArithmetic then
      let a ← analyze x
      let b ← analyze y
      Bound.Checked.binary op a b
    else return .everything
  | e@(.not ..) => remember e do return .everything
  | e@(.select _ _ yes no) => remember e do
    let a ← analyze yes
    let b ← analyze no
    return a.union b
  | e@(.ramp _ base stride lanes) => remember e do
    let first ← analyze base
    let step ← analyze stride
    let count ← analyze lanes
    Bound.Checked.ramp first step count
  | e@(.broadcast _ value _) => remember e do analyze value
  | e@(.letIn _ v value body) => remember e do
    if (← get).isBound v then analyze body
    else
      let b ← analyze value
      modify (·.enterLet v b)
      let result ← analyze body
      modify (·.leaveLet v)
      return result
  | e@(.call _ op [x, y]) => remember e do
    let builtins := (← get).builtins
    if op = builtins.ifThenElse then return .everything
    else
      let a ← analyze x
      let b ← analyze y
      Bound.Checked.call builtins op a b
  | e@(.call _ op [_, yes, no]) => remember e do
    if op = (← get).builtins.ifThenElse then
      let a ← analyze yes
      let b ← analyze no
      return a.union b
    else return .everything
  | e@(.call ..) => remember e do return .everything
  | e@(.shuffle ..) => remember e do return .everything

def analyzeWith (memo : Memo) (e : Expr) : CheckedAnalysis (Bound × Memo) := do
  let outer := (← get).memo
  modify fun a => { a with memo := some memo }
  let b ← analyze e
  let filled := (← get).memo.getD memo
  modify fun a => { a with memo := outer }
  return (b, filled)

/-- Recording a bound needs no checks. -/
def update (v : Var) (b : Bound) (allowOverride : Bool) :
    CheckedAnalysis (Except BoundError (Option Notice)) :=
  fun a => some ((Analyzer.update v b allowOverride).run a)

def bind (v : Var) (range : Range) (allowOverride : Bool) :
    CheckedAnalysis (Except BoundError (Option Notice)) := do
  let first ← analyze range.min
  let extent ← analyze range.extent
  let b ← Bound.Checked.rangeBound first extent
  update v b allowOverride

def assumeFact (v : Var) (op : BinaryOp) (other : Expr) (opening : Opening) :
    CheckedAnalysis Opening := do
  let b ← analyze other
  match ← Bound.Checked.assumed? op b with
  | none => return opening
  | some assumed =>
    let a ← get
    let current := a.boundOf v
    match current.intersect? assumed with
    | none =>
      return { opening with
        notices := opening.notices ++ [.ignoring v op other current assumed] }
    | some refined =>
      set { a with bounds := a.bounds.insert v refined }
      return { opening with scope := ⟨(v, a.bound? v) :: opening.scope.saved⟩ }

def assume : Expr → Opening → CheckedAnalysis Opening
  | .binary _ .and a b, opening => do
    let opening ← assume a opening
    assume b opening
  | .binary _ op a b, opening => do
    if op.isComparison then
      let opening ← match a.var? with
        | some v => assumeFact v op b opening
        | none => pure opening
      match b.var? with
      | some v => assumeFact v op.converse a opening
      | none => return opening
    else return opening
  | _, opening => return opening

def enter (constraint : Expr) : CheckedAnalysis (Scope × List Notice) := do
  let opening ← assume constraint {}
  return (opening.scope, opening.notices)

end Checked

end Analyzer

end IndexAlgebra
