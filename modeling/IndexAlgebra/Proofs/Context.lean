import IndexAlgebra.Proofs.Table
import IndexAlgebra.Context
import Mathlib.Data.List.Nodup
import Mathlib.Data.List.Range
/-!
# The operators of a context

A context gives out the operator that it has registered for a name, or registers a new one
(`Context.register_run`). A new context makes its known operators one after the other, so that no
two of them are the same, and they stay what they are when further operators are asked for.
-/

namespace IndexAlgebra

theorem Registry.intern_run (registry : Registry) (name : String) (next : Handle) :
    ((intern name).run registry).run next =
      match registry.get? name with
      | some op => ((op, registry), next)
      | none => ((⟨next, name⟩, registry.insert name ⟨next, name⟩), next + 1) := by
  unfold intern
  rw [StateT.run_bind, StateT.run_get, pure_bind]
  dsimp only
  cases registry.get? name <;> rfl

/-- The known operators, in the order in which a context makes them. -/
def Builtins.all (k : Builtins) : List Op :=
  [k.leftShift, k.rightShift, k.bitAnd, k.bitOr, k.bitXor, k.bitNot, k.ifThenElse]

namespace Context

/-- A context that a program may have: a new one, or what has become of one when operators were
asked for. -/
inductive Made : Context → Prop where
  | new (next : Handle) : Made (new.run next).1
  | operator {ctx : Context} (name : String) (next : Handle) : Made ctx →
      Made ((ctx.operator name).run next).1.2

/-! ## New contexts -/

theorem handles_new (next : Handle) :
    (new.run next).1.builtins.all.map Op.handle = List.range' next 7 := rfl

theorem nodup_handles_new (next : Handle) :
    ((new.run next).1.builtins.all.map Op.handle).Nodup :=
  handles_new next ▸ List.nodup_range'

theorem nodup_new (next : Handle) : (new.run next).1.builtins.all.Nodup :=
  (nodup_handles_new next).of_map

theorem handle_mem_new {next : Handle} {k : Op} (hk : k ∈ (new.run next).1.builtins.all) :
    next ≤ k.handle ∧ k.handle < (new.run next).2 := by
  have hmem := List.mem_map_of_mem (f := Op.handle) hk
  rw [handles_new, List.mem_range'_1] at hmem
  -- two more handles are those of the infinities
  exact ⟨hmem.1, Nat.lt_of_lt_of_le hmem.2 (Nat.le_add_right (next + 7) 2)⟩

/-- A new context has registered the operators that it knows, and no others. -/
theorem entries_new (next : Handle) : (new.run next).1.registry.entries =
    (new.run next).1.builtins.all.map fun k => (k.name, k) := rfl

theorem nodup_names_new (next : Handle) :
    ((new.run next).1.builtins.all.map Op.name).Nodup := by
  have hnames : (new.run next).1.builtins.all.map Op.name =
      ["sym.left_shift", "sym.right_shift", "sym.bitwise_and", "sym.bitwise_or",
        "sym.bitwise_xor", "sym.bitwise_not", "sym.if_then_else"] := rfl
  rw [hnames]
  decide

theorem find?_new {next : Handle} {k : Op} (hk : k ∈ (new.run next).1.builtins.all) :
    (new.run next).1.find? k.name = some k := by
  unfold find? Table.get?
  rw [entries_new]
  exact Table.lookup_map_of_mem (nodup_names_new next) hk

theorem mem_of_find?_new {next : Handle} {name : String} {op : Op}
    (h : (new.run next).1.find? name = some op) :
    op ∈ (new.run next).1.builtins.all ∧ op.name = name := by
  obtain ⟨key, hkey, hmem⟩ := Table.exists_mem_of_get? h
  rw [entries_new] at hmem
  obtain ⟨k, hk, heq⟩ := List.mem_map.1 hmem
  cases heq
  exact ⟨hk, beq_iff_eq.1 hkey⟩

/-! ## Registration -/

/-- A context with an operator more. -/
def withOperator (ctx : Context) (op : Op) : Context :=
  { ctx with registry := ctx.registry.insert op.name op }

/-- A name is registered with the operator that it has, or with a new one. -/
theorem register_run (ctx : Context) (name : String) (next : Handle) :
    (ctx.register name).run next =
      match ctx.find? name with
      | some op => ((op, ctx), next)
      | none => ((⟨next, name⟩, ctx.withOperator ⟨next, name⟩), next + 1) := by
  have hintern := Registry.intern_run ctx.registry name next
  unfold register find?
  rw [StateT.run_bind, hintern]
  cases ctx.registry.get? name <;> rfl

/-- Looking for the operator first makes no difference. -/
theorem operator_eq_register (ctx : Context) (name : String) :
    ctx.operator name = ctx.register name := by
  funext next
  have hrun := register_run ctx name next
  unfold operator
  cases h : ctx.find? name with
  | none => rfl
  | some op =>
    rw [h] at hrun
    exact hrun.symm

theorem builtins_register (ctx : Context) (name : String) (next : Handle) :
    ((ctx.register name).run next).1.2.builtins = ctx.builtins := rfl

/-- The known operators are different. -/
theorem Made.nodup {ctx : Context} (h : ctx.Made) : ctx.builtins.all.Nodup := by
  induction h with
  | new next => exact nodup_new next
  | @operator ctx name next _ ih =>
    rw [operator_eq_register, builtins_register]
    exact ih

end Context

end IndexAlgebra
