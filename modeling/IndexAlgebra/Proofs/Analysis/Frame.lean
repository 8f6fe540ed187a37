import IndexAlgebra.Proofs.Analysis.Plain
/-!
# What queries leave alone

A query changes nothing of an analyzer but the table in use, from whatever state it starts: the
bound recorded within a local definition is new there, so taking it out again puts back what was
recorded.
-/

namespace IndexAlgebra.Analyzer

variable {α β : Type}

/-- The rule for a local definition: nothing is defined if the variable is recorded already. -/
def localRule (v : Var) (value body : Analysis Bound) : Analysis Bound := do
  if (← get).isBound v then body
  else
    let b ← value
    modify (·.enterLet v b)
    let result ← body
    modify (·.leaveLet v)
    return result

/-- What holds of each step of a query holds of the query. -/
theorem analyze_closed {P : {α : Type} → Analysis α → Prop}
    (hpure : ∀ {α : Type} (r : α), P (pure r))
    (hget : P (get : Analysis Analyzer))
    (hbind : ∀ {α β : Type} {x : Analysis α} {f : α → Analysis β}, P x → (∀ r, P (f r)) →
      P (x >>= f))
    (hremember : ∀ {e : Expr} {x : Analysis Bound}, P x → P (remember e x))
    (hlocal : ∀ {v : Var} {value body : Analysis Bound}, P value → P body →
      P (localRule v value body))
    (e : Expr) : P (analyze e) := by
  induction e using analyze.induct
  case case1 v => exact hbind hget fun _ => hpure _
  case case5 h value ty ih =>
    refine hremember ?_
    split
    · exact hbind ih fun _ => hpure _
    · exact hpure _
  case case6 h op x y ihx ihy =>
    refine hremember ?_
    split
    · exact hbind ihx fun _ => hbind ihy fun _ => hpure _
    · exact hpure _
  case case8 h cond yes no ihy ihn =>
    exact hremember (hbind ihy fun _ => hbind ihn fun _ => hpure _)
  case case9 h base stride lanes ihb ihs ihl =>
    exact hremember (hbind ihb fun _ => hbind ihs fun _ => hbind ihl fun _ => hpure _)
  case case10 h value lanes ih => exact hremember ih
  case case11 h v value body ihb ihv => exact hremember (hlocal ihv ihb)
  case case12 h op x y ihx ihy =>
    refine hremember (hbind hget fun a => ?_)
    dsimp only
    split
    · exact hpure _
    · exact hbind ihx fun _ => hbind ihy fun _ => hpure _
  case case13 h op head yes no ihy ihn =>
    refine hremember (hbind hget fun a => ?_)
    split
    · exact hbind ihy fun _ => hbind ihn fun _ => hpure _
    · exact hpure _
  case case14 h op args h2 h3 =>
    rw [analyze]
    · exact hremember (hpure _)
    all_goals assumption
  all_goals exact hremember (hpure _)

/-- At most the table in use is different in the second state. -/
def SameButMemo (a b : Analyzer) : Prop := ∃ memo, b = { a with memo }

theorem SameButMemo.refl (a : Analyzer) : a.SameButMemo a := ⟨a.memo, rfl⟩

theorem SameButMemo.trans {a b c : Analyzer} (hab : a.SameButMemo b) (hbc : b.SameButMemo c) :
    a.SameButMemo c := by
  obtain ⟨m, rfl⟩ := hab
  obtain ⟨n, rfl⟩ := hbc
  exact ⟨n, rfl⟩

theorem SameButMemo.bound? {a b : Analyzer} (h : a.SameButMemo b) : b.bound? = a.bound? := by
  obtain ⟨m, rfl⟩ := h
  rfl

theorem sameButMemo_learn (a : Analyzer) (e : Expr) (b : Bound) : a.SameButMemo (a.learn e b) := by
  unfold learn
  split
  · exact ⟨_, rfl⟩
  · exact .refl a

/-- A step of a query changes at most the table in use. -/
def Quiet (x : Analysis α) : Prop := ∀ a : Analyzer, a.SameButMemo (x.run a).2

theorem quiet_pure (r : α) : Quiet (pure r) := fun a => .refl a

theorem quiet_get : Quiet get := fun a => .refl a

theorem Quiet.bind {x : Analysis α} {f : α → Analysis β} (hx : Quiet x) (hf : ∀ r, Quiet (f r)) :
    Quiet (x >>= f) :=
  fun a => (hx a).trans (hf _ _)

theorem Quiet.remember {e : Expr} {x : Analysis Bound} (hx : Quiet x) :
    Quiet (Analyzer.remember e x) := by
  intro a
  rw [remember_run]
  cases a.known? e with
  | some b => exact .refl a
  | none => exact (hx a).trans (sameButMemo_learn ..)

/-- A local definition of a variable that is not recorded is taken out again. -/
theorem Quiet.localRule {v : Var} {value body : Analysis Bound} (hvalue : Quiet value)
    (hbody : Quiet body) : Quiet (Analyzer.localRule v value body) := by
  intro a
  unfold Analyzer.localRule
  rw [run_bind, run_get]
  dsimp only
  split
  · exact hbody a
  · next hv =>
    refine (hvalue a).trans ?_
    rw [run_bind]
    have hnone : (value.run a).2.bound? v = none := by
      rw [(hvalue a).bound?]
      exact Option.not_isSome_iff_eq_none.1 hv
    generalize value.run a = r at hnone ⊢
    obtain ⟨m, hm⟩ := hbody (r.2.enterLet v r.1)
    refine ⟨m, ?_⟩
    simp only [run_bind, run_modify, run_pure, hm]
    simp only [leaveLet, enterLet, Table.erase_insert r.1 hnone, Nat.add_sub_cancel]

/-- A query changes at most the table in use. -/
theorem quiet_analyze (e : Expr) : Quiet (analyze e) :=
  analyze_closed quiet_pure quiet_get Quiet.bind Quiet.remember Quiet.localRule e

/-- A query with a table of its own leaves the analyzer as it was. -/
theorem analyzeWith_state (memo : Memo) (e : Expr) (a : Analyzer) :
    ((analyzeWith memo e).run a).2 = a := by
  obtain ⟨m, hm⟩ := quiet_analyze e { a with memo := some memo }
  unfold analyzeWith
  simp only [run_bind, run_get, run_modify, run_pure, hm]

end IndexAlgebra.Analyzer
