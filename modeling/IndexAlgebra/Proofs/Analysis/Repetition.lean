import IndexAlgebra.Proofs.Analysis.Session
import IndexAlgebra.Proofs.Table
/-!
# Queries asked again

A query takes out again what its local definitions have recorded, however they are nested, and so it
leaves the analyzer as it was. Asked again, it finds the same bound (`Analyzer.analyze_untouched`).

With a table this is so even if the table is wrong: a query leaves a table that knows the bound it
has found, and no query makes a table forget or change what it knows. So other queries may come in
between, with the same table or with others (`Session.query_again`).
-/

namespace IndexAlgebra

/-- What the first table knows of an expression, the second knows. -/
def Memo.Kept (m n : Memo) : Prop := ∀ e b, m.get? e = some b → n.get? e = some b

namespace Memo.Kept

variable {l m n : Memo}

theorem refl (m : Memo) : m.Kept m := fun _ _ h => h

theorem trans (hlm : l.Kept m) (hmn : m.Kept n) : l.Kept n :=
  fun e b h => hmn e b (hlm e b h)

/-- Where nothing is known, a bound may be entered. -/
theorem insert (h : m.Kept n) {e : Expr} (he : m.get? e = none) (b : Bound) :
    m.Kept (n.insert e b) := by
  intro x c hx
  have hne : ¬ (e == x) = true := by
    intro heq
    have hsame : m.get? e = m.get? x := Table.get?_congr m heq
    rw [he, hx] at hsame
    cases hsame
  rw [Table.get?_insert, if_neg hne]
  exact h x c hx

end Memo.Kept

namespace Analyzer

variable {α β : Type} {a c d : Analyzer} {b : Bound}

/-! ## What a table knows -/

/-- If a table is in use in the first state, one that knows as much is in use in the second. -/
def KeepsTable (a b : Analyzer) : Prop := ∀ m, a.memo = some m → ∃ n, b.memo = some n ∧ m.Kept n

theorem KeepsTable.of_memo_eq (h : c.memo = a.memo) : a.KeepsTable c :=
  fun m hm => ⟨m, h.trans hm, .refl m⟩

theorem KeepsTable.trans (hac : a.KeepsTable c) (hcd : c.KeepsTable d) : a.KeepsTable d := by
  intro m hm
  obtain ⟨n, hn, hmn⟩ := hac m hm
  obtain ⟨l, hl, hnl⟩ := hcd n hn
  exact ⟨l, hl, hmn.trans hnl⟩

/-- A step of a query keeps what the table in use knows. -/
def Keeping (x : Analysis α) : Prop := ∀ a : Analyzer, a.KeepsTable (x.run a).2

theorem keeping_pure (r : α) : Keeping (pure r) := fun _ => .of_memo_eq rfl

theorem keeping_get : Keeping get := fun _ => .of_memo_eq rfl

theorem keeping_modify {f : Analyzer → Analyzer} (h : ∀ a, (f a).memo = a.memo) :
    Keeping (modify f) := fun a => .of_memo_eq (h a)

theorem Keeping.bind {x : Analysis α} {f : α → Analysis β} (hx : Keeping x)
    (hf : ∀ r, Keeping (f r)) : Keeping (x >>= f) :=
  fun a => (hx a).trans (hf _ _)

theorem Keeping.remember {e : Expr} {x : Analysis Bound} (hquiet : Quiet x) (hx : Keeping x) :
    Keeping (Analyzer.remember e x) := by
  intro a m hm
  rw [remember_run]
  cases hknown : a.known? e with
  | some b => exact ⟨m, hm, .refl m⟩
  | none =>
    obtain ⟨memo, hafter⟩ := hquiet a
    obtain ⟨n, hn, hmn⟩ := hx a m hm
    dsimp only
    rw [hafter] at hn ⊢
    cases hn
    unfold learn
    split
    · next hmemoizes =>
      -- Nothing was known of the expression before, so no entry is replaced that was there.
      have hnone : m.get? e = none := by
        rw [known?, if_pos (show a.memoizes e = true from hmemoizes), hm] at hknown
        exact hknown
      exact ⟨_, rfl, hmn.insert hnone _⟩
    · exact ⟨n, rfl, hmn⟩

theorem Keeping.localRule {v : Var} {value body : Analysis Bound} (hvalue : Keeping value)
    (hbody : Keeping body) : Keeping (Analyzer.localRule v value body) := by
  have henter (b : Bound) : Keeping (modify (·.enterLet v b)) := keeping_modify fun _ => rfl
  have hleave : Keeping (modify (·.leaveLet v)) := keeping_modify fun _ => rfl
  refine keeping_get.bind fun a => ?_
  split
  · exact hbody
  · exact hvalue.bind fun b => (henter b).bind fun _ => hbody.bind fun _ => hleave.bind fun _ =>
      keeping_pure _

/-- No query makes a table forget or change what it knows. -/
theorem keeping_analyze (e : Expr) : Keeping (analyze e) := by
  have hboth : Quiet (analyze e) ∧ Keeping (analyze e) := by
    refine analyze_closed (P := fun x => Quiet x ∧ Keeping x) ?_ ?_ ?_ ?_ ?_ e
    · exact fun r => ⟨quiet_pure r, keeping_pure r⟩
    · exact ⟨quiet_get, keeping_get⟩
    · exact fun hx hf => ⟨hx.1.bind fun r => (hf r).1, hx.2.bind fun r => (hf r).2⟩
    · exact fun hx => ⟨hx.1.remember, hx.2.remember hx.1⟩
    · exact fun hvalue hbody => ⟨hvalue.1.localRule hbody.1, hvalue.2.localRule hbody.2⟩
  exact hboth.2

/-! ## Asking again -/

theorem exists_remember {e : Expr} (h : e.var? = none) :
    ∃ compute, analyze e = Analyzer.remember e compute := by
  cases e with
  | var v => cases h
  | call h op args =>
    rcases args with - | ⟨x, - | ⟨y, - | ⟨z, - | ⟨w, rest⟩⟩⟩⟩
    all_goals exact ⟨_, rfl⟩
  | _ => exact ⟨_, rfl⟩

theorem depth_learn (a : Analyzer) (e : Expr) (b : Bound) : (a.learn e b).depth = a.depth := by
  unfold learn
  split <;> rfl

/-- What has been entered into a table is known. -/
theorem known?_learn {e : Expr} (ha : a.memoizes e = true)
    (hmemo : (a.learn e b).memo.isSome = true) : (a.learn e b).known? e = some b := by
  rw [learn, if_pos ha] at hmemo ⊢
  cases hm : a.memo with
  | none =>
    rw [hm] at hmemo
    cases hmemo
  | some m =>
    have hget : (m.insert e b).get? e = some b := by rw [Table.get?_insert, if_pos BEq.rfl]
    exact (if_pos ha).trans hget

/-- After a query that uses a table, the table knows the bound that the query has found. -/
theorem known?_analyze {e : Expr} (he : a.memoizes e = true) (hmemo : a.memo.isSome = true) :
    let r := (analyze e).run a
    r.2.known? e = some r.1 := by
  have hvar : e.var? = none := by simp_all [memoizes]
  have hquiet := quiet_analyze e a
  have hkeeps := keeping_analyze e a
  obtain ⟨x, hx⟩ := exists_remember hvar
  rw [hx, remember_run] at hquiet hkeeps ⊢
  cases hknown : a.known? e with
  | some b => exact hknown
  | none =>
    rw [hknown] at hquiet hkeeps
    dsimp only at hquiet hkeeps ⊢
    obtain ⟨m, hm⟩ := Option.isSome_iff_exists.1 hmemo
    obtain ⟨n, hn, -⟩ := hkeeps m hm
    obtain ⟨memo, hstate⟩ := hquiet
    refine known?_learn ?_ (by rw [hn]; rfl)
    have hdepth : (x.run a).2.depth = a.depth := by rw [← depth_learn _ e, hstate]
    rwa [memoizes, hdepth]

/-- A query for an expression that the table is not used for finds the bound under the recorded
bounds and changes nothing. -/
theorem analyze_run_of_not_memoizes {e : Expr} (h : ¬ a.memoizes e = true) :
    (analyze e).run a = (e.bound a.builtins a.bound?, a) := by
  cases hvar : e.var? with
  | some v =>
    rw [Expr.eq_var_of_var? hvar]
    rfl
  | none =>
    have hdepth : a.depth ≠ 0 := by simp_all [memoizes]
    exact analyze_run e (.inr hdepth)

/-- A query for an expression that is known finds what is known and changes nothing. -/
theorem analyze_run_of_known? {e : Expr} (h : a.known? e = some b) :
    (analyze e).run a = (b, a) := by
  have he : a.memoizes e = true := (Option.ite_none_right_eq_some.1 h).1
  obtain ⟨x, hx⟩ := exists_remember (e := e) (by simp_all [memoizes])
  rw [hx, remember_run, h]

/-- A query that is asked again finds the same bound and changes nothing. -/
theorem analyze_again (e : Expr) (a : Analyzer) :
    let r := (analyze e).run a
    (analyze e).run r.2 = r := by
  dsimp only
  by_cases he : a.memoizes e = true
  · cases hmemo : a.memo with
    | none =>
      rw [analyze_run e (.inl hmemo)]
      exact analyze_run e (.inl hmemo)
    | some m => exact analyze_run_of_known? (known?_analyze he (by rw [hmemo]; rfl))
  · rw [analyze_run_of_not_memoizes he]
    exact analyze_run_of_not_memoizes he

/-- A query that uses a table changes nothing but the table, which keeps what it knows. -/
theorem exists_filled (m : Memo) (e : Expr) (a : Analyzer) :
    ∃ b n, m.Kept n ∧
      (analyze e).run { a with memo := some m } = (b, { a with memo := some n }) ∧
      (analyzeWith m e).run a = ((b, n), a) := by
  obtain ⟨memo, hstate⟩ := quiet_analyze e { a with memo := some m }
  obtain ⟨n, hn, hmn⟩ := keeping_analyze e { a with memo := some m } m rfl
  rw [hstate] at hn
  cases hn
  refine ⟨_, n, hmn, Prod.ext rfl hstate, ?_⟩
  unfold analyzeWith
  simp only [run_bind, run_get, run_modify, run_pure, hstate, Option.getD_some]

/-- With the table that it has left, or one that knows as much, a query finds the same bound. -/
theorem analyzeWith_again {m n : Memo} {e : Expr} (a : Analyzer)
    (hn : ((analyzeWith m e).run a).1.2.Kept n) :
    ((analyzeWith n e).run a).1.1 = ((analyzeWith m e).run a).1.1 := by
  obtain ⟨b, m', -, hm, hwith⟩ := exists_filled m e a
  obtain ⟨c, n', -, hn', hwith'⟩ := exists_filled n e a
  rw [hwith] at hn ⊢
  rw [hwith']
  by_cases he : a.memoizes e = true
  · have hknown := known?_analyze (a := { a with memo := some m }) he rfl
    dsimp only at hknown
    rw [hm] at hknown
    have hget : m'.get? e = some b := (if_pos he).symm.trans hknown
    have hagain : known? { a with memo := some n } e = some b := (if_pos he).trans (hn e b hget)
    rw [analyze_run_of_known? hagain] at hn'
    cases hn'
    rfl
  · have hbound := (analyze_run_of_not_memoizes (a := { a with memo := some m }) he).symm.trans hm
    have hbound' := (analyze_run_of_not_memoizes (a := { a with memo := some n }) he).symm.trans hn'
    cases hbound
    cases hbound'
    rfl

/-- A query, with a table or without, leaves an analyzer as it was between queries: all that is
recorded, the number of local definitions around, and the table in use. Asked again, with the table
that it has left, it finds the same bound and leaves the same table. -/
theorem analyze_untouched {a : Analyzer} (hmemo : a.memo = none) (e : Expr) (m : Memo) :
    let plain := (analyze e).run a
    let tabled := (analyzeWith m e).run a
    (plain.2 = a ∧ (analyze e).run plain.2 = plain) ∧
      tabled.2 = a ∧ (analyzeWith tabled.1.2 e).run tabled.2 = tabled := by
  have hplain : ((analyze e).run a).2 = a := by rw [analyze_run e (.inl hmemo)]
  obtain ⟨b, n, -, hrun, hwith⟩ := exists_filled m e a
  obtain ⟨c, l, -, hrun', hwith'⟩ := exists_filled n e a
  have hagain := analyze_again e { a with memo := some m }
  dsimp only at hagain ⊢
  rw [hrun, hrun'] at hagain
  cases hagain
  rw [hwith]
  exact ⟨⟨hplain, analyze_again e a⟩, rfl, hwith'⟩

namespace Nested

def x : Var := ⟨9, "x", false⟩

def t : Var := ⟨10, "t", false⟩

def u : Var := ⟨11, "u", false⟩

/-- The value of `t` where `t` is five. -/
def five : Expr := .letIn 13 t (.int 12 5) (.var t)

/-- The square of the successor of `x`, by a definition of `u`. -/
def square : Expr :=
  .letIn 17 u (.binary 15 .add (.var x) (.int 14 1)) (.binary 16 .mul (.var u) (.var u))

/-- The sum of `t` and `x`, where `t` is `square`. Within, `t` and `x` are defined again, to no
effect. -/
def shifted : Expr :=
  .letIn 22 t square (.letIn 21 t (.int 18 5)
    (.binary 20 .add (.var t) (.letIn 19 x (.int 18 5) (.var x))))

/-- Two local definitions of `t` side by side. -/
def sum : Expr := .binary 23 .add five shifted

/-- An analyzer that has recorded `[0 : 7]` for `x`. -/
def analyzer : Analyzer where
  builtins := (Context.new.run 0).1.builtins
  bounds := ⟨[(x, .make 0 7)]⟩

/-- A table that is wrong about `five`. -/
def table : Memo := ⟨[(five, .make 0 0)]⟩

end Nested

/-- The table makes a difference to the bound, and none to its being found again. -/
theorem analyze_untouched_nested :
    let plain := (analyze Nested.sum).run Nested.analyzer
    let tabled := (analyzeWith Nested.table Nested.sum).run Nested.analyzer
    (plain.1 = .make 6 76 ∧ plain.2 = Nested.analyzer ∧
        ((analyze Nested.sum).run plain.2).1 = .make 6 76) ∧
      tabled.1.1 = .make 1 71 ∧ tabled.2 = Nested.analyzer ∧
        ((analyzeWith tabled.1.2 Nested.sum).run tabled.2).1.1 = .make 1 71 := by
  intro plain tabled
  obtain ⟨⟨hplain, hagain⟩, htabled, hagain'⟩ :=
    analyze_untouched (a := Nested.analyzer) rfl Nested.sum Nested.table
  have hbound : plain.1 = .make 6 76 := by decide
  have hbound' : tabled.1.1 = .make 1 71 := by decide
  refine ⟨⟨hbound, hplain, ?_⟩, hbound', htabled, ?_⟩
  · exact (congrArg Prod.fst hagain).trans hbound
  · exact (congrArg (·.1.1) hagain').trans hbound'

end Analyzer

/-! ## Other queries in between -/

/-- An action that is a query. -/
def Action.IsQuery : Action → Prop
  | .query _ | .queryWith .. => True
  | .update .. | .bind .. | .within .. => False

namespace Session

open Analyzer

/-- A query leaves the analyzer as it was, and each table keeps what it knows. -/
theorem perform_query {action : Action} (h : action.IsQuery) {s : Session}
    (hs : s.analyzer.memo = none) :
    (perform action s).analyzer = s.analyzer ∧
      ∀ i, (s.tables i).Kept ((perform action s).tables i) := by
  cases action with
  | query e =>
    unfold perform
    rw [analyze_run e (.inl hs)]
    exact ⟨rfl, fun i => .refl _⟩
  | queryWith j e =>
    unfold perform
    obtain ⟨b, n, hkept, -, hwith⟩ := exists_filled (s.tables j) e s.analyzer
    rw [hwith]
    refine ⟨rfl, fun i => ?_⟩
    by_cases hi : i = j
    · subst hi
      simpa using hkept
    · simp [hi, Memo.Kept.refl]
  | update | bind | within => cases h

/-- Any queries leave the analyzer as it was, and each table keeps what it knows. -/
theorem performAll_queries {actions : List Action} (h : ∀ action ∈ actions, action.IsQuery) :
    ∀ {s : Session}, s.analyzer.memo = none →
      (performAll actions s).analyzer = s.analyzer ∧
        ∀ i, (s.tables i).Kept ((performAll actions s).tables i) := by
  induction actions with
  | nil => exact fun _ => ⟨rfl, fun i => .refl _⟩
  | cons action actions ih =>
    intro s hs
    obtain ⟨hstate, hkept⟩ := perform_query (h action (.head _)) hs
    obtain ⟨hstate', hkept'⟩ := ih (fun x hx => h x (.tail _ hx)) (s := perform action s)
      (by rwa [hstate])
    unfold performAll
    exact ⟨hstate'.trans hstate, fun i => (hkept i).trans (hkept' i)⟩

/-- A query that uses a table finds the same bound again after any other queries, whichever tables
these use. -/
theorem query_again {s : Session} (hs : s.analyzer.memo = none) (i : Nat) (e : Expr)
    {actions : List Action} (h : ∀ action ∈ actions, action.IsQuery) :
    let first := (analyzeWith (s.tables i) e).run s.analyzer
    let later := performAll actions (perform (.queryWith i e) s)
    ((analyzeWith (later.tables i) e).run later.analyzer).1.1 = first.1.1 := by
  have hstate : (perform (.queryWith i e) s).analyzer = s.analyzer :=
    analyzeWith_state (s.tables i) e s.analyzer
  have htable : (perform (.queryWith i e) s).tables i =
      ((analyzeWith (s.tables i) e).run s.analyzer).1.2 :=
    Function.update_self ..
  obtain ⟨hlater, hkept⟩ := performAll_queries h (s := perform (.queryWith i e) s) (by rwa [hstate])
  have hkept := hkept i
  rw [htable] at hkept
  dsimp only
  rw [hlater, hstate]
  exact analyzeWith_again s.analyzer hkept

end Session

end IndexAlgebra
