import IndexAlgebra.Analysis.Record
import IndexAlgebra.Proofs.Analysis.Facts
import IndexAlgebra.Proofs.Analysis.Frame
/-!
# Sessions

A session uses an analyzer, and any number of tables of known bounds, in a sequence of actions. The
action `within c actions` opens a scope for the constraint `c`, performs other actions in it, and
closes it again, so that scopes are nested as deep as the actions are.
-/

namespace IndexAlgebra

/-- An analyzer and the tables that queries use. -/
structure Session where
  analyzer : Analyzer
  tables : Nat → Memo

/-- What is done with an analyzer. -/
inductive Action where
  | query (e : Expr)
  /-- A query that uses one of the tables. -/
  | queryWith (table : Nat) (e : Expr)
  | update (v : Var) (b : Bound) (allowOverride : Bool)
  | bind (v : Var) (range : Range) (allowOverride : Bool)
  | within (constraint : Expr) (actions : List Action)

namespace Analyzer

/-- Recording a bound fails and changes nothing, or records the normalised bound. -/
theorem update_state (v : Var) (b : Bound) (allowOverride : Bool) (a : Analyzer) :
    let r := (update v b allowOverride).run a
    r.2 = a ∨ r.2 = a.withBound v (.make b.lo b.hi) := by
  unfold update
  dsimp only
  split
  · exact .inl rfl
  · rw [run_bind, run_get]
    dsimp only
    split
    · exact .inr rfl
    · split
      · exact .inr rfl
      · split
        · exact .inr rfl
        · exact .inl rfl

/-- Recording the bound of a range is recording it after two queries. -/
theorem bind_run (v : Var) (range : Range) (allowOverride : Bool) (a : Analyzer) :
    (bind v range allowOverride).run a =
      let min := (analyze range.min).run a
      let extent := (analyze range.extent).run min.2
      (update v (rangeBound min.1 extent.1) allowOverride).run extent.2 := by
  unfold bind
  rw [run_bind, run_bind]

theorem bind_state (v : Var) (range : Range) (allowOverride : Bool) (a : Analyzer) :
    ∃ b a', a.SameButMemo a' ∧
      ((bind v range allowOverride).run a).2 = ((update v b allowOverride).run a').2 :=
  ⟨_, _, (quiet_analyze range.min a).trans (quiet_analyze range.extent _),
    congrArg Prod.snd (bind_run v range allowOverride a)⟩

end Analyzer

namespace Session

/-- The session with another state of the analyzer. -/
def put (s : Session) (a : Analyzer) : Session := { s with analyzer := a }

mutual

/-- The session after an action. -/
def perform : Action → Session → Session
  | .query e, s => s.put ((Analyzer.analyze e).run s.analyzer).2
  | .queryWith i e, s =>
    let r := (Analyzer.analyzeWith (s.tables i) e).run s.analyzer
    { analyzer := r.2, tables := Function.update s.tables i r.1.2 }
  | .update v b allowOverride, s =>
    s.put ((Analyzer.update v b allowOverride).run s.analyzer).2
  | .bind v range allowOverride, s =>
    s.put ((Analyzer.bind v range allowOverride).run s.analyzer).2
  | .within c actions, s =>
    let r := (Analyzer.enter c).run s.analyzer
    let s := performAll actions (s.put r.2)
    s.put ((Analyzer.exit r.1.1).run s.analyzer).2

/-- The session after several actions. -/
def performAll : List Action → Session → Session
  | [], s => s
  | action :: actions, s => performAll actions (perform action s)

end

end Session

/-! ## Between actions no table is in use -/

namespace Analyzer

/-- A fact changes no more than its query does and the bound of its variable. -/
theorem assumeThe_state (opening : Opening) (f : Fact) (a : Analyzer) :
    let after := ((analyze f.other).run a).2
    ((assumeThe opening f).run a).2 = after ∨
      ∃ b, ((assumeThe opening f).run a).2 = after.withBound f.var b := by
  unfold assumeThe
  rw [assumeFact_run]
  dsimp only
  split
  · exact .inl rfl
  · split
    · exact .inl rfl
    · exact .inr ⟨_, rfl⟩

theorem memo_assumeThe {a : Analyzer} (ha : a.memo = none) (opening : Opening) (f : Fact) :
    ((assumeThe opening f).run a).2.memo = none := by
  have hstate := assumeThe_state opening f a
  rw [analyze_run f.other (.inl ha)] at hstate
  obtain hstate | ⟨b, hstate⟩ := hstate
  · rwa [hstate]
  · rwa [hstate]

theorem memo_foldlM_assumeThe {facts : List Fact} : ∀ {a : Analyzer} {opening : Opening},
    a.memo = none → ((facts.foldlM assumeThe opening).run a).2.memo = none := by
  induction facts with
  | nil => exact fun ha => ha
  | cons f facts ih => exact fun ha => ih (memo_assumeThe ha _ f)

theorem memo_enter {a : Analyzer} (ha : a.memo = none) (c : Expr) :
    ((enter c).run a).2.memo = none := by
  unfold enter
  rw [assume_eq_foldlM]
  exact memo_foldlM_assumeThe ha

theorem memo_update {a : Analyzer} (ha : a.memo = none) (v : Var) (b : Bound)
    (allowOverride : Bool) : ((update v b allowOverride).run a).2.memo = none := by
  rcases update_state v b allowOverride a with hstate | hstate
  · rwa [hstate]
  · rwa [hstate]

theorem memo_bind {a : Analyzer} (ha : a.memo = none) (v : Var) (range : Range)
    (allowOverride : Bool) : ((bind v range allowOverride).run a).2.memo = none := by
  simp only [bind_run, analyze_run range.min (.inl ha), analyze_run range.extent (.inl ha)]
  exact memo_update ha v _ allowOverride

end Analyzer

namespace Session

mutual

theorem memo_perform : ∀ (action : Action) {s : Session}, s.analyzer.memo = none →
    (perform action s).analyzer.memo = none
  | .query e, s, hs => by
    unfold perform
    rw [Analyzer.analyze_run e (.inl hs)]
    exact hs
  | .queryWith i e, s, hs => by
    rw [perform, Analyzer.analyzeWith_state]
    exact hs
  | .update v b allowOverride, s, hs => Analyzer.memo_update hs v b allowOverride
  | .bind v range allowOverride, s, hs => Analyzer.memo_bind hs v range allowOverride
  | .within c actions, s, hs => by
    unfold perform
    exact memo_performAll actions (Analyzer.memo_enter hs c)

/-- No action leaves a table in use. So the queries of a session that starts with a new analyzer, at
any depth of scopes, start without one. -/
theorem memo_performAll : ∀ (actions : List Action) {s : Session}, s.analyzer.memo = none →
    (performAll actions s).analyzer.memo = none
  | [], _, hs => hs
  | action :: actions, _, hs => memo_performAll actions (memo_perform action hs)

end

end Session

end IndexAlgebra
