import IndexAlgebra.Proofs.Analysis.Safety
import IndexAlgebra.Proofs.Analysis.Session
/-!
# Runs of an analyzer

A run is a session that is watched step by step. Opening a scope and closing it are steps of their
own, so that a run may end within scopes, and the run keeps all bounds that were given out, by
queries and in errors. An action of a session is a sequence of such steps (`Run.perform_steps`).

`Run.step?` is a step of the checked analyzer. A new run is healthy, and from a healthy run the
checked step has the result of the step, which is healthy again (`Run.Healthy.step`). So no run of a
new analyzer fails a check, and all of its bounds are normal.
-/

namespace IndexAlgebra

open Analyzer

/-- One use of an analyzer. -/
inductive Step where
  | query (e : Expr)
  /-- A query that uses one of the tables. -/
  | queryWith (table : Nat) (e : Expr)
  | update (v : Var) (b : Bound) (allowOverride : Bool)
  | bind (v : Var) (range : Range) (allowOverride : Bool)
  | enter (constraint : Expr)
  /-- Closes the innermost scope. -/
  | exit

/-- A session within scopes. -/
structure Run extends Session where
  /-- The open scopes, the innermost first. -/
  scopes : List Scope := []
  /-- The bounds that were given out, the latest first. -/
  returned : List Bound := []

namespace Run

/-- A run of a new analyzer, with tables that have not been used. -/
def start (ctx : Context) : Run where
  analyzer := .new ctx
  tables _ := .empty

/-! ## Steps -/

/-- The run after bounds were given out. -/
def give (r : Run) (bounds : List Bound) (a : Analyzer) : Run :=
  { r with analyzer := a, returned := bounds ++ r.returned }

/-- The run after a query used a table. -/
def fill (r : Run) (i : Nat) (b : Bound) (m : Memo) (a : Analyzer) : Run :=
  { r.give [b] a with tables := Function.update r.tables i m }

/-- The run within one scope more. -/
def opened (r : Run) (scope : Scope) (a : Analyzer) : Run :=
  { r with analyzer := a, scopes := scope :: r.scopes }

/-- The run after the innermost scope was closed, if there is one. -/
def closed (r : Run) : Run :=
  match r.scopes with
  | [] => r
  | scope :: scopes => { r with analyzer := ((exit scope).run r.analyzer).2, scopes }

def step (r : Run) : Step → Run
  | .query e =>
    let (b, a) := (analyze e).run r.analyzer
    r.give [b] a
  | .queryWith i e =>
    let ((b, m), a) := (analyzeWith (r.tables i) e).run r.analyzer
    r.fill i b m a
  | .update v b allowOverride =>
    let (outcome, a) := (update v b allowOverride).run r.analyzer
    r.give (reported outcome) a
  | .bind v range allowOverride =>
    let (outcome, a) := (bind v range allowOverride).run r.analyzer
    r.give (reported outcome) a
  | .enter c =>
    let ((scope, _), a) := (enter c).run r.analyzer
    r.opened scope a
  | .exit => r.closed

/-- A step of the checked analyzer. -/
def step? (r : Run) : Step → Option Run
  | .query e =>
    ((Checked.analyze e).run r.analyzer).map fun (b, a) => r.give [b] a
  | .queryWith i e =>
    ((Checked.analyzeWith (r.tables i) e).run r.analyzer).map fun ((b, m), a) => r.fill i b m a
  | .update v b allowOverride =>
    ((Checked.update v b allowOverride).run r.analyzer).map fun (outcome, a) =>
      r.give (reported outcome) a
  | .bind v range allowOverride =>
    ((Checked.bind v range allowOverride).run r.analyzer).map fun (outcome, a) =>
      r.give (reported outcome) a
  | .enter c =>
    ((Checked.enter c).run r.analyzer).map fun ((scope, _), a) => r.opened scope a
  | .exit => some r.closed

/-- The run after several steps. -/
def perform (r : Run) (steps : List Step) : Run := steps.foldl step r

/-- The run after several steps of the checked analyzer. -/
def perform? (r : Run) (steps : List Step) : Option Run := steps.foldlM step? r

/-! ## What steps preserve -/

/-- All bounds of a run are normal: those of its analyzer, of its tables, of its open scopes, and
those that were given out. -/
structure Healthy (r : Run) : Prop where
  analyzer : r.analyzer.Healthy
  tables : ∀ i, ∀ p ∈ (r.tables i).entries, p.2.Normal
  scopes : ∀ s ∈ r.scopes, s.Normal
  returned : ∀ b ∈ r.returned, b.Normal

namespace Healthy

variable {r : Run}

theorem start (ctx : Context) : (Run.start ctx).Healthy where
  analyzer := ⟨nofun, nofun⟩
  tables := nofun
  scopes := nofun
  returned := nofun

theorem give (hr : r.Healthy) {bounds : List Bound} (hb : ∀ b ∈ bounds, b.Normal) {a : Analyzer}
    (ha : a.Healthy) : (r.give bounds a).Healthy where
  analyzer := ha
  tables := hr.tables
  scopes := hr.scopes
  returned b h := (List.mem_append.1 h).elim (hb b) (hr.returned b)

theorem fill (hr : r.Healthy) (i : Nat) {b : Bound} (hb : b.Normal) {m : Memo}
    (hm : ∀ p ∈ m.entries, p.2.Normal) {a : Analyzer} (ha : a.Healthy) :
    (r.fill i b m a).Healthy where
  analyzer := ha
  tables j := by
    unfold Run.fill
    dsimp only
    rw [Function.update_apply]
    split
    · exact hm
    · exact hr.tables j
  scopes := hr.scopes
  returned := (hr.give (List.forall_mem_singleton.2 hb) ha).returned

theorem opened (hr : r.Healthy) {scope : Scope} (hs : scope.Normal) {a : Analyzer}
    (ha : a.Healthy) : (r.opened scope a).Healthy where
  analyzer := ha
  tables := hr.tables
  scopes := List.forall_mem_cons.2 ⟨hs, hr.scopes⟩
  returned := hr.returned

theorem closed (hr : r.Healthy) : r.closed.Healthy := by
  unfold Run.closed
  split
  · exact hr
  · next scope scopes hscopes =>
    obtain ⟨hs, hrest⟩ := List.forall_mem_cons.1 (hscopes ▸ hr.scopes)
    exact ⟨hr.analyzer.exit hs, hr.tables, hrest, hr.returned⟩

/-- No step from a healthy run fails a check, and it leaves a healthy run. -/
theorem step (hr : r.Healthy) (t : Step) :
    r.step? t = some (r.step t) ∧ (r.step t).Healthy := by
  cases t with
  | query e =>
    obtain ⟨hrun, hb, ha⟩ := safe_analyze e r.analyzer hr.analyzer
    exact ⟨congrArg (Option.map _) hrun, hr.give (List.forall_mem_singleton.2 hb) ha⟩
  | queryWith i e =>
    obtain ⟨hrun, ⟨hb, hm⟩, ha⟩ := safe_analyzeWith (hr.tables i) e r.analyzer hr.analyzer
    exact ⟨congrArg (Option.map _) hrun, hr.fill i hb hm ha⟩
  | update v b allowOverride =>
    obtain ⟨-, hb, ha⟩ := safe_update v b allowOverride r.analyzer hr.analyzer
    exact ⟨rfl, hr.give hb ha⟩
  | bind v range allowOverride =>
    obtain ⟨hrun, hb, ha⟩ := safe_bind v range allowOverride r.analyzer hr.analyzer
    exact ⟨congrArg (Option.map _) hrun, hr.give hb ha⟩
  | enter c =>
    obtain ⟨hrun, hs, ha⟩ := safe_enter c r.analyzer hr.analyzer
    exact ⟨congrArg (Option.map _) hrun, hr.opened hs ha⟩
  | exit => exact ⟨rfl, hr.closed⟩

/-- No run from a healthy one fails a check, and it ends healthy. -/
theorem perform (steps : List Step) : ∀ {r : Run}, r.Healthy →
    r.perform? steps = some (r.perform steps) ∧ (r.perform steps).Healthy := by
  induction steps with
  | nil => exact fun hr => ⟨rfl, hr⟩
  | cons t steps ih =>
    intro r hr
    obtain ⟨hstep, hnext⟩ := hr.step t
    obtain ⟨hrest, hlast⟩ := ih hnext
    refine ⟨?_, hlast⟩
    unfold perform?
    rw [List.foldlM_cons, hstep]
    exact hrest

end Healthy

/-- Whatever is done with a new analyzer, in scopes or outside of them, no check fails, and all
bounds are normal that are recorded for variables, that tables hold, and that were given out. -/
theorem perform_normal (ctx : Context) (steps : List Step) :
    let r := (start ctx).perform steps
    (start ctx).perform? steps = some r ∧ (∀ v b, r.analyzer.bound? v = some b → b.Normal) ∧
      (∀ i, ∀ p ∈ (r.tables i).entries, p.2.Normal) ∧ ∀ b ∈ r.returned, b.Normal := by
  obtain ⟨hchecked, hr⟩ := (Healthy.start ctx).perform steps
  exact ⟨hchecked, hr.analyzer.recorded, hr.tables, hr.returned⟩

end Run

/-! ## Sessions -/

mutual

/-- The steps of an action. -/
def Action.steps : Action → List Step
  | .query e => [.query e]
  | .queryWith i e => [.queryWith i e]
  | .update v b allowOverride => [.update v b allowOverride]
  | .bind v range allowOverride => [.bind v range allowOverride]
  | .within c actions => .enter c :: (Action.stepsOfAll actions ++ [.exit])

/-- The steps of several actions. -/
def Action.stepsOfAll : List Action → List Step
  | [] => []
  | action :: actions => action.steps ++ stepsOfAll actions

end

namespace Run

theorem perform_append (r : Run) (steps more : List Step) :
    r.perform (steps ++ more) = (r.perform steps).perform more :=
  List.foldl_append

theorem closed_of_scopes {r : Run} {scope : Scope} {scopes : List Scope}
    (h : r.scopes = scope :: scopes) :
    r.closed.toSession = r.toSession.put ((exit scope).run r.analyzer).2 ∧
      r.closed.scopes = scopes := by
  unfold closed
  rw [h]
  exact ⟨rfl, rfl⟩

mutual

/-- The steps of an action do with the session of a run what the action does, and end within the
scopes in which they started. -/
theorem perform_steps : ∀ (action : Action) (r : Run),
    (r.perform action.steps).toSession = Session.perform action r.toSession ∧
      (r.perform action.steps).scopes = r.scopes
  | .query _, _ => ⟨rfl, rfl⟩
  | .queryWith .., _ => ⟨rfl, rfl⟩
  | .update .., _ => ⟨rfl, rfl⟩
  | .bind .., _ => ⟨rfl, rfl⟩
  | .within c actions, r => by
    obtain ⟨hsession, hscopes⟩ := perform_stepsOfAll actions (r.step (.enter c))
    have hsteps : r.perform (Action.within c actions).steps =
        ((r.step (.enter c)).perform (Action.stepsOfAll actions)).closed := by
      rw [Action.steps]
      exact perform_append (r.step (.enter c)) (Action.stepsOfAll actions) [.exit]
    obtain ⟨hclosed, hrest⟩ := closed_of_scopes hscopes
    rw [hsteps, Session.perform]
    refine ⟨hclosed.trans ?_, hrest⟩
    rw [hsession]
    rfl

theorem perform_stepsOfAll : ∀ (actions : List Action) (r : Run),
    (r.perform (Action.stepsOfAll actions)).toSession = Session.performAll actions r.toSession ∧
      (r.perform (Action.stepsOfAll actions)).scopes = r.scopes
  | [], _ => ⟨rfl, rfl⟩
  | action :: actions, r => by
    obtain ⟨hsession, hscopes⟩ := perform_steps action r
    obtain ⟨hsessions, hscopess⟩ := perform_stepsOfAll actions (r.perform action.steps)
    unfold Action.stepsOfAll Session.performAll
    rw [perform_append, ← hsession]
    exact ⟨hsessions, hscopess.trans hscopes⟩

end

end Run

end IndexAlgebra
