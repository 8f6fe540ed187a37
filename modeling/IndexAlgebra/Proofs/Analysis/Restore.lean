import IndexAlgebra.Proofs.Analysis.Session
import IndexAlgebra.Proofs.Table
/-!
# Scopes put back what they refined

A scope puts back what it remembers, the latest refinement first. So a variable that was refined
several times gets its oldest bound, which is the one recorded before the scope was opened, and what
was done within the scope has no influence on it. Other variables are not touched.
-/

namespace IndexAlgebra

/-- What a scope puts back for a variable, if it refined the variable: what its oldest refinement
replaced. -/
def Scope.restored? (v : Var) : List (Var × Option Bound) → Option (Option Bound)
  | [] => none
  | (w, previous) :: rest => (restored? v rest).or (if w = v then some previous else none)

theorem Scope.restored?_eq_none {v : Var} {saved : List (Var × Option Bound)} :
    restored? v saved = none ↔ v ∉ saved.map (·.1) := by
  induction saved with
  | nil => simp [restored?]
  | cons entry rest ih =>
    obtain ⟨w, previous⟩ := entry
    by_cases h : w = v
    · simp [restored?, h]
    · simp [restored?, h, ih, Ne.symm h]

/-- What a scope puts back is remembered. -/
theorem Scope.mem_of_restored? {v : Var} {previous : Option Bound} :
    ∀ {saved : List (Var × Option Bound)}, restored? v saved = some previous → (v, previous) ∈ saved
  | [], h => nomatch h
  | (w, first) :: rest, h => by
    unfold restored? at h
    cases hrest : restored? v rest with
    | some oldest =>
      rw [hrest, Option.some_or] at h
      exact .tail _ (mem_of_restored? (hrest.trans h))
    | none =>
      rw [hrest, Option.none_or] at h
      obtain ⟨rfl, hfirst⟩ := Option.ite_none_right_eq_some.1 h
      cases hfirst
      exact .head _

namespace Analyzer

theorem get?_restore (saved : List (Var × Option Bound)) (v : Var) : ∀ bounds : Table Var Bound,
    (restore bounds saved).get? v = (Scope.restored? v saved).getD (bounds.get? v) := by
  induction saved with
  | nil => exact fun _ => rfl
  | cons entry rest ih =>
    intro bounds
    obtain ⟨w, previous⟩ := entry
    unfold restore
    rw [List.foldl_cons]
    change (restore (bounds.set w previous) rest).get? v = _
    rw [ih, Scope.restored?, Table.get?_set]
    cases Scope.restored? v rest with
    | some _ => rfl
    | none => by_cases h : w = v <;> simp [h]

/-- A scope that is being opened remembers the bounds of the state `a`: putting back what it has
gathered in the state `b` gives them. -/
def Remembers (a : Analyzer) (opening : Opening) (b : Analyzer) : Prop :=
  ∀ v, (Scope.restored? v opening.scope.saved).getD (b.bound? v) = a.bound? v

/-- A fact adds what it replaces to what is remembered. -/
theorem Remembers.assumeThe {a b : Analyzer} {opening : Opening} (h : a.Remembers opening b)
    (f : Fact) :
    let r := (Analyzer.assumeThe opening f).run b
    a.Remembers r.1 r.2 := by
  have hquery : ((analyze f.other).run b).2.bound? = b.bound? := (quiet_analyze f.other b).bound?
  unfold Analyzer.assumeThe
  rw [assumeFact_run]
  generalize (analyze f.other).run b = r at hquery ⊢
  obtain ⟨other, b'⟩ := r
  dsimp only at hquery ⊢
  cases other.assumed? f.op with
  | none => exact fun v => hquery ▸ h v
  | some assumed =>
    dsimp only
    cases (b'.boundOf f.var).intersect? assumed with
    | none => exact fun v => hquery ▸ h v
    | some refined =>
      intro v
      have hv := h v
      dsimp only at hv ⊢
      unfold Scope.restored?
      rw [bound?_withBound, hquery, Function.update_apply]
      cases hsaved : Scope.restored? v opening.scope.saved with
      | some previous => rwa [hsaved] at hv
      | none =>
        rw [hsaved] at hv
        by_cases hw : v = f.var
        · subst hw
          simpa using hv
        · simpa [hw, Ne.symm hw] using hv

theorem Remembers.foldlM_assumeThe {facts : List Fact} : ∀ {a b : Analyzer} {opening : Opening},
    a.Remembers opening b →
    let r := (facts.foldlM Analyzer.assumeThe opening).run b
    a.Remembers r.1 r.2 := by
  induction facts with
  | nil => exact fun h => h
  | cons f facts ih => exact fun h => ih (h.assumeThe f)

/-- Putting back what a scope remembers gives the bounds recorded before it was opened. -/
theorem enter_remembers (c : Expr) (a : Analyzer) (v : Var) :
    let r := (enter c).run a
    (Scope.restored? v r.1.1.saved).getD (r.2.bound? v) = a.bound? v := by
  unfold enter
  rw [assume_eq_foldlM]
  have hstart : a.Remembers {} a := fun _ => rfl
  exact hstart.foldlM_assumeThe v

/-- Closing a scope after whatever was done in it gives each variable that the scope refined the
bound of the state in which it was opened. -/
theorem exit_restores (c : Expr) (a b : Analyzer) (v : Var) :
    let opened := (enter c).run a
    ((exit opened.1.1).run b).2.bound? v =
      if v ∈ opened.1.1.saved.map (·.1) then a.bound? v else b.bound? v := by
  have hremembers := enter_remembers c a v
  have hexit : ((exit ((enter c).run a).1.1).run b).2.bound? v =
      (Scope.restored? v ((enter c).run a).1.1.saved).getD (b.bound? v) :=
    get?_restore _ v b.bounds
  dsimp only at hremembers ⊢
  rw [hexit]
  split
  · next hv =>
    obtain ⟨previous, hprevious⟩ :=
      Option.ne_none_iff_exists'.1 fun h => Scope.restored?_eq_none.1 h hv
    rw [hprevious] at hremembers ⊢
    exact hremembers
  · next hv => rw [Scope.restored?_eq_none.2 hv, Option.getD_none]

/-- Opening a scope leaves alone the variables that it does not remember. -/
theorem enter_bound?_of_not_saved (c : Expr) (a : Analyzer) {v : Var}
    (hv : v ∉ ((enter c).run a).1.1.saved.map (·.1)) :
    ((enter c).run a).2.bound? v = a.bound? v := by
  have hremembers := enter_remembers c a v
  dsimp only at hremembers
  rwa [Scope.restored?_eq_none.2 hv, Option.getD_none] at hremembers

end Analyzer

namespace Session

open Analyzer

/-- When a scope is closed after any actions in it, scopes within it included, the variables that it
refined have exactly what was recorded for them before it was opened, if anything was, and all other
variables have what they had before it was closed. -/
theorem within_restores (s : Session) (c : Expr) (actions : List Action) (v : Var) :
    let opened := (enter c).run s.analyzer
    let inside := performAll actions (s.put opened.2)
    let refined := opened.1.1.saved.map (·.1)
    (perform (.within c actions) s).analyzer.bound? v =
        (if v ∈ refined then s.analyzer.bound? v else inside.analyzer.bound? v) ∧
      (v ∉ refined → opened.2.bound? v = s.analyzer.bound? v) := by
  unfold perform
  exact ⟨exit_restores c s.analyzer _ v, enter_bound?_of_not_saved c s.analyzer⟩

/-! ## What a session leaves alone -/

mutual

/-- An action records a bound for a variable, or an action within its scope does. -/
def Records (v : Var) : Action → Prop
  | .query _ => False
  | .queryWith .. => False
  | .update w .. => w = v
  | .bind w .. => w = v
  | .within _ actions => RecordsAny v actions

/-- One of several actions records a bound for a variable. -/
def RecordsAny (v : Var) : List Action → Prop
  | [] => False
  | action :: actions => Records v action ∨ RecordsAny v actions

end

theorem update_bound?_of_ne {v w : Var} (h : w ≠ v) (b : Bound) (allowOverride : Bool)
    (a : Analyzer) : ((update w b allowOverride).run a).2.bound? v = a.bound? v := by
  rcases update_state w b allowOverride a with hstate | hstate
  · rw [hstate]
  · rw [hstate, bound?_withBound, Function.update_of_ne (Ne.symm h)]

mutual

theorem perform_bound? {v : Var} : ∀ {action : Action} {s : Session}, ¬ Records v action →
    (perform action s).analyzer.bound? v = s.analyzer.bound? v
  | .query e, s, _ => congrFun (quiet_analyze e s.analyzer).bound? v
  | .queryWith i e, s, _ =>
    congrArg (bound? · v) (analyzeWith_state (s.tables i) e s.analyzer)
  | .update w b allowOverride, s, h => update_bound?_of_ne h b allowOverride s.analyzer
  | .bind w range allowOverride, s, h => by
    obtain ⟨b, a, hquiet, hbind⟩ := bind_state w range allowOverride s.analyzer
    unfold perform
    rw [put, hbind, update_bound?_of_ne h b allowOverride a, hquiet.bound?]
  | .within c actions, s, h => by
    unfold perform
    refine (exit_restores c s.analyzer _ v).trans ?_
    split
    · rfl
    · next hv =>
      exact (performAll_bound? h).trans (enter_bound?_of_not_saved c s.analyzer hv)

/-- A variable for which no action records a bound keeps what is recorded for it, whatever scopes
are opened and closed. -/
theorem performAll_bound? {v : Var} : ∀ {actions : List Action} {s : Session},
    ¬ RecordsAny v actions → (performAll actions s).analyzer.bound? v = s.analyzer.bound? v
  | [], s, _ => rfl
  | action :: actions, s, h => by
    unfold performAll
    rw [performAll_bound? fun h' => h (.inr h'), perform_bound? fun h' => h (.inl h')]

end

end Session

end IndexAlgebra
