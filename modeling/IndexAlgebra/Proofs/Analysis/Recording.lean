import IndexAlgebra.Proofs.Analysis.Binding
/-!
# Recorded bounds stay

An attempt to record a bound for a variable is refused, and then nothing that is recorded changes,
or the normalised bound is recorded, and nothing else changes (`Analyzer.Attempt`). Recording the
bound of a range is such an attempt as well, after two queries. Its bound is never empty.

Without overriding, an attempt for a variable that has a bound already is refused or finds the same
bound. So the bound that is recorded first stays, whatever is done besides
(`Session.recorded_once`). Scopes may be opened and closed in between, since they put back what they
have replaced.
-/

namespace IndexAlgebra

namespace Analyzer

/-! ## Attempts -/

/-- The causes for which the bound `new` is not recorded for a variable: it has no values, or it
differs from what is recorded already and may not override that. -/
def Refuses (a : Analyzer) (v : Var) (new : Bound) (allowOverride : Bool) : BoundError → Prop
  | .empty name lo hi => new.hi < new.lo ∧ name = v.name ∧ lo = new.lo ∧ hi = new.hi
  | .conflicting name recorded other =>
    new.lo ≤ new.hi ∧ allowOverride = false ∧ a.bound? v = some recorded ∧ recorded ≠ new ∧
      name = v.name ∧ other = new

/-- The outcome of an attempt to record the bound `new` for a variable, with the state after it. -/
structure Attempt (a : Analyzer) (v : Var) (new : Bound) (allowOverride : Bool)
    (r : Except BoundError (Option Notice) × Analyzer) : Prop where
  error_iff : ∀ e, r.1 = .error e ↔ a.Refuses v new allowOverride e
  of_error : ∀ e, r.1 = .error e → r.2.bound? = a.bound?
  of_ok : ∀ notice, r.1 = .ok notice → r.2.bound? = Function.update a.bound? v (some new)

section Attempt

variable {a a' : Analyzer} {v w : Var} {new b : Bound} {allowOverride : Bool}

/-- A bound that has values, and may override or is the one that is recorded, is not refused. -/
theorem not_refuses (hle : new.lo ≤ new.hi)
    (h : ∀ recorded, a.bound? v = some recorded → recorded ≠ new → allowOverride = true)
    (e : BoundError) : ¬ a.Refuses v new allowOverride e := by
  cases e with
  | empty => exact fun hr => absurd hr.1 (Int.not_lt.2 hle)
  | conflicting name recorded other =>
    rintro ⟨-, ho, hv, hdiff, -⟩
    exact Bool.false_ne_true (ho.symm.trans (h recorded hv hdiff))

/-- There is one cause at most. -/
theorem attempt_of_refuses {e : BoundError} (h : a.Refuses v new allowOverride e) :
    Attempt a v new allowOverride (.error e, a) where
  error_iff e' := by
    constructor
    · rintro ⟨⟩
      exact h
    · intro h'
      cases e <;> cases e' <;> grind [Refuses]
  of_error _ _ := rfl
  of_ok := nofun

theorem attempt_of_not_refuses (h : ∀ e, ¬ a.Refuses v new allowOverride e)
    (notice : Option Notice) : Attempt a v new allowOverride (.ok notice, a.withBound v new) where
  error_iff e := ⟨nofun, fun he => absurd he (h e)⟩
  of_error := nofun
  of_ok _ _ := bound?_withBound a v new

theorem attempt_update (v : Var) (b : Bound) (allowOverride : Bool) (a : Analyzer) :
    Attempt a v (.make b.lo b.hi) allowOverride ((update v b allowOverride).run a) := by
  rw [update_run]
  generalize Bound.make b.lo b.hi = new
  dsimp only
  split
  · next hempty => exact attempt_of_refuses ⟨hempty, rfl, rfl, rfl⟩
  next hle =>
  rw [Int.not_lt] at hle
  cases hv : a.bound? v with
  | none => exact attempt_of_not_refuses (not_refuses hle (by simp [hv])) none
  | some recorded =>
    dsimp only
    split
    · next hsame => exact attempt_of_not_refuses (not_refuses hle (by simp [hv, hsame])) none
    next hdiff =>
    cases allowOverride with
    | true => exact attempt_of_not_refuses (not_refuses hle fun _ _ _ => rfl) _
    | false => exact attempt_of_refuses ⟨hle, rfl, hv, hdiff, rfl, rfl⟩

/-- Only what is recorded matters to an attempt. -/
theorem Attempt.congr {r : Except BoundError (Option Notice) × Analyzer}
    (h : Attempt a' v new allowOverride r) (hbound : a'.bound? = a.bound?) :
    Attempt a v new allowOverride r where
  error_iff e := by
    rw [h.error_iff]
    cases e <;> simp only [Refuses, hbound]
  of_error e he := (h.of_error e he).trans hbound
  of_ok notice hn := by rw [h.of_ok notice hn, hbound]

/-- Without overriding, an attempt leaves what is recorded. -/
theorem Attempt.keeps {r : Except BoundError (Option Notice) × Analyzer}
    (h : Attempt a v new false r) (hb : a.bound? w = some b) : r.2.bound? w = some b := by
  cases houtcome : r.1 with
  | error e => rw [h.of_error e houtcome, hb]
  | ok notice =>
    rw [h.of_ok notice houtcome, Function.update_apply]
    split
    · next hw =>
      subst hw
      -- another bound would have been refused as empty or as conflicting
      have hempty := (h.error_iff (.empty w.name new.lo new.hi)).2
      have hconflict := (h.error_iff (.conflicting w.name b new)).2
      grind [Refuses]
    · exact hb

/-! ## Ranges -/

/-- The bound of the elements of a range, by a query for its first element and one for its
extent. -/
def boundOfRange (range : Range) : Analysis Bound := do
  let min ← analyze range.min
  let extent ← analyze range.extent
  return rangeBound min extent

theorem quiet_boundOfRange (range : Range) : Quiet (boundOfRange range) :=
  (quiet_analyze range.min).bind fun _ => (quiet_analyze range.extent).bind fun _ => quiet_pure _

theorem attempt_bind (v : Var) (range : Range) (allowOverride : Bool) (a : Analyzer) :
    Attempt a v ((boundOfRange range).run a).1 allowOverride
      ((bind v range allowOverride).run a) := by
  have hnormal : ((boundOfRange range).run a).1.Normal := Bound.normal_rangeBound ..
  have hattempt := attempt_update v ((boundOfRange range).run a).1 allowOverride
    ((boundOfRange range).run a).2
  rw [hnormal.make_eq] at hattempt
  exact hattempt.congr (quiet_boundOfRange range a).bound?

end Attempt

end Analyzer

namespace Session

open Analyzer

/-! ## Runs -/

mutual

/-- An action does not override a recorded bound, nor does an action within its scope. -/
def NeverOverrides : Action → Prop
  | .query _ => True
  | .queryWith .. => True
  | .update _ _ allowOverride => allowOverride = false
  | .bind _ _ allowOverride => allowOverride = false
  | .within _ actions => NoneOverrides actions

/-- Several actions do not override recorded bounds. -/
def NoneOverrides : List Action → Prop
  | [] => True
  | action :: actions => NeverOverrides action ∧ NoneOverrides actions

end

theorem noneOverrides_append : ∀ {actions later : List Action},
    NoneOverrides (actions ++ later) ↔ NoneOverrides actions ∧ NoneOverrides later
  | [], _ => (iff_of_eq (true_and _)).symm
  | _ :: _, _ => (and_congr_right fun _ => noneOverrides_append).trans and_assoc.symm

theorem performAll_append : ∀ (actions later : List Action) (s : Session),
    performAll (actions ++ later) s = performAll later (performAll actions s)
  | [], _, _ => rfl
  | action :: actions, later, s => performAll_append actions later (perform action s)

mutual

theorem perform_keeps {v : Var} {b : Bound} : ∀ {action : Action} {s : Session},
    NeverOverrides action → s.analyzer.bound? v = some b →
    (perform action s).analyzer.bound? v = some b
  | .query e, s, _, hb => (congrFun (quiet_analyze e s.analyzer).bound? v).trans hb
  | .queryWith i e, s, _, hb =>
    (congrArg (bound? · v) (analyzeWith_state (s.tables i) e s.analyzer)).trans hb
  | .update w new _, s, h, hb => by
    cases h
    exact (attempt_update w new false s.analyzer).keeps hb
  | .bind w range _, s, h, hb => by
    cases h
    exact (attempt_bind w range false s.analyzer).keeps hb
  | .within c actions, s, h, hb => by
    unfold perform
    refine (exit_restores c s.analyzer _ v).trans ?_
    split
    · exact hb
    · next hv =>
      exact performAll_keeps h ((enter_bound?_of_not_saved c s.analyzer hv).trans hb)

/-- Actions that do not override leave what is recorded. -/
theorem performAll_keeps {v : Var} {b : Bound} : ∀ {actions : List Action} {s : Session},
    NoneOverrides actions → s.analyzer.bound? v = some b →
    (performAll actions s).analyzer.bound? v = some b
  | [], _, _, hb => hb
  | action :: actions, s, h, hb => by
    unfold performAll
    exact performAll_keeps h.2 (perform_keeps h.1 hb)

end

/-- To record a bound is to attempt it with the normalised bound, and to record the bound of a range
is to attempt it with the bound that two queries find, which is not empty. So, in a session in which
nothing is overridden, what has once been recorded for a variable stays. -/
theorem recorded_once (s : Session) :
    (∀ v b allowOverride, Attempt s.analyzer v (.make b.lo b.hi) allowOverride
      ((update v b allowOverride).run s.analyzer)) ∧
    (∀ v range allowOverride,
      let new := ((boundOfRange range).run s.analyzer).1
      new.lo ≤ new.hi ∧
        Attempt s.analyzer v new allowOverride ((bind v range allowOverride).run s.analyzer)) ∧
    ∀ actions later, NoneOverrides (actions ++ later) → ∀ v b,
      (performAll actions s).analyzer.bound? v = some b →
      (performAll (actions ++ later) s).analyzer.bound? v = some b := by
  refine ⟨fun v b o => attempt_update v b o _, ?_, ?_⟩
  · intro v range o
    have hnormal : ((boundOfRange range).run s.analyzer).1.Normal := Bound.normal_rangeBound ..
    exact ⟨hnormal.lo_le_hi, attempt_bind v range o s.analyzer⟩
  · intro actions later h v b hb
    rw [performAll_append]
    exact performAll_keeps (noneOverrides_append.1 h).2 hb

namespace Counter

def i : Var := ⟨9, "i", false⟩

/-- An analyzer that has recorded nothing, and tables that have not been used. -/
def session : Session := ⟨.new (Context.new.run 0).1, fun _ => .empty⟩

/-- Records for `i` a bound that lies at an infinity. -/
def first : List Action := [.update i ⟨Endpoint.posInf, Endpoint.posInf⟩ false]

/-- Attempts to record other bounds for `i`, one of them in a scope, and a query. -/
def later : List Action :=
  [.update i ⟨0, 5⟩ false, .bind i ⟨.int 10 0, .int 11 8⟩ false,
    .within (.binary 13 .lt (.var i) (.int 12 3)) [.update i ⟨1, 2⟩ false],
    .queryWith 0 (.letIn 15 i (.int 14 1) (.var i))]

end Counter

/-- The bound at the infinity is normalised, and stays. An empty bound is refused even where it may
override. -/
theorem recorded_once_counter :
    let recorded : Bound := ⟨Endpoint.posInf - 1, Endpoint.posInf⟩
    let s := performAll Counter.first Counter.session
    s.analyzer.bound? Counter.i = some recorded ∧
      NoneOverrides (Counter.first ++ Counter.later) ∧
      (performAll (Counter.first ++ Counter.later) Counter.session).analyzer.bound? Counter.i =
        some recorded ∧
      ((update Counter.i ⟨5, 1⟩ true).run s.analyzer).1 = .error (.empty "i" 5 1) ∧
      ((update Counter.i ⟨0, 5⟩ false).run s.analyzer).1 =
        .error (.conflicting "i" recorded ⟨0, 5⟩) := by
  intro recorded s
  have hrecorded : s.analyzer.bound? Counter.i = some recorded := by decide
  have hnone : NoneOverrides (Counter.first ++ Counter.later) := by
    simp [Counter.first, Counter.later, NoneOverrides, NeverOverrides]
  obtain ⟨-, -, hstays⟩ := recorded_once Counter.session
  obtain ⟨hattempt, -, -⟩ := recorded_once s
  exact ⟨hrecorded, hnone, hstays _ _ hnone _ _ hrecorded,
    ((hattempt Counter.i ⟨5, 1⟩ true).error_iff _).2 ⟨by decide, rfl, rfl, rfl⟩,
    ((hattempt Counter.i ⟨0, 5⟩ false).error_iff _).2
      ⟨by decide, rfl, hrecorded, by decide, rfl, rfl⟩⟩

end Session

end IndexAlgebra
