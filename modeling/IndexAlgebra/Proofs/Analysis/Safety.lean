import IndexAlgebra.Proofs.Analysis.Checked
import IndexAlgebra.Proofs.Analysis.Restore
import IndexAlgebra.Proofs.Analysis.Soundness
/-!
# Analysis fails no check

From a healthy state, in which only normal bounds are recorded and known, the checked analyzer does
what the analyzer does, and leaves a healthy state (`Analyzer.Safe`). So no step misuses an
operation on endpoints, and all bounds that are found are normal.
-/

namespace IndexAlgebra

open Endpoint

namespace Analyzer

/-- Only normal bounds are recorded, and only such are known. -/
structure Healthy (a : Analyzer) : Prop where
  recorded : a.NormalBounds
  known : ∀ m, a.memo = some m → ∀ p ∈ m.entries, p.2.Normal

namespace Healthy

variable {a : Analyzer}

theorem boundOf (ha : a.Healthy) (v : Var) : (a.boundOf v).Normal := ha.recorded.getD v

theorem withBound (ha : a.Healthy) (v : Var) {b : Bound} (hb : b.Normal) :
    (a.withBound v b).Healthy where
  recorded := by
    unfold NormalBounds
    rw [bound?_withBound]
    exact ha.recorded.update v hb
  known := ha.known

theorem enterLet (ha : a.Healthy) (v : Var) {b : Bound} (hb : b.Normal) :
    (a.enterLet v b).Healthy :=
  ⟨(ha.withBound v hb).recorded, ha.known⟩

theorem leaveLet (ha : a.Healthy) (v : Var) : (a.leaveLet v).Healthy where
  recorded w b hb := by
    have hget : (a.bounds.erase v).get? w = some b := hb
    rw [Table.get?_erase] at hget
    split at hget
    · cases hget
    · exact ha.recorded hget
  known := ha.known

theorem of_known? (ha : a.Healthy) {e : Expr} {b : Bound} (hb : a.known? e = some b) :
    b.Normal := by
  unfold known? at hb
  split at hb
  · obtain ⟨m, hm, hget⟩ := Option.bind_eq_some_iff.1 hb
    obtain ⟨key, -, hmem⟩ := Table.exists_mem_of_get? hget
    exact ha.known m hm _ hmem
  · cases hb

theorem learn (ha : a.Healthy) (e : Expr) {b : Bound} (hb : b.Normal) : (a.learn e b).Healthy := by
  unfold Analyzer.learn
  split
  · refine ⟨ha.recorded, fun m hm p hp => ?_⟩
    obtain ⟨n, hn, rfl⟩ := Option.map_eq_some_iff.1 hm
    rcases Table.mem_insert hp with hp | hp
    · rwa [hp]
    · exact ha.known n hn p hp
  · exact ha

end Healthy

/-- From a healthy state, the checked program does what the program does, with a result that has a
property, and leaves a healthy state. -/
def Safe {α : Type} (x : Analysis α) (c : CheckedAnalysis α) (p : α → Prop) : Prop :=
  ∀ a : Analyzer, a.Healthy → c.run a = some (x.run a) ∧ p (x.run a).1 ∧ (x.run a).2.Healthy

section Safe

variable {α β : Type} {p : α → Prop} {q : β → Prop}

theorem safe_pure {r : α} (h : p r) : Safe (pure r) (pure r) p := fun _ ha => ⟨rfl, h, ha⟩

/-- A rule whose checked form has its result. -/
theorem safe_rule {r : α} {o : Option α} (ho : o = some r) (h : p r) : Safe (pure r) (liftM o) p :=
  ho ▸ safe_pure h

theorem Safe.bind {x : Analysis α} {c : CheckedAnalysis α} {f : α → Analysis β}
    {g : α → CheckedAnalysis β} (hx : Safe x c p) (hf : ∀ r, p r → Safe (f r) (g r) q) :
    Safe (x >>= f) (c >>= g) q := by
  intro a ha
  obtain ⟨hrun, hp, hafter⟩ := hx a ha
  have hnext := hf _ hp _ hafter
  have hbind : (c >>= g).run a = (c.run a).bind fun r => (g r.1).run r.2 := rfl
  rw [hbind, hrun]
  exact hnext

/-- A rule whose checked form is a step of its own. -/
theorem Safe.after_rule {x : Analysis β} {r : α} {g : α → CheckedAnalysis β} {o : Option α}
    (h : Safe x (g r) q) (ho : o = some r) : Safe x (liftM o >>= g) q :=
  ho ▸ h

theorem safe_get : Safe get get Healthy := fun _ ha => ⟨rfl, ha, ha⟩

theorem safe_modify {f : Analyzer → Analyzer} (h : ∀ a : Analyzer, a.Healthy → (f a).Healthy) :
    Safe (modify f) (modify f) fun _ => True :=
  fun a ha => ⟨rfl, trivial, h a ha⟩

theorem safe_set {a : Analyzer} (h : a.Healthy) : Safe (set a) (set a) fun _ => True :=
  fun _ _ => ⟨rfl, trivial, h⟩

theorem asserted_eq {b : Bound} (hb : b.Normal) : Checked.asserted b = some b :=
  if_pos ⟨hb.lo_le_hi, hb.negInf_le_lo⟩

-- The lowest word is no endpoint of a normal bound.
example : Checked.asserted ⟨-2 ^ 63, 0⟩ = none := by decide

theorem Safe.remember {x : Analysis Bound} {c : CheckedAnalysis Bound} (h : Safe x c Bound.Normal)
    (e : Expr) : Safe (remember e x) (Checked.remember e c) Bound.Normal := by
  intro a ha
  rw [remember_run]
  cases hknown : a.known? e with
  | some b =>
    have hchecked : (Checked.remember e c).run a = some (b, a) := by
      rw [StateT.run, Checked.remember, hknown]
    exact ⟨hchecked, ha.of_known? hknown, ha⟩
  | none =>
    have hchecked : (Checked.remember e c).run a = (c.run a).bind fun r =>
        (Checked.asserted r.1).bind fun b => some (b, r.2.learn e b) := by
      rw [StateT.run, Checked.remember, hknown]
      rfl
    obtain ⟨hrun, hb, hafter⟩ := h a ha
    rw [hchecked, hrun, Option.bind_some, asserted_eq hb]
    exact ⟨rfl, hb, hafter.learn e hb⟩

end Safe

/-- A query fails no check, and finds a normal bound. -/
theorem safe_analyze (e : Expr) : Safe (analyze e) (Checked.analyze e) Bound.Normal := by
  induction e using analyze.induct
  case case1 v =>
    exact safe_get.bind fun a ha => safe_rule (asserted_eq (ha.boundOf v)) (ha.boundOf v)
  case case2 h n => exact (safe_pure (Bound.normal_unit n.toInt)).remember _
  case case5 h value ty ih =>
    refine Safe.remember ?_ _
    split
    · exact ih.bind fun b hb => safe_rule (Bound.Checked.cast_eq ty b) (Bound.normal_cast hb ty)
    · exact safe_rule (Bound.Checked.ofDataType_eq ty) (Bound.normal_ofDataType ty)
  case case6 h op x y ihx ihy =>
    refine Safe.remember ?_ _
    split
    · exact ihx.bind fun a ha => ihy.bind fun b hb =>
        safe_rule (Bound.Checked.binary_eq ha hb op) (Bound.normal_binary ha hb op)
    · exact safe_pure Bound.normal_everything
  case case8 h cond yes no ihy ihn =>
    exact (ihy.bind fun a ha => ihn.bind fun b hb => safe_pure (ha.union hb)).remember _
  case case9 h base stride lanes ihb ihs ihl =>
    exact (ihb.bind fun a ha => ihs.bind fun b hb => ihl.bind fun c hc =>
      safe_rule (Bound.Checked.ramp_eq a b c) (Bound.normal_ramp ha)).remember _
  case case10 h value lanes ih => exact ih.remember _
  case case11 h v value body ihb ihv =>
    refine Safe.remember (safe_get.bind fun a _ => ?_) _
    split
    · exact ihb
    · exact ihv.bind fun b hb => (safe_modify fun a ha => ha.enterLet v hb).bind fun _ _ =>
        ihb.bind fun r hr => (safe_modify fun a ha => ha.leaveLet v).bind fun _ _ => safe_pure hr
  case case12 h op x y ihx ihy =>
    refine Safe.remember (safe_get.bind fun a _ => ?_) _
    dsimp only
    split
    · exact safe_pure Bound.normal_everything
    · exact ihx.bind fun b hb => ihy.bind fun c hc =>
        safe_rule (Bound.Checked.call_eq hb hc a.builtins op)
          (Bound.normal_call hb hc a.builtins op)
  case case13 h op head yes no ihy ihn =>
    refine Safe.remember (safe_get.bind fun a _ => ?_) _
    split
    · exact ihy.bind fun b hb => ihn.bind fun c hc => safe_pure (hb.union hc)
    · exact safe_pure Bound.normal_everything
  case case14 h op args h2 h3 =>
    rw [analyze, Checked.analyze]
    · exact (safe_pure Bound.normal_everything).remember _
    all_goals assumption
  all_goals exact (safe_pure Bound.normal_everything).remember _

/-- A query with a table of normal bounds leaves such a table. -/
theorem safe_analyzeWith {m : Memo} (hm : ∀ p ∈ m.entries, p.2.Normal) (e : Expr) :
    Safe (analyzeWith m e) (Checked.analyzeWith m e)
      fun r => r.1.Normal ∧ ∀ p ∈ r.2.entries, p.2.Normal := by
  refine safe_get.bind fun a ha => ?_
  dsimp only
  have hfill : ∀ b : Analyzer, b.Healthy → ({ b with memo := some m } : Analyzer).Healthy := by
    refine fun b hb => ⟨hb.recorded, fun n hn => ?_⟩
    cases hn
    exact hm
  refine (safe_modify hfill).bind fun _ _ => ?_
  refine (safe_analyze e).bind fun b hb => safe_get.bind fun c hc => ?_
  have hleave : ∀ d : Analyzer, d.Healthy → ({ d with memo := a.memo } : Analyzer).Healthy :=
    fun d hd => ⟨hd.recorded, ha.known⟩
  refine (safe_modify hleave).bind fun _ _ => safe_pure ⟨hb, ?_⟩
  cases hfilled : c.memo with
  | none => exact hm
  | some n => exact hc.known n hfilled

/-! ## Recording bounds -/

/-- The bounds that an attempt to record a bound reports. -/
def reported : Except BoundError (Option Notice) → List Bound
  | .error (.conflicting _ recorded new) => [recorded, new]
  | .error (.empty ..) => []
  | .ok _ => []

theorem update_run (v : Var) (b : Bound) (allowOverride : Bool) (a : Analyzer) :
    (update v b allowOverride).run a =
      let new := Bound.make b.lo b.hi
      if new.hi < new.lo then (.error (.empty v.name new.lo new.hi), a)
      else
        match a.bound? v with
        | none => (.ok none, a.withBound v new)
        | some recorded =>
          if recorded = new then (.ok none, a.withBound v new)
          else if allowOverride then (.ok (some (.overriding v recorded new)), a.withBound v new)
          else (.error (.conflicting v.name recorded new), a) := by
  unfold update
  dsimp only
  split
  · rfl
  · rw [run_bind, run_get]
    dsimp only
    cases a.bound? v with
    | none => rfl
    | some recorded =>
      dsimp only
      split
      · rfl
      · split <;> rfl

/-- Whatever bound is to be recorded, only a normal one is. -/
theorem safe_update (v : Var) (b : Bound) (allowOverride : Bool) :
    Safe (update v b allowOverride) (Checked.update v b allowOverride)
      fun r => ∀ c ∈ reported r, c.Normal := by
  refine fun a ha => ⟨rfl, ?_⟩
  rw [update_run]
  dsimp only
  split
  · exact ⟨nofun, ha⟩
  · next hle =>
    have hnew := Bound.normal_make_of_le (Int.not_lt.1 hle)
    have hafter := ha.withBound v hnew
    cases hv : a.bound? v with
    | none => exact ⟨nofun, hafter⟩
    | some recorded =>
      dsimp only
      split
      · exact ⟨nofun, hafter⟩
      · split
        · exact ⟨nofun, hafter⟩
        · refine ⟨fun c hc => ?_, ha⟩
          rcases List.mem_pair.1 hc with rfl | rfl
          · exact ha.recorded hv
          · exact hnew

theorem safe_bind (v : Var) (range : Range) (allowOverride : Bool) :
    Safe (bind v range allowOverride) (Checked.bind v range allowOverride)
      fun r => ∀ c ∈ reported r, c.Normal := by
  refine (safe_analyze range.min).bind fun first _ => ?_
  refine (safe_analyze range.extent).bind fun extent _ => ?_
  refine Safe.after_rule ?_ (Bound.Checked.rangeBound_eq first extent)
  exact safe_update v _ allowOverride

end Analyzer

/-! ## Scopes -/

/-- Only normal bounds are remembered. -/
def Scope.Normal (s : Scope) : Prop := ∀ q ∈ s.saved, ∀ b, q.2 = some b → b.Normal

/-- The bound that a fact sets is normal, whatever the bound of its other side. -/
theorem Bound.Normal.assumed? {op : BinaryOp} {b c : Bound} (hb : b.Normal)
    (hc : b.assumed? op = some c) : c.Normal := by
  obtain ⟨hlow, hle, hhigh, -, -⟩ := hb
  unfold Bound.assumed? at hc
  split at hc
  · cases hc
    exact Bound.normal_make hle
  · cases hc
    exact Bound.normal_make (getD_add?_mem b.hi (-1) (by decide) (Int.le_refl _)).1
  · cases hc
    exact Bound.normal_make (Int.le_trans hlow hle)
  · cases hc
    exact Bound.normal_make (getD_add?_mem b.lo 1 (Int.le_refl _) (by decide)).2
  · cases hc
    exact Bound.normal_make (Int.le_trans hle hhigh)
  · cases hc

namespace Analyzer

theorem safe_assumeFact (v : Var) (op : BinaryOp) (other : Expr) {opening : Opening}
    (ho : opening.scope.Normal) :
    Safe (assumeFact v op other opening) (Checked.assumeFact v op other opening)
      fun r => r.scope.Normal := by
  refine (safe_analyze other).bind fun b hb => ?_
  refine Safe.after_rule ?_ (Bound.Checked.assumed?_eq op b)
  cases hassumed : b.assumed? op with
  | none => exact safe_pure ho
  | some assumed =>
    refine safe_get.bind fun a ha => ?_
    dsimp only
    cases hrefined : (a.boundOf v).intersect? assumed with
    | none => exact safe_pure ho
    | some refined =>
      have hnormal := Bound.Normal.of_intersect? (ha.boundOf v) (hb.assumed? hassumed) hrefined
      refine (safe_set (ha.withBound v hnormal)).bind fun _ _ => safe_pure fun q hq c hc => ?_
      rcases List.mem_cons.1 hq with rfl | hq
      · exact ha.recorded hc
      · exact ho q hq c hc

/-- A fact about one side of a comparison, if that side is a variable. -/
theorem safe_assumeSide (side : Option Var) (op : BinaryOp) (other : Expr) {opening : Opening}
    (ho : opening.scope.Normal) :
    Safe
      (match side with
        | some v => assumeFact v op other opening
        | none => pure opening)
      (match side with
        | some v => Checked.assumeFact v op other opening
        | none => pure opening)
      fun r => r.scope.Normal := by
  cases side with
  | some v => exact safe_assumeFact v op other ho
  | none => exact safe_pure ho

theorem safe_assume (constraint : Expr) (opening : Opening) (ho : opening.scope.Normal) :
    Safe (assume constraint opening) (Checked.assume constraint opening)
      fun r => r.scope.Normal := by
  induction constraint, opening using assume.induct
  case case1 h a b opening iha ihb => exact (iha ho).bind fun middle hmiddle => ihb middle hmiddle
  case case2 h op a b opening hand hop v hv =>
    rw [assume, Checked.assume, if_pos hop, if_pos hop, hv]
    · exact (safe_assumeFact v op b ho).bind fun middle hmiddle =>
        safe_assumeSide b.var? op.converse a hmiddle
    all_goals assumption
  case case3 h op a b opening hand hop hv =>
    rw [assume, Checked.assume, if_pos hop, if_pos hop, hv]
    · have hnone : Safe (pure opening) (pure opening) fun r => r.scope.Normal := safe_pure ho
      exact hnone.bind fun middle hmiddle => safe_assumeSide b.var? op.converse a hmiddle
    all_goals assumption
  case case4 h op a b opening hand hop =>
    rw [assume, Checked.assume, if_neg hop, if_neg hop]
    · exact safe_pure ho
    all_goals assumption
  case case5 e opening hand hbinary =>
    rw [assume, Checked.assume]
    · exact safe_pure ho
    all_goals assumption

theorem safe_enter (constraint : Expr) :
    Safe (enter constraint) (Checked.enter constraint) fun r => r.1.Normal :=
  (safe_assume constraint {} nofun).bind fun _ ho => safe_pure ho

/-- Closing a scope puts back normal bounds. -/
theorem Healthy.exit {a : Analyzer} (ha : a.Healthy) {scope : Scope} (hs : scope.Normal) :
    ((exit scope).run a).2.Healthy := by
  refine ⟨fun v b hb => ?_, ha.known⟩
  have hget : (Scope.restored? v scope.saved).getD (a.bound? v) = some b :=
    (get?_restore scope.saved v a.bounds).symm.trans hb
  cases hrestored : Scope.restored? v scope.saved with
  | none =>
    rw [hrestored] at hget
    exact ha.recorded hget
  | some previous =>
    rw [hrestored] at hget
    exact hs _ (Scope.mem_of_restored? hrestored) b hget

end Analyzer

end IndexAlgebra
