import IndexAlgebra.Proofs.Analysis.Safety
import IndexAlgebra.Proofs.Analysis.Session
/-!
# Bounds of loop variables

Recording the bound of a range for a variable is a matter of the range alone. The bound is normal,
whatever the bounds of the first element and of the extent are, so that it is never refused for
being empty. It admits every element of the range (`Bound.admits_rangeBound`): an element is at most
the first element plus the extent less one, and the extent of a range with an element is positive,
where taking one away cannot meet the lower infinity.

Recording it a second time finds the bound in place, if the range does not depend on the variable
(`Analyzer.bind_again`).
-/

namespace IndexAlgebra

open Endpoint

namespace Bound

variable {first extent : Bound}

theorem normal_rangeBound (first extent : Bound) : (Analyzer.rangeBound first extent).Normal :=
  normal_make (Int.le_max_right ..)

/-- Taking one away from an upper limit above zero is subtracting the bound of a single one. -/
theorem add?_hi_neg_one (he : extent.Normal) (hpos : 0 < extent.hi) :
    add? extent.hi (-1) = some (extent.add (unit (-1))).hi := by
  obtain ⟨_, _, _, _, _⟩ := he
  simp only [Bound.add, unit, make, add?, isInf_iff, clamp, posInf_eq, negInf_eq] at *
  grind

/-- The bound of a range admits its elements. -/
theorem admits_rangeBound (hf : first.Normal) (he : extent.Normal) {m n x : Int}
    (hm : first.Admits m) (hn : extent.Admits n) (hl : m ≤ x) (hh : x < m + n) :
    (Analyzer.rangeBound first extent).Admits x := by
  have hone : (unit (-1)).Normal := normal_unit (-1)
  have hpos : 0 < extent.hi := by
    have hn := he.clamp_le hn
    simp only [clamp, posInf_eq, negInf_eq] at hn
    omega
  have hoffset : (extent.add (unit (-1))).Admits (n + -1) :=
    admits_add he hone hn (admits_unit (by decide) (by decide))
  have hlast : clamp (m + (n + -1)) ≤
      (add? first.hi (extent.add (unit (-1))).hi).getD posInf :=
    le_hi_add hf (he.add hone) hm hoffset
  have hlo : first.lo ≤ clamp x := (hf.le_clamp hm).trans (clamp_mono hl)
  have hhi : clamp x ≤ clamp (m + (n + -1)) := clamp_mono (by omega)
  unfold Analyzer.rangeBound
  rw [add?_hi_neg_one he hpos, Option.bind_some]
  exact admits_make hlo (hhi.trans (hlast.trans (Int.le_max_left ..)))

end Bound

/-! ## Ranges under recorded bounds -/

namespace Range

/-- The variables that occur in a range. -/
def occurring (range : Range) : List Var := range.min.occurring ++ range.extent.occurring

/-- The bound of the elements of a range under recorded bounds. -/
def bound (k : Builtins) (β : Recorded) (range : Range) : Bound :=
  Analyzer.rangeBound (range.min.bound k β) (range.extent.bound k β)

/-- What is recorded of a variable that does not occur in a range does not matter to its bound. -/
theorem bound_update (k : Builtins) (β : Recorded) (o : Option Bound) {range : Range} {v : Var}
    (hv : v ∉ range.occurring) : range.bound k (Function.update β v o) = range.bound k β := by
  have hagree : Recorded.Agree (Function.update β v o) β range.occurring :=
    fun w hw => Function.update_of_ne (ne_of_mem_of_not_mem hw hv) ..
  unfold bound
  rw [Expr.bound_congr k range.min (hagree.mono (List.subset_append_left ..)),
    Expr.bound_congr k range.extent (hagree.mono (List.subset_append_right ..))]

end Range

namespace Analyzer

variable {a : Analyzer} {v : Var} {b : Bound} {allowOverride : Bool} {notice : Option Notice}

/-! ## Recording a normal bound -/

/-- A bound that is normal is not empty. -/
theorem update_ne_empty (hb : b.Normal) (v : Var) (allowOverride : Bool) (a : Analyzer)
    (name : String) (lo hi : Int) :
    ((update v b allowOverride).run a).1 ≠ .error (.empty name lo hi) := by
  rw [update_run, hb.make_eq]
  dsimp only
  rw [if_neg (Int.not_lt.2 hb.lo_le_hi)]
  cases a.bound? v with
  | none => nofun
  | some recorded =>
    dsimp only
    split_ifs <;> nofun

theorem update_state_of_ok (hb : b.Normal)
    (h : ((update v b allowOverride).run a).1 = .ok notice) :
    ((update v b allowOverride).run a).2 = a.withBound v b := by
  rw [update_run, hb.make_eq] at *
  dsimp only at *
  rw [if_neg (Int.not_lt.2 hb.lo_le_hi)] at *
  cases hv : a.bound? v with
  | none => rfl
  | some recorded =>
    rw [hv] at h
    dsimp only at h ⊢
    split_ifs at h ⊢ <;> rfl

theorem withBound_of_bound? (h : a.bound? v = some b) : a.withBound v b = a := by
  unfold withBound
  rw [Table.insert_of_get?_eq_some h]

/-- Recording a bound again succeeds without overriding, and changes nothing. -/
theorem update_again (hb : b.Normal) (h : a.bound? v = some b) :
    (update v b false).run a = (.ok none, a) := by
  rw [update_run, hb.make_eq]
  dsimp only
  rw [if_neg (Int.not_lt.2 hb.lo_le_hi), h]
  dsimp only
  rw [if_pos rfl, withBound_of_bound? h]

theorem bound?_withBound_self (a : Analyzer) (v : Var) (b : Bound) :
    (a.withBound v b).bound? v = some b := by
  rw [bound?_withBound, Function.update_self]

/-! ## Recording the bound of a range -/

variable {range : Range}

theorem bind_run_of_memo (hmemo : a.memo = none) (v : Var) (range : Range)
    (allowOverride : Bool) :
    (bind v range allowOverride).run a =
      (update v (range.bound a.builtins a.bound?) allowOverride).run a := by
  simp only [bind_run, analyze_run range.min (.inl hmemo), analyze_run range.extent (.inl hmemo),
    Range.bound]

/-- The bound of a range is recorded for a variable that has none. -/
theorem bind_first (hmemo : a.memo = none) (hv : a.bound? v = none) (range : Range)
    (allowOverride : Bool) :
    (bind v range allowOverride).run a =
      (.ok none, a.withBound v (range.bound a.builtins a.bound?)) := by
  have hnormal : (range.bound a.builtins a.bound?).Normal := Bound.normal_rangeBound ..
  rw [bind_run_of_memo hmemo, update_run, hnormal.make_eq]
  dsimp only
  rw [if_neg (Int.not_lt.2 hnormal.lo_le_hi), hv]

theorem bind_state_of_ok (hmemo : a.memo = none)
    (h : ((bind v range allowOverride).run a).1 = .ok notice) :
    ((bind v range allowOverride).run a).2 =
      a.withBound v (range.bound a.builtins a.bound?) := by
  rw [bind_run_of_memo hmemo] at *
  exact update_state_of_ok (Bound.normal_rangeBound ..) h

/-- Recording the bound of a range again, without overriding, succeeds and changes nothing. -/
theorem bind_again (hmemo : a.memo = none)
    (h : ((bind v range allowOverride).run a).1 = .ok notice) (hv : v ∉ range.occurring) :
    let after := ((bind v range allowOverride).run a).2
    (bind v range false).run after = (.ok none, after) := by
  dsimp only
  rw [bind_state_of_ok hmemo h]
  have hbound : range.bound (a.withBound v (range.bound a.builtins a.bound?)).builtins
      (a.withBound v (range.bound a.builtins a.bound?)).bound? =
        range.bound a.builtins a.bound? := by
    rw [bound?_withBound]
    exact Range.bound_update a.builtins a.bound? _ hv
  rw [bind_run_of_memo (show (a.withBound v _).memo = none from hmemo), hbound]
  exact update_again (Bound.normal_rangeBound ..) (bound?_withBound_self ..)

/-- The bound that is recorded for a range admits all of its elements, if the values of the
variables lie within their bounds and no local definition in the range defines a variable that is
recorded, or one that is defined around it. It is never refused for being empty, and recording it
can be repeated, unless the range depends on the variable itself. -/
theorem bind_sound (hmemo : a.memo = none) (hnormal : a.NormalBounds) (v : Var) (range : Range)
    (allowOverride : Bool) :
    let after := (bind v range allowOverride).run a
    (∀ name lo hi, after.1 ≠ .error (.empty name lo hi)) ∧
      ∀ notice, after.1 = .ok notice →
        (∀ env, a.Satisfied env → range.min.LetsFresh (a.isBound · = true) →
          range.extent.LetsFresh (a.isBound · = true) →
          ∀ m n, Evals a.builtins env range.min m → Evals a.builtins env range.extent n →
          ∃ b, after.2.bound? v = some b ∧
            ∀ x : Int64, m.toInt ≤ x.toInt → x.toInt < m.toInt + n.toInt → b.Admits x.toInt) ∧
        (v ∉ range.occurring → (bind v range false).run after.2 = (.ok none, after.2)) := by
  refine ⟨fun name lo hi => ?_, fun notice h => ⟨?_, bind_again hmemo h⟩⟩
  · rw [bind_run_of_memo hmemo]
    exact update_ne_empty (Bound.normal_rangeBound ..) v allowOverride a name lo hi
  · intro env hs hmin hextent m n hm hn
    have hsound : Recorded.Sound (a.isBound · = true) env a.bound? := ⟨hnormal, hs, fun _ hv => hv⟩
    refine ⟨range.bound a.builtins a.bound?, ?_, fun x hl hh => ?_⟩
    · rw [bind_state_of_ok hmemo h]
      exact bound?_withBound_self ..
    · exact Bound.admits_rangeBound (hsound.normal_bound a.builtins range.min)
        (hsound.normal_bound a.builtins range.extent) (hm.admits_bound hsound hmin)
        (hn.admits_bound hsound hextent) hl hh

namespace Box

/-- From `x` on, as many integers as the square of `y` says. -/
def fromX : Range := ⟨.var x, .binary 12 .mul (.var y) (.var y)⟩

end Box

/-- At the point, the range goes from five to forty. -/
theorem bind_sound_fromX :
    let after := (bind Box.t Box.fromX false).run Box.analyzer
    after.1 = .ok none ∧ after.2.bound? Box.t = some (.make (-5) 40) ∧
      Evals Box.analyzer.builtins Box.point Box.fromX.min 5 ∧
      Evals Box.analyzer.builtins Box.point Box.fromX.extent 36 ∧
      (∀ x : Int64, 5 ≤ x.toInt → x.toInt < 5 + 36 → (Bound.make (-5) 40).Admits x.toInt) ∧
      Box.t ∉ Box.fromX.occurring ∧
      (bind Box.t Box.fromX false).run after.2 = (.ok none, after.2) := by
  intro after
  have hok : after.1 = .ok none := rfl
  have hrecorded : after.2.bound? Box.t = some (.make (-5) 40) := by decide
  have hm : Evals Box.analyzer.builtins Box.point Box.fromX.min 5 := .var
  have hn : Evals Box.analyzer.builtins Box.point Box.fromX.extent 36 := .binary .var .var rfl rfl
  have ht : Box.t ∉ Box.fromX.occurring := by decide
  obtain ⟨-, hafter⟩ := bind_sound rfl Box.normalBounds Box.t Box.fromX false
  obtain ⟨hsound, hagain⟩ := hafter none hok
  obtain ⟨b, hb, helements⟩ :=
    hsound Box.point Box.satisfied_point trivial ⟨trivial, trivial⟩ 5 36 hm hn
  cases hrecorded.symm.trans hb
  exact ⟨hok, hrecorded, hm, hn, helements, ht, hagain ht⟩

end Analyzer

end IndexAlgebra
