import IndexAlgebra.Proofs.Analysis.Binding
import IndexAlgebra.Proofs.Reduct
import IndexAlgebra.Report
/-!
# The bounds of a tiled loop

The bounds in a report depend on those of the loop's index alone: on the bound of the range
(`loop`), or on what a limit leaves of it (`below`). A limit leaves the bound of a shorter loop, or
contradicts it. From there the bounds of the outer index, the inner index and the access follow
(`tiled`). The bound of the access takes all tiles to be as long as the first (`tiled_loop`).

The infinities take part twice. An extent that is the upper infinity leaves the index without an
upper limit, and a tile of that size has two endpoints, by which all finite indices divide alike.
-/

namespace IndexAlgebra.Report

open Endpoint

/-! ## The index -/

/-- The bound of the index of a loop. -/
def loop (extent : Int) : Bound := Analyzer.rangeBound (.unit 0) (.unit extent)

/-- What is left of the bound of an index below a limit. A limit that contradicts the bound is left
out. -/
def below (limit : Int) (index : Bound) : Bound :=
  (((Bound.unit limit).assumed? .lt).bind index.intersect?).getD index

/-- Taking one away from the upper endpoint of a single value. -/
theorem add?_unit_hi_neg_one {n : Int} (h : n ≤ posInf) :
    add? (Bound.unit n).hi (-1) = some (if n = posInf then posInf else max negInf (n - 1)) := by
  rw [add?_eq (by decide) (by decide)]
  simp only [Bound.unit, Bound.make, isInf, clamp, posInf_eq, negInf_eq] at *
  grind

theorem loop_eq {extent : Int} (h : extent ≤ posInf) :
    loop extent = ⟨0, if extent = posInf then posInf else max 0 (extent - 1)⟩ := by
  have hzero : Bound.unit 0 = ⟨0, 0⟩ := rfl
  rw [loop, Analyzer.rangeBound, add?_unit_hi_neg_one h, Option.bind_some, hzero,
    zero_add? (by simp only [posInf_eq, negInf_eq]; omega)
      (by simp only [posInf_eq, negInf_eq] at *; omega)]
  simp only [Bound.make, Option.getD_some, posInf_eq, negInf_eq, Bound.mk.injEq] at *
  omega

/-- A limit shortens a loop. -/
theorem below_loop {extent limit : Int} (he : extent ≤ posInf) (hl : limit ≤ posInf)
    (hpos : 0 < limit) : below limit (loop extent) = loop (min extent limit) := by
  rw [loop_eq he, loop_eq (by omega), below, Bound.assumed?, add?_unit_hi_neg_one hl]
  simp only [Bound.make, posInf_eq, negInf_eq, Option.getD_some, Option.bind,
    Bound.intersect?] at *
  grind

/-- No index is below a limit that is not positive. -/
theorem below_loop_of_nonpos {extent limit : Int} (he : extent ≤ posInf) (hl : limit ≤ 0) :
    below limit (loop extent) = loop extent := by
  rw [loop_eq he, below, Bound.assumed?, add?_unit_hi_neg_one (by rw [posInf_eq]; omega)]
  simp only [Bound.make, posInf_eq, negInf_eq, Option.getD_some, Option.bind,
    Bound.intersect?] at *
  grind

/-! ## The tiles -/

/-- The bounds of the outer index, the inner index and the access, from that of the index. By a tile
of one, the three expressions fold. -/
def tiled (size : Int) (index : Bound) : List Bound :=
  if size = 1 then [index, .unit 0, index]
  else
    let tile := Bound.unit size
    let outer := index.floorDiv tile
    let inner := index.floorMod tile
    [outer, inner, (outer.mul tile).add inner]

theorem make_zero {n : Int} (h0 : 0 ≤ n) (hn : n ≤ posInf) : Bound.make 0 n = ⟨0, n⟩ := by
  have hnormal : (⟨0, n⟩ : Bound).Normal := by
    constructor <;> simp only [posInf_eq, negInf_eq] at * <;> omega
  exact hnormal.make_eq

theorem corners_index {op : Int → Int → Int} {n r : Int} {b : Bound} (hr : 0 ≤ r)
    (h : ∀ y, y = b.lo ∨ y = b.hi → op 0 y = 0 ∧ op n y = r) :
    Bound.corners op ⟨0, n⟩ b = Bound.make 0 r := by
  obtain ⟨hl0, hln⟩ := h b.lo (.inl rfl)
  obtain ⟨hh0, hhn⟩ := h b.hi (.inr rfl)
  simp only [Bound.corners, hl0, hln, hh0, hhn]
  congr 1 <;> omega

theorem add_index {n m : Int} (h0 : 0 ≤ n) (hn : n < posInf) (hm : 0 ≤ m) (hmh : m < posInf) :
    Bound.add ⟨0, n⟩ ⟨0, m⟩ = ⟨0, min (n + m) posInf⟩ := by
  have hzero : add? 0 0 = some 0 := rfl
  rw [Bound.add, hzero, add?_eq (by rw [negInf_eq]; omega) (Int.le_of_lt hmh)]
  simp only [Bound.make, isInf, clamp, posInf_eq, negInf_eq] at *
  grind

section Index

-- The last index of a loop that is not infinite, and the size of the tiles.
variable {n size : Int} (h0 : 0 ≤ n) (hn : n + 1 < posInf) (hsize : 0 < size) (hle : size ≤ posInf)
include h0 hn hsize hle

/-- An index divides by the endpoints of a tile as it does by the tile, although there are two of
them if the tile is as large as the upper infinity. -/
theorem ediv_endpoint {y : Int} (hy : y = (Bound.unit size).lo ∨ y = (Bound.unit size).hi) :
    0 < y ∧ n / y = n / size ∧ n / size * y = n / size * size := by
  have hlo : (Bound.unit size).lo = if size = posInf then posInf - 1 else size := by
    simp only [Bound.unit, Bound.make, posInf_eq, negInf_eq] at *
    omega
  have hhi : (Bound.unit size).hi = size := by
    simp only [Bound.unit, Bound.make, posInf_eq, negInf_eq] at *
    omega
  by_cases hmax : size = posInf
  · -- both endpoints are beyond the index
    have hpos : 0 < y ∧ n < y := by omega
    rw [Int.ediv_eq_zero_of_lt h0 hpos.2, Int.ediv_eq_zero_of_lt h0 (by omega)]
    omega
  · obtain rfl : y = size := by omega
    exact ⟨hsize, rfl, rfl⟩

theorem floorDiv_index : Bound.floorDiv ⟨0, n⟩ (.unit size) = ⟨0, n / size⟩ := by
  have hq := Int.ediv_nonneg h0 (Int.le_of_lt hsize)
  have hqn := Int.ediv_le_self size h0
  have hlo := (ediv_endpoint h0 hn hsize hle (.inl rfl)).1
  rw [Bound.floorDiv, Bound.excludesZero, if_pos (decide_eq_true (.inl hlo)), corners_index hq,
    make_zero hq (by omega)]
  intro y hy
  obtain ⟨hpos, hdiv, -⟩ := ediv_endpoint h0 hn hsize hle hy
  rw [floorDiv_dividesAs.finite y (by decide) (by decide),
    floorDiv_dividesAs.finite y (by rw [negInf_eq]; omega) (by omega), Int.zero_fdiv,
    Int.fdiv_eq_ediv_of_nonneg n (Int.le_of_lt hpos), hdiv]
  exact ⟨rfl, rfl⟩

theorem floorMod_index : Bound.floorMod ⟨0, n⟩ (.unit size) = ⟨0, min (n + 1) size - 1⟩ := by
  simp only [Bound.floorMod, Bound.unit, Bound.make, posInf_eq, negInf_eq] at *
  grind

theorem mul_index : Bound.mul ⟨0, n / size⟩ (.unit size) = ⟨0, n / size * size⟩ := by
  have hq := Int.mul_nonneg (Int.ediv_nonneg h0 (Int.le_of_lt hsize)) (Int.le_of_lt hsize)
  have hqn := Int.ediv_mul_le n (Int.ne_of_gt hsize)
  rw [Bound.mul, corners_index hq, make_zero hq (by omega)]
  intro y hy
  obtain ⟨-, -, hmul⟩ := ediv_endpoint h0 hn hsize hle hy
  rw [mul_eq_clamp, mul_eq_clamp, hmul, Int.zero_mul]
  exact ⟨rfl, clamp_eq_self (by rw [negInf_eq]; omega) (by omega)⟩

end Index

/-- The bounds for a loop with elements, but not infinitely many. -/
theorem tiled_loop {extent size : Int} (hpos : 1 ≤ extent) (hlt : extent < posInf)
    (hsize : 1 ≤ size) (hle : size ≤ posInf) :
    let q := (extent - 1) / size
    let m := min extent size
    tiled size (loop extent) = [⟨0, q⟩, ⟨0, m - 1⟩, ⟨0, min (q * size + m - 1) posInf⟩] := by
  have h0 : 0 ≤ extent - 1 := by omega
  have hn : extent - 1 + 1 < posInf := by omega
  have hindex : loop extent = ⟨0, extent - 1⟩ := by
    rw [loop_eq (Int.le_of_lt hlt), if_neg (Int.ne_of_lt hlt), Int.max_eq_right h0]
  unfold tiled
  dsimp only
  rw [hindex]
  split_ifs with h1
  · subst h1
    rw [Int.ediv_one, Int.mul_one, Int.min_eq_right hpos, Int.add_sub_cancel,
      Int.min_eq_left (by omega)]
    rfl
  · have hq := Int.mul_nonneg (Int.ediv_nonneg h0 (Int.le_of_lt hsize)) (Int.le_of_lt hsize)
    have hqn := Int.ediv_mul_le (extent - 1) (Int.ne_of_gt hsize)
    rw [floorDiv_index h0 hn hsize hle, floorMod_index h0 hn hsize hle, mul_index h0 hn hsize hle,
      add_index hq (by omega) (by omega) (by omega), Int.sub_add_cancel, Int.add_sub_assoc]

/-! ## The expressions -/

/-- The three expressions as nodes, none of them folded. -/
def unfolded (i : Var) (size : Int64) (next : Handle) : List (String × Expr) :=
  let tile := .int next size
  let outer := .binary (next + 1) .floorDiv (.var i) tile
  let inner := .binary (next + 2) .floorMod (.var i) tile
  let first := .binary (next + 3) .mul outer tile
  [("outer", outer), ("inner", inner), ("flat", .binary (next + 4) .add first inner)]

/-- What is said of a failure does not matter to a program that succeeds. -/
theorem run_adapt_of_ok {ε ε' α : Type} {x : ExceptT ε Build α} (f : ε → ε') {r : α}
    {next next' : Handle} (h : x.run.run next = (.ok r, next')) :
    (x.adapt f).run.run next = (.ok r, next') :=
  congrArg (fun p : Except ε α × Handle => (p.1.mapError f, p.2)) h

/-- An index does not fold with a tile that is neither zero nor one. -/
theorem accesses_run_unfolded (i : Var) {size : Int64} (h0 : size ≠ 0) (h1 : size ≠ 1)
    (next : Handle) :
    (accesses i size).run.run next = (.ok (unfolded i size next), next + 5) := by
  have hzero : (size == 0) = false := beq_eq_false_iff_ne.2 h0
  have hone : (size == 1) = false := beq_eq_false_iff_ne.2 h1
  let tile := Expr.int next size
  let outer := Expr.binary (next + 1) .floorDiv (.var i) tile
  have htile : (Build.int size).run next = (tile, next + 1) := rfl
  have houter : (Smart.floorDiv (.var i) tile).run.run (next + 1) = (.ok outer, next + 2) := by
    have hnone : Folding.binary? .floorDiv (.var i) tile = .ok none := by
      simp [tile, Folding.binary?, Folding.division?, Expr.isZero, Expr.isOne, hzero, hone]
    rw [Smart.floorDiv, Smart.tryBinary, hnone]
    rfl
  have hinner : (Smart.floorMod (.var i) tile).run.run (next + 2) =
      (.ok (.binary (next + 2) .floorMod (.var i) tile), next + 3) := by
    have hnone : Folding.binary? .floorMod (.var i) tile = .ok none := by
      simp [tile, Folding.binary?, Folding.modulo?, Folding.modOne?, Expr.isZero, hzero, h1]
    rw [Smart.floorMod, Smart.tryBinary, hnone]
    rfl
  have hfirst : (Smart.mul outer tile).run (next + 3) =
      (.binary (next + 3) .mul outer tile, next + 4) := by
    have hnone : Folding.mul? outer tile = none := by
      simp [outer, tile, Folding.mul?, Expr.isZero, Expr.isOne, hzero, hone]
    rw [Smart.mul, hnone]
    rfl
  rw [accesses, run_bind_of_ok (run_lift htile), run_bind_of_ok (run_adapt_of_ok Failure.outer houter),
    run_bind_of_ok (run_adapt_of_ok Failure.inner hinner), run_bind_of_ok (run_lift hfirst)]
  rfl

/-- The three expressions are made, and their bounds depend on that of the index. -/
theorem accesses_run (i : Var) {size : Int64} (hsize : 0 < size.toInt) (next : Handle) :
    ∃ exprs next', (accesses i size).run.run next = (.ok exprs, next') ∧
      exprs.map (·.1) = ["outer", "inner", "flat"] ∧
      ∀ k β, exprs.map (fun p => p.2.bound k β) = tiled size.toInt ((β i).getD (.default i)) := by
  by_cases h1 : size = 1
  · subst h1
    exact ⟨_, _, rfl, rfl, fun _ _ => rfl⟩
  have h0 : size ≠ 0 := by
    rintro rfl
    exact absurd hsize (by decide)
  have hne : size.toInt ≠ 1 := fun h => h1 (Int64.toInt_inj.1 h)
  refine ⟨_, _, accesses_run_unfolded i h0 h1 next, rfl, fun k β => ?_⟩
  rw [tiled, if_neg hne]
  rfl

/-! ## The columns -/

theorem bounds_run (exprs : List (String × Expr)) {a : Analyzer} (hmemo : a.memo = none) :
    (bounds exprs).run a = (exprs.map fun p => p.2.bound a.builtins a.bound?, a) := by
  induction exprs with
  | nil => rfl
  | cons p exprs ih =>
    unfold bounds at *
    rw [List.mapM_cons, Analyzer.run_bind, Analyzer.analyze_run p.2 (.inl hmemo),
      Analyzer.run_bind, ih]
    rfl

section Guard

variable {a : Analyzer} (hmemo : a.memo = none) {i : Var} {index : Bound}
  (hi : a.bound? i = some index) (h h' : Handle) (limit : Int64)
include hmemo hi

/-- A guard refines the bound of the index and nothing else. -/
theorem enter_guard : ((Analyzer.enter (.binary h .lt (.var i) (.int h' limit))).run a).2 =
    a.withBound i (below limit.toInt index) := by
  have hfacts : (Expr.binary h .lt (.var i) (.int h' limit)).facts =
      [⟨i, .lt, .int h' limit⟩] := rfl
  have hcurrent : a.boundOf i = index := by rw [Analyzer.boundOf, hi, Option.getD_some]
  rw [Analyzer.enter, Analyzer.assume_eq_foldlM, hfacts, List.foldlM_cons, Analyzer.assumeThe]
  simp only [List.foldlM_nil, Analyzer.run_bind, Analyzer.run_pure, Analyzer.assumeFact_run,
    Analyzer.analyze_run _ (.inl hmemo), hcurrent, Expr.bound, below, Bound.assumed?,
    Option.bind_some]
  cases index.intersect? _ with
  -- a limit that contradicts the bound leaves it as it is, which is what recording it again does
  | none => exact (Analyzer.withBound_of_bound? hi).symm
  | some refined => rfl

theorem guardedBounds_run (exprs : List (String × Expr)) :
    ((guardedBounds (.binary h .lt (.var i) (.int h' limit)) exprs).run a).1 =
      exprs.map fun p => p.2.bound a.builtins
        (Function.update a.bound? i (some (below limit.toInt index))) := by
  have henter := enter_guard hmemo hi h h' limit
  unfold guardedBounds
  rw [Analyzer.run_bind]
  generalize (Analyzer.enter (.binary h .lt (.var i) (.int h' limit))).run a = r at henter ⊢
  obtain ⟨⟨scope, notices⟩, a'⟩ := r
  dsimp only at henter ⊢
  subst henter
  rw [Analyzer.run_bind,
    bounds_run exprs (show (a.withBound i (below limit.toInt index)).memo = none from hmemo),
    Analyzer.bound?_withBound]
  rfl

end Guard

/-! ## The lines -/

/-- The lines of a report on expressions, from the bounds of each without the guard and under it. -/
def lines (exprs : List (String × Expr)) (plain : Expr → Bound) (guarded : Expr → Option Bound) :
    List Row :=
  exprs.map fun p => ⟨p.1, p.2.text, plain p.2, guarded p.2⟩

theorem map_zip_columns (exprs : List (String × Expr)) (plain : Expr → Bound)
    (guarded : Expr → Option Bound) :
    ((exprs.zip ((exprs.map fun p => plain p.2).zip (exprs.map fun p => guarded p.2))).map
      fun ((name, e), b, g) => (⟨name, e.text, b, g⟩ : Row)) = lines exprs plain guarded := by
  induction exprs with
  | nil => rfl
  | cons p exprs ih =>
    simp only [List.map_cons, List.zip_cons_cons, ih]
    rfl

/-- What is recorded of the index of a loop, and of nothing else. -/
def recorded (i : Var) (index : Bound) : Recorded := Function.update (fun _ => none) i (some index)

theorem rowsOf_run (i : Var) {range : Range} (exprs : List (String × Expr)) {ctx : Context}
    {index : Bound} (hindex : range.bound ctx.builtins (fun _ => none) = index)
    (limit : Option Int64) (h h' : Handle) :
    ((rowsOf i range exprs (limit.map fun l => .binary h .lt (.var i) (.int h' l))).run
      (.new ctx)).1 =
      .ok (lines exprs (·.bound ctx.builtins (recorded i index)) fun e =>
        limit.map fun l => e.bound ctx.builtins (recorded i (below l.toInt index))) := by
  have hmemo : ((Analyzer.new ctx).withBound i index).memo = none := rfl
  have hi : ((Analyzer.new ctx).withBound i index).bound? i = some index :=
    Analyzer.bound?_withBound_self ..
  have hrecorded : ((Analyzer.new ctx).withBound i index).bound? = recorded i index :=
    Analyzer.bound?_withBound ..
  have hbind : (Analyzer.bind i range false).run (.new ctx) =
      (.ok none, (Analyzer.new ctx).withBound i index) := by
    rw [← hindex]
    exact Analyzer.bind_first rfl rfl range false
  unfold rowsOf
  rw [Analyzer.run_bind, hbind]
  dsimp only
  rw [Analyzer.run_bind, bounds_run exprs hmemo, hrecorded]
  cases limit with
  | none => exact congrArg Except.ok (map_zip_columns exprs _ fun _ => none)
  | some l =>
    dsimp only [Option.map_some]
    rw [Analyzer.run_bind, Analyzer.run_bind, guardedBounds_run hmemo hi, hrecorded, recorded,
      Function.update_idem, Analyzer.run_pure, Analyzer.run_pure, List.map_map]
    exact congrArg Except.ok (map_zip_columns exprs _ fun e => some (e.bound ..))

/-- A report by a positive tile succeeds, with the bounds that follow from that of the index. -/
theorem rows_run (o : Options) (htile : 0 < o.tile.toInt) (next : Handle) :
    ∃ rs, ((rows o).run.run next).1 = .ok rs ∧ rs.map (·.name) = ["outer", "inner", "flat"] ∧
      rs.map (·.bound) = tiled o.tile.toInt (loop o.extent.toInt) ∧
      ∀ l, o.limit = some l → rs.map (·.guarded) =
        (tiled o.tile.toInt (below l.toInt (loop o.extent.toInt))).map some := by
  -- which context is made does not matter, nor which handles are given out
  obtain ⟨ctx, n, hctx⟩ : ∃ ctx n, Context.new.run next = (ctx, n) := ⟨_, _, rfl⟩
  let i : Var := ⟨n, "i", false⟩
  have hi : (Build.var "i").run n = (i, n + 1) := rfl
  obtain ⟨exprs, n', hexprs, hnames, hbounds⟩ := accesses_run i htile (n + 1)
  have hfirst : (Build.int 0).run n' = (.int n' 0, n' + 1) := rfl
  have hextent : (Build.int o.extent).run (n' + 1) = (.int (n' + 1) o.extent, n' + 2) := rfl
  obtain ⟨h, h', n'', hguard⟩ : ∃ h h' n'',
      (o.limit.mapM fun limit => do Smart.less (.var i) (← Build.int limit) :
        ExceptT Failure Build (Option Expr)).run.run (n' + 2) =
      (.ok (o.limit.map fun l => .binary h .lt (.var i) (.int h' l)), n'') := by
    cases o.limit with
    | none => exact ⟨0, 0, _, rfl⟩
    | some l => exact ⟨_, _, _, rfl⟩
  have hnot : ¬ o.tile ≤ 0 := by
    rw [Int64.le_iff_toInt_le]
    exact Int.not_le.2 htile
  unfold rows
  rw [if_neg hnot, run_bind_of_ok (run_lift hctx), run_bind_of_ok (run_lift hi),
    run_bind_of_ok hexprs, run_bind_of_ok (run_lift hfirst), run_bind_of_ok (run_lift hextent), run_bind_of_ok hguard,
    rowsOf_run i exprs rfl]
  have hcolumn (index : Bound) : exprs.map (fun p => p.2.bound ctx.builtins (recorded i index)) =
      tiled o.tile.toInt index := by
    rw [hbounds, recorded, Function.update_self, Option.getD_some]
  refine ⟨_, rfl, ?_, ?_, ?_⟩
  · rw [← hnames, lines, List.map_map]
    rfl
  · rw [lines, List.map_map]
    exact hcolumn _
  · intro l hl
    rw [lines, List.map_map, ← hcolumn, List.map_map, hl]
    rfl

/-- The only failure is that of a tile that is not positive. -/
theorem rows_eq_error_iff (o : Options) (next : Handle) (failure : Failure) :
    ((rows o).run.run next).1 = .error failure ↔ o.tile ≤ 0 ∧ failure = .tile o.tile := by
  by_cases htile : o.tile ≤ 0
  · have hrun : ((rows o).run.run next).1 = .error (.tile o.tile) := by
      unfold rows
      rw [if_pos htile]
      rfl
    rw [hrun, Except.error.injEq, eq_comm]
    exact (and_iff_right htile).symm
  · have hpos : 0 < o.tile.toInt := by
      rw [Int64.le_iff_toInt_le] at htile
      exact Int.not_le.1 htile
    obtain ⟨rs, hrs, -⟩ := rows_run o hpos next
    rw [hrs]
    exact ⟨nofun, fun h => absurd h.1 htile⟩

/-! ## The report -/

theorem toInt_min (a b : Int64) : (min a b).toInt = min a.toInt b.toInt := by
  change (if a ≤ b then a else b).toInt = _
  rw [apply_ite Int64.toInt, Int.min_def]
  simp only [Int64.le_iff_toInt_le]

/-- A report by a positive tile succeeds. Under a positive limit, the bounds are those of the loop
that ends at the limit if it does not end before. Any other limit is left out, since no index lies
below it. For a loop with elements, but not infinitely many, the outer index is at most that of the
last element, the inner index is below the size of a tile and that of the loop, and the access is at
most what these two allow, as far as it is a word. -/
theorem rows_exact (o : Options) (htile : 0 < o.tile) (next : Handle) :
    ∃ rs, ((rows o).run.run next).1 = .ok rs ∧ rs.map (·.name) = ["outer", "inner", "flat"] ∧
      (∀ limit, o.limit = some limit → 0 < limit →
        ∀ o' : Options, o'.extent = min o.extent limit → o'.tile = o.tile →
          ∀ next', ∃ rs', ((rows o').run.run next').1 = .ok rs' ∧
            rs.map (·.guarded) = (rs'.map (·.bound)).map some) ∧
      (∀ limit, o.limit = some limit → limit ≤ 0 →
        rs.map (·.guarded) = (rs.map (·.bound)).map some) ∧
      (0 < o.extent → o.extent < .maxValue →
        let q := (o.extent.toInt - 1) / o.tile.toInt
        let m := min o.extent.toInt o.tile.toInt
        rs.map (·.bound) = [⟨0, q⟩, ⟨0, m - 1⟩, ⟨0, min (q * o.tile.toInt + m - 1) posInf⟩]) := by
  rw [Int64.lt_iff_toInt_lt] at htile
  obtain ⟨rs, hrs, hnames, hbound, hguarded⟩ := rows_run o htile next
  refine ⟨rs, hrs, hnames, ?_, ?_, ?_⟩
  · intro limit hlimit hpos o' hextent htile' next'
    obtain ⟨rs', hrs', -, hbound', -⟩ := rows_run o' (htile' ▸ htile) next'
    rw [Int64.lt_iff_toInt_lt] at hpos
    refine ⟨rs', hrs', ?_⟩
    rw [hguarded limit hlimit, hbound', htile', hextent, toInt_min,
      below_loop (Word.le_posInf _) (Word.le_posInf _) hpos]
  · intro limit hlimit hnonpos
    rw [Int64.le_iff_toInt_le] at hnonpos
    rw [hguarded limit hlimit, hbound, below_loop_of_nonpos (Word.le_posInf _) hnonpos]
  · intro hpos hlt
    rw [Int64.lt_iff_toInt_lt] at hpos hlt
    rw [hbound]
    exact tiled_loop hpos hlt htile (Word.le_posInf _)

/-- The last tile of the loop is not complete, and its last accesses would not be words. A limit
leaves part of the first tile. -/
theorem rows_exact_incomplete :
    let o : Options := { extent := 9223372036854775806, tile := 1000, limit := some 20 }
    ∃ rs, ((rows o).run.run 0).1 = .ok rs ∧
      rs.map (·.bound) = [⟨0, 9223372036854775⟩, ⟨0, 999⟩, ⟨0, posInf⟩] ∧
      rs.map (·.guarded) = [some ⟨0, 0⟩, some ⟨0, 19⟩, some ⟨0, 19⟩] := by
  intro o
  let o' : Options := { extent := 20, tile := 1000 }
  obtain ⟨rs, hrs, -, hlimit, -, hbound⟩ := rows_exact o (by decide) 0
  obtain ⟨rs', hrs', hguarded⟩ := hlimit 20 rfl (by decide) o' (by decide) rfl 0
  obtain ⟨rs'', hrs'', -, -, -, hbound'⟩ := rows_exact o' (by decide) 0
  cases Except.ok.inj (hrs'.symm.trans hrs'')
  refine ⟨rs, hrs, (hbound (by decide) (by decide)).trans (by decide), ?_⟩
  rw [hguarded, hbound' (by decide) (by decide)]
  decide

end IndexAlgebra.Report
