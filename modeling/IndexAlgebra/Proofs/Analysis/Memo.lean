import IndexAlgebra.Proofs.Analysis.Frame
import IndexAlgebra.Proofs.Expr.Coherent
import IndexAlgebra.Proofs.Table
/-!
# Queries that use a table

A query that uses a table finds the bound that a query without one finds, if the table is valid: the
bound entered for each node is the one that a query finds for it. The table stays valid, keeps its
entries, and gets new ones only at its end.

A table is used outside of local definitions alone, where all bounds recorded for variables are
those of the query. Within a local definition, where a node may have another bound, the query goes
on as if there were no table. A known bound is found by the handle of a node, so that the nodes must
be coherent: another node under the same handle would get the bound of the first.
-/

namespace IndexAlgebra

open Analyzer

/-- The bound entered for each node is the one that a query finds for it. -/
def Memo.Valid (m : Memo) (a : Analyzer) : Prop :=
  ∀ p ∈ m.entries, p.2 = ((analyze p.1).run a).1

namespace Analyzer

section Outside

-- The nodes, and a state outside of local definitions, of which only the table in use changes.
variable {nodes : Set Expr} {a : Analyzer}

/-- The entry holds the bound of a node. -/
def Correct (nodes : Set Expr) (a : Analyzer) (p : Expr × Bound) : Prop :=
  p.1 ∈ nodes ∧ p.2 = p.1.bound a.builtins a.bound?

/-- The second table has the entries of the first, and correct ones of nodes other than variables
behind them. -/
def Grows (nodes : Set Expr) (a : Analyzer) (m n : Memo) : Prop :=
  ∃ new, n.entries = m.entries ++ new ∧ ∀ p ∈ new, Correct nodes a p ∧ p.1.var? = none

theorem Grows.refl (m : Memo) : Grows nodes a m m := ⟨[], (List.append_nil _).symm, nofun⟩

theorem Grows.trans {l m n : Memo} (hlm : Grows nodes a l m) (hmn : Grows nodes a m n) :
    Grows nodes a l n := by
  obtain ⟨new, hm, hnew⟩ := hlm
  obtain ⟨new', hn, hnew'⟩ := hmn
  refine ⟨new ++ new', by rw [hn, hm, List.append_assoc], fun p hp => ?_⟩
  rcases List.mem_append.1 hp with hp | hp
  · exact hnew p hp
  · exact hnew' p hp

theorem Grows.correct {m n : Memo} (h : Grows nodes a m n)
    (hm : ∀ p ∈ m.entries, Correct nodes a p) : ∀ p ∈ n.entries, Correct nodes a p := by
  obtain ⟨new, hn, hnew⟩ := h
  intro p hp
  rw [hn] at hp
  rcases List.mem_append.1 hp with hp | hp
  · exact hm p hp
  · exact (hnew p hp).1

/-- What a table knows of a node is the bound of the node itself. -/
theorem eq_bound_of_get? (hnodes : Expr.Coherent nodes) {m : Memo}
    (hm : ∀ p ∈ m.entries, Correct nodes a p) {e : Expr} (he : e ∈ nodes) {b : Bound}
    (h : m.get? e = some b) : b = e.bound a.builtins a.bound? := by
  obtain ⟨key, hkey, hmem⟩ := Table.exists_mem_of_get? h
  obtain ⟨hnode, hb⟩ := hm _ hmem
  have heq : key = e := hnodes.handle_inj key hnode e he (beq_iff_eq.1 hkey)
  rwa [heq] at hb

/-- Entering the bound of a node lets a table grow. -/
theorem grows_insert (hnodes : Expr.Coherent nodes) {m : Memo}
    (hm : ∀ p ∈ m.entries, Correct nodes a p) {e : Expr} (he : e ∈ nodes) (hvar : e.var? = none) :
    Grows nodes a m (m.insert e (e.bound a.builtins a.bound?)) := by
  cases h : m.get? e with
  | none =>
    refine ⟨_, Table.entries_insert_of_get?_eq_none _ h, fun p hp => ?_⟩
    rw [List.mem_singleton.1 hp]
    exact ⟨⟨he, rfl⟩, hvar⟩
  | some b =>
    have hb := eq_bound_of_get? hnodes hm he h
    rw [Table.insert_of_get?_eq_some (hb ▸ h)]
    exact .refl m

/-- Whatever correct table is in use, a step of a query has a given result and lets the table
grow. -/
def Finds {α : Type} (nodes : Set Expr) (a : Analyzer) (x : Analysis α) (r : α) : Prop :=
  ∀ m : Memo, (∀ p ∈ m.entries, Correct nodes a p) →
    ∃ n : Memo, Grows nodes a m n ∧ x.run { a with memo := some m } = (r, { a with memo := some n })

theorem finds_pure {α : Type} (r : α) : Finds nodes a (pure r) r := fun m _ => ⟨m, .refl m, rfl⟩

theorem Finds.bind {α β : Type} {x : Analysis α} {f : α → Analysis β} {r : α} {s : β}
    (hx : Finds nodes a x r) (hf : Finds nodes a (f r) s) : Finds nodes a (x >>= f) s := by
  intro m hm
  obtain ⟨n, hmn, hxm⟩ := hx m hm
  obtain ⟨l, hnl, hfn⟩ := hf n (hmn.correct hm)
  refine ⟨l, hmn.trans hnl, ?_⟩
  rw [run_bind, hxm]
  exact hfn

/-- A step that looks at the state finds what it finds in the state without the table. -/
theorem finds_get_bind {β : Type} {f : Analyzer → Analysis β} {s : β}
    (hf : ∀ m : Memo, Finds nodes a (f { a with memo := some m }) s) :
    Finds nodes a (get >>= f) s :=
  fun m hm => hf m m hm

/-- Whatever correct table is in use, a step of a query finds the bound of a node and lets the table
grow, which then knows the node if it is not a variable. -/
def Learns (nodes : Set Expr) (a : Analyzer) (x : Analysis Bound) (e : Expr) : Prop :=
  ∀ m : Memo, (∀ p ∈ m.entries, Correct nodes a p) →
    ∃ n : Memo, Grows nodes a m n ∧
      x.run { a with memo := some m } = (e.bound a.builtins a.bound?, { a with memo := some n }) ∧
      (e.var? = none → n.get? e = some (e.bound a.builtins a.bound?))

theorem Learns.finds {x : Analysis Bound} {e : Expr} (h : Learns nodes a x e) :
    Finds nodes a x (e.bound a.builtins a.bound?) := by
  intro m hm
  obtain ⟨n, hmn, hn, -⟩ := h m hm
  exact ⟨n, hmn, hn⟩

theorem learns_remember (hnodes : Expr.Coherent nodes) (hdepth : a.depth = 0) {e : Expr}
    (he : e ∈ nodes) (hvar : e.var? = none) {x : Analysis Bound}
    (hx : Finds nodes a x (e.bound a.builtins a.bound?)) : Learns nodes a (remember e x) e := by
  intro m hm
  have hknown : known? { a with memo := some m } e = m.get? e := by
    simp [known?, memoizes, hdepth, hvar]
  rw [remember_run, hknown]
  cases h : m.get? e with
  | some b =>
    have hb := eq_bound_of_get? hnodes hm he h
    exact ⟨m, .refl m, by rw [hb], fun _ => hb ▸ h⟩
  | none =>
    obtain ⟨n, hmn, hxm⟩ := hx m hm
    refine ⟨_, hmn.trans (grows_insert hnodes (hmn.correct hm) he hvar), ?_, fun _ => ?_⟩
    · dsimp only
      rw [hxm]
      simp [learn, memoizes, hdepth, hvar]
    · rw [Table.get?_insert, if_pos BEq.rfl]

/-- Within a local definition the table is not used. -/
theorem finds_letIn {v : Var} {value body : Expr} (hv : a.bound? v = none) {b : Bound}
    (hvalue : Finds nodes a (analyze value) b) :
    Finds nodes a (do
      let b ← analyze value
      modify (·.enterLet v b)
      let result ← analyze body
      modify (·.leaveLet v)
      return result) (body.bound a.builtins (Function.update a.bound? v (some b))) := by
  refine hvalue.bind fun m hm => ⟨m, .refl m, ?_⟩
  have hbody := analyze_run body (plain_enterLet { a with memo := some m } v b)
  rw [bound?_enterLet] at hbody
  have hleave := leaveLet_enterLet (a := { a with memo := some m }) hv b
  simp only [run_bind, run_modify, run_pure, hbody, hleave]
  rfl

/-- Outside of local definitions, a query that uses a correct table finds the bound of a node. -/
theorem learns_analyze (hnodes : Expr.Coherent nodes) (hdepth : a.depth = 0) (e : Expr) :
    e ∈ nodes → Learns nodes a (analyze e) e := by
  induction e using analyze.induct <;> intro he
  case case1 v => exact fun m hm => ⟨m, .refl m, rfl, fun h => by cases h⟩
  case case5 h value ty ih =>
    have hvalue := (ih (hnodes.child he)).finds
    refine learns_remember hnodes hdepth he rfl ?_
    unfold Expr.bound
    split
    · exact hvalue.bind (finds_pure _)
    · exact finds_pure _
  case case6 h op x y ihx ihy =>
    have hx := (ihx (hnodes.child he)).finds
    have hy := (ihy (hnodes.child he)).finds
    refine learns_remember hnodes hdepth he rfl ?_
    unfold Expr.bound
    split
    · exact hx.bind (hy.bind (finds_pure _))
    · exact finds_pure _
  case case8 h cond yes no ihy ihn =>
    have hyes := (ihy (hnodes.child he)).finds
    have hno := (ihn (hnodes.child he)).finds
    refine learns_remember hnodes hdepth he rfl ?_
    unfold Expr.bound
    exact hyes.bind (hno.bind (finds_pure _))
  case case9 h base stride lanes ihb ihs ihl =>
    have hbase := (ihb (hnodes.child he)).finds
    have hstride := (ihs (hnodes.child he)).finds
    have hlanes := (ihl (hnodes.child he)).finds
    refine learns_remember hnodes hdepth he rfl ?_
    unfold Expr.bound
    exact hbase.bind (hstride.bind (hlanes.bind (finds_pure _)))
  case case10 h value lanes ih =>
    have hvalue := (ih (hnodes.child he)).finds
    refine learns_remember hnodes hdepth he rfl ?_
    unfold Expr.bound
    exact hvalue
  case case11 h v value body ihb ihv =>
    have hbody := (ihb (hnodes.child he)).finds
    have hvalue := (ihv (hnodes.child he)).finds
    refine learns_remember hnodes hdepth he rfl (finds_get_bind fun m => ?_)
    unfold Expr.bound
    rw [show isBound { a with memo := some m } v = (a.bound? v).isSome from rfl]
    split
    · exact hbody
    · next hv => exact finds_letIn (Option.not_isSome_iff_eq_none.1 hv) hvalue
  case case12 h op x y ihx ihy =>
    have hx := (ihx (hnodes.child he)).finds
    have hy := (ihy (hnodes.child he)).finds
    refine learns_remember hnodes hdepth he rfl (finds_get_bind fun m => ?_)
    unfold Expr.bound
    dsimp only
    split
    · exact finds_pure _
    · exact hx.bind (hy.bind (finds_pure _))
  case case13 h op head yes no ihy ihn =>
    have hyes := (ihy (hnodes.child he)).finds
    have hno := (ihn (hnodes.child he)).finds
    refine learns_remember hnodes hdepth he rfl (finds_get_bind fun m => ?_)
    unfold Expr.bound
    dsimp only
    split
    · exact hyes.bind (hno.bind (finds_pure _))
    · exact finds_pure _
  case case14 h op args h2 h3 =>
    rw [analyze]
    · refine learns_remember hnodes hdepth he rfl ?_
      rw [Expr.bound]
      · exact finds_pure _
      all_goals assumption
    all_goals assumption
  all_goals exact learns_remember hnodes hdepth he rfl (finds_pure _)

/-- A query with a table of its own finds the bound of a node, wherever it is asked: within a local
definition it does not use the table. -/
theorem analyzeWith_run (hnodes : Expr.Coherent nodes) {e : Expr} (he : e ∈ nodes) {m : Memo}
    (hm : ∀ p ∈ m.entries, Correct nodes a p) :
    ∃ n, Grows nodes a m n ∧ (analyzeWith m e).run a = ((e.bound a.builtins a.bound?, n), a) ∧
      (a.depth = 0 → e.var? = none → n.get? e = some (e.bound a.builtins a.bound?)) := by
  obtain ⟨n, hmn, hn, hknown⟩ : ∃ n, Grows nodes a m n ∧
      (analyze e).run { a with memo := some m } =
        (e.bound a.builtins a.bound?, { a with memo := some n }) ∧
      (a.depth = 0 → e.var? = none → n.get? e = some (e.bound a.builtins a.bound?)) := by
    by_cases hdepth : a.depth = 0
    · obtain ⟨n, hmn, hn, hknown⟩ := learns_analyze hnodes hdepth e he m hm
      exact ⟨n, hmn, hn, fun _ => hknown⟩
    · exact ⟨m, .refl m, analyze_run e (.inr hdepth), fun h => absurd h hdepth⟩
  refine ⟨n, hmn, ?_, hknown⟩
  unfold analyzeWith
  simp only [run_bind, run_get, run_modify, run_pure, hn, Option.getD_some]

end Outside

end Analyzer

namespace Memo

variable {m : Memo} {a : Analyzer}

theorem valid_iff_bound (hmemo : a.memo = none) :
    m.Valid a ↔ ∀ p ∈ m.entries, p.2 = p.1.bound a.builtins a.bound? := by
  simp only [Valid, analyze_run _ (.inl hmemo)]

theorem Valid.correct {nodes : Set Expr} (hm : m.Valid a) (hmemo : a.memo = none)
    (hkeys : ∀ p ∈ m.entries, p.1 ∈ nodes) : ∀ p ∈ m.entries, Correct nodes a p :=
  fun p hp => ⟨hkeys p hp, (valid_iff_bound hmemo).1 hm p hp⟩

/-- A table stays valid as long as the bounds of the variables are the same. -/
theorem Valid.congr {b : Analyzer} (hm : m.Valid a) (ha : a.memo = none) (hb : b.memo = none)
    (hbuiltins : b.builtins = a.builtins) (hbounds : b.bound? = a.bound?) : m.Valid b := by
  rw [valid_iff_bound ha] at hm
  rwa [valid_iff_bound hb, hbuiltins, hbounds]

end Memo

namespace Analyzer

variable {nodes : Set Expr} {a : Analyzer}

/-- With a valid table, a query finds what it finds without one, leaves the table valid and keeps
all of its entries, and enters no variable; any other node is known afterwards. The nodes of the
query and those entered before must be coherent, as all nodes are that a program has made. -/
theorem analyzeWith_agrees (hnodes : Expr.Coherent nodes) (hmemo : a.memo = none) {e : Expr}
    (he : e ∈ nodes) {m : Memo} (hkeys : ∀ p ∈ m.entries, p.1 ∈ nodes) (hm : m.Valid a) :
    let r := (analyzeWith m e).run a
    r.1.1 = ((analyze e).run a).1 ∧ r.1.2.Valid a ∧
      (∃ new, r.1.2.entries = m.entries ++ new ∧ ∀ p ∈ new, p.1 ∈ nodes ∧ p.1.var? = none) ∧
      (a.depth = 0 → e.var? = none → r.1.2.get? e = some r.1.1) := by
  have hcorrect := hm.correct hmemo hkeys
  obtain ⟨n, hgrows, hrun, hknown⟩ := analyzeWith_run hnodes he hcorrect
  rw [hrun, analyze_run e (.inl hmemo)]
  refine ⟨rfl, (Memo.valid_iff_bound hmemo).2 fun p hp => (hgrows.correct hcorrect p hp).2, ?_,
    hknown⟩
  obtain ⟨new, hn, hnew⟩ := hgrows
  exact ⟨new, hn, fun p hp => ⟨(hnew p hp).1.1, (hnew p hp).2⟩⟩

namespace Twice

def t : Var := ⟨9, "t", false⟩

/-- The successor of `t`. -/
def next : Expr := .binary 11 .add (.var t) (.int 10 1)

/-- The smaller of the successor of `t` and the same node where `t` is five. -/
def both : Expr := .binary 14 .min next (.letIn 13 t (.int 12 5) next)

def analyzer : Analyzer := { builtins := (Context.new.run 0).1.builtins }

theorem made :
    Expr.Made {both, .letIn 13 t (.int 12 5) next, .int 12 5, next, .int 10 1, .var t} 15 := by
  rw [← LawfulSingleton.insert_empty_eq]
  refine .node (.node (.node (.node (.node (.node (.start 9) rfl ?_) rfl ?_) rfl ?_) rfl ?_) rfl ?_)
    rfl ?_
  all_goals simp [Expr.children, next, both]

end Twice

/-- The table knows of the node that it has no limits, which is wrong where `t` is five. -/
theorem analyzeWith_agrees_both :
    let m : Memo := ⟨[(Twice.next, .everything)]⟩
    m.Valid Twice.analyzer ∧
      ((analyzeWith m Twice.both).run Twice.analyzer).1.1 = ⟨Endpoint.negInf, 6⟩ ∧
      ((analyzeWith m Twice.both).run Twice.analyzer).1.2.Valid Twice.analyzer := by
  intro m
  have hm : m.Valid Twice.analyzer := by
    simp only [Memo.Valid, m, List.forall_mem_singleton]
    decide
  obtain ⟨hbound, hvalid, -⟩ := analyzeWith_agrees Twice.made.coherent (a := Twice.analyzer) rfl
    (e := Twice.both) (by simp) (m := m) (by simp [m]) hm
  exact ⟨hm, hbound.trans (by decide), hvalid⟩

/-! ## Several queries with one table -/

/-- The bounds of several expressions, where each query uses the table that the one before left. -/
def analyzeAllWith : Memo → List Expr → Analysis (List Bound × Memo)
  | m, [] => return ([], m)
  | m, e :: es => do
    let (b, m) ← analyzeWith m e
    let (bs, m) ← analyzeAllWith m es
    return (b :: bs, m)

theorem analyzeAllWith_run (hnodes : Expr.Coherent nodes) : ∀ (es : List Expr) {m : Memo},
    (∀ e ∈ es, e ∈ nodes) → (∀ p ∈ m.entries, Correct nodes a p) →
    ∃ n, Grows nodes a m n ∧
      (analyzeAllWith m es).run a = ((es.map (·.bound a.builtins a.bound?), n), a) := by
  intro es
  induction es with
  | nil => exact fun {m} _ _ => ⟨m, .refl m, rfl⟩
  | cons e es ih =>
    intro m hes hm
    obtain ⟨n, hmn, he, -⟩ := analyzeWith_run hnodes (hes e (.head _)) hm
    obtain ⟨l, hnl, hrest⟩ := ih (fun x hx => hes x (.tail _ hx)) (hmn.correct hm)
    refine ⟨l, hmn.trans hnl, ?_⟩
    unfold analyzeAllWith
    simp only [run_bind, run_pure, he, hrest, List.map_cons]

/-- However the queries share nodes, a table that starts empty does not change what they find. -/
theorem analyzeAllWith_empty (hnodes : Expr.Coherent nodes) (hmemo : a.memo = none) {es : List Expr}
    (hes : ∀ e ∈ es, e ∈ nodes) :
    let r := (analyzeAllWith .empty es).run a
    r.1.1 = es.map (fun e => ((analyze e).run a).1) ∧ r.1.2.Valid a := by
  obtain ⟨n, hgrows, hrun⟩ := analyzeAllWith_run (a := a) hnodes es (m := .empty) hes nofun
  rw [hrun]
  refine ⟨?_, (Memo.valid_iff_bound hmemo).2 fun p hp => (hgrows.correct nofun p hp).2⟩
  simp only [analyze_run _ (.inl hmemo)]

end Analyzer

end IndexAlgebra
