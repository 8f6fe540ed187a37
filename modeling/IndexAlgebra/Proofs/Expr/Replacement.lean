import IndexAlgebra.Expr.Transformer
import IndexAlgebra.Proofs.Expr.Position
import Mathlib.Data.List.Forall2
/-!
# Replacing leaves

A transformer that has rules of its own for variables and literals only (`Transformer.replacing`)
gives an expression that is built like the old one, with each leaf replaced and all the rest kept
(`Replaced`). Handles are the only other difference: the nodes above a replaced leaf are new.

It does the same at each node that is not a leaf, whatever its kind
(`Transformer.transform_of_not_isLeaf`): it transforms the children in order, and keeps the node if
they all came back as they were. Otherwise it makes a node of the same kind and contents with the
new children. So what is said of such transformers takes one step for all kinds of nodes
(`Transformer.transform_gives`).

Whether a child has changed is decided by its handle, so the proof has to know that a new node does
not come by the handle of an old one. `Gives next x p` says this of a program `x` that makes nodes:
whatever unused handle it starts from, it gives a result with the property `p` and leaves an unused
handle behind.
-/

namespace IndexAlgebra

/-! ## Programs that make nodes -/

/-- From any handle that is not below `next`, a program gives a result with a property, and goes on
with such a handle. -/
def Gives {α : Type} (next : Handle) (x : Build α) (p : α → Prop) : Prop :=
  ∀ n, next ≤ n → p (x.run n).1 ∧ next ≤ (x.run n).2

section Gives

variable {α β : Type} {next : Handle} {p : α → Prop} {q : β → Prop}

theorem gives_pure {r : α} (h : p r) : Gives next (pure r) p := fun _ hn => ⟨h, hn⟩

theorem Gives.bind {x : Build α} {f : α → Build β} (hx : Gives next x p)
    (hf : ∀ r, p r → Gives next (f r) q) : Gives next (x >>= f) q :=
  fun n hn => hf _ (hx n hn).1 _ (hx n hn).2

/-- A new node has a handle that was not used. -/
theorem gives_node {p : Expr → Prop} (node : Handle → Expr) (h : ∀ n, next ≤ n → p (node n)) :
    Gives next (do return node (← Build.fresh)) p :=
  fun n hn => ⟨h n hn, Nat.le_succ_of_le hn⟩

end Gives

/-! ## Replacements -/

/-- What the leaves of an expression are replaced by. -/
structure Leaves where
  var : Var → Expr := .var
  sizeVar : Var → Expr := var
  int : Expr → Int64 → Expr := fun e _ => e
  float : Expr → Binary64 → Expr := fun e _ => e
  str : Expr → String → Expr := fun e _ => e

/-- What a leaf is replaced by. Other nodes are not replaced themselves. -/
def Leaves.replace (l : Leaves) : Expr → Expr
  | .var v => if v.isSize then l.sizeVar v else l.var v
  | e@(.int _ value) => l.int e value
  | e@(.float _ value) => l.float e value
  | e@(.str _ value) => l.str e value
  | e => e

/-- The nodes of an expression are among some nodes, and so is what its leaves are replaced by. -/
def Leaves.StaysIn (l : Leaves) (nodes : Set Expr) (e : Expr) : Prop :=
  e.Everywhere fun x => x ∈ nodes ∧ l.replace x ∈ nodes

/-- The transformer that replaces leaves. -/
def Transformer.replacing (l : Leaves) : Transformer where
  var v := return l.var v
  sizeVar v := return l.sizeVar v
  int e value := return l.int e value
  float e value := return l.float e value
  str e value := return l.str e value

mutual

/-- The second expression is the first with its leaves replaced, under whatever handles. The
variable of a local definition is not a leaf. -/
inductive Replaced (l : Leaves) : Expr → Expr → Prop where
  | var {v} : Replaced l (.var v) (l.replace (.var v))
  | int {h n} : Replaced l (.int h n) (l.replace (.int h n))
  | float {h n} : Replaced l (.float h n) (l.replace (.float h n))
  | str {h s} : Replaced l (.str h s) (l.replace (.str h s))
  | cast {h h' e e' ty} : Replaced l e e' → Replaced l (.cast h e ty) (.cast h' e' ty)
  | binary {h h' op a a' b b'} : Replaced l a a' → Replaced l b b' →
      Replaced l (.binary h op a b) (.binary h' op a' b')
  | not {h h' a a'} : Replaced l a a' → Replaced l (.not h a) (.not h' a')
  | select {h h' cond cond' yes yes' no no'} : Replaced l cond cond' → Replaced l yes yes' →
      Replaced l no no' → Replaced l (.select h cond yes no) (.select h' cond' yes' no')
  | ramp {h h' base base' stride stride' lanes lanes'} : Replaced l base base' →
      Replaced l stride stride' → Replaced l lanes lanes' →
      Replaced l (.ramp h base stride lanes) (.ramp h' base' stride' lanes')
  | broadcast {h h' e e' lanes lanes'} : Replaced l e e' → Replaced l lanes lanes' →
      Replaced l (.broadcast h e lanes) (.broadcast h' e' lanes')
  | letIn {h h' v value value' body body'} : Replaced l value value' → Replaced l body body' →
      Replaced l (.letIn h v value body) (.letIn h' v value' body')
  | call {h h' op args args'} : ReplacedAll l args args' →
      Replaced l (.call h op args) (.call h' op args')
  | shuffle {h h' vectors vectors' indices indices'} : ReplacedAll l vectors vectors' →
      ReplacedAll l indices indices' →
      Replaced l (.shuffle h vectors indices) (.shuffle h' vectors' indices')

/-- `Replaced` of each of several expressions. -/
inductive ReplacedAll (l : Leaves) : List Expr → List Expr → Prop where
  | nil : ReplacedAll l [] []
  | cons {e e' es es'} : Replaced l e e' → ReplacedAll l es es' →
      ReplacedAll l (e :: es) (e' :: es')

end

theorem replacedAll_iff {l : Leaves} {es es' : List Expr} :
    ReplacedAll l es es' ↔ List.Forall₂ (Replaced l) es es' := by
  constructor
  · intro h
    induction es generalizing es' with
    | nil =>
      cases h
      exact .nil
    | cons e es ih =>
      cases h with
      | cons he hes => exact .cons he (ih hes)
  · intro h
    induction h with
    | nil => exact .nil
    | cons he _ ih => exact .cons he ih

theorem ReplacedAll.length_eq {l : Leaves} {es es' : List Expr} (h : ReplacedAll l es es') :
    es'.length = es.length :=
  (replacedAll_iff.1 h).length_eq.symm

/-! ## Nodes and their children -/

namespace Expr

/-- The node of the same kind and contents with other children, as many as it has. -/
def withChildren (h : Handle) : Expr → List Expr → Expr
  | cast _ _ ty, [value] => cast h value ty
  | binary _ op _ _, [a, b] => binary h op a b
  | not _ _, [a] => not h a
  | select .., [cond, yes, no] => select h cond yes no
  | ramp .., [base, stride, lanes] => ramp h base stride lanes
  | broadcast .., [value, lanes] => broadcast h value lanes
  | letIn _ v _ _, [value, body] => letIn h v value body
  | call _ op _, args => call h op args
  | shuffle _ vectors _, es => shuffle h (es.take vectors.length) (es.drop vectors.length)
  | e, _ => e

theorem withChildren_spec {e : Expr} (he : e.isLeaf = false) {es : List Expr}
    (hes : es.length = e.children.length) (h : Handle) :
    (e.withChildren h es).children = es ∧ (e.withChildren h es).handle = h := by
  cases e with
  | var | int | float | str => cases he
  | call => exact ⟨rfl, rfl⟩
  | shuffle => exact ⟨List.take_append_drop .., rfl⟩
  | not | cast =>
    obtain ⟨a, rfl⟩ := List.length_eq_one_iff.1 hes
    exact ⟨rfl, rfl⟩
  | binary | broadcast | letIn =>
    obtain ⟨a, b, rfl⟩ := List.length_eq_two.1 hes
    exact ⟨rfl, rfl⟩
  | select | ramp =>
    obtain ⟨a, b, c, rfl⟩ := List.length_eq_three.1 hes
    exact ⟨rfl, rfl⟩

theorem withChildren_self (e : Expr) : e.withChildren e.handle e.children = e := by
  cases e with
  | shuffle h vectors indices =>
    simp only [withChildren, children, List.take_left, List.drop_left]
    rfl
  | _ => rfl

section Fold

variable {α : Type u} (r : Algebra α)

theorem foldList_append (as bs : List Expr) :
    foldList r (as ++ bs) = foldList r as ++ foldList r bs := by
  induction as with
  | nil => rfl
  | cons a as ih => simp only [List.cons_append, foldList, ih]

theorem length_foldList (es : List Expr) : (foldList r es).length = es.length := by
  induction es with
  | nil => rfl
  | cons e es ih => simp only [foldList, List.length_cons, ih]

end Fold

end Expr

/-- A node is one with its leaves replaced if its children are. -/
theorem replaced_withChildren {l : Leaves} {e : Expr} (he : e.isLeaf = false) {es : List Expr}
    (hes : List.Forall₂ (Replaced l) e.children es) (h : Handle) :
    Replaced l e (e.withChildren h es) := by
  cases e with
  | var | int | float | str => cases he
  | call => exact .call (replacedAll_iff.2 hes)
  | shuffle _ vectors indices =>
    have hvectors := List.forall₂_take vectors.length hes
    have hindices := List.forall₂_drop vectors.length hes
    rw [Expr.children, List.take_left] at hvectors
    rw [Expr.children, List.drop_left] at hindices
    exact .shuffle (replacedAll_iff.2 hvectors) (replacedAll_iff.2 hindices)
  | cast =>
    obtain - | ⟨ha, - | _⟩ := hes
    exact .cast ha
  | not =>
    obtain - | ⟨ha, - | _⟩ := hes
    exact .not ha
  | binary =>
    obtain - | ⟨ha, - | ⟨hb, - | _⟩⟩ := hes
    exact .binary ha hb
  | broadcast =>
    obtain - | ⟨ha, - | ⟨hb, - | _⟩⟩ := hes
    exact .broadcast ha hb
  | letIn =>
    obtain - | ⟨ha, - | ⟨hb, - | _⟩⟩ := hes
    exact .letIn ha hb
  | select =>
    obtain - | ⟨ha, - | ⟨hb, - | ⟨hc, - | _⟩⟩⟩ := hes
    exact .select ha hb hc
  | ramp =>
    obtain - | ⟨ha, - | ⟨hb, - | ⟨hc, - | _⟩⟩⟩ := hes
    exact .ramp ha hb hc

/-! ## Lists of children -/

section Children

variable {as bs : List (Child (Build Expr))} {es fs : List Expr}

/-- What a program goes on with matters only for the results that it has. -/
theorem Build.bind_congr {α β : Type} {x : Build α} {f g : α → Build β}
    (h : ∀ n, f (x.run n).1 = g (x.run n).1) : x >>= f = x >>= g := by
  funext n
  exact congrFun (h n) (x.run n).2

theorem length_transformAll (as : List (Child (Build Expr))) (n : Handle) :
    ((transformAll as).run n).1.length = as.length := by
  induction as generalizing n with
  | nil => rfl
  | cons a as ih => exact congrArg (· + 1) (ih _)

theorem transformAll_append (as bs : List (Child (Build Expr))) :
    transformAll (as ++ bs) = do
      let es ← transformAll as
      let fs ← transformAll bs
      return es ++ fs := by
  induction as with
  | nil => rfl
  | cons a as ih => simp only [List.cons_append, transformAll, ih, bind_assoc, pure_bind]

theorem unchanged_append (h : es.length = as.length) :
    unchanged (as ++ bs) (es ++ fs) = (unchanged as es && unchanged bs fs) := by
  induction as generalizing es with
  | nil =>
    rw [List.length_eq_zero_iff.1 h]
    rfl
  | cons a as ih =>
    obtain ⟨e, es, rfl⟩ := List.exists_cons_of_length_eq_add_one h
    simp only [List.cons_append, unchanged, ih (Nat.succ.inj h), Bool.and_assoc]

end Children

namespace Transformer

/-! ## One step for all kinds of nodes -/

section Step

variable {l : Leaves} {e : Expr} {es es' : List Expr}

/-- Expressions with what becomes of each of them. -/
abbrev each (l : Leaves) (es : List Expr) : List (Child (Build Expr)) :=
  Expr.foldList (replacing l).toAlgebra es

theorem transform_of_isLeaf (he : e.isLeaf = true) :
    (replacing l).transform e = pure (l.replace e) := by
  cases e with
  | var v =>
    show (if v.isSize then pure (l.sizeVar v) else pure (l.var v)) = _
    rw [← apply_ite pure]
    rfl
  | int | float | str => rfl
  | _ => cases he

theorem transform_of_not_isLeaf (he : e.isLeaf = false) :
    (replacing l).transform e = do
      let es ← transformAll (each l e.children)
      if unchanged (each l e.children) es then return e
      else return e.withChildren (← Build.fresh) es := by
  cases e with
  | var | int | float | str => cases he
  | call => rfl
  | shuffle h vectors indices =>
    -- The children are the two lists in one, which is taken apart again at the length of the first.
    simp only [Expr.children, each, Expr.foldList_append, transformAll_append, bind_assoc, pure_bind]
    refine Build.bind_congr fun n => Build.bind_congr fun n' => ?_
    have hlen := (length_transformAll (each l vectors) n).trans (Expr.length_foldList _ vectors)
    rw [unchanged_append (length_transformAll ..)]
    simp only [Expr.withChildren, List.take_left' hlen, List.drop_left' hlen]
    rfl
  | _ =>
    simp only [Expr.children, each, Expr.foldList, transformAll, unchanged, bind_assoc, pure_bind,
      Bool.and_true, ← Bool.and_assoc]
    rfl

theorem unchanged_iff (h : es'.length = es.length) :
    unchanged (each l es) es' = true ↔ List.Forall₂ (fun e e' => e'.sameAs e = true) es es' := by
  induction es generalizing es' with
  | nil => simp [List.length_eq_zero_iff.1 h, each, Expr.foldList, unchanged]
  | cons e es ih =>
    obtain ⟨e', es', rfl⟩ := List.exists_cons_of_length_eq_add_one h
    simp [each, Expr.foldList, unchanged, ih (Nat.succ.inj h)]

end Step

/-! ## Whole expressions -/

section Nodes

variable {nodes : Set Expr} {next : Handle} {l : Leaves} {e : Expr} {es : List Expr}

theorem transformAll_gives {R : Expr → Expr → Prop}
    (h : ∀ e ∈ es, Gives next ((replacing l).transform e) (R e)) :
    Gives next (transformAll (each l es)) (List.Forall₂ R es) := by
  induction es with
  | nil => exact gives_pure .nil
  | cons e es ih =>
    refine (h e (.head _)).bind fun e' he' => ?_
    exact (ih fun c hc => h c (.tail _ hc)).bind fun es' hes' => gives_pure (.cons he' hes')

/-- Each expression is related to what becomes of it if each leaf is to what it is replaced by, and
if each other node is to itself when its children came back as they were, and otherwise to a new
node with the children that came back. -/
theorem transform_gives {R : Expr → Expr → Prop} (hmade : Expr.Made nodes next)
    (leaf : ∀ {e}, l.StaysIn nodes e → e.isLeaf = true → R e (l.replace e))
    (kept : ∀ {e es}, e.isLeaf = false → List.Forall₂ R e.children es →
      List.Forall₂ (fun c c' => c'.sameAs c = true) e.children es → R e e)
    (made : ∀ {e es n}, e.isLeaf = false → List.Forall₂ R e.children es →
      ¬ List.Forall₂ (fun c c' => c'.sameAs c = true) e.children es → e.handle < n →
        R e (e.withChildren n es)) (e : Expr) :
    l.StaysIn nodes e → Gives next ((replacing l).transform e) (R e) := by
  induction e using Expr.childrenInduction with
  | step e ih =>
    intro he
    cases hleaf : e.isLeaf with
    | true =>
      rw [transform_of_isLeaf hleaf]
      exact gives_pure (leaf he hleaf)
    | false =>
      rw [transform_of_not_isLeaf hleaf]
      have hchildren := transformAll_gives fun c hc => ih c hc (he.child hc)
      refine hchildren.bind fun es hes => ?_
      have hs := unchanged_iff (l := l) hes.length_eq.symm
      split
      · next h => exact gives_pure (kept hleaf hes (hs.1 h))
      · next h =>
        refine gives_node (e.withChildren · es) fun n hn => made hleaf hes (mt hs.2 h) ?_
        exact Nat.lt_of_lt_of_le (hmade.handle_lt e he.root.1) hn

/-- The second expression is the first with its leaves replaced, and is the very same node if it has
the same handle. -/
def Became (l : Leaves) (e e' : Expr) : Prop := Replaced l e e' ∧ (e'.sameAs e = true → e' = e)

theorem became_leaf (hmade : Expr.Made nodes next) (he : l.StaysIn nodes e)
    (hleaf : e.isLeaf = true) : Became l e (l.replace e) := by
  refine ⟨?_, hmade.coherent.eq_of_sameAs he.root.2 he.root.1⟩
  cases e with
  | var => exact .var
  | int => exact .int
  | float => exact .float
  | str => exact .str
  | _ => cases hleaf

/-- A node whose children all came back as they were. -/
theorem became_self (hleaf : e.isLeaf = false) (hes : List.Forall₂ (Became l) e.children es)
    (hs : List.Forall₂ (fun c c' => c'.sameAs c = true) e.children es) : Became l e e := by
  have hsame : es = e.children := by
    refine List.ext_getElem hes.length_eq.symm fun i hi hi' => ?_
    exact (hes.get hi' hi).2 (hs.get hi' hi)
  have hreplaced := replaced_withChildren hleaf (hes.imp fun _ _ h => h.1) e.handle
  rw [hsame, e.withChildren_self] at hreplaced
  exact ⟨hreplaced, fun _ => rfl⟩

/-- A new node is not the node that it stands for. -/
theorem became_node {n : Handle} (hleaf : e.isLeaf = false)
    (hes : List.Forall₂ (Became l) e.children es) (hn : e.handle < n) :
    Became l e (e.withChildren n es) := by
  refine ⟨replaced_withChildren hleaf (hes.imp fun _ _ h => h.1) n, fun hs => ?_⟩
  have hhandle := (Expr.withChildren_spec hleaf hes.length_eq.symm n).2
  exact absurd (hhandle.symm.trans (beq_iff_eq.1 hs)) (Nat.ne_of_gt hn)

/-- Replacing leaves by nodes that exist gives the expression with its leaves replaced. -/
theorem transform_became (hmade : Expr.Made nodes next) (he : l.StaysIn nodes e) :
    Gives next ((replacing l).transform e) (Became l e) :=
  transform_gives hmade (became_leaf hmade) became_self (fun hleaf hes _ => became_node hleaf hes) e
    he

end Nodes

end Transformer

end IndexAlgebra
