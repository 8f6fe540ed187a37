import IndexAlgebra.Proofs.Context
import IndexAlgebra.Proofs.Table
/-!
# Interned operators

A program makes contexts and calls them for operators. A call looks for its name and registers the
name if it found nothing, and what other calls do may come between the two: a name that was missing
may be there when it is registered. An `Interning` is watched event by event, so that a run may end
within calls; it keeps all operators that calls have returned.

What an event can do is said once, by `Extends`: operators stay where they are, and those that are
added carry their names and have new handles. From there each event keeps the operators interned
(`Interned.step`), and in every run a handle stands for one context and one name
(`perform_interned`).
-/

namespace IndexAlgebra

namespace Interning

/-- A call for the operator with a name. The context is given by its place among all contexts. -/
structure Call where
  context : Nat
  name : String
deriving DecidableEq

/-- What a program does with contexts. -/
inductive Event where
  /-- Makes a node that is no operator. -/
  | node
  /-- Makes a context. -/
  | context
  /-- A call in which no other event comes. -/
  | call (c : Call)
  /-- The first half of a call, which is the whole call if it finds the operator. -/
  | lookUp (c : Call)
  /-- The second half of a call. -/
  | register (c : Call)

end Interning

open Interning

/-- The contexts of a program and its calls. -/
structure Interning where
  /-- The least unused handle. -/
  next : Handle
  contexts : List Context := []
  /-- The calls that have found nothing and not yet registered their names. -/
  pending : List Call := []
  /-- The calls that are over, with the operators that they returned, the latest first. -/
  returned : List (Call × Op) := []

namespace Interning

/-- The operator of a context with a name. -/
def find? (s : Interning) (c : Call) : Option Op :=
  s.contexts[c.context]?.bind fun ctx => ctx.find? c.name

theorem find?_of_context {s : Interning} {c : Call} {ctx : Context}
    (h : s.contexts[c.context]? = some ctx) : s.find? c = ctx.find? c.name := by
  rw [find?, h, Option.bind_some]

theorem context_lt_of_find? {s : Interning} {c : Call} {op : Op} (h : s.find? c = some op) :
    c.context < s.contexts.length := by
  obtain ⟨ctx, hctx, -⟩ := Option.bind_eq_some_iff.1 h
  exact (List.getElem?_eq_some_iff.1 hctx).1

/-! ## Events -/

/-- A program with a context more. -/
def append (s : Interning) (ctx : Context) (next : Handle) : Interning :=
  { s with next, contexts := s.contexts ++ [ctx] }

/-- A call returns an operator, and its context is another now. -/
def finish (s : Interning) (c : Call) (op : Op) (ctx : Context) (next : Handle) : Interning :=
  { s with
    next
    contexts := s.contexts.set c.context ctx
    returned := (c, op) :: s.returned }

/-- What becomes of a program by a call to one of its contexts. -/
def asking (s : Interning) (c : Call) (answer : Context → Interning) : Interning :=
  match s.contexts[c.context]? with
  | none => s
  | some ctx => answer ctx

def step (s : Interning) : Event → Interning
  | .node => { s with next := s.next + 1 }
  | .context =>
    let r := Context.new.run s.next
    s.append r.1 r.2
  | .call c =>
    s.asking c fun ctx =>
      let r := (ctx.operator c.name).run s.next
      s.finish c r.1.1 r.1.2 r.2
  | .lookUp c =>
    s.asking c fun ctx =>
      match ctx.find? c.name with
      | some op => s.finish c op ctx s.next
      | none => { s with pending := c :: s.pending }
  | .register c =>
    s.asking c fun ctx =>
      if c ∈ s.pending then
        let r := (ctx.register c.name).run s.next
        { s.finish c r.1.1 r.1.2 r.2 with pending := s.pending.erase c }
      else s

/-- A program after several events. -/
def perform (s : Interning) (events : List Event) : Interning := events.foldl step s

/-! ## What an event can do -/

/-- A program after an event, compared with before. -/
structure Extends (s t : Interning) : Prop where
  next_le : s.next ≤ t.next
  keeps : ∀ {c op}, s.find? c = some op → t.find? c = some op
  adds : ∀ {c op}, t.find? c = some op → s.find? c = some op ∨
    s.find? c = none ∧ op.name = c.name ∧ s.next ≤ op.handle ∧ op.handle < t.next
  separates : ∀ {c c' op op'}, s.find? c = none → s.find? c' = none → t.find? c = some op →
    t.find? c' = some op' → op.handle = op'.handle → c = c'
  builtins : ∀ {i ctx}, t.contexts[i]? = some ctx →
    (∃ old, s.contexts[i]? = some old ∧ old.builtins = ctx.builtins) ∨
      ∀ k ∈ ctx.builtins.all, t.find? ⟨i, k.name⟩ = some k
  returned : ∀ {c op}, (c, op) ∈ t.returned → (c, op) ∈ s.returned ∨ t.find? c = some op

section Steps

variable {s t : Interning} {c : Call} {op : Op} {ctx : Context}

theorem find?_eq_of_contexts_eq (h : t.contexts = s.contexts) (c : Call) : t.find? c = s.find? c := by
  rw [find?, find?, h]

/-- An event that leaves the contexts as they are, and returns only what they have. -/
theorem extends_of_contexts_eq (hnext : s.next ≤ t.next) (hcontexts : t.contexts = s.contexts)
    (hreturned : ∀ {c op}, (c, op) ∈ t.returned → (c, op) ∈ s.returned ∨ t.find? c = some op) :
    s.Extends t where
  next_le := hnext
  keeps {c op} h := by rwa [find?_eq_of_contexts_eq hcontexts]
  adds {c op} h := .inl (by rwa [find?_eq_of_contexts_eq hcontexts] at h)
  separates {c c' op op'} hc _ h := by
    rw [find?_eq_of_contexts_eq hcontexts, hc] at h
    cases h
  builtins {i ctx} h := .inl ⟨ctx, hcontexts ▸ h, rfl⟩
  returned := hreturned

theorem Extends.refl (s : Interning) : s.Extends s :=
  extends_of_contexts_eq (Nat.le_refl _) rfl .inl

/-- A call that finds its operator returns it and changes nothing else. -/
theorem extends_finish_found (hctx : s.contexts[c.context]? = some ctx)
    (hfound : ctx.find? c.name = some op) : s.Extends (s.finish c op ctx s.next) := by
  have hcontexts : (s.finish c op ctx s.next).contexts = s.contexts := by
    obtain ⟨hlt, hget⟩ := List.getElem?_eq_some_iff.1 hctx
    rw [finish, ← hget, List.set_getElem_self]
  refine extends_of_contexts_eq (Nat.le_refl _) hcontexts fun h => ?_
  rcases List.mem_cons.1 h with h | h
  · cases h
    right
    show (s.finish c op ctx s.next).find? c = some op
    rw [find?_eq_of_contexts_eq hcontexts, find?_of_context hctx, hfound]
  · exact .inl h

/-- What is found after a call has put another context in place of its own. -/
theorem find?_finish (hctx : s.contexts[c.context]? = some ctx) (op : Op) (ctx' : Context)
    (next : Handle) (c' : Call) : (s.finish c op ctx' next).find? c' =
      if c.context = c'.context then ctx'.find? c'.name else s.find? c' := by
  obtain ⟨hlt, -⟩ := List.getElem?_eq_some_iff.1 hctx
  unfold find? finish
  rw [List.getElem?_set]
  by_cases hi : c.context = c'.context
  · rw [if_pos hi, if_pos hlt, if_pos hi]
    rfl
  · rw [if_neg hi, if_neg hi]

/-- A call that has registered a new operator finds it, and other calls find what they did. -/
theorem find?_finish_made (hctx : s.contexts[c.context]? = some ctx) (h : Handle) (next : Handle)
    (c' : Call) : (s.finish c ⟨h, c.name⟩ (ctx.withOperator ⟨h, c.name⟩) next).find? c' =
      if c = c' then some ⟨h, c.name⟩ else s.find? c' := by
  obtain ⟨i, name⟩ := c
  obtain ⟨i', name'⟩ := c'
  rw [find?_finish hctx]
  by_cases hi : i = i'
  · subst hi
    have hold : s.find? ⟨i, name'⟩ = ctx.find? name' := find?_of_context hctx
    rw [if_pos rfl, hold, Context.find?, Context.withOperator, Table.get?_insert]
    simp only [Call.mk.injEq, true_and, beq_iff_eq, Context.find?]
  · rw [if_neg hi, if_neg fun heq => hi (congrArg Call.context heq)]

/-- A call that registers a new operator adds this one. -/
theorem extends_finish_made (hctx : s.contexts[c.context]? = some ctx)
    (hmissing : ctx.find? c.name = none) :
    s.Extends (s.finish c ⟨s.next, c.name⟩ (ctx.withOperator ⟨s.next, c.name⟩) (s.next + 1)) := by
  have hfind := find?_finish_made hctx s.next (s.next + 1)
  have hnone : s.find? c = none := (find?_of_context hctx).trans hmissing
  exact {
    next_le := Nat.le_succ _
    keeps {c' op} h := by
      have hne : c ≠ c' := by
        rintro rfl
        rw [hnone] at h
        cases h
      rw [hfind, if_neg hne, h]
    adds {c' op} h := by
      rw [hfind] at h
      split at h
      · next heq =>
        cases heq
        cases h
        exact .inr ⟨hnone, rfl, Nat.le_refl _, Nat.lt_succ_self _⟩
      · exact .inl h
    separates {c₁ c₂ op₁ op₂} h₁ h₂ ht₁ ht₂ _ := by
      rw [hfind, h₁] at ht₁
      rw [hfind, h₂] at ht₂
      have heq₁ := (Option.ite_none_right_eq_some.1 ht₁).1
      have heq₂ := (Option.ite_none_right_eq_some.1 ht₂).1
      exact heq₁.symm.trans heq₂
    builtins {i ctx'} h := by
      left
      unfold finish at h
      rw [List.getElem?_set] at h
      split at h
      · next hi =>
        obtain ⟨-, h⟩ := Option.ite_none_right_eq_some.1 h
        cases h
        exact ⟨ctx, hi ▸ hctx, rfl⟩
      · exact ⟨ctx', h, rfl⟩
    returned {c' op} h := by
      rcases List.mem_cons.1 h with h | h
      · cases h
        right
        rw [hfind, if_pos rfl]
      · exact .inl h }

/-- Registering the name of a call. -/
theorem extends_finish_register (hctx : s.contexts[c.context]? = some ctx) :
    let r := (ctx.register c.name).run s.next
    s.Extends (s.finish c r.1.1 r.1.2 r.2) := by
  rw [Context.register_run]
  cases h : ctx.find? c.name with
  | some op => exact extends_finish_found hctx h
  | none => exact extends_finish_made hctx h

/-- What is found when there is one context more. -/
theorem find?_append (s : Interning) (ctx : Context) (next : Handle) (c : Call) :
    (s.append ctx next).find? c =
      if c.context = s.contexts.length then ctx.find? c.name else s.find? c := by
  unfold find? append
  rcases Nat.lt_trichotomy c.context s.contexts.length with hlt | heq | hgt
  · rw [List.getElem?_append_left hlt, if_neg (Nat.ne_of_lt hlt)]
  · rw [heq, List.getElem?_concat_length, if_pos rfl]
    rfl
  · have hlength : (s.contexts ++ [ctx]).length ≤ c.context := by
      rw [List.length_append]
      exact hgt
    rw [List.getElem?_eq_none hlength, List.getElem?_eq_none (Nat.le_of_lt hgt),
      if_neg (Nat.ne_of_gt hgt)]

/-- What is found only since there is a new context is an operator that it knows. -/
theorem found_append_new (hold : s.find? c = none)
    (h : (s.append (Context.new.run s.next).1 (Context.new.run s.next).2).find? c = some op) :
    c.context = s.contexts.length ∧ op ∈ (Context.new.run s.next).1.builtins.all ∧
      op.name = c.name := by
  rw [find?_append] at h
  split at h
  · next hi => exact ⟨hi, Context.mem_of_find?_new h⟩
  · rw [hold] at h
    cases h

/-- A new context adds the operators that it knows. -/
theorem extends_append_new (s : Interning) :
    s.Extends (s.append (Context.new.run s.next).1 (Context.new.run s.next).2) where
  next_le := Nat.le_add_right s.next 9
  keeps {c op} h := by
    rw [find?_append, if_neg (Nat.ne_of_lt (context_lt_of_find? h)), h]
  adds {c op} h := by
    cases hc : s.find? c with
    | none =>
      obtain ⟨-, hmem, hname⟩ := found_append_new hc h
      exact .inr ⟨rfl, hname, Context.handle_mem_new hmem⟩
    | some old =>
      rw [find?_append, if_neg (Nat.ne_of_lt (context_lt_of_find? hc)), hc] at h
      exact .inl h
  separates {c c' op op'} hc hc' h h' heq := by
    obtain ⟨hi, hmem, hname⟩ := found_append_new hc h
    obtain ⟨hi', hmem', hname'⟩ := found_append_new hc' h'
    have hop : op = op' :=
      List.inj_on_of_nodup_map (Context.nodup_handles_new s.next) hmem hmem' heq
    obtain ⟨i, name⟩ := c
    obtain ⟨i', name'⟩ := c'
    rw [Call.mk.injEq]
    exact ⟨hi.trans hi'.symm, hname.symm.trans (hop ▸ hname')⟩
  builtins {i ctx} h := by
    unfold append at h
    rw [List.getElem?_append] at h
    split at h
    · exact .inl ⟨ctx, h, rfl⟩
    · right
      obtain ⟨hlt, hget⟩ := List.getElem?_eq_some_iff.1 h
      have hi : i = s.contexts.length := by
        rw [List.length_singleton] at hlt
        omega
      rw [List.getElem_singleton] at hget
      intro k hk
      rw [find?_append, if_pos hi]
      subst hget
      exact Context.find?_new hk
  returned := .inl

theorem extends_asking {answer : Context → Interning}
    (h : ∀ ctx, s.contexts[c.context]? = some ctx → s.Extends (answer ctx)) :
    s.Extends (s.asking c answer) := by
  unfold asking
  split
  · exact .refl s
  · next ctx hctx => exact h ctx hctx

/-- An event keeps the operators that there are, and adds operators with new handles. -/
theorem extends_step (s : Interning) (e : Event) : s.Extends (s.step e) := by
  cases e with
  | node => exact extends_of_contexts_eq (Nat.le_succ _) rfl .inl
  | context => exact extends_append_new s
  | call c =>
    refine extends_asking fun ctx hctx => ?_
    rw [Context.operator_eq_register]
    exact extends_finish_register hctx
  | lookUp c =>
    refine extends_asking fun ctx hctx => ?_
    split
    · next op hfound => exact extends_finish_found hctx hfound
    · exact extends_of_contexts_eq (Nat.le_refl _) rfl .inl
  | register c =>
    refine extends_asking fun ctx hctx => ?_
    split
    · have h := extends_finish_register hctx
      exact ⟨h.next_le, h.keeps, h.adds, h.separates, h.builtins, h.returned⟩
    · exact .refl s

end Steps

/-! ## What every run keeps -/

/-- A handle stands for one context and one name. The contexts have the operators that they know,
and those that calls have returned. -/
structure Interned (s : Interning) : Prop where
  name_eq : ∀ {c op}, s.find? c = some op → op.name = c.name
  handle_lt : ∀ {c op}, s.find? c = some op → op.handle < s.next
  handle_inj : ∀ {c c' op op'}, s.find? c = some op → s.find? c' = some op' →
    op.handle = op'.handle → c = c'
  builtins : ∀ {i ctx}, s.contexts[i]? = some ctx →
    ∀ k ∈ ctx.builtins.all, s.find? ⟨i, k.name⟩ = some k
  returned : ∀ {c op}, (c, op) ∈ s.returned → s.find? c = some op

namespace Interned

variable {s t : Interning}

/-- A program that has done nothing yet. -/
theorem start (next : Handle) : ({ next } : Interning).Interned where
  name_eq := nofun
  handle_lt := nofun
  handle_inj := nofun
  builtins := nofun
  returned := nofun

theorem extend (hs : s.Interned) (h : s.Extends t) : t.Interned where
  name_eq {c op} hc := by
    rcases h.adds hc with hold | ⟨-, hname, -⟩
    · exact hs.name_eq hold
    · exact hname
  handle_lt {c op} hc := by
    rcases h.adds hc with hold | ⟨-, -, -, hlt⟩
    · exact Nat.lt_of_lt_of_le (hs.handle_lt hold) h.next_le
    · exact hlt
  handle_inj {c c' op op'} hc hc' heq := by
    -- a new handle is none that was used before
    rcases h.adds hc with hold | ⟨hnone, -, hle, -⟩ <;>
      rcases h.adds hc' with hold' | ⟨hnone', -, hle', -⟩
    · exact hs.handle_inj hold hold' heq
    · exact absurd heq (Nat.ne_of_lt (Nat.lt_of_lt_of_le (hs.handle_lt hold) hle'))
    · exact absurd heq (Nat.ne_of_gt (Nat.lt_of_lt_of_le (hs.handle_lt hold') hle))
    · exact h.separates hnone hnone' hc hc' heq
  builtins {i ctx} hctx k hk := by
    rcases h.builtins hctx with ⟨old, hold, hsame⟩ | hnew
    · exact h.keeps (hs.builtins hold k (hsame ▸ hk))
    · exact hnew k hk
  returned {c op} hc := by
    rcases h.returned hc with hold | hnew
    · exact h.keeps (hs.returned hold)
    · exact hnew

theorem step (hs : s.Interned) (e : Event) : (s.step e).Interned := hs.extend (extends_step s e)

theorem perform (events : List Event) : ∀ {s : Interning}, s.Interned →
    (s.perform events).Interned := by
  induction events with
  | nil => exact fun hs => hs
  | cons e events ih => exact fun hs => ih (hs.step e)

end Interned

/-! ## Handles, contexts and names -/

/-- A program has got an operator from a context: a call has returned it, or the context knows
it. -/
inductive Got (s : Interning) : Nat → Op → Prop where
  | returned {c : Call} {op : Op} : (c, op) ∈ s.returned → s.Got c.context op
  | builtin {i : Nat} {ctx : Context} {k : Op} : s.contexts[i]? = some ctx →
      k ∈ ctx.builtins.all → s.Got i k

namespace Interned

variable {s : Interning} (hs : s.Interned)
include hs

theorem find?_of_got {i : Nat} {op : Op} (h : s.Got i op) : s.find? ⟨i, op.name⟩ = some op := by
  cases h with
  | returned h =>
    have hfound := hs.returned h
    rw [hs.name_eq hfound]
    exact hfound
  | builtin hctx hk => exact hs.builtins hctx _ hk

theorem handle_eq_iff {i j : Nat} {op op' : Op} (h : s.Got i op) (h' : s.Got j op') :
    op.handle = op'.handle ↔ i = j ∧ op.name = op'.name := by
  have hfound := hs.find?_of_got h
  have hfound' := hs.find?_of_got h'
  constructor
  · intro heq
    exact Call.mk.inj (hs.handle_inj hfound hfound' heq)
  · rintro ⟨rfl, hname⟩
    rw [hname, hfound'] at hfound
    cases hfound
    rfl

/-- A call for the name of a known operator returns this operator, and changes nothing. -/
theorem operator_builtin {i : Nat} {ctx : Context} (hctx : s.contexts[i]? = some ctx) {k : Op}
    (hk : k ∈ ctx.builtins.all) (next : Handle) :
    (ctx.operator k.name).run next = ((k, ctx), next) := by
  have hfound : ctx.find? k.name = some k :=
    (find?_of_context (c := ⟨i, k.name⟩) hctx).symm.trans (hs.builtins hctx k hk)
  rw [Context.operator_eq_register, Context.register_run, hfound]

end Interned

/-- In every run, two operators that were got from contexts, known ones or others, have the same
handle exactly if they come from the same context and have the same name. A call returns an operator
with the name that it asked for. For the name of a known operator it is this operator: so it was for
all calls that have returned, and so it is for the next one. -/
theorem perform_interned (next : Handle) (events : List Event) :
    let s := ({ next } : Interning).perform events
    (∀ i j op op', s.Got i op → s.Got j op' →
      (op.handle = op'.handle ↔ i = j ∧ op.name = op'.name)) ∧
    (∀ c op, (c, op) ∈ s.returned → op.name = c.name) ∧
    ∀ i ctx, s.contexts[i]? = some ctx → ∀ k ∈ ctx.builtins.all,
      (∀ op, (⟨i, k.name⟩, op) ∈ s.returned → op = k) ∧
      ∀ next, (ctx.operator k.name).run next = ((k, ctx), next) := by
  have hs := (Interned.start next).perform events
  refine ⟨fun i j op op' => hs.handle_eq_iff, fun c op h => hs.name_eq (hs.returned h), ?_⟩
  intro i ctx hctx k hk
  refine ⟨fun op h => ?_, hs.operator_builtin hctx hk⟩
  have hfound := hs.returned h
  rw [hs.builtins hctx k hk] at hfound
  exact (Option.some.inj hfound).symm

/-- Two calls for the same name that both find nothing, in the first of two contexts; a call for
that name in the second context; and a call for a known operator. -/
def race : List Event :=
  [.context, .context, .lookUp ⟨0, "f"⟩, .lookUp ⟨0, "f"⟩, .node, .register ⟨0, "f"⟩,
    .register ⟨0, "f"⟩, .call ⟨1, "f"⟩, .call ⟨0, "sym.left_shift"⟩]

/-- The second of the two calls registers nothing. -/
theorem perform_interned_race :
    let s := ({ next := 0 } : Interning).perform race
    s.returned = [(⟨0, "sym.left_shift"⟩, ⟨0, "sym.left_shift"⟩), (⟨1, "f"⟩, ⟨20, "f"⟩),
      (⟨0, "f"⟩, ⟨19, "f"⟩), (⟨0, "f"⟩, ⟨19, "f"⟩)] ∧
    ∀ op op', s.Got 0 op → s.Got 1 op' → op.handle ≠ op'.handle := by
  refine ⟨rfl, fun op op' h h' heq => ?_⟩
  have hsame := ((perform_interned 0 race).1 0 1 op op' h h').1 heq
  exact absurd hsame.1 (by decide)

end Interning

end IndexAlgebra
