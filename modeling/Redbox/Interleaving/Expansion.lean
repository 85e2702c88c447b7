import Redbox.Interleaving.Sequential

/-! Finer calls. Each call of a routine is replaced by a routine that makes it,
so a routine over few calls becomes one over the calls of a lower level. -/
namespace Interleaving

namespace Prog
variable {Req Req' : Type} {Resp : Req → Type} {Resp' : Req' → Type} {ε α β : Type}

def expand (h : (q : Req) → Prog Req' Resp' ε (Resp q)) : Prog Req Resp ε α → Prog Req' Resp' ε α
  | .ret a => .ret a
  | .throw e => .throw e
  | .call q k => (h q).bind fun r => expand h (k r)

/-- What a routine ends in, as a value. -/
def outcome (x : Prog Req Resp ε α) : Prog Req Resp ε (Except ε α) :=
  (x.bind fun a => .ret (.ok a)).handle fun e => .ret (.error e)

variable {h : (q : Req) → Prog Req' Resp' ε (Resp q)}

@[simp] theorem expand_ret (a : α) : (ret a : Prog Req Resp ε α).expand h = .ret a := rfl
@[simp] theorem expand_throw (e : ε) : (throw e : Prog Req Resp ε α).expand h = .throw e := rfl
@[simp] theorem expand_call (q : Req) (k : Resp q → Prog Req Resp ε α) :
    (call q k).expand h = (h q).bind fun r => (k r).expand h := rfl

@[simp] theorem expand_bind (x : Prog Req Resp ε α) (f : α → Prog Req Resp ε β) :
    (x.bind f).expand h = (x.expand h).bind fun a => (f a).expand h := by
  induction x with
  | ret a => rfl
  | throw e => rfl
  | call q k ih => simp only [call_bind, expand_call, ih, bind_assoc]

theorem Calls.expand {P : Req → Prop} {P' : Req' → Prop} {x : Prog Req Resp ε α} (hx : x.Calls P)
    (hh : ∀ q, P q → (h q).Calls P') : (x.expand h).Calls P' := by
  induction x with
  | ret a => trivial
  | throw e => trivial
  | call q k ih => exact (hh q hx.1).bind fun r => ih r (hx.2 r)

end Prog

/-- What a routine ends in, the rest looks at. -/
theorem Meets.outcome {Req ε ρ σ Op Choice Env α β : Type} {Resp : Req → Type}
    {S : System Req Resp ε ρ σ Op Choice Env} {R : Rules Req Resp σ Op Choice Env}
    {O : Outline Req Resp σ} {p : Nat} {x : Prog Req Resp ε α} {f : Except ε α → Prog Req Resp ε β}
    {Q : Except ε α → Shared Req Resp σ → Prop} {Q' : Except ε β → Shared Req Resp σ → Prop}
    {s : Shared Req Resp σ} (hx : Meets S R O p x Q s)
    (hf : ∀ r t, Q r t → Meets S R O p (f r) Q' t) : Meets S R O p (x.outcome.bind f) Q' s := by
  have hend : ∀ r t, (∀ u, Later S R O p t u → O.inv u → Q r u) → Meets S R O p (f r) Q' t := by
    intro r t h
    cases hr : f r with
    | ret a => exact fun u hu hi => (hr ▸ hf r u (h u hu hi)) u .refl hi
    | throw e => exact fun u hu hi => (hr ▸ hf r u (h u hu hi)) u .refl hi
    | call q k => exact fun u hu hi => (hr ▸ hf r u (h u hu hi)) u .refl hi
  induction x generalizing s with
  | ret a => exact hend (.ok a) s hx
  | throw e => exact hend (.error e) s hx
  | call q k ih => exact fun t ht hi c ha => ⟨(hx t ht hi c ha).1, ih _ (hx t ht hi c ha).2⟩

variable {Req Req' Fault ε ρ σ Op Choice Env α : Type} {Resp : Req → Type} {Answer : Req' → Type}
  {S : System Req' (fun q => Except Fault (Answer q)) ε ρ σ Op Choice Env}
  {R : Rules Req' (fun q => Except Fault (Answer q)) σ Op Choice Env}
  {O : Outline Req' (fun q => Except Fault (Answer q)) σ}

/-- Safe routines in place of the calls make every routine safe. -/
theorem Safe.expand {h : (q : Req) → Prog Req' (fun q => Except Fault (Answer q)) ε (Resp q)}
    (keeps : O.Kept S R) (hh : ∀ q, Safe S R O (h q)) (x : Prog Req Resp ε α) :
    Safe S R O (x.expand h) := by
  induction x with
  | ret a => exact Safe.ret
  | throw e => exact Safe.throw
  | call q k ih => exact Safe.bind keeps (hh q) ih

/-! A system within one that has more calls. -/
section
variable {Req Req' ε ρ ρ' σ σ' Op Op' Choice Env α : Type} {Resp : Req → Type} {Resp' : Req' → Type}

/-- Each call `q` of the first system is the call `up q` of the second, which keeps more in its
store. -/
structure Embedding (S : System Req Resp ε ρ σ Op Choice Env)
    (S' : System Req' Resp' ε ρ' σ' Op' Choice Env) where
  up : Req → Req'
  answer : ∀ q, Resp' (up q) → Resp q
  store : σ' → σ
  view : Event Req' Resp' → Option (Event Req Resp)
  view_up : ∀ p q r, view ⟨p, up q, r⟩ = some ⟨p, q, answer q r⟩
  exec : ∀ c q s, store (S'.exec c (up q) s).1 = (S.exec c q (store s)).1 ∧
    answer q (S'.exec c (up q) s).2 = (S.exec c q (store s)).2
  drift : ∀ e s, store (S'.drift e s) = S.drift e (store s)

namespace Embedding
variable {S : System Req Resp ε ρ σ Op Choice Env} {S' : System Req' Resp' ε ρ' σ' Op' Choice Env}
  (E : Embedding S S')

def lift (x : Prog Req Resp ε α) : Prog Req' Resp' ε α :=
  x.expand fun q => .call (E.up q) fun r => .ret (E.answer q r)

/-- What the first system sees of the second. -/
def project (s : Shared Req' Resp' σ') : Shared Req Resp σ :=
  ⟨E.store s.store, s.log.filterMap E.view⟩

theorem project_after (s : Shared Req' Resp' σ') (c : Choice) (p : Nat) (q : Req) :
    E.project (S'.after c p (E.up q) s) = S.after c p q (E.project s) ∧
      E.answer q (S'.reply c (E.up q) s) = S.reply c q (E.project s) := by
  obtain ⟨hstore, hreply⟩ := E.exec c q s.store
  have hr : E.answer q (S'.reply c (E.up q) s) = S.reply c q (E.project s) := hreply
  refine ⟨?_, hr⟩
  simp only [project, System.after, List.filterMap_cons, E.view_up, hstore, hr]

theorem project_moved (s : Shared Req' Resp' σ') (e : Env) :
    E.project (S'.moved e s) = S.moved e (E.project s) := by
  simp only [project, System.moved, E.drift]

variable {R : Rules Req Resp σ Op Choice Env} {R' : Rules Req' Resp' σ' Op' Choice Env}

/-- The outline of the larger system asks no more of process `p` than that of the smaller, and `p`
is alone. -/
structure Refines (R : Rules Req Resp σ Op Choice Env) (R' : Rules Req' Resp' σ' Op' Choice Env)
    (p : Nat) (O : Outline Req Resp σ) (O' : Outline Req' Resp' σ') : Prop where
  allows : ∀ s q c, R'.allows s p (E.up q) c = true → R.allows (E.project s) p q c = true
  drifts : ∀ s e, R'.drifts s e = true → R.drifts (E.project s) e = true
  inv : ∀ s, O'.inv s → O.inv (E.project s)
  pre : ∀ s q, O'.inv s → O.pre (E.project s) p q → O'.pre s p (E.up q)
  single : ∀ s p' q, O'.pre s p' q → p' = p

variable {E} {p : Nat} {O : Outline Req Resp σ} {O' : Outline Req' Resp' σ'}

theorem Refines.later (h : E.Refines R R' p O O') {s t : Shared Req' Resp' σ'}
    (hl : Later S' R' O' p s t) :
    Later S R O p (E.project s) (E.project t) := by
  induction hl with
  | refl => exact .refl
  | tail _ hstep ih =>
    refine ih.tail ?_
    cases hstep with
    | other ne _ _ hp => exact absurd (h.single _ _ _ hp) ne
    | drift hi hd =>
      rw [E.project_moved]
      exact .drift (h.inv _ hi) (h.drifts _ _ hd)

/-- What a routine does in the first system, it does in the second. -/
theorem Refines.meets (h : E.Refines R R' p O O') {x : Prog Req Resp ε α}
    {Q : Except ε α → Shared Req Resp σ → Prop} {s : Shared Req' Resp' σ'}
    (hx : Meets S R O p x Q (E.project s)) :
    Meets S' R' O' p (E.lift x) (fun r t => Q r (E.project t)) s := by
  induction x generalizing s with
  | ret a => exact fun t ht hi => hx _ (h.later ht) (h.inv t hi)
  | throw e => exact fun t ht hi => hx _ (h.later ht) (h.inv t hi)
  | call q k ih =>
    intro t ht hi c ha
    obtain ⟨hp, hnext⟩ := hx _ (h.later ht) (h.inv t hi) c (h.allows _ _ _ ha)
    obtain ⟨hafter, hreply⟩ := E.project_after t c p q
    rw [← hafter, ← hreply] at hnext
    exact ⟨h.pre t q hi hp, ih _ hnext⟩

/-- The same for an invariant that says more in the second. -/
theorem Refines.solo {I : Shared Req Resp σ → Prop} {A : Shared Req Resp σ → Req → Prop}
    {I' : Shared Req' Resp' σ' → Prop} {A' : Shared Req' Resp' σ' → Req' → Prop}
    (allows : ∀ s q c, R'.allows s p (E.up q) c = true → R.allows (E.project s) p q c = true)
    (drifts : ∀ s e, R'.drifts s e = true → R.drifts (E.project s) e = true)
    (inv : ∀ s, I' s → I (E.project s)) (pre : ∀ s q, I' s → A (E.project s) q → A' s (E.up q)) :
    E.Refines R R' p (.solo p I A) (.solo p I' A') :=
  ⟨allows, drifts, inv, fun s q hi hp => ⟨rfl, pre s q hi hp.2⟩, fun _ _ _ hp => hp.1⟩

end Embedding
end
end Interleaving
