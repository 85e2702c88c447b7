import Redbox.Interleaving.History
import Mathlib.Logic.Relation

/-! Proof outlines for pools. Assertions sit between the calls of a routine and
must survive the calls of the other processes; each process is then proved alone. -/
namespace Interleaving
open Relation

variable {Req : Type} {Resp : Req → Type} {ε ρ σ Op Choice Env α β : Type}

/-- An invariant of the shared state, and what a process knows when it makes a call. -/
structure Outline (Req : Type) (Resp : Req → Type) (σ : Type) where
  inv : Shared Req Resp σ → Prop
  pre : Shared Req Resp σ → Nat → Req → Prop

section
variable (S : System Req Resp ε ρ σ Op Choice Env) (R : Rules Req Resp σ Op Choice Env)
  (O : Outline Req Resp σ)

/-- One move that is not a call of process `p`. -/
inductive Interferes (p : Nat) : Shared Req Resp σ → Shared Req Resp σ → Prop where
  | other {s : Shared Req Resp σ} {p' : Nat} {q : Req} {c : Choice} (ne : p' ≠ p)
      (inv : O.inv s) (allowed : R.allows s p' q c = true) (pre : O.pre s p' q) :
      Interferes p s (S.after c p' q s)
  | drift {s : Shared Req Resp σ} {e : Env} (inv : O.inv s) (drifts : R.drifts s e = true) :
      Interferes p s (S.moved e s)

abbrev Later (p : Nat) : Shared Req Resp σ → Shared Req Resp σ → Prop :=
  ReflTransGen (Interferes S R O p)

/-- An assertion of process `p` that no other process can break. -/
def Stable (p : Nat) (F : Shared Req Resp σ → Prop) : Prop :=
  ∀ ⦃s s'⦄, Interferes S R O p s s' → F s → F s'

/-- Process `p` running `x` from `s` respects the outline at each of its calls
and ends in `Q`, whatever the other processes do in between. -/
def Meets (p : Nat) : Prog Req Resp ε α → (Except ε α → Shared Req Resp σ → Prop) →
    Shared Req Resp σ → Prop
  | .ret a, Q, s => ∀ s', Later S R O p s s' → O.inv s' → Q (.ok a) s'
  | .throw e, Q, s => ∀ s', Later S R O p s s' → O.inv s' → Q (.error e) s'
  | .call q k, Q, s => ∀ s', Later S R O p s s' → O.inv s' → ∀ c, R.allows s' p q c = true →
      O.pre s' p q ∧ Meets p (k (S.reply c q s')) Q (S.after c p q s')

/-- The calls that respect the outline keep its invariant. -/
structure Outline.Kept : Prop where
  after : ∀ {s p q c}, O.inv s → R.allows s p q c = true → O.pre s p q → O.inv (S.after c p q s)
  moved : ∀ {s e}, O.inv s → R.drifts s e = true → O.inv (S.moved e s)

end

section
variable {S : System Req Resp ε ρ σ Op Choice Env} {R : Rules Req Resp σ Op Choice Env}
  {O : Outline Req Resp σ} {p : Nat}

theorem Stable.later {F : Shared Req Resp σ → Prop} (hF : Stable S R O p F)
    {s s' : Shared Req Resp σ} (h : Later S R O p s s') (hs : F s) : F s' := by
  induction h with
  | refl => exact hs
  | tail _ hstep ih => exact hF hstep ih

theorem Stable.and {F G : Shared Req Resp σ → Prop} (hF : Stable S R O p F)
    (hG : Stable S R O p G) :
    Stable S R O p fun s => F s ∧ G s :=
  fun _ _ h hs => ⟨hF h hs.1, hG h hs.2⟩

theorem Stable.const (P : Prop) : Stable S R O p fun _ => P := fun _ _ _ hs => hs

theorem Stable.all {ι : Sort*} {F : ι → Shared Req Resp σ → Prop} (hF : ∀ i, Stable S R O p (F i)) :
    Stable S R O p fun s => ∀ i, F i s :=
  fun _ _ h hs i => hF i h (hs i)

theorem Stable.exists {ι : Sort*} {F : ι → Shared Req Resp σ → Prop}
    (hF : ∀ i, Stable S R O p (F i)) : Stable S R O p fun s => ∃ i, F i s :=
  fun _ _ h ⟨i, hs⟩ => ⟨i, hF i h hs⟩

/-- The last event of a process is its own business. -/
theorem Stable.lastOwn (e : Option (Event Req Resp)) :
    Stable S R O p fun s => Interleaving.lastOwn p s.log = e := by
  intro s s' h hs
  cases h with
  | other ne => rw [System.after, lastOwn_other ne]; exact hs
  | drift => exact hs

/-- `A`, unless an event of kind `ev` came after the last marked event of process `p`. -/
def Unless (p : Nat) (mark ev : Event Req Resp → Bool) (A : Shared Req Resp σ → Prop)
    (s : Shared Req Resp σ) : Prop :=
  A s ∨ occursSince p mark ev s.log = true

/-- An assertion that only events of kind `ev` can break. -/
structure Survives (S : System Req Resp ε ρ σ Op Choice Env) (R : Rules Req Resp σ Op Choice Env)
    (O : Outline Req Resp σ) (ev : Event Req Resp → Bool) (A : Shared Req Resp σ → Prop) :
    Prop where
  after : ∀ {s p q c}, O.inv s → R.allows s p q c = true → O.pre s p q → A s →
    A (S.after c p q s) ∨ ev ⟨p, q, S.reply c q s⟩ = true
  moved : ∀ {s e}, O.inv s → R.drifts s e = true → A s → A (S.moved e s)

theorem Unless.resolve {mark ev : Event Req Resp → Bool} {A : Shared Req Resp σ → Prop}
    {s : Shared Req Resp σ} (h : Unless p mark ev A s) (hs : occursSince p mark ev s.log = false) :
    A s :=
  h.resolve_right (by simp [hs])

section
variable {mark ev : Event Req Resp → Bool} {A : Shared Req Resp σ → Prop}

theorem Survives.stable (hA : Survives S R O ev A) : Stable S R O p (Unless p mark ev A) := by
  intro s s' h hs
  cases h with
  | other ne hi ha hp =>
    rcases hs with hs | hs
    · rcases hA.after hi ha hp hs with h | h
      · exact .inl h
      · exact .inr (by rw [System.after, occursSince_other ne, h, Bool.true_or])
    · exact .inr (by rw [System.after, occursSince_other ne, hs, Bool.or_true])
  | drift hi hd => exact hs.imp_left (hA.moved hi hd)

/-- Own calls that are not marked keep it too. -/
theorem Survives.own (hA : Survives S R O ev A) {s : Shared Req Resp σ} {q : Req} {c : Choice}
    (hi : O.inv s) (ha : R.allows s p q c = true) (hp : O.pre s p q)
    (hm : mark ⟨p, q, S.reply c q s⟩ = false) (hs : Unless p mark ev A s) :
    Unless p mark ev A (S.after c p q s) := by
  rcases hs with hs | hs
  · rcases hA.after hi ha hp hs with h | h
    · exact .inl h
    · exact .inr (by rw [System.after, occursSince_unmarked hm, h, Bool.true_or])
  · exact .inr (by rw [System.after, occursSince_unmarked hm, hs, Bool.or_true])

end

theorem Meets.later {x : Prog Req Resp ε α} {Q : Except ε α → Shared Req Resp σ → Prop}
    {s s' : Shared Req Resp σ} (h : Meets S R O p x Q s) (hl : Later S R O p s s') :
    Meets S R O p x Q s' := by
  cases x with
  | ret a => exact fun t ht => h t (hl.trans ht)
  | throw e => exact fun t ht => h t (hl.trans ht)
  | call q k => exact fun t ht => h t (hl.trans ht)

theorem Meets.ret {a : α} {Q : Except ε α → Shared Req Resp σ → Prop} {F : Shared Req Resp σ → Prop}
    {s : Shared Req Resp σ} (hF : Stable S R O p F) (hs : F s)
    (h : ∀ s', F s' → O.inv s' → Q (.ok a) s') : Meets S R O p (.ret a) Q s :=
  fun s' hl hi => h s' (hF.later hl hs) hi

theorem Meets.throw {e : ε} {Q : Except ε α → Shared Req Resp σ → Prop}
    {F : Shared Req Resp σ → Prop} {s : Shared Req Resp σ} (hF : Stable S R O p F) (hs : F s)
    (h : ∀ s', F s' → O.inv s' → Q (.error e) s') : Meets S R O p (.throw e) Q s :=
  fun s' hl hi => h s' (hF.later hl hs) hi

/-- The rule for one call: assert what holds while the process waits for its turn. -/
theorem Meets.call {q : Req} {k : Resp q → Prog Req Resp ε α}
    {Q : Except ε α → Shared Req Resp σ → Prop} {F : Shared Req Resp σ → Prop}
    {s : Shared Req Resp σ} (hF : Stable S R O p F) (hs : F s)
    (h : ∀ s', F s' → O.inv s' → ∀ c, R.allows s' p q c = true →
      O.pre s' p q ∧ Meets S R O p (k (S.reply c q s')) Q (S.after c p q s')) :
    Meets S R O p (.call q k) Q s :=
  fun s' hl hi => h s' (hF.later hl hs) hi

/-- The rule for a call whose failure is thrown, in front of the rest of the routine. -/
theorem Meets.await {Fault : Type} {Answer : Req → Type}
    {S : System Req (fun q => Except Fault (Answer q)) ε ρ σ Op Choice Env}
    {R : Rules Req (fun q => Except Fault (Answer q)) σ Op Choice Env}
    {O : Outline Req (fun q => Except Fault (Answer q)) σ} {raise : Fault → ε} {q : Req}
    {f : Answer q → Prog Req (fun q => Except Fault (Answer q)) ε α}
    {Q : Except ε α → Shared Req (fun q => Except Fault (Answer q)) σ → Prop}
    {F : Shared Req (fun q => Except Fault (Answer q)) σ → Prop}
    {s : Shared Req (fun q => Except Fault (Answer q)) σ} (hF : Stable S R O p F) (hs : F s)
    (h : ∀ s', F s' → O.inv s' → ∀ c, R.allows s' p q c = true → O.pre s' p q ∧
      (∀ a, S.reply c q s' = .ok a → Meets S R O p (f a) Q (S.after c p q s')) ∧
      ∀ e, S.reply c q s' = .error e → Meets S R O p (.throw (raise e)) Q (S.after c p q s')) :
    Meets S R O p ((Prog.await raise q).bind f) Q s := by
  refine .call hF hs fun s' hs' hi c ha => ?_
  obtain ⟨hp, hok, herr⟩ := h s' hs' hi c ha
  refine ⟨hp, ?_⟩
  cases hr : S.reply c q s' with
  | ok a => exact hok a hr
  | error e => exact herr e hr

theorem Meets.mono {x : Prog Req Resp ε α} {Q Q' : Except ε α → Shared Req Resp σ → Prop}
    {s : Shared Req Resp σ} (h : Meets S R O p x Q s) (hQ : ∀ r t, O.inv t → Q r t → Q' r t) :
    Meets S R O p x Q' s := by
  induction x generalizing s with
  | ret a => exact fun t ht hi => hQ _ _ hi (h t ht hi)
  | throw e => exact fun t ht hi => hQ _ _ hi (h t ht hi)
  | call q k ih => exact fun t ht hi c ha => ⟨(h t ht hi c ha).1, ih _ (h t ht hi c ha).2⟩

/-- Sequencing: what a routine ends in is what its continuation starts from. -/
theorem Meets.bind {x : Prog Req Resp ε α} {f : α → Prog Req Resp ε β}
    {Q : Except ε β → Shared Req Resp σ → Prop} {s : Shared Req Resp σ} (hi : O.inv s)
    (keeps : O.Kept S R)
    (h : Meets S R O p x (fun r t => match r with
      | .ok a => Meets S R O p (f a) Q t
      | .error e => Meets S R O p (.throw e) Q t) s) :
    Meets S R O p (x.bind f) Q s := by
  induction x generalizing s with
  | ret a => exact h s .refl hi
  | throw e => exact h s .refl hi
  | call q k ih =>
    intro t ht hit c ha
    obtain ⟨hp, hk⟩ := h t ht hit c ha
    exact ⟨hp, ih _ (keeps.after hit ha hp) hk⟩

/-- The catch block starts from what the body throws in. -/
theorem Meets.handle {x : Prog Req Resp ε α} {f : ε → Prog Req Resp ε α}
    {Q : Except ε α → Shared Req Resp σ → Prop} {s : Shared Req Resp σ} (hi : O.inv s)
    (keeps : O.Kept S R)
    (h : Meets S R O p x (fun r t => match r with
      | .ok a => Meets S R O p (.ret a) Q t
      | .error e => Meets S R O p (f e) Q t) s) :
    Meets S R O p (x.handle f) Q s := by
  induction x generalizing s with
  | ret a => exact h s .refl hi
  | throw e => exact h s .refl hi
  | call q k ih =>
    intro t ht hit c ha
    obtain ⟨hp, hk⟩ := h t ht hit c ha
    exact ⟨hp, ih _ (keeps.after hit ha hp) hk⟩

end

namespace Prog

/-- Each call the routine can make is of kind `P`. -/
def Calls (P : Req → Prop) : Prog Req Resp ε α → Prop
  | .ret _ => True
  | .throw _ => True
  | .call q k => P q ∧ ∀ r, (k r).Calls P

variable {P : Req → Prop}

@[simp] theorem calls_ret (a : α) : (ret a : Prog Req Resp ε α).Calls P := trivial
@[simp] theorem calls_throw (e : ε) : (throw e : Prog Req Resp ε α).Calls P := trivial

theorem Calls.bind {x : Prog Req Resp ε α} {f : α → Prog Req Resp ε β} (hx : x.Calls P)
    (hf : ∀ a, (f a).Calls P) : (x.bind f).Calls P := by
  induction x with
  | ret a => exact hf a
  | throw e => trivial
  | call q k ih => exact ⟨hx.1, fun r => ih r (hx.2 r)⟩

theorem Calls.handle {x : Prog Req Resp ε α} {f : ε → Prog Req Resp ε α} (hx : x.Calls P)
    (hf : ∀ e, (f e).Calls P) : (x.handle f).Calls P := by
  induction x with
  | ret a => trivial
  | throw e => exact hf e
  | call q k ih => exact ⟨hx.1, fun r => ih r (hx.2 r)⟩

theorem Calls.forEachMem {xs : List β} {f : β → Prog Req Resp ε Unit}
    (hf : ∀ x ∈ xs, (f x).Calls P) :
    (forEach xs f).Calls P := by
  induction xs with
  | nil => trivial
  | cons x xs ih =>
    exact (hf x List.mem_cons_self).bind fun _ => ih fun y hy => hf y (List.mem_cons_of_mem x hy)

theorem Calls.forEach {xs : List β} {f : β → Prog Req Resp ε Unit} (hf : ∀ x, (f x).Calls P) :
    (forEach xs f).Calls P :=
  forEachMem fun x _ => hf x

theorem Calls.throwIf {c : Prop} [Decidable c] {e : ε} :
    (throwIf c e : Prog Req Resp ε Unit).Calls P := by
  unfold Prog.throwIf
  split <;> trivial

theorem Calls.ite {c : Prop} [Decidable c] {x y : Prog Req Resp ε α} (hx : x.Calls P)
    (hy : y.Calls P) :
    (if c then x else y).Calls P := by
  split
  · exact hx
  · exact hy

theorem Calls.await {Fault : Type} {Answer : Req → Type} {raise : Fault → ε} {q : Req} (hq : P q) :
    (Prog.await raise q : Prog Req (fun q => Except Fault (Answer q)) ε (Answer q)).Calls P := by
  refine ⟨hq, fun r => ?_⟩
  cases r <;> trivial

theorem calls_true (x : Prog Req Resp ε α) : x.Calls fun _ => True := by
  induction x with
  | ret a => trivial
  | throw e => trivial
  | call q k ih => exact ⟨trivial, ih⟩

theorem Calls.mono {x : Prog Req Resp ε α} {P' : Req → Prop} (hx : x.Calls P)
    (h : ∀ q, P q → P' q) : x.Calls P' := by
  induction x with
  | ret a => trivial
  | throw e => trivial
  | call q k ih => exact ⟨h _ hx.1, fun r => ih r (hx.2 r)⟩

end Prog

section
variable {S : System Req Resp ε ρ σ Op Choice Env} {R : Rules Req Resp σ Op Choice Env}
  {O : Outline Req Resp σ} {p : Nat}

/-- An assertion that other processes and all own calls keep is still there at the end. -/
theorem Meets.frame {x : Prog Req Resp ε α} {P : Req → Prop} {F : Shared Req Resp σ → Prop}
    {s : Shared Req Resp σ} (hx : x.Calls P) (hF : Stable S R O p F)
    (own : ∀ s q c, P q → O.inv s → R.allows s p q c = true → F s →
      O.pre s p q ∧ F (S.after c p q s)) (hs : F s) :
    Meets S R O p x (fun _ t => F t) s := by
  induction x generalizing s with
  | ret a => exact fun t ht _ => hF.later ht hs
  | throw e => exact fun t ht _ => hF.later ht hs
  | call q k ih =>
    intro t ht hi c ha
    obtain ⟨hp, hF'⟩ := own t q c hx.1 hi ha (hF.later ht hs)
    exact ⟨hp, ih _ (hx.2 _) hF'⟩

/-- A loop keeps an assertion that each of its rounds keeps. -/
theorem Meets.forEach {xs : List β} {f : β → Prog Req Resp ε Unit}
    {F : Shared Req Resp σ → Prop} {s : Shared Req Resp σ} (keeps : O.Kept S R)
    (hF : Stable S R O p F)
    (round : ∀ x ∈ xs, ∀ s, F s → O.inv s → Meets S R O p (f x) (fun _ t => F t) s)
    (hi : O.inv s) (hs : F s) : Meets S R O p (Prog.forEach xs f) (fun _ t => F t) s := by
  induction xs generalizing s with
  | nil => exact .ret hF hs fun _ h _ => h
  | cons x xs ih =>
    refine .bind hi keeps ((round x (by simp) s hs hi).mono fun r t hit ht => ?_)
    cases r with
    | ok _ => exact ih (fun y hy => round y (by simp [hy])) hit ht
    | error e => exact .throw hF ht fun _ h _ => h

end

section
variable {S : System Req Resp ε ρ σ Op Choice Env} {R : Rules Req Resp σ Op Choice Env}
  {O : Outline Req Resp σ}

/-- What the outlines of all processes say about a pool. -/
structure Pool.Respects (S : System Req Resp ε ρ σ Op Choice Env)
    (R : Rules Req Resp σ Op Choice Env) (O : Outline Req Resp σ)
    (Post : Nat → Op → Except ε ρ → Shared Req Resp σ → Prop)
    (s : Pool Req Resp ε ρ σ Op) : Prop where
  inv : O.inv s.shared
  known : ∀ e ∈ s.shared.log, e.pid < s.procs.length
  meets : ∀ p op x, s.procs[p]? = some (op, x) → Meets S R O p x (Post p op) s.shared

variable {Post : Nat → Op → Except ε ρ → Shared Req Resp σ → Prop}

theorem Pool.Respects.step (keeps : O.Kept S R)
    (starts : ∀ s p op, O.inv s → R.starts s op = true → (∀ e ∈ s.log, e.pid ≠ p) →
      Meets S R O p (S.program op) (Post p op) s)
    {s s' : Pool Req Resp ε ρ σ Op} {a : Action Op Choice Env} (hs : s.Respects S R O Post)
    (h : S.step R s a = some s') : s'.Respects S R O Post := by
  obtain ⟨op, _, hst, rfl⟩ | ⟨p, c, op, q, k, _, hp, ha, rfl⟩ | ⟨e, _, hd, rfl⟩ :=
    System.step_cases h
  · refine ⟨hs.inv, fun e he => ?_, fun p op' x hx => ?_⟩
    · have := hs.known e he
      simp only [List.length_append, List.length_singleton]
      omega
    · rcases Nat.lt_or_ge p s.procs.length with hlt | hge
      · rw [List.getElem?_append_left hlt] at hx
        exact hs.meets p op' x hx
      · rw [List.getElem?_append_right hge, List.getElem?_singleton] at hx
        split at hx
        · cases hx
          exact starts _ _ _ hs.inv hst fun e he => by have := hs.known e he; omega
        · cases hx
  · have hmeet := hs.meets p op _ hp s.shared .refl hs.inv c ha
    have hlt : p < s.procs.length := (List.getElem?_eq_some_iff.mp hp).1
    refine ⟨keeps.after hs.inv ha hmeet.1, fun e he => ?_, fun p' op' x hx => ?_⟩
    · simp only [System.after, List.mem_cons] at he
      rw [List.length_set]
      rcases he with rfl | he
      · exact hlt
      · exact hs.known e he
    · by_cases hpp : p = p'
      · subst hpp
        rw [List.getElem?_set_self hlt] at hx
        cases hx
        exact hmeet.2
      · rw [List.getElem?_set_ne hpp] at hx
        exact (hs.meets p' op' x hx).later (.single (.other hpp hs.inv ha hmeet.1))
  · refine ⟨keeps.moved hs.inv hd, hs.known, fun p op x hx => ?_⟩
    exact (hs.meets p op x hx).later (.single (.drift hs.inv hd))

theorem Pool.Respects.initial {store : σ} (hi : O.inv (.initial store)) :
    (Pool.initial store : Pool Req Resp ε ρ σ Op).Respects S R O Post :=
  ⟨hi, by simp [Pool.initial, Shared.initial], by simp [Pool.initial]⟩

/-- Processes proved one by one respect their outlines in every run of the pool. -/
theorem Pool.Respects.run (keeps : O.Kept S R)
    (starts : ∀ s p op, O.inv s → R.starts s op = true → (∀ e ∈ s.log, e.pid ≠ p) →
      Meets S R O p (S.program op) (Post p op) s)
    {s s' : Pool Req Resp ε ρ σ Op} {as : List (Action Op Choice Env)}
    (hs : s.Respects S R O Post) (h : S.run R s as = some s') : s'.Respects S R O Post :=
  System.run_invariant (fun hm hstep => hm.step keeps starts hstep) hs h

/-- A process that has returned ended in its postcondition. -/
theorem Pool.Respects.returned {s : Pool Req Resp ε ρ σ Op} (hs : s.Respects S R O Post)
    {p : Nat} {op : Op} {a : ρ} (hp : s.procs[p]? = some (op, .ret a)) :
    Post p op (.ok a) s.shared :=
  hs.meets p op _ hp s.shared .refl hs.inv

/-- A call is made only where its process knows the precondition. -/
theorem Pool.Respects.call {s : Pool Req Resp ε ρ σ Op} (hs : s.Respects S R O Post)
    {p : Nat} {op : Op} {q : Req} {k : Resp q → Prog Req Resp ε ρ} {c : Choice}
    (hp : s.procs[p]? = some (op, .call q k)) (ha : R.allows s.shared p q c = true) :
    O.pre s.shared p q :=
  (hs.meets p op _ hp s.shared .refl hs.inv c ha).1

end
end Interleaving
