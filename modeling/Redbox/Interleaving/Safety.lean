import Redbox.Interleaving.Outline

/-! Routines that only have to respect the outline at their calls, whatever they end in. -/
namespace Interleaving

variable {Req : Type} {Fault : Type} {Answer : Req → Type} {ε ρ σ Op Choice Env α β : Type}
  {S : System Req (fun q => Except Fault (Answer q)) ε ρ σ Op Choice Env}
  {R : Rules Req (fun q => Except Fault (Answer q)) σ Op Choice Env}
  {O : Outline Req (fun q => Except Fault (Answer q)) σ} {p : Nat}

section
variable (S R O)

/-- From `s` on, process `p` running `x` respects the outline. -/
def Follows (p : Nat) (x : Prog Req (fun q => Except Fault (Answer q)) ε α)
    (s : Shared Req (fun q => Except Fault (Answer q)) σ) : Prop :=
  Meets S R O p x (fun _ _ => True) s

/-- Any process running `x` respects the outline, from any state that the invariant allows. -/
def Safe (x : Prog Req (fun q => Except Fault (Answer q)) ε α) : Prop :=
  ∀ p s, O.inv s → Follows S R O p x s

end

variable {x : Prog Req (fun q => Except Fault (Answer q)) ε α}
  {f : α → Prog Req (fun q => Except Fault (Answer q)) ε β}
  {s : Shared Req (fun q => Except Fault (Answer q)) σ}

theorem Follows.ret {a : α} : Follows S R O p (.ret a) s := fun _ _ _ => trivial
theorem Follows.throw {e : ε} : Follows S R O p (.throw e : Prog _ _ ε α) s := fun _ _ _ => trivial

/-- One call in front of the rest of a routine. -/
theorem Follows.await {raise : Fault → ε} {q : Req}
    {f : Answer q → Prog Req (fun q => Except Fault (Answer q)) ε α}
    {F : Shared Req (fun q => Except Fault (Answer q)) σ → Prop} (hF : Stable S R O p F) (hs : F s)
    (h : ∀ t, F t → O.inv t → ∀ c, R.allows t p q c = true → O.pre t p q ∧
      ∀ a, S.reply c q t = .ok a → Follows S R O p (f a) (S.after c p q t)) :
    Follows S R O p ((Prog.await raise q).bind f) s :=
  Meets.await hF hs fun t ht hi c ha => ⟨(h t ht hi c ha).1, (h t ht hi c ha).2,
    fun _ _ => Follows.throw⟩

theorem Meets.throwIf {c : Prop} [Decidable c] {e : ε}
    {f : Unit → Prog Req (fun q => Except Fault (Answer q)) ε α}
    {Q : Except ε α → Shared Req (fun q => Except Fault (Answer q)) σ → Prop}
    (ht : c → Meets S R O p (.throw e) Q s) (h : ¬ c → Meets S R O p (f ()) Q s) :
    Meets S R O p ((Prog.throwIf c e).bind f) Q s := by
  unfold Prog.throwIf
  split
  · exact ht ‹_›
  · exact h ‹_›

theorem Follows.throwIf {c : Prop} [Decidable c] {e : ε}
    {f : Unit → Prog Req (fun q => Except Fault (Answer q)) ε α}
    (h : ¬ c → Follows S R O p (f ()) s) :
    Follows S R O p ((Prog.throwIf c e).bind f) s :=
  Meets.throwIf (fun _ => Follows.throw) h

theorem Follows.ite {c : Prop} [Decidable c] {x y : Prog Req (fun q => Except Fault (Answer q)) ε α}
    (hx : c → Follows S R O p x s) (hy : ¬ c → Follows S R O p y s) :
    Follows S R O p (if c then x else y) s := by
  split
  · exact hx ‹_›
  · exact hy ‹_›

/-- What a first routine ends in is enough for the rest. -/
theorem Follows.bind {F : Shared Req (fun q => Except Fault (Answer q)) σ → Prop}
    (keeps : O.Kept S R) (hi : O.inv s) (hx : Meets S R O p x (fun _ t => F t) s)
    (hf : ∀ a t, O.inv t → F t → Follows S R O p (f a) t) : Follows S R O p (x.bind f) s := by
  refine Meets.bind hi keeps (hx.mono fun r t hit ht => ?_)
  cases r with
  | ok a => exact hf a t hit ht
  | error e => exact Follows.throw

/-- It is enough to meet the outline from wherever the others leave off. -/
theorem Meets.of_later {Q : Except ε α → Shared Req (fun q => Except Fault (Answer q)) σ → Prop}
    (h : ∀ t, Later S R O p s t → O.inv t → Meets S R O p x Q t) : Meets S R O p x Q s := by
  cases x with
  | ret a => exact fun t ht hi => h t ht hi t .refl hi
  | throw e => exact fun t ht hi => h t ht hi t .refl hi
  | call q k => exact fun t ht hi => h t ht hi t .refl hi

/-- Two things that a routine is proved to end in. -/
theorem Meets.and {Q Q' : Except ε α → Shared Req (fun q => Except Fault (Answer q)) σ → Prop}
    (h : Meets S R O p x Q s) (h' : Meets S R O p x Q' s) :
    Meets S R O p x (fun r t => Q r t ∧ Q' r t) s := by
  induction x generalizing s with
  | ret a => exact fun t ht hi => ⟨h t ht hi, h' t ht hi⟩
  | throw e => exact fun t ht hi => ⟨h t ht hi, h' t ht hi⟩
  | call q k ih =>
    exact fun t ht hi c ha => ⟨(h t ht hi c ha).1, ih _ (h t ht hi c ha).2 (h' t ht hi c ha).2⟩

/-- What a first routine ends in, the rest starts from. -/
theorem Meets.next {Q : Except ε α → Shared Req (fun q => Except Fault (Answer q)) σ → Prop}
    {Q' : Except ε β → Shared Req (fun q => Except Fault (Answer q)) σ → Prop}
    (hx : Meets S R O p x Q s) (he : ∀ e t, O.inv t → Q (.error e) t → Q' (.error e) t)
    (hf : ∀ a t, O.inv t → Q (.ok a) t → Meets S R O p (f a) Q' t) :
    Meets S R O p (x.bind f) Q' s := by
  induction x generalizing s with
  | ret a => exact .of_later fun t ht hi => hf a t hi (hx t ht hi)
  | throw e => exact fun t ht hi => he e t hi (hx t ht hi)
  | call q k ih => exact fun t ht hi c ha => ⟨(hx t ht hi c ha).1, ih _ (hx t ht hi c ha).2⟩

/-- What a first routine returns with is enough for the rest. -/
theorem Meets.returned {F : α → Shared Req (fun q => Except Fault (Answer q)) σ → Prop}
    {Q : Except ε β → Shared Req (fun q => Except Fault (Answer q)) σ → Prop}
    (hx : Meets S R O p x (fun r t => ∀ a, r = .ok a → F a t) s) (hQ : ∀ e t, Q (.error e) t)
    (hf : ∀ a t, O.inv t → F a t → Meets S R O p (f a) Q t) : Meets S R O p (x.bind f) Q s :=
  hx.next (fun e t _ _ => hQ e t) fun a t hi h => hf a t hi (h a rfl)

/-- What a routine throws with is enough for its catch block. -/
theorem Meets.caught {Q : Except ε α → Shared Req (fun q => Except Fault (Answer q)) σ → Prop}
    {h : ε → Prog Req (fun q => Except Fault (Answer q)) ε α}
    (hx : Meets S R O p x (fun r t => match r with
      | .ok a => Q (.ok a) t
      | .error e => Meets S R O p (h e) Q t) s) : Meets S R O p (x.handle h) Q s := by
  induction x generalizing s with
  | ret a => exact hx
  | throw e => exact .of_later fun t ht hi => hx t ht hi
  | call q k ih => exact fun t ht hi c ha => ⟨(hx t ht hi c ha).1, ih _ (hx t ht hi c ha).2⟩

/-- A first routine without calls takes no time. -/
theorem Meets.local {Q : Except ε β → Shared Req (fun q => Except Fault (Answer q)) σ → Prop}
    (hx : x.Calls fun _ => False) (he : ∀ e, Meets S R O p (.throw e) Q s)
    (hf : ∀ a, Meets S R O p (f a) Q s) :
    Meets S R O p (x.bind f) Q s := by
  cases x with
  | ret a => exact hf a
  | throw e => exact he e
  | call q k => exact absurd hx.1 id

theorem Safe.bind (keeps : O.Kept S R) (hx : Safe S R O x) (hf : ∀ a, Safe S R O (f a)) :
    Safe S R O (x.bind f) :=
  fun p s hi => Follows.bind keeps hi (hx p s hi) fun a t hit _ => hf a p t hit

theorem Safe.ret {a : α} : Safe S R O (.ret a) := fun _ _ _ => Follows.ret
theorem Safe.throw {e : ε} : Safe S R O (.throw e : Prog _ _ ε α) := fun _ _ _ => Follows.throw

theorem Safe.ite {c : Prop} [Decidable c] {x y : Prog Req (fun q => Except Fault (Answer q)) ε α}
    (hx : Safe S R O x) (hy : Safe S R O y) : Safe S R O (if c then x else y) := by
  split
  · exact hx
  · exact hy

theorem Safe.throwIf {c : Prop} [Decidable c] {e : ε}
    {f : Unit → Prog Req (fun q => Except Fault (Answer q)) ε α} (h : Safe S R O (f ())) :
    Safe S R O ((Prog.throwIf c e).bind f) :=
  fun p s hi => Follows.throwIf fun _ => h p s hi

theorem Safe.forEach {xs : List β} {f : β → Prog Req (fun q => Except Fault (Answer q)) ε Unit}
    (keeps : O.Kept S R) (hf : ∀ x ∈ xs, Safe S R O (f x)) : Safe S R O (Prog.forEach xs f) :=
  fun p _ hi => Meets.forEach keeps (Stable.const True) (fun x hx t _ hit =>
    hf x hx p t hit) hi trivial

/-- A routine is safe if each call that it can make is. -/
theorem Safe.calls {P : Req → Prop} (hx : x.Calls P)
    (h : ∀ s p q c, P q → O.inv s → R.allows s p q c = true → O.pre s p q) : Safe S R O x :=
  fun _ _ _ => Meets.frame hx (Stable.const True) (fun s q c hq hi ha _ =>
    ⟨h s _ q c hq hi ha, trivial⟩)
    trivial

/-- Safe routines for all requests make every run respect the outline. -/
theorem Safe.run (keeps : O.Kept S R) (safe : ∀ op, Safe S R O (S.program op)) {store : σ}
    (hi : O.inv (.initial store)) {as : List (Action Op Choice Env)}
    {t : Pool Req (fun q => Except Fault (Answer q)) ε ρ σ Op}
    (h : S.run R (.initial store) as = some t) : t.Respects S R O fun _ _ _ _ => True :=
  Pool.Respects.run keeps (fun s p op hs _ _ => safe op p s hs) (.initial hi) h

/-- What each call that respects the outline keeps, each step of the pool keeps. -/
theorem Pool.Respects.keeps {A : Shared Req (fun q => Except Fault (Answer q)) σ → Prop}
    {Post : Nat → Op → Except ε ρ → Shared Req (fun q => Except Fault (Answer q)) σ → Prop}
    (after : ∀ s p q c, O.inv s → R.allows s p q c = true → O.pre s p q → A s → A (S.after c p q s))
    (moved : ∀ s e, O.inv s → R.drifts s e = true → A s → A (S.moved e s))
    {s s' : Pool Req (fun q => Except Fault (Answer q)) ε ρ σ Op} {a : Action Op Choice Env}
    (hs : s.Respects S R O Post) (h : S.step R s a = some s') (hA : A s.shared) : A s'.shared := by
  obtain ⟨op, _, _, rfl⟩ | ⟨p, c, op, q, k, _, hp, ha, rfl⟩ | ⟨e, _, hd, rfl⟩ := System.step_cases h
  · exact hA
  · exact after _ p q c hs.inv ha (hs.call hp ha) hA
  · exact moved _ e hs.inv hd hA

/-- A whole run keeps what each call that respects the outline keeps. -/
theorem Safe.run_keeps {A : Shared Req (fun q => Except Fault (Answer q)) σ → Prop}
    (keeps : O.Kept S R) (safe : ∀ op, Safe S R O (S.program op))
    (after : ∀ s p q c, O.inv s → R.allows s p q c = true → O.pre s p q → A s → A (S.after c p q s))
    (moved : ∀ s e, O.inv s → R.drifts s e = true → A s → A (S.moved e s))
    {s t : Pool Req (fun q => Except Fault (Answer q)) ε ρ σ Op}
    (hs : s.Respects S R O fun _ _ _ _ => True) (hA : A s.shared) {as : List (Action Op Choice Env)}
    (h : S.run R s as = some t) : A t.shared := by
  have step : ∀ {s a s'}, (s.Respects S R O fun _ _ _ _ => True) ∧ A s.shared →
    S.step R s a = some s' →
      (s'.Respects S R O fun _ _ _ _ => True) ∧ A s'.shared :=
    fun ⟨hs, hA⟩ hstep => ⟨hs.step keeps (fun s p op hi _ _ => safe op p s hi) hstep,
      hs.keeps after moved hstep hA⟩
  exact (System.run_invariant step ⟨hs, hA⟩ h).2

/-- An assertion of process `p` that no other process and none of its own calls of kind `P` can
break. -/
structure Held (S : System Req (fun q => Except Fault (Answer q)) ε ρ σ Op Choice Env)
    (R : Rules Req (fun q => Except Fault (Answer q)) σ Op Choice Env)
    (O : Outline Req (fun q => Except Fault (Answer q)) σ) (p : Nat) (P : Req → Prop)
    (F : Shared Req (fun q => Except Fault (Answer q)) σ → Prop) : Prop where
  stable : Stable S R O p F
  own : ∀ {s q c}, P q → O.inv s → R.allows s p q c = true → O.pre s p q → F s → F (S.after c p q s)

section
variable {P : Req → Prop} {F G : Shared Req (fun q => Except Fault (Answer q)) σ → Prop}

theorem Held.const (A : Prop) : Held S R O p P fun _ => A := ⟨Stable.const A, fun _ _ _ _ hs => hs⟩

theorem Held.and (hF : Held S R O p P F) (hG : Held S R O p P G) :
    Held S R O p P fun s => F s ∧ G s :=
  ⟨hF.stable.and hG.stable, fun hq hi ha hp hs =>
    ⟨hF.own hq hi ha hp hs.1, hG.own hq hi ha hp hs.2⟩⟩

theorem Held.all {ι : Sort*} {F : ι → Shared Req (fun q => Except Fault (Answer q)) σ → Prop}
    (hF : ∀ i, Held S R O p P (F i)) : Held S R O p P fun s => ∀ i, F i s :=
  ⟨Stable.all fun i => (hF i).stable, fun hq hi ha hp hs i => (hF i).own hq hi ha hp (hs i)⟩

theorem Held.mono {P' : Req → Prop} (hF : Held S R O p P F) (h : ∀ q, P' q → P q) :
    Held S R O p P' F :=
  ⟨hF.stable, fun hq => hF.own (h _ hq)⟩

theorem Survives.held {mark ev : Event Req (fun q => Except Fault (Answer q)) → Bool}
    {A : Shared Req (fun q => Except Fault (Answer q)) σ → Prop} (hA : Survives S R O ev A)
    (hm : ∀ q r, P q → mark ⟨p, q, r⟩ = false) : Held S R O p P (Unless p mark ev A) :=
  ⟨hA.stable, fun hq hi ha hp hs => hA.own hi ha hp (hm _ _ hq) hs⟩

/-- A call that keeps what the process knows, in front of the rest of the routine. -/
theorem Meets.held {raise : Fault → ε} {q : Req}
    {f : Answer q → Prog Req (fun q => Except Fault (Answer q)) ε α}
    {Q : Except ε α → Shared Req (fun q => Except Fault (Answer q)) σ → Prop}
    (hF : Held S R O p P F) (hq : P q)
    (pre : ∀ t c, O.inv t → F t → R.allows t p q c = true → O.pre t p q) (keeps : O.Kept S R)
    (hs : F s) (hQ : ∀ e t, F t → Q (.error e) t)
    (h : ∀ a t, O.inv t → F t → Meets S R O p (f a) Q t) :
    Meets S R O p ((Prog.await raise q).bind f) Q s := by
  refine Meets.await hF.stable hs fun t ht hi c ha => ?_
  have hp := pre t c hi ht ha
  have ht' : F (S.after c p q t) := hF.own hq hi ha hp ht
  refine ⟨hp, fun a _ => h a _ (keeps.after hi ha hp) ht', fun e _ => ?_⟩
  exact Meets.throw hF.stable ht' fun t ht _ => hQ _ t ht

/-- A routine of such calls keeps what the process knows. -/
theorem Meets.heldCalls {P' : Req → Prop} (hF : Held S R O p P F) (hx : x.Calls P')
    (hP : ∀ q, P' q → P q)
    (pre : ∀ t q c, P' q → O.inv t → F t → R.allows t p q c = true → O.pre t p q) (hs : F s) :
    Meets S R O p x (fun _ t => F t) s :=
  Meets.frame hx hF.stable (fun t q c hq hi ha ht =>
    have hp := pre t q c hq hi ht ha
    ⟨hp, hF.own (hP q hq) hi ha hp ht⟩) hs

/-- What the process knows, and none of its calls breaks, it still knows at the end. -/
theorem Meets.carry {Q : Except ε α → Shared Req (fun q => Except Fault (Answer q)) σ → Prop}
    (hF : Held S R O p P F) (hx : x.Calls P) (h : Meets S R O p x Q s) (hs : F s) :
    Meets S R O p x (fun r t => Q r t ∧ F t) s := by
  induction x generalizing s with
  | ret a => exact fun t ht hi => ⟨h t ht hi, hF.stable.later ht hs⟩
  | throw e => exact fun t ht hi => ⟨h t ht hi, hF.stable.later ht hs⟩
  | call q k ih =>
    intro t ht hi c ha
    obtain ⟨hp, hnext⟩ := h t ht hi c ha
    exact ⟨hp, ih _ (hx.2 _) hnext (hF.own hx.1 hi ha hp (hF.stable.later ht hs))⟩

/-- Such a routine in front of the rest. -/
theorem Meets.heldBind {P' : Req → Prop}
    {Q : Except ε β → Shared Req (fun q => Except Fault (Answer q)) σ → Prop} (keeps : O.Kept S R)
    (hi : O.inv s) (hF : Held S R O p P F) (hx : x.Calls P') (hP : ∀ q, P' q → P q)
    (pre : ∀ t q c, P' q → O.inv t → F t → R.allows t p q c = true → O.pre t p q) (hs : F s)
    (hQ : ∀ e t, F t → Q (.error e) t) (h : ∀ a t, O.inv t → F t → Meets S R O p (f a) Q t) :
    Meets S R O p (x.bind f) Q s := by
  refine Meets.bind hi keeps ((Meets.heldCalls hF hx hP pre hs).mono fun r t hit ht => ?_)
  cases r with
  | ok a => exact h a t hit ht
  | error e => exact Meets.throw hF.stable ht fun t ht _ => hQ e t ht

end
end Interleaving
