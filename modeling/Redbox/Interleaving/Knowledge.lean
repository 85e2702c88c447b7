import Redbox.Interleaving.Safety

/-! What a process learns from a reply and keeps while it runs. -/
namespace Interleaving

variable {Req : Type} {Fault : Type} {Answer : Req → Type} {ε ρ σ Op Choice Env α : Type}
  {S : System Req (fun q => Except Fault (Answer q)) ε ρ σ Op Choice Env}
  {R : Rules Req (fun q => Except Fault (Answer q)) σ Op Choice Env}
  {O : Outline Req (fun q => Except Fault (Answer q)) σ} {p : Nat} {P : Req → Prop}
  {F : Shared Req (fun q => Except Fault (Answer q)) σ → Prop}
  {s : Shared Req (fun q => Except Fault (Answer q)) σ} {raise : Fault → ε} {q : Req}

/-- What no call breaks, nor any move of the environment. -/
theorem Held.always
    (after : ∀ t p' q c, O.inv t → R.allows t p' q c = true → O.pre t p' q → F t →
      F (S.after c p' q t))
    (moved : ∀ t e, O.inv t → R.drifts t e = true → F t → F (S.moved e t)) :
    Held S R O p P F := by
  refine ⟨fun t t' h ht => ?_, fun _ hi ha hp ht => after _ _ _ _ hi ha hp ht⟩
  cases h with
  | other _ hi ha hp => exact after _ _ _ _ hi ha hp ht
  | drift hi hd => exact moved _ _ hi hd ht

/-- A call in front of the rest, which has its reply and what was known before. -/
theorem Meets.heldAwait {f : Answer q → Prog Req (fun q => Except Fault (Answer q)) ε α}
    {Q : Except ε α → Shared Req (fun q => Except Fault (Answer q)) σ → Prop}
    (keeps : O.Kept S R) (hF : Held S R O p P F) (hq : P q)
    (pre : ∀ t c, O.inv t → R.allows t p q c = true → F t → O.pre t p q) (hs : F s)
    (hQ : ∀ e t, Q (.error e) t)
    (h : ∀ a t c, O.inv t → O.inv (S.after c p q t) → F (S.after c p q t) →
      S.reply c q t = .ok a → Meets S R O p (f a) Q (S.after c p q t)) :
    Meets S R O p ((Prog.await raise q).bind f) Q s := by
  apply Meets.await hF.stable hs
  intro t ht hi c ha
  have hpre := pre t c hi ha ht
  exact ⟨hpre, fun a hr => h a t c hi (keeps.after hi ha hpre) (hF.own hq hi ha hpre ht) hr,
    fun _ _ _ _ _ => hQ _ _⟩

/-- The same for a routine of which nothing more is asked. -/
theorem Follows.heldAwait {f : Answer q → Prog Req (fun q => Except Fault (Answer q)) ε α}
    (keeps : O.Kept S R) (hF : Held S R O p P F) (hq : P q)
    (pre : ∀ t c, O.inv t → R.allows t p q c = true → F t → O.pre t p q) (hs : F s)
    (h : ∀ a t c, O.inv t → O.inv (S.after c p q t) → F (S.after c p q t) →
      S.reply c q t = .ok a → Follows S R O p (f a) (S.after c p q t)) :
    Follows S R O p ((Prog.await raise q).bind f) s :=
  Meets.heldAwait keeps hF hq pre hs (fun _ _ => trivial) h

/-- A call that needs nothing to be known. -/
theorem Meets.awaitFree {f : Answer q → Prog Req (fun q => Except Fault (Answer q)) ε α}
    {Q : Except ε α → Shared Req (fun q => Except Fault (Answer q)) σ → Prop}
    (keeps : O.Kept S R) (pre : ∀ t, O.pre t p q) (hQ : ∀ e t, Q (.error e) t)
    (h : ∀ a t c, O.inv t → O.inv (S.after c p q t) → S.reply c q t = .ok a →
      Meets S R O p (f a) Q (S.after c p q t)) :
    Meets S R O p ((Prog.await raise q).bind f) Q s :=
  .heldAwait keeps (Held.const (P := fun _ => True) True) trivial (fun t _ _ _ _ => pre t) trivial
    hQ fun a t c hi hi' _ hr => h a t c hi hi' hr

theorem Follows.awaitFree {f : Answer q → Prog Req (fun q => Except Fault (Answer q)) ε α}
    (keeps : O.Kept S R) (pre : ∀ t, O.pre t p q)
    (h : ∀ a t c, O.inv t → O.inv (S.after c p q t) → S.reply c q t = .ok a →
      Follows S R O p (f a) (S.after c p q t)) :
    Follows S R O p ((Prog.await raise q).bind f) s :=
  Meets.awaitFree keeps pre (fun _ _ => trivial) h

/-- The last call of a routine. -/
theorem Follows.heldLast (hF : Held S R O p P F)
    (pre : ∀ t c, O.inv t → R.allows t p q c = true → F t → O.pre t p q) (hs : F s) :
    Follows S R O p (Prog.await raise q : Prog Req (fun q => Except Fault (Answer q)) ε _) s := by
  rw [← Prog.bind_ret (Prog.await raise q)]
  exact Follows.await hF.stable hs fun t ht hi c ha => ⟨pre t c hi ha ht, fun _ _ => .ret⟩

/-- What each call that respects the outline keeps, a run keeps from wherever it starts. -/
theorem Pool.Respects.run_keeps {A : Shared Req (fun q => Except Fault (Answer q)) σ → Prop}
    {Post : Nat → Op → Except ε ρ → Shared Req (fun q => Except Fault (Answer q)) σ → Prop}
    (keeps : O.Kept S R)
    (starts : ∀ t p op, O.inv t → R.starts t op = true → (∀ e ∈ t.log, e.pid ≠ p) →
      Meets S R O p (S.program op) (Post p op) t)
    (after : ∀ t p q c, O.inv t → R.allows t p q c = true → O.pre t p q → A t → A (S.after c p q t))
    (moved : ∀ t e, O.inv t → R.drifts t e = true → A t → A (S.moved e t))
    {s s' : Pool Req (fun q => Except Fault (Answer q)) ε ρ σ Op}
    {as : List (Action Op Choice Env)} (hs : s.Respects S R O Post) (hA : A s.shared)
    (h : S.run R s as = some s') : s'.Respects S R O Post ∧ A s'.shared :=
  System.run_invariant (I := fun s => s.Respects S R O Post ∧ A s.shared)
    (fun ht hstep => ⟨ht.1.step keeps starts hstep, ht.1.keeps after moved hstep ht.2⟩) ⟨hs, hA⟩ h

end Interleaving
