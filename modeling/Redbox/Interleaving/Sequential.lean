import Redbox.Interleaving.Safety

/-! Runs in which one routine at a time is in progress. The rules for outlines serve
these as well: the outline of a process that is alone allows no calls to the others. -/
namespace Interleaving
variable {Req : Type} {Resp : Req → Type} {ε ρ σ Op Choice Env α : Type}

namespace Prog

/-- Each value that the routine can return satisfies `P`. -/
def Returns (P : α → Prop) : Prog Req Resp ε α → Prop
  | .ret a => P a
  | .throw _ => True
  | .call _ k => ∀ r, (k r).Returns P

variable {β : Type} {P : α → Prop}

theorem Returns.bind {x : Prog Req Resp ε β} {f : β → Prog Req Resp ε α}
    (hf : ∀ b, (f b).Returns P) :
    (x.bind f).Returns P := by
  induction x with
  | ret b => exact hf b
  | throw e => trivial
  | call q k ih => exact fun r => ih r

theorem Returns.ite {c : Prop} [Decidable c] {x y : Prog Req Resp ε α} (hx : x.Returns P)
    (hy : y.Returns P) :
    (if c then x else y).Returns P := by
  split
  · exact hx
  · exact hy

/-- The routine ends in no exception, whatever it is replied. -/
def NoThrow : Prog Req Resp ε α → Prop
  | .ret _ => True
  | .throw _ => False
  | .call _ k => ∀ r, (k r).NoThrow

theorem NoThrow.handle {x : Prog Req Resp ε α} {h : ε → Prog Req Resp ε α}
    (hh : ∀ e, (h e).NoThrow) :
    (x.handle h).NoThrow := by
  induction x with
  | ret a => trivial
  | throw e => exact hh e
  | call q k ih => exact fun r => ih r

theorem NoThrow.bind {x : Prog Req Resp ε β} {f : β → Prog Req Resp ε α} (hx : x.NoThrow)
    (hf : ∀ b, (f b).NoThrow) :
    (x.bind f).NoThrow := by
  induction x with
  | ret b => exact hf b
  | throw e => exact hx.elim
  | call q k ih => exact fun r => ih r (hx r)

theorem NoThrow.forEach {xs : List β} {f : β → Prog Req Resp ε Unit} (hf : ∀ x, (f x).NoThrow) :
    (forEach xs f).NoThrow := by
  induction xs with
  | nil => trivial
  | cons x xs ih => exact .bind (hf x) fun _ => ih

end Prog

/-- Only process `p` makes calls. -/
def Outline.alone (p : Nat) : Outline Req Resp σ := ⟨fun _ => True, fun _ p' _ => p' = p⟩

/-- The same for an invariant, where each call has to be made as the assertion says. -/
def Outline.solo (p : Nat) (I : Shared Req Resp σ → Prop) (A : Shared Req Resp σ → Req → Prop) :
    Outline Req Resp σ :=
  ⟨I, fun s p' q => p' = p ∧ A s q⟩

section
variable {S : System Req Resp ε ρ σ Op Choice Env} {R : Rules Req Resp σ Op Choice Env}

theorem Outline.alone_kept {p : Nat} : (Outline.alone p : Outline Req Resp σ).Kept S R :=
  ⟨fun _ _ _ => trivial, fun _ _ => trivial⟩

/-- Alone, a process need only mind the moves of the environment. -/
theorem Stable.alone {p : Nat} {F : Shared Req Resp σ → Prop}
    (h : ∀ s e, R.drifts s e = true → F s → F (S.moved e s)) : Stable S R (.alone p) p F := by
  intro s s' hi hs
  cases hi with
  | other ne _ _ hp => exact absurd hp ne
  | drift _ hd => exact h _ _ hd hs

end

section
variable {S : System Req Resp ε ρ σ Op Choice Env} {R : Rules Req Resp σ Op Choice Env} {p : Nat}
  {I : Shared Req Resp σ → Prop} {A : Shared Req Resp σ → Req → Prop}

theorem Outline.solo_kept (after : ∀ s p q c, I s → R.allows s p q c = true → A s q →
      I (S.after c p q s)) (moved : ∀ s e, I s → R.drifts s e = true → I (S.moved e s)) :
    (Outline.solo p I A).Kept S R :=
  ⟨fun hi ha hp => after _ _ _ _ hi ha hp.2, fun hi hd => moved _ _ hi hd⟩

theorem Stable.solo {F : Shared Req Resp σ → Prop}
    (h : ∀ s e, R.drifts s e = true → F s → F (S.moved e s)) : Stable S R (.solo p I A) p F := by
  intro s s' hi hs
  cases hi with
  | other ne _ _ hp => exact absurd hp.1 ne
  | drift _ hd => exact h _ _ hd hs

theorem Later.solo (keeps : (Outline.solo p I A).Kept S R) {s t : Shared Req Resp σ}
    (h : Later S R (.alone p) p s t) (hs : I s) : Later S R (.solo p I A) p s t ∧ I t := by
  induction h with
  | refl => exact ⟨.refl, hs⟩
  | tail _ hstep ih =>
    cases hstep with
    | other ne _ _ hp => exact absurd hp ne
    | drift _ hd => exact ⟨ih.1.tail (.drift ih.2 hd), keeps.moved ih.2 hd⟩

/-- A process that is alone keeps the invariant if it makes each call as it has to. -/
theorem Meets.alone_of_solo (keeps : (Outline.solo p I A).Kept S R) {x : Prog Req Resp ε α}
    {Q : Except ε α → Shared Req Resp σ → Prop} {s : Shared Req Resp σ}
    (h : Meets S R (.solo p I A) p x Q s) (hs : I s) :
    Meets S R (.alone p) p x (fun r t => I t ∧ Q r t) s := by
  induction x generalizing s with
  | ret a =>
    intro t ht _
    obtain ⟨hl, hI⟩ := Later.solo keeps ht hs
    exact ⟨hI, h t hl hI⟩
  | throw e =>
    intro t ht _
    obtain ⟨hl, hI⟩ := Later.solo keeps ht hs
    exact ⟨hI, h t hl hI⟩
  | call q k ih =>
    intro t ht _ c ha
    obtain ⟨hl, hI⟩ := Later.solo keeps ht hs
    obtain ⟨hp, hk⟩ := h t hl hI c ha
    exact ⟨rfl, ih _ hk (keeps.after hI ha hp)⟩

end

section
variable (S : System Req Resp ε ρ σ Op Choice Env) (R : Rules Req Resp σ Op Choice Env)

/-- One action of a pool that starts a routine only when none is in progress. -/
def System.stepAlone (s : Pool Req Resp ε ρ σ Op) (a : Action Op Choice Env) :
    Option (Pool Req Resp ε ρ σ Op) :=
  match a with
  | .start _ => if s.idle then S.step R s a else none
  | _ => S.step R s a

def System.runAlone (s : Pool Req Resp ε ρ σ Op) :
    List (Action Op Choice Env) → Option (Pool Req Resp ε ρ σ Op)
  | [] => some s
  | a :: as => (S.stepAlone R s a).bind fun s' => runAlone s' as

/-- The end that a routine comes to when all its calls are resolved by the same choice. -/
def System.finish (c : Choice) (p : Nat) : Prog Req Resp ε α → Shared Req Resp σ →
    Except ε α × Shared Req Resp σ
  | .ret a, s => (.ok a, s)
  | .throw e, s => (.error e, s)
  | .call q k, s => finish c p (k (S.reply c q s)) (S.after c p q s)

/-- The same when the calls are resolved by the choices of a list, as far as the rules allow them.
-/
def System.resolve (p : Nat) : List Choice → Prog Req Resp ε α → Shared Req Resp σ →
    Option (Except ε α × Shared Req Resp σ)
  | _, .ret a, s => some (.ok a, s)
  | _, .throw e, s => some (.error e, s)
  | c :: cs, .call q k, s =>
    if R.allows s p q c then resolve p cs (k (S.reply c q s)) (S.after c p q s) else none
  | [], .call _ _, _ => none

/-- Between routines the invariant holds, and the routine in progress will restore it. -/
structure Pool.Steady (I : Shared Req Resp σ → Prop) (s : Pool Req Resp ε ρ σ Op) : Prop where
  known : ∀ e ∈ s.shared.log, e.pid < s.procs.length
  idle : s.idle = true → I s.shared
  running : ∀ p op q k, s.procs[p]? = some (op, .call q k) → p + 1 = s.procs.length ∧
    Meets S R (.alone p) p (.call q k) (fun _ t => I t) s.shared

/-- Process `p`, which runs `x` alone from the first state, ends in the second. -/
inductive Ends (p : Nat) : Prog Req Resp ε α → Shared Req Resp σ → Except ε α →
    Shared Req Resp σ → Prop where
  | ret {a : α} {s : Shared Req Resp σ} : Ends p (.ret a) s (.ok a) s
  | throw {e : ε} {s : Shared Req Resp σ} : Ends p (.throw e) s (.error e) s
  | call {q : Req} {k : Resp q → Prog Req Resp ε α} {c : Choice} {s t : Shared Req Resp σ}
      {r : Except ε α}
      (allowed : R.allows s p q c = true)
        (rest : Ends p (k (S.reply c q s)) (S.after c p q s) r t) :
      Ends p (.call q k) s r t
  | moved {x : Prog Req Resp ε α} {e : Env} {s t : Shared Req Resp σ} {r : Except ε α}
      (drifts : R.drifts s e = true) (rest : Ends p x (S.moved e s) r t) : Ends p x s r t

end

section
variable {S : System Req Resp ε ρ σ Op Choice Env} {R : Rules Req Resp σ Op Choice Env}
  {I : Shared Req Resp σ → Prop} {s s' : Pool Req Resp ε ρ σ Op} {a : Action Op Choice Env}

theorem System.step_of_stepAlone (h : S.stepAlone R s a = some s') : S.step R s a = some s' := by
  cases a with
  | start op =>
    simp only [stepAlone] at h
    split at h
    · exact h
    · cases h
  | advance p c => exact h
  | environ e => exact h

/-- A process that is in progress keeps the pool from being idle. -/
theorem Pool.not_waiting_of_idle (h : s.idle = true) (p : Nat) (op : Op) (q : Req)
    (k : Resp q → Prog Req Resp ε ρ) : s.procs[p]? ≠ some (op, .call q k) := by
  intro hp
  have := List.all_eq_true.mp h _ (List.mem_of_getElem? hp)
  simp at this

/-- A routine that has come to its end has established what it has to. -/
theorem Meets.ended {O : Outline Req Resp σ} {p : Nat} {x : Prog Req Resp ε α}
    {t : Shared Req Resp σ} (h : Meets S R O p x (fun _ t => I t) t) (hi : O.inv t)
    (hx : ∀ q k, x ≠ .call q k) : I t := by
  cases x with
  | ret a => exact h t .refl hi
  | throw e => exact h t .refl hi
  | call q k => exact absurd rfl (hx q k)

/-- The step lemma. -/
theorem Pool.Steady.step (moved : ∀ t e, R.drifts t e = true → I t → I (S.moved e t))
    (routines : ∀ t p op, I t → (∀ e ∈ t.log, e.pid ≠ p) → R.starts t op = true →
      Meets S R (.alone p) p (S.program op) (fun _ t => I t) t)
    (hs : s.Steady S R I) (h : S.stepAlone R s a = some s') : s'.Steady S R I := by
  obtain ⟨op, rfl, hst, rfl⟩ | ⟨p, c, op, q, k, rfl, hp, ha, rfl⟩ | ⟨e, rfl, hd, rfl⟩ :=
    System.step_cases (System.step_of_stepAlone h)
  · have hidle : s.idle = true := by
      simp only [System.stepAlone] at h
      split at h
      · assumption
      · cases h
    have hmeet := routines s.shared s.procs.length op (hs.idle hidle)
      (fun e he => Nat.ne_of_lt (hs.known e he)) hst
    refine ⟨fun e he => ?_, fun hidle' => ?_, fun p op' q k hp => ?_⟩
    · rw [List.length_append]
      exact Nat.lt_add_right _ (hs.known e he)
    · refine hmeet.ended trivial fun q k hx => ?_
      exact Pool.not_waiting_of_idle hidle' s.procs.length op q k (by simp [hx])
    · rcases Nat.lt_or_ge p s.procs.length with hlt | hge
      · rw [List.getElem?_append_left hlt] at hp
        exact absurd hp (Pool.not_waiting_of_idle hidle p op' q k)
      · rw [List.getElem?_append_right hge, List.getElem?_singleton] at hp
        split at hp
        · have hpl : p = s.procs.length := by omega
          have hx : S.program op = .call q k := congrArg Prod.snd (Option.some.inj hp)
          subst hpl
          rw [hx] at hmeet
          exact ⟨by simp, hmeet⟩
        · cases hp
  · obtain ⟨hlast, hmeet⟩ := hs.running p op q k hp
    have hnext := (hmeet s.shared .refl trivial c ha).2
    have hlt : p < s.procs.length := Nat.lt_of_succ_le (Nat.le_of_eq hlast)
    refine ⟨fun e he => ?_, fun hidle => ?_, fun p' op' q' k' hp' => ?_⟩
    · rw [List.length_set]
      simp only [System.after, List.mem_cons] at he
      rcases he with rfl | he
      · exact hlt
      · exact hs.known e he
    · refine hnext.ended trivial fun q' k' hx => ?_
      exact Pool.not_waiting_of_idle hidle p op q' k' (by simp [hlt, hx])
    · rw [List.length_set]
      by_cases hpp : p = p'
      · subst hpp
        rw [List.getElem?_set_self hlt] at hp'
        have hx : k (S.reply c q s.shared) = .call q' k' := congrArg Prod.snd (Option.some.inj hp')
        rw [hx] at hnext
        exact ⟨hlast, hnext⟩
      · rw [List.getElem?_set_ne hpp] at hp'
        exact absurd (Nat.succ.inj (hlast.trans (hs.running p' op' q' k' hp').1.symm)) hpp
  · refine ⟨hs.known, fun hidle => moved _ _ hd (hs.idle hidle), fun p op q k hp => ?_⟩
    obtain ⟨hlast, hmeet⟩ := hs.running p op q k hp
    exact ⟨hlast, hmeet.later (.single (.drift trivial hd))⟩

/-- Routines that restore the invariant one by one keep it between them in every run. -/
theorem Pool.Steady.run (moved : ∀ t e, R.drifts t e = true → I t → I (S.moved e t))
    (routines : ∀ t p op, I t → (∀ e ∈ t.log, e.pid ≠ p) → R.starts t op = true →
      Meets S R (.alone p) p (S.program op) (fun _ t => I t) t)
    (hs : s.Steady S R I) {as : List (Action Op Choice Env)} (h : S.runAlone R s as = some s') :
    s'.Steady S R I := by
  induction as generalizing s with
  | nil => exact Option.some.inj h ▸ hs
  | cons a as ih =>
    obtain ⟨m, hm, hr⟩ := Option.bind_eq_some_iff.mp h
    exact ih (hs.step moved routines hm) hr

theorem Pool.Steady.initial {store : σ} (h : I (.initial store)) :
    (Pool.initial store : Pool Req Resp ε ρ σ Op).Steady S R I :=
  ⟨by simp [Pool.initial, Shared.initial], fun _ => h, by simp [Pool.initial]⟩

/-- What a routine is proved to end in, it ends in. -/
theorem Meets.ends {p : Nat} {x : Prog Req Resp ε α} {Q : Except ε α → Shared Req Resp σ → Prop}
    {u t : Shared Req Resp σ} {r : Except ε α} (h : Meets S R (.alone p) p x Q u)
    (he : Ends S R p x u r t) :
    Q r t := by
  induction he with
  | ret => exact h _ .refl trivial
  | throw => exact h _ .refl trivial
  | call allowed _ ih => exact ih (h _ .refl trivial _ allowed).2
  | moved drifts _ ih => exact ih (h.later (.single (.drift trivial drifts)))

/-- The end of a sequence is the end of its second part, where the first returns. -/
theorem System.finish_bind {β : Type} (c : Choice) (p : Nat) (x : Prog Req Resp ε β)
    (f : β → Prog Req Resp ε α) (u : Shared Req Resp σ) :
    S.finish c p (x.bind f) u = match S.finish c p x u with
      | (.ok b, t) => S.finish c p (f b) t
      | (.error e, t) => (.error e, t) := by
  induction x generalizing u with
  | ret b => rfl
  | throw e => rfl
  | call q k ih => exact ih _ _

/-- A routine that never throws returns. -/
theorem Meets.noThrow {O : Outline Req Resp σ} {p : Nat} {x : Prog Req Resp ε α}
    {Q : Except ε α → Shared Req Resp σ → Prop} {u : Shared Req Resp σ} (h : Meets S R O p x Q u)
    (hx : x.NoThrow) :
    Meets S R O p x (fun r t => Q r t ∧ ∃ a, r = .ok a) u := by
  induction x generalizing u with
  | ret a => exact fun t ht hi => ⟨h t ht hi, a, rfl⟩
  | throw e => exact hx.elim
  | call q k ih => exact fun t ht hi c ha => ⟨(h t ht hi c ha).1, ih _ (h t ht hi c ha).2 (hx _)⟩

/-- Running to the end is a run. -/
theorem Ends.finish {p : Nat} {c : Choice} (h : ∀ u q, R.allows u p q c = true)
    (x : Prog Req Resp ε α) (u : Shared Req Resp σ) :
    Ends S R p x u (S.finish c p x u).1 (S.finish c p x u).2 := by
  induction x generalizing u with
  | ret a => exact .ret
  | throw e => exact .throw
  | call q k ih => exact .call (h u q) (ih _ _)

/-- Resolving the calls one by one is a run. -/
theorem Ends.resolve {p : Nat} {cs : List Choice} {x : Prog Req Resp ε α} {u t : Shared Req Resp σ}
    {r : Except ε α} (h : S.resolve R p cs x u = some (r, t)) : Ends S R p x u r t := by
  induction x generalizing cs u with
  | ret a =>
    rw [System.resolve, Option.some.injEq, Prod.mk.injEq] at h
    obtain ⟨rfl, rfl⟩ := h
    exact .ret
  | throw e =>
    rw [System.resolve, Option.some.injEq, Prod.mk.injEq] at h
    obtain ⟨rfl, rfl⟩ := h
    exact .throw
  | call q k ih =>
    cases cs with
    | nil => cases h
    | cons c cs =>
      simp only [System.resolve] at h
      split at h
      · rename_i ha
        exact .call ha (ih _ h)
      · cases h

/-- A value that a routine returns is one that it can return. -/
theorem Meets.returns {p : Nat} {x : Prog Req Resp ε α} {P : α → Prop} (hx : x.Returns P)
    {u : Shared Req Resp σ} :
    Meets S R (.alone p) p x (fun r _ => ∀ a, r = .ok a → P a) u := by
  induction x generalizing u with
  | ret a => exact fun _ _ _ b hb => Except.ok.inj hb ▸ hx
  | throw e => exact fun _ _ _ b hb => by cases hb
  | call q k ih => exact fun _ _ _ _ _ => ⟨rfl, ih _ (hx _)⟩

end

/-! Routines that restore an invariant. -/
section
variable {Fault : Type} {Answer : Req → Type}
  {S : System Req (fun q => Except Fault (Answer q)) ε ρ σ Op Choice Env}
  {R : Rules Req (fun q => Except Fault (Answer q)) σ Op Choice Env}
  {I : Shared Req (fun q => Except Fault (Answer q)) σ → Prop}

section
variable (S R I)

/-- Time does not break the invariant. -/
def Lasts : Prop := ∀ s e, R.drifts s e = true → I s → I (S.moved e s)

end

/-- The routine in progress has restored the invariant whenever none is. -/
theorem Lasts.run (h : Lasts S R I) (routines : ∀ s op, I s → R.starts s op = true → ∀ p,
      Meets S R (.alone p) p (S.program op) (fun _ t => I t) s) {store : σ}
    (hi : I (.initial store)) {as : List (Action Op Choice Env)}
    {t : Pool Req (fun q => Except Fault (Answer q)) ε ρ σ Op}
    (hr : S.runAlone R (.initial store) as = some t) : t.Steady S R I :=
  Pool.Steady.run (fun s e he hs => h s e he hs) (fun s p op hs _ hst => routines s op hs hst p)
    (.initial hi) hr

end
end Interleaving
