import Redbox.Interleaving.Program
import Mathlib.Data.List.Basic

/-! Pools of resumption programs over one store. A scheduler picks a process and
lets it make its next call; the pool keeps the history of all calls made. -/
namespace Interleaving

/-- One call that was made, with the process that made it and its reply. -/
structure Event (Req : Type) (Resp : Req → Type) where
  pid : Nat
  req : Req
  resp : Resp req

/-- What all processes see, and the calls made on it, newest first. -/
structure Shared (Req : Type) (Resp : Req → Type) (σ : Type) where
  store : σ
  log : List (Event Req Resp)

/-- The meaning of calls, the moves of the environment and the routines that
processes run. A choice resolves what a call leaves open. -/
structure System (Req : Type) (Resp : Req → Type) (ε ρ σ Op Choice Env : Type) where
  exec : Choice → (q : Req) → σ → σ × Resp q
  drift : Env → σ → σ
  program : Op → Prog Req Resp ε ρ

/-- Which requests may arrive, which calls may be taken and which environment
moves may happen in a shared state. -/
structure Rules (Req : Type) (Resp : Req → Type) (σ Op Choice Env : Type) where
  starts : Shared Req Resp σ → Op → Bool
  allows : Shared Req Resp σ → Nat → Req → Choice → Bool
  drifts : Shared Req Resp σ → Env → Bool

inductive Action (Op Choice Env : Type) where
  | start (op : Op)
  | advance (pid : Nat) (c : Choice)
  | environ (e : Env)
  deriving DecidableEq

/-- Processes are numbered by their place in the list and never removed. -/
structure Pool (Req : Type) (Resp : Req → Type) (ε ρ σ Op : Type) where
  shared : Shared Req Resp σ
  procs : List (Op × Prog Req Resp ε ρ)

variable {Req : Type} {Resp : Req → Type} {ε ρ σ Op Choice Env : Type}

namespace System
variable (S : System Req Resp ε ρ σ Op Choice Env)

def reply (c : Choice) (q : Req) (s : Shared Req Resp σ) : Resp q := (S.exec c q s.store).2

def after (c : Choice) (p : Nat) (q : Req) (s : Shared Req Resp σ) : Shared Req Resp σ :=
  ⟨(S.exec c q s.store).1, ⟨p, q, S.reply c q s⟩ :: s.log⟩

def moved (e : Env) (s : Shared Req Resp σ) : Shared Req Resp σ := ⟨S.drift e s.store, s.log⟩

def step (R : Rules Req Resp σ Op Choice Env) (s : Pool Req Resp ε ρ σ Op) :
    Action Op Choice Env → Option (Pool Req Resp ε ρ σ Op)
  | .start op =>
    if R.starts s.shared op then some ⟨s.shared, s.procs ++ [(op, S.program op)]⟩ else none
  | .advance p c =>
    match s.procs[p]? with
    | some (op, .call q k) =>
      if R.allows s.shared p q c then
        some ⟨S.after c p q s.shared, s.procs.set p (op, k (S.reply c q s.shared))⟩
      else none
    | _ => none
  | .environ e => if R.drifts s.shared e then some ⟨S.moved e s.shared, s.procs⟩ else none

def run (R : Rules Req Resp σ Op Choice Env) (s : Pool Req Resp ε ρ σ Op) :
    List (Action Op Choice Env) → Option (Pool Req Resp ε ρ σ Op)
  | [] => some s
  | a :: as => (S.step R s a).bind fun s' => run R s' as

end System

namespace Rules

/-- The same rules with one more condition on the calls that may be taken. -/
def also (R : Rules Req Resp σ Op Choice Env) (cond : Shared Req Resp σ → Nat → Req →
      Choice → Bool) :
    Rules Req Resp σ Op Choice Env :=
  { R with allows := fun s p q c => R.allows s p q c && cond s p q c }

end Rules

namespace Shared

def initial (store : σ) : Shared Req Resp σ := ⟨store, []⟩

end Shared

namespace Pool

def initial (store : σ) : Pool Req Resp ε ρ σ Op := ⟨.initial store, []⟩

/-- No process waits for a call. -/
def idle (s : Pool Req Resp ε ρ σ Op) : Bool :=
  s.procs.all fun x => match x.2 with
    | .call _ _ => false
    | _ => true

end Pool

namespace System
variable {S : System Req Resp ε ρ σ Op Choice Env} {R : Rules Req Resp σ Op Choice Env}

/-- Everything one action can do. -/
theorem step_cases {s s' : Pool Req Resp ε ρ σ Op} {a : Action Op Choice Env}
    (h : S.step R s a = some s') :
    (∃ op, a = .start op ∧ R.starts s.shared op = true ∧
      s' = ⟨s.shared, s.procs ++ [(op, S.program op)]⟩) ∨
    (∃ p c op q k, a = .advance p c ∧ s.procs[p]? = some (op, .call q k) ∧
      R.allows s.shared p q c = true ∧
      s' = ⟨S.after c p q s.shared, s.procs.set p (op, k (S.reply c q s.shared))⟩) ∨
    (∃ e, a = .environ e ∧ R.drifts s.shared e = true ∧ s' = ⟨S.moved e s.shared, s.procs⟩) := by
  cases a with
  | start op =>
    simp only [step] at h
    split at h
    · exact .inl ⟨op, rfl, ‹_›, (Option.some.inj h).symm⟩
    · cases h
  | advance p c =>
    simp only [step] at h
    split at h
    · rename_i op q k hp
      split at h
      · exact .inr (.inl ⟨p, c, op, q, k, rfl, hp, ‹_›, (Option.some.inj h).symm⟩)
      · cases h
    · cases h
  | environ e =>
    simp only [step] at h
    split at h
    · exact .inr (.inr ⟨e, rfl, ‹_›, (Option.some.inj h).symm⟩)
    · cases h

theorem run_cons {s s'' : Pool Req Resp ε ρ σ Op} {a : Action Op Choice Env}
    {as : List (Action Op Choice Env)} (h : S.run R s (a :: as) = some s'') :
    ∃ s', S.step R s a = some s' ∧ S.run R s' as = some s'' := by
  simpa [run, Option.bind_eq_some_iff] using h

/-- What holds at the start and is kept by each action holds at the end of a run. -/
theorem run_invariant {I : Pool Req Resp ε ρ σ Op → Prop}
    (keep : ∀ {s a s'}, I s → S.step R s a = some s' → I s')
    {s s' : Pool Req Resp ε ρ σ Op} {as : List (Action Op Choice Env)}
    (hs : I s) (h : S.run R s as = some s') : I s' := by
  induction as generalizing s with
  | nil => exact Option.some.inj h ▸ hs
  | cons a as ih =>
    obtain ⟨m, hm, hr⟩ := run_cons h
    exact ih (keep hs hm) hr

/-- The history only grows. -/
theorem step_log_suffix {s s' : Pool Req Resp ε ρ σ Op} {a : Action Op Choice Env}
    (h : S.step R s a = some s') : s.shared.log <:+ s'.shared.log := by
  obtain ⟨op, _, _, rfl⟩ | ⟨p, c, op, q, k, _, _, _, rfl⟩ | ⟨e, _, _, rfl⟩ := step_cases h
  · exact List.suffix_refl _
  · exact List.suffix_cons _ _
  · exact List.suffix_refl _

theorem run_log_suffix {s s' : Pool Req Resp ε ρ σ Op} {as : List (Action Op Choice Env)}
    (h : S.run R s as = some s') : s.shared.log <:+ s'.shared.log :=
  run_invariant (I := fun t => s.shared.log <:+ t.shared.log)
    (fun hl hs => hl.trans (step_log_suffix hs)) (List.suffix_refl _) h

end System
end Interleaving
