import Redbox.Interleaving.Outline

/-! Who makes which calls: in the history of a pool each call is one that the routine of its
process can make. -/
namespace Interleaving
variable {Req : Type} {Resp : Req → Type} {ε ρ σ Op Choice Env : Type}
  {S : System Req Resp ε ρ σ Op Choice Env} {R : Rules Req Resp σ Op Choice Env}
  {P : Op → Req → Prop}

/-- The calls that were made and those that are left are of the kind of their request. -/
structure Pool.Called (P : Op → Req → Prop) (s : Pool Req Resp ε ρ σ Op) : Prop where
  made : ∀ e ∈ s.shared.log, ∃ op x, s.procs[e.pid]? = some (op, x) ∧ P op e.req
  left : ∀ (p : Nat) op x, s.procs[p]? = some (op, x) → x.Calls (P op)

theorem Pool.Called.step (hP : ∀ op, (S.program op).Calls (P op)) {s s' : Pool Req Resp ε ρ σ Op}
    {a : Action Op Choice Env} (hs : s.Called P) (h : S.step R s a = some s') : s'.Called P := by
  obtain ⟨op, _, _, rfl⟩ | ⟨p, c, op, q, k, _, hp, _, rfl⟩ | ⟨e, _, _, rfl⟩ := System.step_cases h
  · refine ⟨fun e he => ?_, fun p op' x hx => ?_⟩
    · obtain ⟨op', x, hx, hq⟩ := hs.made e he
      have hlt : e.pid < s.procs.length := (List.getElem?_eq_some_iff.mp hx).1
      exact ⟨op', x, (List.getElem?_append_left hlt).trans hx, hq⟩
    · rcases Nat.lt_or_ge p s.procs.length with hlt | hge
      · exact hs.left p op' x ((List.getElem?_append_left hlt).symm.trans hx)
      · rw [List.getElem?_append_right hge, List.getElem?_singleton] at hx
        split at hx
        · cases hx
          exact hP _
        · cases hx
  · have hcalls := hs.left p op _ hp
    have hlt : p < s.procs.length := (List.getElem?_eq_some_iff.mp hp).1
    have hself := List.getElem?_set_self (a := (op, k (S.reply c q s.shared))) hlt
    refine ⟨fun e he => ?_, fun p' op' x hx => ?_⟩
    · rcases List.mem_cons.mp he with rfl | he
      · exact ⟨op, _, hself, hcalls.1⟩
      · obtain ⟨op', x, hx, hq⟩ := hs.made e he
        by_cases hpp : p = e.pid
        · rw [← hpp, hp] at hx
          cases hx
          exact ⟨op, k (S.reply c q s.shared), hpp ▸ hself, hq⟩
        · exact ⟨op', x, (List.getElem?_set_ne hpp).trans hx, hq⟩
    · by_cases hpp : p = p'
      · subst hpp
        rw [hself] at hx
        cases hx
        exact hcalls.2 _
      · exact hs.left p' op' x ((List.getElem?_set_ne hpp).symm.trans hx)
  · exact ⟨hs.made, hs.left⟩

/-- In every run from an empty pool. -/
theorem Pool.Called.run (hP : ∀ op, (S.program op).Calls (P op)) {store : σ}
    {as : List (Action Op Choice Env)} {s : Pool Req Resp ε ρ σ Op}
    (h : S.run R (.initial store) as = some s) : s.Called P :=
  System.run_invariant (fun hm hstep => hm.step hP hstep) ⟨by simp [Pool.initial, Shared.initial],
    by simp [Pool.initial]⟩ h

end Interleaving
