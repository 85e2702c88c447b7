import Redbox.Interleaving.Sequential

/-! An invariant of runs of one routine at a time that holds while a routine is in progress too. -/
namespace Interleaving
variable {Req : Type} {Resp : Req → Type} {ε ρ σ Op Choice Env : Type}

section
variable (S : System Req Resp ε ρ σ Op Choice Env) (R : Rules Req Resp σ Op Choice Env)
  (I : Shared Req Resp σ → Prop)

/-- Process `p` is alone, and none of its calls breaks the invariant. -/
def Outline.serial (p : Nat) : Outline Req Resp σ :=
  .solo p I fun s q => ∀ c, R.allows s p q c = true → I (S.after c p q s)

/-- The invariant holds, and the routine in progress will not break it. -/
structure Pool.Serial (s : Pool Req Resp ε ρ σ Op) : Prop where
  inv : I s.shared
  running : ∀ p op q k, s.procs[p]? = some (op, .call q k) → p + 1 = s.procs.length ∧
    Meets S R (.serial S R I p) p (.call q k) (fun _ _ => True) s.shared

end

section
variable {S : System Req Resp ε ρ σ Op Choice Env} {R : Rules Req Resp σ Op Choice Env}
  {I : Shared Req Resp σ → Prop} {s s' : Pool Req Resp ε ρ σ Op} {a : Action Op Choice Env}

/-- The step lemma. -/
theorem Pool.Serial.step (moved : ∀ t e, R.drifts t e = true → I t → I (S.moved e t))
    (routines : ∀ t p op, I t → R.starts t op = true →
      Meets S R (.serial S R I p) p (S.program op) (fun _ _ => True) t)
    (hs : s.Serial S R I) (h : S.stepAlone R s a = some s') : s'.Serial S R I := by
  obtain ⟨op, rfl, hst, rfl⟩ | ⟨p, c, op, q, k, rfl, hp, ha, rfl⟩ | ⟨e, rfl, hd, rfl⟩ :=
    System.step_cases (System.step_of_stepAlone h)
  · have hidle : s.idle = true := by
      simp only [System.stepAlone] at h
      split at h
      · assumption
      · cases h
    refine ⟨hs.inv, fun p op' q k hp => ?_⟩
    rcases Nat.lt_or_ge p s.procs.length with hlt | hge
    · rw [List.getElem?_append_left hlt] at hp
      exact absurd hp (Pool.not_waiting_of_idle hidle p op' q k)
    · rw [List.getElem?_append_right hge, List.getElem?_singleton] at hp
      split at hp
      · have hpl : p = s.procs.length := by omega
        have hx : S.program op = .call q k := congrArg Prod.snd (Option.some.inj hp)
        rw [hpl, ← hx]
        exact ⟨by simp, routines s.shared s.procs.length op hs.inv hst⟩
      · cases hp
  · obtain ⟨hlast, hmeet⟩ := hs.running p op q k hp
    obtain ⟨⟨_, hkeeps⟩, hnext⟩ := hmeet s.shared .refl hs.inv c ha
    have hlt : p < s.procs.length := Nat.lt_of_succ_le (Nat.le_of_eq hlast)
    refine ⟨hkeeps c ha, fun p' op' q' k' hp' => ?_⟩
    rw [List.length_set]
    by_cases hpp : p = p'
    · subst hpp
      rw [List.getElem?_set_self hlt] at hp'
      have hx : k (S.reply c q s.shared) = .call q' k' := congrArg Prod.snd (Option.some.inj hp')
      rw [hx] at hnext
      exact ⟨hlast, hnext⟩
    · rw [List.getElem?_set_ne hpp] at hp'
      exact absurd (Nat.succ.inj (hlast.trans (hs.running p' op' q' k' hp').1.symm)) hpp
  · refine ⟨moved _ _ hd hs.inv, fun p op q k hp => ?_⟩
    obtain ⟨hlast, hmeet⟩ := hs.running p op q k hp
    exact ⟨hlast, hmeet.later (.single (.drift hs.inv hd))⟩

/-- Routines that never break the invariant keep it in every run. -/
theorem Pool.Serial.run (moved : ∀ t e, R.drifts t e = true → I t → I (S.moved e t))
    (routines : ∀ t p op, I t → R.starts t op = true →
      Meets S R (.serial S R I p) p (S.program op) (fun _ _ => True) t)
    (hs : s.Serial S R I) {as : List (Action Op Choice Env)} (h : S.runAlone R s as = some s') :
    s'.Serial S R I := by
  induction as generalizing s with
  | nil => exact Option.some.inj h ▸ hs
  | cons a as ih =>
    obtain ⟨m, hm, hr⟩ := Option.bind_eq_some_iff.mp h
    exact ih (hs.step moved routines hm) hr

theorem Pool.Serial.initial {store : σ} (h : I (.initial store)) :
    (Pool.initial store : Pool Req Resp ε ρ σ Op).Serial S R I :=
  ⟨h, by simp [Pool.initial]⟩

end
end Interleaving
