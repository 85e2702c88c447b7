import Redbox.Interleaving.Pool

/-! The calls that one process of a pool has made, as a run of its routine, and the turns that
a loop of the routine gives to its items in that run. -/
namespace Interleaving
variable {Req : Type} {Resp : Req → Type} {ε ρ α β σ Op Choice Env : Type}

abbrev Exchange (Req : Type) (Resp : Req → Type) := (q : Req) × Resp q

/-- The calls of process `p`, oldest first. -/
def own (p : Nat) : List (Event Req Resp) → List (Exchange Req Resp)
  | [] => []
  | e :: log => if e.pid = p then own p log ++ [⟨e.req, e.resp⟩] else own p log

/-- With these calls and replies, the first routine gets to where the second goes on. -/
inductive Leads : Prog Req Resp ε α → List (Exchange Req Resp) → Prog Req Resp ε α → Prop where
  | refl (x : Prog Req Resp ε α) : Leads x [] x
  | call {q : Req} {k : Resp q → Prog Req Resp ε α} {r : Resp q} {calls : List (Exchange Req Resp)}
      {y : Prog Req Resp ε α} (rest : Leads (k r) calls y) : Leads (.call q k) (⟨q, r⟩ :: calls) y

/-- The routine that has come to an end. -/
def Prog.ended : Except ε α → Prog Req Resp ε α
  | .ok a => .ret a
  | .error e => .throw e

/-- The calls are a whole run of the routine. -/
def Runs (x : Prog Req Resp ε α) (calls : List (Exchange Req Resp)) (r : Except ε α) : Prop :=
  Leads x calls (.ended r)

section
variable {x y : Prog Req Resp ε α} {calls calls' : List (Exchange Req Resp)} {r r' : Except ε α}

theorem Leads.snoc {q : Req} {k : Resp q → Prog Req Resp ε α} (h : Leads x calls (.call q k))
    (a : Resp q) :
    Leads x (calls ++ [⟨q, a⟩]) (k a) := by
  generalize hy : Prog.call q k = y at h
  induction h with
  | refl x => exact hy ▸ .call (.refl _)
  | call _ ih => exact .call (ih hy)

theorem Runs.of_ret {a : α} (h : Runs (.ret a : Prog Req Resp ε α) calls r) :
    calls = [] ∧ r = .ok a := by
  cases r with
  | ok b =>
    cases h
    exact ⟨rfl, rfl⟩
  | error e => cases h

theorem Runs.of_throw {e : ε} (h : Runs (.throw e : Prog Req Resp ε α) calls r) :
    calls = [] ∧ r = .error e := by
  cases r with
  | ok b => cases h
  | error e' =>
    cases h
    exact ⟨rfl, rfl⟩

theorem Runs.of_call {q : Req} {k : Resp q → Prog Req Resp ε α} (h : Runs (.call q k) calls r) :
    ∃ a rest, calls = ⟨q, a⟩ :: rest ∧ Runs (k a) rest r := by
  unfold Runs at h
  generalize hy : Prog.ended r = y at h
  cases h with
  | refl => cases r <;> cases hy
  | call rest =>
    subst hy
    exact ⟨_, _, rfl, rest⟩

/-- A sequence runs its second part where the first has returned. -/
theorem Runs.bind {x : Prog Req Resp ε β} {f : β → Prog Req Resp ε α}
    (h : Runs (x.bind f) calls r) :
    (∃ b first rest, calls = first ++ rest ∧ Runs x first (.ok b) ∧ Runs (f b) rest r) ∨
      ∃ e, r = .error e ∧ Runs x calls (.error e) := by
  induction x generalizing calls with
  | ret b => exact .inl ⟨b, [], calls, rfl, .refl _, h⟩
  | throw e =>
    obtain ⟨rfl, rfl⟩ := Runs.of_throw h
    exact .inr ⟨e, rfl, .refl _⟩
  | call q k ih =>
    obtain ⟨a, tail, rfl, ht⟩ := Runs.of_call h
    obtain ⟨b, first, rest, rfl, hx, hf⟩ | ⟨e, hr, hx⟩ := ih a ht
    · exact .inl ⟨b, ⟨q, a⟩ :: first, rest, rfl, Leads.call hx, hf⟩
    · exact .inr ⟨e, hr, Leads.call hx⟩

/-- Two runs of a routine at the beginning of the same calls are the same run. -/
theorem Runs.unique {rest rest' : List (Exchange Req Resp)} (h : Runs x calls r)
    (h' : Runs x calls' r') (heq : calls ++ rest = calls' ++ rest') : calls = calls' ∧ r = r' := by
  induction x generalizing calls calls' with
  | ret a =>
    obtain ⟨rfl, rfl⟩ := Runs.of_ret h
    obtain ⟨rfl, rfl⟩ := Runs.of_ret h'
    exact ⟨rfl, rfl⟩
  | throw e =>
    obtain ⟨rfl, rfl⟩ := Runs.of_throw h
    obtain ⟨rfl, rfl⟩ := Runs.of_throw h'
    exact ⟨rfl, rfl⟩
  | call q k ih =>
    obtain ⟨a, tail, rfl, ht⟩ := Runs.of_call h
    obtain ⟨a', tail', rfl, ht'⟩ := Runs.of_call h'
    simp only [List.cons_append, List.cons.injEq, Sigma.mk.injEq, heq_eq_eq, true_and] at heq
    obtain ⟨rfl, heq⟩ := heq
    obtain ⟨rfl, hr⟩ := ih a ht ht' heq
    exact ⟨rfl, hr⟩

end

section
variable {S : System Req Resp ε ρ σ Op Choice Env} {R : Rules Req Resp σ Op Choice Env}
  {s s' : Pool Req Resp ε ρ σ Op} {a : Action Op Choice Env}

theorem own_none {p : Nat} {log : List (Event Req Resp)} (h : ∀ e ∈ log, e.pid ≠ p) :
    own p log = [] := by
  induction log with
  | nil => rfl
  | cons e log ih =>
    rw [own, if_neg (h e List.mem_cons_self)]
    exact ih fun e he => h e (List.mem_cons_of_mem _ he)

variable (S) in
/-- Each process is where its calls have led its routine. -/
structure Pool.Led (s : Pool Req Resp ε ρ σ Op) : Prop where
  known : ∀ e ∈ s.shared.log, e.pid < s.procs.length
  led : ∀ p op y, s.procs[p]? = some (op, y) → Leads (S.program op) (own p s.shared.log) y

theorem Pool.Led.step (hs : s.Led S) (h : S.step R s a = some s') : s'.Led S := by
  obtain ⟨op, rfl, -, rfl⟩ | ⟨p, c, op, q, k, rfl, hp, -, rfl⟩ | ⟨e, rfl, -, rfl⟩ :=
    System.step_cases h
  · refine ⟨fun e he => ?_, fun p op' y hy => ?_⟩
    · rw [List.length_append]
      exact Nat.lt_add_right _ (hs.known e he)
    · rcases Nat.lt_or_ge p s.procs.length with hlt | hge
      · rw [List.getElem?_append_left hlt] at hy
        exact hs.led p op' y hy
      · rw [List.getElem?_append_right hge, List.getElem?_singleton] at hy
        split at hy
        · cases hy
          rw [own_none fun e he => Nat.ne_of_lt (Nat.lt_of_lt_of_le (hs.known e he) hge)]
          exact .refl _
        · cases hy
  · have hlt : p < s.procs.length := (List.getElem?_eq_some_iff.mp hp).1
    refine ⟨fun e he => ?_, fun p' op' y hy => ?_⟩
    · rw [List.length_set]
      rcases List.mem_cons.mp he with rfl | he
      · exact hlt
      · exact hs.known e he
    · by_cases hpp : p = p'
      · subst hpp
        rw [List.getElem?_set_self hlt] at hy
        cases hy
        simp only [System.after, own, if_true]
        exact (hs.led p op _ hp).snoc _
      · rw [List.getElem?_set_ne hpp] at hy
        simp only [System.after, own, if_neg hpp]
        exact hs.led p' op' y hy
  · exact ⟨hs.known, hs.led⟩

theorem Pool.Led.run {store : σ} {as : List (Action Op Choice Env)}
    (h : S.run R (.initial store) as = some s) : s.Led S :=
  System.run_invariant (I := Pool.Led S) (fun hs h => hs.step h)
    ⟨by simp [Pool.initial, Shared.initial], by simp [Pool.initial]⟩ h

end

/-- What a loop did with one of its items. -/
structure Turn (Req : Type) (Resp : Req → Type) (ε β : Type) where
  item : β
  calls : List (Exchange Req Resp)
  result : Except ε Unit

section
variable (f : β → Prog Req Resp ε Unit)

/-- The calls begin with these turns, one for each of the first items. -/
structure Takes (due : List β) (calls : List (Exchange Req Resp))
    (turns : List (Turn Req Resp ε β)) : Prop where
  items : turns.map (·.item) <+: due
  first : turns.flatMap (·.calls) <+: calls
  runs : ∀ turn ∈ turns, Runs (f turn.item) turn.calls turn.result

/-- In these calls the processing of the items at the places `throwing`, and of no others, throws.
-/
def ThrowsAt (due : List β) (throwing : Nat → Prop) (calls : List (Exchange Req Resp)) : Prop :=
  ∀ turns, Takes f due calls turns → ∀ i turn, turns[i]? = some turn →
    ((∃ e, turn.result = .error e) ↔ throwing i)

/-- The calls are one turn for each item, and what does not throw is processed. -/
def AttemptsEvery (due : List β) (throwing : Nat → Prop)
    (calls : List (Exchange Req Resp)) : Prop :=
  ∃ turns, Takes f due calls turns ∧ turns.map (·.item) = due ∧ turns.flatMap (·.calls) = calls ∧
    ∀ i turn, turns[i]? = some turn → ¬ throwing i → turn.result = .ok ()

end

section
variable {f : β → Prog Req Resp ε Unit} {due : List β} {calls : List (Exchange Req Resp)}
  {turns turns' : List (Turn Req Resp ε β)} {throwing : Nat → Prop}

theorem Takes.cons (turn : Turn Req Resp ε β) {rest : List β} {tail : List (Exchange Req Resp)}
    (h : Runs (f turn.item) turn.calls turn.result) (ht : Takes f rest tail turns) :
    Takes f (turn.item :: rest) (turn.calls ++ tail) (turn :: turns) where
  items := by
    rw [List.map_cons, List.cons_prefix_cons]
    exact ⟨rfl, ht.items⟩
  first := by
    rw [List.flatMap_cons, List.prefix_append_right_inj]
    exact ht.first
  runs := by
    intro t hmem
    rcases List.mem_cons.mp hmem with rfl | hmem
    · exact h
    · exact ht.runs t hmem

/-- A loop takes turns until one of them throws. -/
theorem Runs.forEach {r : Except ε Unit} (h : Runs (Prog.forEach due f) calls r) :
    ∃ turns, Takes f due calls turns ∧ turns.flatMap (·.calls) = calls ∧
      ((turns.map (·.item) = due ∧ ∀ turn ∈ turns, turn.result = .ok ()) ∨
        ∃ earlier last e, turns = earlier ++ [last] ∧ last.result = .error e ∧
          ∀ turn ∈ earlier, turn.result = .ok ()) := by
  induction due generalizing calls with
  | nil =>
    obtain ⟨rfl, rfl⟩ := Runs.of_ret h
    exact ⟨[], ⟨List.prefix_rfl, List.prefix_rfl, by simp⟩, rfl, .inl ⟨rfl, by simp⟩⟩
  | cons x due ih =>
    obtain ⟨u, first, rest, rfl, hx, hrest⟩ | ⟨e, rfl, hx⟩ := Runs.bind h
    · obtain ⟨turns, ht, hcalls, hend⟩ := ih hrest
      have htakes := Takes.cons ⟨x, first, .ok ()⟩ hx ht
      refine ⟨_, htakes, by simp [hcalls], ?_⟩
      obtain ⟨hall, hok⟩ | ⟨earlier, last, e, rfl, hlast, hok⟩ := hend
      · exact .inl ⟨by simp [hall], by simpa using hok⟩
      · exact .inr ⟨_ :: earlier, last, e, rfl, hlast, by simpa using hok⟩
    · have hnone : Takes f due [] ([] : List (Turn Req Resp ε β)) :=
        ⟨List.nil_prefix, List.prefix_rfl, by simp⟩
      have ht := Takes.cons ⟨x, calls, .error e⟩ hx hnone
      rw [List.append_nil] at ht
      exact ⟨_, ht, by simp, .inr ⟨[], _, e, rfl, rfl, by simp⟩⟩

theorem Takes.uncons {turn : Turn Req Resp ε β} (h : Takes f due calls (turn :: turns)) :
    ∃ rest tail, due = turn.item :: rest ∧ calls = turn.calls ++ tail ∧
    Runs (f turn.item) turn.calls turn.result ∧
      Takes f rest tail turns := by
  obtain ⟨rest, rfl⟩ := h.items
  obtain ⟨tail, rfl⟩ := h.first
  refine ⟨turns.map (·.item) ++ rest, turns.flatMap (·.calls) ++ tail, rfl, by
    simp, h.runs _ List.mem_cons_self, ?_⟩
  exact ⟨List.prefix_append _ _, List.prefix_append _ _,
    fun t ht => h.runs t (List.mem_cons_of_mem _ ht)⟩

/-- Of two beginnings of the same calls, the one with fewer turns begins the other. -/
theorem Takes.begins (h : Takes f due calls turns) (h' : Takes f due calls turns')
    (hle : turns.length ≤ turns'.length) : turns <+: turns' := by
  induction turns generalizing due calls turns' with
  | nil => exact List.nil_prefix
  | cons turn turns ih =>
    cases turns' with
    | nil => simp at hle
    | cons turn' turns' =>
      obtain ⟨rest, tail, rfl, rfl, hrun, ht⟩ := h.uncons
      obtain ⟨rest', tail', hdue, hcalls, hrun', ht'⟩ := h'.uncons
      obtain ⟨hitem, rfl⟩ := List.cons.inj hdue
      rw [← hitem] at hrun'
      obtain ⟨hsame, hresult⟩ := hrun.unique hrun' hcalls
      rw [hsame, List.append_cancel_left_eq] at hcalls
      obtain rfl : turn = turn' := by
        cases turn
        cases turn'
        simp_all
      rw [List.cons_prefix_cons]
      exact ⟨rfl, ih ht (hcalls ▸ ht') (Nat.le_of_succ_le_succ hle)⟩

/-- Where each item needs a call, no turn is left when the calls are used up. -/
theorem Takes.length_le (hf : ∀ x, ∃ q k, f x = .call q k) (h : Takes f due calls turns)
    (hall : turns.flatMap (·.calls) = calls) (h' : Takes f due calls turns') :
    turns'.length ≤ turns.length := by
  rcases Nat.le_total turns'.length turns.length with hle | hle
  · exact hle
  · obtain ⟨more, rfl⟩ := h.begins h' hle
    cases more with
    | nil => simp
    | cons turn more =>
      -- A turn behind the last call would have made none.
      obtain ⟨rest, hrest⟩ := h'.first
      simp only [List.flatMap_append, hall, List.flatMap_cons, List.append_assoc,
        List.append_right_eq_self,
        List.append_eq_nil_iff] at hrest
      obtain ⟨q, k, hq⟩ := hf turn.item
      have hrun := h'.runs turn (by simp)
      rw [hq, hrest.1] at hrun
      obtain ⟨a, tail, hnil, -⟩ := hrun.of_call
      cases hnil

theorem Takes.unique (hf : ∀ x, ∃ q k, f x = .call q k) (h : Takes f due calls turns)
    (hall : turns.flatMap (·.calls) = calls) (h' : Takes f due calls turns') : turns' <+: turns :=
  h'.begins h (h.length_le hf hall h')

/-- Each run of a loop has its set of items that throw. -/
theorem Takes.throwsAt (hf : ∀ x, ∃ q k, f x = .call q k) (h : Takes f due calls turns)
    (hall : turns.flatMap (·.calls) = calls) :
    ThrowsAt f due (fun i => ∃ turn e, turns[i]? = some turn ∧ turn.result = .error e) calls := by
  intro turns' h' i turn hi
  obtain ⟨more, rfl⟩ := h.unique hf hall h'
  have hi' : (turns' ++ more)[i]? = some turn := by
    rw [List.getElem?_append_left (List.getElem?_eq_some_iff.mp hi).1]
    exact hi
  simp [hi']

theorem result_ok {turn : Turn Req Resp ε β} (h : ¬ ∃ e, turn.result = .error e) :
    turn.result = .ok () := by
  rcases hr : turn.result with e | ⟨⟩
  · exact absurd ⟨e, hr⟩ h
  · rfl

/-- A loop without handlers reaches every item exactly when at most the last one throws. -/
theorem Runs.attemptsEvery_iff (hf : ∀ x, ∃ q k, f x = .call q k) {r : Except ε Unit}
    (h : Runs (Prog.forEach due f) calls r) (ht : ThrowsAt f due throwing calls) :
    AttemptsEvery f due throwing calls ↔ ∀ i, i + 1 < due.length → ¬ throwing i := by
  obtain ⟨turns, htakes, hall, hend⟩ := Runs.forEach h
  constructor
  · rintro ⟨turns', htakes', hitems, hall', -⟩ i hi hthrows
    obtain rfl : turns' = turns :=
      (htakes.unique hf hall htakes').eq_of_length
        (Nat.le_antisymm (htakes.length_le hf hall htakes')
        (htakes'.length_le hf hall' htakes))
    rw [← hitems, List.length_map] at hi
    have hlt : i < turns'.length := by omega
    obtain ⟨e, he⟩ := (ht turns' htakes i _ (List.getElem?_eq_getElem hlt)).mpr hthrows
    obtain ⟨-, hok⟩ | ⟨earlier, last, e', rfl, -, hok⟩ := hend
    · rw [hok _ (List.getElem_mem hlt)] at he
      cases he
    · rw [List.length_append, List.length_singleton, Nat.add_lt_add_iff_right] at hi
      rw [List.getElem_append_left hi, hok _ (List.getElem_mem hi)] at he
      cases he
  · intro hlast
    have hitems : turns.map (·.item) = due := by
      obtain ⟨hitems, -⟩ | ⟨earlier, last, e, rfl, he, -⟩ := hend
      · exact hitems
      · have hthrows := (ht _ htakes earlier.length last (by simp)).mp ⟨e, he⟩
        have hle : due.length ≤ earlier.length + 1 := by
          by_contra hlt
          exact hlast _ (Nat.lt_of_not_le hlt) hthrows
        exact htakes.items.eq_of_length_le (by simpa using hle)
    refine ⟨turns, htakes, hitems, hall, fun i turn hi hn => result_ok fun he => hn ?_⟩
    exact (ht turns htakes i turn hi).mp he

end
end Interleaving
