import Redbox.RateLimit.SharedContent

/-! How often a password of shared content can be guessed. -/
namespace Redbox
open Interleaving

namespace PasswordAttempts
open SharedContent

variable (target : PasswordTarget)

/-- A request reads the counter of failures and finds it below the limit. -/
def passes : Kind SharedRequest SharedReply
  | _, ⟨_, .counter (.get key), .ok count⟩ =>
    decide (key = target.key ∧ count.getD 0 < attemptLimit)
  | _, _ => false

/-- A comparison of a password. -/
def compares : Kind SharedRequest SharedReply
  | _, ⟨_, .compare _ _, _⟩ => true
  | _, _ => false

/-- A failure is counted. -/
def counts : Kind SharedRequest SharedReply
  | _, ⟨_, .counter (.incr key), _⟩ => decide (key = target.key)
  | _, _ => false

/-- The requests that have passed the check and not compared yet. -/
def awaiting (log : List SharedEvent) : List Nat := holders (passes target) compares log

/-- The requests that have passed the check and whose failure is not counted yet. -/
def uncounted (log : List SharedEvent) : List Nat := holders (passes target) (counts target) log

end PasswordAttempts

/-- The comparisons with the password of the target that have returned false. -/
def falseComparisons (target : PasswordTarget) : List SharedEvent → Nat
  | [] => 0
  | ⟨p, .compare _ _, .ok false⟩ :: log =>
    falseComparisons target log + if p ∈ PasswordAttempts.awaiting target log then 1 else 0
  | _ :: log => falseComparisons target log

/-- Any requests may arrive; no password given for the target is right, and the counter of its
failures does not run out. -/
def guessing (cfg : Config) (target : PasswordTarget) : SharedContentRules where
  starts := fun _ _ => true
  allows := fun s p q _ => match q with
    | .compare secret hash =>
      decide (p ∉ PasswordAttempts.awaiting target s.log) || !cfg.bcryptCompare secret hash
    | _ => true
  drifts := fun s n => (s.store.counters.live target.key).isNone ||
    ((s.store.counters.tick n).live target.key).isSome

/-- At most ten passwords are tried and found wrong. -/
def GuessingIsBounded (cfg : Config) (target : PasswordTarget) (R : SharedContentRules)
    (w : SharedState) : Prop :=
  ∀ as s, (sharedContent cfg).run R (.initial w) as = some s →
    falseComparisons target s.shared.log ≤ 10

namespace PasswordAttempts
open SharedContent

/-- A request that finds the counter below the limit finds it so together with the requests that are
still to count their failure. -/
def notOvertaken (target : PasswordTarget) (s : SharedContentState) (_ : Nat) (q : SharedRequest)
    (_ : Unit) : Bool :=
  match q with
  | .counter (.get key) =>
    decide (key = target.key → ((s.store.counters.live key).map (·.value)).getD 0 < attemptLimit →
      ((s.store.counters.live key).map (·.value)).getD 0 + (uncounted target s.log).length <
        attemptLimit)
  | _ => true

def rules (cfg : Config) (target : PasswordTarget) : SharedContentRules :=
  (guessing cfg target).also (notOvertaken target)

variable {cfg : Config} {target : PasswordTarget}

/-- The failures that are counted. -/
def counted (target : PasswordTarget) (w : SharedState) : Int :=
  ((w.counters.live target.key).map (·.value)).getD 0

/-- Every comparison that failed is counted or is going to be, and there is room for it. -/
structure Bounded (target : PasswordTarget) (s : SharedContentState) : Prop where
  room : counted target s.store + (uncounted target s.log).length ≤ attemptLimit
  balance : (falseComparisons target s.log + (awaiting target s.log).length : Int) =
    counted target s.store + (uncounted target s.log).length

/-- A failure is counted by a request that has passed the check, and nothing resets the counter. -/
def outline (target : PasswordTarget) : Outline SharedRequest SharedReply SharedState where
  inv := Bounded target
  pre := fun s p q => match q with
    | .counter (.incr key) => key = target.key → p ∈ uncounted target s.log
    | .counter (.decr key) | .counter (.del key) => key ≠ target.key
    | .counter (.expire _ seconds) => 0 < seconds
    | _ => True

section
variable {s : SharedContentState} {p : Nat} {q : SharedRequest}

/-- A call that has nothing to do with the target. -/
theorem Bounded.aside (h : Bounded target s) {t : SharedContentState} {e : SharedEvent}
    (hlog : t.log = e :: s.log) (hpass : passes target s.log e = false)
    (hcompare : compares s.log e = false) (hcount : counts target s.log e = false)
    (hcounted : counted target t.store = counted target s.store) : Bounded target t := by
  have hfalse : falseComparisons target t.log = falseComparisons target s.log := by
    rw [hlog]
    obtain ⟨p, q, r⟩ := e
    cases q <;> first | rfl | cases hcompare
  have hawaiting : awaiting target t.log = awaiting target s.log := by
    rw [awaiting, hlog, holders_neither hpass hcompare]
    rfl
  have huncounted : uncounted target t.log = uncounted target s.log := by
    rw [uncounted, hlog, holders_neither hpass hcount]
    rfl
  exact ⟨by rw [hcounted, huncounted]; exact h.room, by
    rw [hcounted, huncounted, hfalse, hawaiting]; exact h.balance⟩

/-- A command that leaves the value of the counter as it is and is no check that passes. -/
theorem Bounded.command (h : Bounded target s) {c : CounterRequest}
    (hpass : passes target s.log ⟨p, .counter c, .ok (s.store.counters.perform c).2⟩ = false)
    (hcount : counts target s.log ⟨p, .counter c, .ok (s.store.counters.perform c).2⟩ = false)
    (hvalue : ((s.store.counters.perform c).1.live target.key).map (·.value) =
      (s.store.counters.live target.key).map (·.value)) :
    Bounded target ((sharedContent cfg).after () p (.counter c) s) :=
  h.aside rfl hpass rfl hcount (congrArg (fun v : Option Int => v.getD 0) hvalue)

theorem Bounded.get (h : Bounded target s) {key : CounterKey}
    (ha : notOvertaken target s p (.counter (.get key)) () = true) :
    Bounded target ((sharedContent cfg).after () p (.counter (.get key)) s) := by
  by_cases hpass : passes target s.log ⟨p, .counter (.get key),
    .ok (s.store.counters.perform (.get key)).2⟩ = true
  · obtain ⟨hkey, hlow⟩ := of_decide_eq_true hpass
    have hroom := of_decide_eq_true ha hkey hlow
    subst hkey
    have hun : uncounted target ((sharedContent cfg).after () p
      (.counter (.get target.key)) s).log =
        p :: uncounted target s.log := holders_takes hpass
    have haw : awaiting target ((sharedContent cfg).after () p (.counter (.get target.key)) s).log =
        p :: awaiting target s.log := holders_takes hpass
    have hcounted : counted target ((sharedContent cfg).after () p
      (.counter (.get target.key)) s).store =
        counted target s.store := rfl
    have hfalse : falseComparisons target
      ((sharedContent cfg).after () p (.counter (.get target.key)) s).log =
        falseComparisons target s.log := rfl
    have hbalance := h.balance
    have hroom' : counted target s.store + (uncounted target s.log).length < attemptLimit := hroom
    refine ⟨?_, ?_⟩
    · rw [hcounted, hun, List.length_cons]
      omega
    · rw [hcounted, hun, haw, hfalse, List.length_cons, List.length_cons]
      omega
  · rw [Bool.not_eq_true] at hpass
    exact h.command hpass rfl rfl

theorem Bounded.incr (h : Bounded target s) (hp : p ∈ uncounted target s.log) :
    Bounded target ((sharedContent cfg).after () p (.counter (.incr target.key)) s) := by
  have hcounted : counted target ((sharedContent cfg).after () p
    (.counter (.incr target.key)) s).store =
      counted target s.store + 1 := by
    show (((s.store.counters.add target.key 1).1.live target.key).map (·.value)).getD 0 = _
    rcases s.store.counters.add_cases target.key 1 with ⟨c, hc, -, hlive⟩ | ⟨hnone, -, hlive⟩
    · rw [hlive, counted, hc]
      rfl
    · rw [hlive, counted, hnone]
      rfl
  have hun : (uncounted target ((sharedContent cfg).after () p (.counter (.incr target.key))
    s).log).length + 1 =
      (uncounted target s.log).length := length_holders_gives rfl (decide_eq_true rfl) hp
  have haw : awaiting target ((sharedContent cfg).after () p (.counter (.incr target.key)) s).log =
      awaiting target s.log := rfl
  have hfalse : falseComparisons target
    ((sharedContent cfg).after () p (.counter (.incr target.key)) s).log =
      falseComparisons target s.log := rfl
  have hroom := h.room
  have hbalance := h.balance
  refine ⟨?_, ?_⟩
  · rw [hcounted]
    omega
  · rw [hcounted, haw, hfalse]
    omega

theorem Bounded.compare (h : Bounded target s) {secret hash : String}
    (ha : p ∈ awaiting target s.log → cfg.bcryptCompare secret hash = false) :
    Bounded target ((sharedContent cfg).after () p (.compare secret hash) s) := by
  have hun : uncounted target ((sharedContent cfg).after () p (.compare secret hash) s).log =
      uncounted target s.log := holders_neither rfl rfl
  have hcounted : counted target ((sharedContent cfg).after () p (.compare secret hash) s).store =
      counted target s.store := rfl
  have haw : awaiting target ((sharedContent cfg).after () p (.compare secret hash) s).log =
      (awaiting target s.log).erase p := holders_gives rfl rfl
  refine ⟨by rw [hcounted, hun]; exact h.room, ?_⟩
  have hlog : ((sharedContent cfg).after () p (.compare secret hash) s).log =
      ⟨p, .compare secret hash, .ok (cfg.bcryptCompare secret hash)⟩ :: s.log := rfl
  have hbalance := h.balance
  by_cases hp : p ∈ awaiting target s.log
  · have hlength := List.length_erase_of_mem hp
    have hpos := List.length_pos_of_mem hp
    rw [hcounted, hun, haw, hlog, ha hp, falseComparisons, if_pos hp, hlength]
    omega
  · have hfalse : falseComparisons target
      ((sharedContent cfg).after () p (.compare secret hash) s).log =
        falseComparisons target s.log := by
      rw [hlog]
      cases cfg.bcryptCompare secret hash with
      | true => rfl
      | false => rw [falseComparisons, if_neg hp, Nat.add_zero]
    rw [hcounted, hun, haw, hfalse, List.erase_of_not_mem hp]
    exact hbalance

theorem outline_kept : (outline target).Kept (sharedContent cfg) (rules cfg target) := by
  refine ⟨fun {s p q c} hi ha hp => ?_, fun {s n} hi hd => ?_⟩
  · simp only [rules, Rules.also, Bool.and_eq_true] at ha
    cases q with
    | counter c =>
      by_cases hkey : target.key = c.key
      · cases c with
        | incr key =>
          have hk : key = target.key := hkey.symm
          subst hk
          exact hi.incr (hp rfl)
        | decr key => exact absurd hkey.symm hp
        | expire key seconds =>
          have hk : key = target.key := hkey.symm
          subst hk
          exact hi.command rfl rfl (Counters.value_expire hp)
        | ttl key => exact hi.command rfl rfl rfl
        | get key => exact hi.get ha.2
        | del key => exact absurd hkey.symm hp
      · refine hi.command ?_ ?_ (congrArg _ (Counters.live_perform hkey))
        · cases c with
          | get key => exact decide_eq_false fun h => hkey h.1.symm
          | _ => rfl
        · cases c with
          | incr key => exact decide_eq_false fun h => hkey h.symm
          | _ => rfl
    | compare secret hash =>
      refine hi.compare fun hmem => ?_
      have hallowed := ha.1
      simp only [guessing, Bool.or_eq_true, decide_eq_true_eq, Bool.not_eq_true'] at hallowed
      exact hallowed.resolve_left (not_not_intro hmem)
    | backend q => exact hi.aside rfl rfl rfl rfl rfl
    | findBin id => exact hi.aside rfl rfl rfl rfl rfl
    | deleteBin id => exact hi.aside rfl rfl rfl rfl rfl
    | getObject key => exact hi.aside rfl rfl rfl rfl rfl
  · have hcounted : counted target ((sharedContent cfg).moved n s).store =
        counted target s.store := by
      show (((s.store.counters.tick n).live target.key).map (·.value)).getD 0 = _
      have hd : ((s.store.counters.live target.key).isNone ||
        ((s.store.counters.tick n).live target.key).isSome) = true := hd
      cases htick : (s.store.counters.tick n).live target.key with
      | some c => rw [counted, Counters.live_tick htick]
      | none =>
        rw [htick, Option.isSome_none, Bool.or_false, Option.isNone_iff_eq_none] at hd
        rw [counted, hd]
    exact ⟨by rw [hcounted]; exact hi.room, by rw [hcounted]; exact hi.balance⟩

/-- A request whose failure is to be counted, if it is for the target. -/
abbrev Passed (target t : PasswordTarget) (p : Nat) (s : SharedContentState) : Prop :=
  t.key = target.key → p ∈ uncounted target s.log

/-- A request that has yet to compare, if it is for the target. -/
abbrev Checked (target t : PasswordTarget) (p : Nat) (s : SharedContentState) : Prop :=
  (t.key = target.key → p ∈ awaiting target s.log) ∧ Passed target t p s

variable {t : PasswordTarget}

theorem passed_stable : Stable (sharedContent cfg) (rules cfg target)
    (outline target) p (Passed target t p) :=
  fun _ _ h hs hkey => Stable.holds h (hs hkey)

theorem checked_stable : Stable (sharedContent cfg) (rules cfg target)
    (outline target) p (Checked target t p) :=
  fun _ _ h hs => ⟨fun hkey => Stable.holds h (hs.1 hkey), passed_stable h hs.2⟩

/-- Calls that count nothing keep that. -/
theorem Passed.own (h : Passed target t p s)
    (hpass : passes target s.log ⟨p, q, (sharedContent cfg).reply () q s⟩ = false)
    (hcount : counts target s.log ⟨p, q, (sharedContent cfg).reply () q s⟩ = false) :
    Passed target t p ((sharedContent cfg).after () p q s) := by
  intro hkey
  have hsame : uncounted target ((sharedContent cfg).after () p q s).log = uncounted target s.log :=
    holders_neither hpass hcount
  rw [hsame]
  exact h hkey

theorem Checked.own (h : Checked target t p s)
    (hpass : passes target s.log ⟨p, q, (sharedContent cfg).reply () q s⟩ = false)
    (hcompare : compares s.log ⟨p, q, (sharedContent cfg).reply () q s⟩ = false)
    (hcount : counts target s.log ⟨p, q, (sharedContent cfg).reply () q s⟩ = false) :
    Checked target t p ((sharedContent cfg).after () p q s) := by
  refine ⟨fun hkey => ?_, Passed.own h.2 hpass hcount⟩
  have hsame : awaiting target ((sharedContent cfg).after () p q s).log = awaiting target s.log :=
    holders_neither hpass hcompare
  rw [hsame]
  exact h.1 hkey

/-- Whoever gets through the check has passed. -/
theorem assertAvailable_passes :
    Meets (sharedContent cfg) (rules cfg target) (outline target) p
      (liftLimiter (RateLimitService.assertAvailable t.ns t.subject attemptLimit
        attemptWindowSeconds))
      (fun r u => ∀ a, r = .ok a → Checked target t p u) s := by
  have throws : ∀ (e : LimitThrown) {u : SharedContentState},
    Meets (sharedContent cfg) (rules cfg target) (outline target) p
      (.throw e : SharedRoutine Unit) (fun r u => ∀ a, r = .ok a → Checked target t p u) u :=
    fun e _ _ _ _ _ ha => by cases ha
  simp only [RateLimitService.assertAvailable, Prog.bind_eq, liftLimiter_bind, liftLimiter_throwIf]
  rw [liftLimiter_await (.get _)]
  refine Meets.await (Stable.const True) trivial fun u _ _ c _ => ⟨trivial, fun count hcount => ?_,
    fun e _ => throws e⟩
  have hpassed : count.getD 0 < attemptLimit →
      Checked target t p ((sharedContent cfg).after c p
        (.counter (.get (RateLimitService.buildRateLimitKey t.ns t.subject))) u) := by
    intro hlow
    have htakes : t.key = target.key →
      passes target u.log ⟨p, .counter (.get (RateLimitService.buildRateLimitKey t.ns t.subject)),
        (sharedContent cfg).reply c
          (.counter (.get (RateLimitService.buildRateLimitKey t.ns t.subject))) u⟩ = true := by
      intro hkey
      rw [hcount]
      exact decide_eq_true ⟨hkey, hlow⟩
    have taken : ∀ gives : Kind SharedRequest SharedReply, t.key = target.key →
      p ∈ holders (passes target) gives
        ((sharedContent cfg).after c p
          (.counter (.get (RateLimitService.buildRateLimitKey t.ns t.subject))) u).log := by
      intro gives hkey
      have hlog : holders (passes target) gives ((sharedContent cfg).after c p
          (.counter (.get (RateLimitService.buildRateLimitKey t.ns t.subject))) u).log =
          p :: holders (passes target) gives u.log := holders_takes (htakes hkey)
      rw [hlog]
      exact List.mem_cons_self
    exact ⟨taken _, taken _⟩
  have hstable : Stable (sharedContent cfg) (rules cfg target) (outline target) p
      fun u => count.getD 0 < attemptLimit → Checked target t p u :=
        fun _ _ h hs hlow => checked_stable h (hs hlow)
  rw [liftLimiter_await (.ttl _)]
  refine Meets.await hstable hpassed fun u hu _ c _ =>
    ⟨trivial, fun ttl _ => ?_, fun e _ => throws e⟩
  rw [← Prog.bind_ret (Prog.throwIf _ _)]
  refine Meets.throwIf (fun _ => throws _) fun hlow => ?_
  exact Meets.ret checked_stable (Checked.own (hu (Int.not_le.mp hlow)) rfl rfl rfl)
    fun _ hv _ _ _ => hv

/-- Where the password is wrong, the failure is counted. -/
theorem consumeAttempt_follows (h : Passed target t p s) :
    Follows (sharedContent cfg) (rules cfg target) (outline target) p
      (liftLimiter (RateLimitService.consumeAttempt t.ns t.subject attemptLimit
        attemptWindowSeconds)) s := by
  have rest : ∀ (count : Int) {u : SharedContentState},
    Follows (sharedContent cfg) (rules cfg target) (outline target) p
      ((liftLimiter (awaitCounter (.ttl (RateLimitService.buildRateLimitKey t.ns t.subject)))).bind
        fun ttl =>
        liftLimiter (.ret (⟨RateLimitService.buildRateLimitKey t.ns t.subject, attemptLimit,
          attemptLimit - count,
          if ttl > 0 then ttl else attemptWindowSeconds⟩ : RateLimitResult))) u := by
    intro count u
    rw [liftLimiter_await (.ttl _)]
    exact Follows.await (Stable.const True) trivial fun _ _ _ _ _ =>
      ⟨trivial, fun _ _ => Follows.ret⟩
  simp only [RateLimitService.consumeAttempt, RateLimitService.consume, Prog.bind_eq, Prog.pure_eq,
    liftLimiter_bind]
  refine Meets.next (Q := fun _ _ => True) ?_ (fun _ _ _ _ => trivial) fun result u _ _ => ?_
  · rw [liftLimiter_await (.incr _)]
    refine Follows.await passed_stable h fun u hu _ _ _ => ⟨fun hkey => hu hkey, fun count _ => ?_⟩
    split
    · simp only [liftLimiter_bind]
      rw [liftLimiter_await (.expire _ _)]
      exact Follows.await (Stable.const True) trivial fun _ _ _ _ _ =>
        ⟨(by decide : 0 < attemptWindowSeconds), fun _ _ => rest count⟩
    · simp only [liftLimiter_bind]
      exact rest count
  · rw [liftLimiter_throwIf]
    exact Follows.throwIf fun _ => Follows.ret

theorem gate_follows {passwordHash providedPassword : Option String} :
    Follows (sharedContent cfg) (rules cfg target) (outline target) p
      (passwordGate t passwordHash providedPassword) s := by
  unfold passwordGate
  split
  · split
    · refine Meets.returned assertAvailable_passes (fun _ _ => trivial) fun _ u _ hu => ?_
      refine Follows.await checked_stable hu fun u hu _ c ha => ⟨trivial, fun isMatch hmatch => ?_⟩
      split
      · refine Meets.next (consumeAttempt_follows (Passed.own hu.2 rfl rfl)) (fun _ _ _ _ =>
          trivial) fun _ _ _ _ => ?_
        exact Follows.throw
      · -- the right password is not the target's
        rename_i hright
        have hother : t.key ≠ target.key := by
          intro hkey
          simp only [rules, Rules.also, Bool.and_eq_true, guessing, Bool.or_eq_true,
            decide_eq_true_eq, Bool.not_eq_true'] at ha
          have hwrong := ha.1.resolve_left (not_not_intro (hu.1 hkey))
          have hreply : Except.ok (cfg.bcryptCompare _ _) = Except.ok (ε := LimitThrown) isMatch :=
            hmatch
          cases hreply
          exact hright hwrong
        simp only [RateLimitService.clearAttempts]
        rw [liftLimiter_await (.del _), ← Prog.bind_ret (awaitShared _)]
        exact Follows.await (Stable.const True) trivial fun _ _ _ _ _ =>
          ⟨hother, fun _ _ => Follows.ret⟩
    · exact Follows.throw
  · exact Follows.ret

/-- The calls of the backend need no care. -/
theorem backend_follows {α β : Type} {x : Routine α} {f : α → SharedRoutine β}
    (hf : ∀ a u, Follows (sharedContent cfg) (rules cfg target) (outline target) p (f a) u) :
    Follows (sharedContent cfg) (rules cfg target)
    (outline target) p ((liftBackend x).bind f) s := by
  refine Meets.next (Q := fun _ _ => True) ?_ (fun _ _ _ _ => trivial) fun a u _ _ => hf a u
  have hcalls : (liftBackend x).Calls fun q => ∃ q', q = .backend q' :=
    liftBackend_calls (fun q => ⟨q, rfl⟩) x
  refine Meets.frame hcalls (Stable.const True) ?_ trivial
  rintro s q c ⟨q', rfl⟩ _ _ _
  exact ⟨trivial, trivial⟩

theorem program_follows (op : SharedOperation) :
    Follows (sharedContent cfg) (rules cfg target) (outline target) p op.program s := by
  have mapped : ∀ {α β : Type} {x : SharedRoutine α} {f : α → β},
      Follows (sharedContent cfg) (rules cfg target) (outline target) p x s →
      Follows (sharedContent cfg) (rules cfg target) (outline target) p (x.bind fun a =>
        .ret (f a)) s :=
    fun hx => Meets.next hx (fun _ _ _ _ => trivial) fun _ _ _ _ => Follows.ret
  have gated : ∀ {β : Type} {t : PasswordTarget} {hash password : Option String} {f : Unit →
    SharedRoutine β}
      {u : SharedContentState}, (∀ v,
        Follows (sharedContent cfg) (rules cfg target) (outline target) p (f ()) v) →
      Follows (sharedContent cfg) (rules cfg target) (outline target) p
        ((passwordGate t hash password).bind f) u :=
    fun hf => Meets.next gate_follows (fun _ _ _ _ => trivial) fun _ v _ _ => hf v
  cases op with
  | getDownloadMetadata fileId token password clientIp =>
    refine mapped (backend_follows fun file u => gated fun v => ?_)
    split
    · exact Follows.ret
    · exact Follows.throw
  | downloadFile fileId token password clientIp =>
    refine mapped (backend_follows fun file u => gated fun v => ?_)
    refine Follows.await (Stable.const True) trivial fun _ _ _ _ _ => ⟨trivial, fun length _ => ?_⟩
    split
    · split
      · exact Follows.throwIf fun _ => Follows.ret
      · exact Follows.throw
    · exact Follows.throw
  | getBinContent binId token password clientIp =>
    refine mapped (Follows.await (Stable.const True) trivial fun _ _ _ _ _ =>
      ⟨trivial, fun bin _ => ?_⟩)
    split
    · refine Follows.throwIf fun _ => ?_
      refine Follows.await (Stable.const True) trivial fun _ _ _ _ _ => ⟨trivial, fun now _ => ?_⟩
      simp only [Prog.bind_eq]
      split
      · exact Follows.await (Stable.const True) trivial fun _ _ _ _ _ =>
          ⟨trivial, fun _ _ => Follows.throw⟩
      · exact gated fun v => Follows.ret
    · exact Follows.throw

end
end PasswordAttempts

/-- A bin with a password. -/
def demoShared : SharedState :=
  ⟨demoWorld, [⟨5, "title", "text", 0, none, some "secret", 50⟩], ⟨fun _ => none, 0⟩⟩

def demoTarget : PasswordTarget := .bin 5 "203.0.113.7"

abbrev SharedAction := Action SharedOperation Unit Nat

/-- Process `p` makes its next `n` calls. -/
def sharedCalls (p n : Nat) : List SharedAction := List.replicate n (.advance p ())

/-- So many requests with a wrong password arrive and pass the check, before the first of them
compares. -/
def manyGuesses (n : Nat) : List SharedAction :=
  List.replicate n (.start (.getBinContent 5 50 (some "guess") "203.0.113.7")) ++
    (List.range n).flatMap (fun p => sharedCalls p 4) ++ (List.range n).flatMap fun p =>
      sharedCalls p 1

end Redbox
