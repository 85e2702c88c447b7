import Redbox.RateLimit.RateLimitService

/-! The limiter of one key as a fixed window: how many calls it admits, and when it forgets. -/
namespace Redbox
open Interleaving

inductive LimiterOperation where
  | consumeRule | consumeAttempt | assertAvailable | clearAttempts
  deriving DecidableEq

namespace LimiterOperation
open RateLimitService

/-- The calls that concern one key, which belong to one rule. -/
def program (rule : RateLimitRule) (subject : String) : LimiterOperation →
    CounterRoutine (Option RateLimitResult)
  | .consumeRule => do return some (← RateLimitService.consumeRule rule subject)
  | .consumeAttempt => do
    return some (← RateLimitService.consumeAttempt rule.name subject rule.limit rule.windowSeconds)
  | .assertAvailable => do
    RateLimitService.assertAvailable rule.name subject rule.limit rule.windowSeconds
    return none
  | .clearAttempts => do
    RateLimitService.clearAttempts rule.name subject
    return none

end LimiterOperation

def limiter (rule : RateLimitRule) (subject : String) :
    System CounterRequest CounterReply LimitThrown (Option RateLimitResult) Counters
      LimiterOperation Delivery Nat where
  exec := fun d q r => r.exec d q
  drift := Counters.tick
  program := LimiterOperation.program rule subject

abbrev LimiterShared := Shared CounterRequest CounterReply Counters
abbrev LimiterRules := Rules CounterRequest CounterReply Counters LimiterOperation Delivery Nat
abbrev LimiterPool := Pool CounterRequest CounterReply LimitThrown (Option RateLimitResult) Counters
      LimiterOperation
abbrev LimiterAction := Action LimiterOperation Delivery Nat
abbrev CounterEvent := Event CounterRequest CounterReply

/-- Calls of any number of server processes, any of whose commands may fail. -/
def anyLimiterFailure : LimiterRules := ⟨fun _ _ => true, fun _ _ _ _ => true, fun _ _ => true⟩

section
variable (rule : RateLimitRule) (subject : String)

/-- The key exists from the first of the actions on. -/
def LiveThroughout (R : LimiterRules) (s : LimiterPool) : List LimiterAction → Prop
  | [] => True
  | a :: as => ∃ m, (limiter rule subject).step R s a = some m ∧
      (m.shared.store.live (RateLimitService.buildRateLimitKey rule.name subject)).isSome = true ∧
        LiveThroughout R m as

/-- A call of `consume` that is answered with `remaining >= 0`. -/
def admits : CounterEvent → Bool
  | ⟨_, .incr key, .ok count⟩ =>
    decide (key = RateLimitService.buildRateLimitKey rule.name subject ∧ 0 ≤ rule.limit - count)
  | _ => false

/-- Between its creation and its removal a key admits at most `limit` calls, and whenever it exists
and no call is in progress it runs out within the window. -/
structure FixedWindow (R : LimiterRules) (r : Counters) : Prop where
  bounded : ∀ as bs s t, (limiter rule subject).run R (.initial r) as = some s →
    s.shared.store.live (RateLimitService.buildRateLimitKey rule.name subject) = none →
    (limiter rule subject).run R s bs = some t → LiveThroughout rule subject R s bs →
    ((t.shared.log.take (t.shared.log.length - s.shared.log.length)).filter
      (admits rule subject)).length ≤ rule.limit
  expires : ∀ as s, (limiter rule subject).run R (.initial r) as = some s → s.idle = true →
    ∀ e, s.shared.store.live (RateLimitService.buildRateLimitKey rule.name subject) = some e →
      ∃ t, e.expiresAt = some t ∧ t ≤ s.shared.store.clock + rule.windowSeconds * 1000
  readmits : ∀ as s, (limiter rule subject).run R (.initial r) as = some s → s.idle = true →
    ∀ n, rule.windowSeconds * 1000 ≤ n →
      (s.shared.store.tick n).live (RateLimitService.buildRateLimitKey rule.name subject) = none

namespace FixedWindow
open RateLimitService

/-- `INCR` has created the key, and its caller has still to set the expiry. -/
def created : CounterEvent → Bool
  | ⟨_, .incr _, .ok count⟩ => decide (count = 1)
  | _ => false

def owesExpiry (p : Nat) (log : List CounterEvent) : Bool := (lastOwn p log).any created

/-- Some other call has still to set the expiry. -/
def owed (p : Nat) (log : List CounterEvent) : Bool :=
  log.any fun e => decide (e.pid ≠ p) && owesExpiry e.pid log

/-- No failure leaves the key without an expiry that a call in progress is about to set. -/
def setsExpiry (s : LimiterShared) (p : Nat) : CounterRequest → Delivery → Bool
  | .incr key, .lost => (s.store.live key).isSome || owed p s.log
  | .expire key _, .failed => ((s.store.live key).all fun e => e.expiresAt.isSome) || owed p s.log
  | _, _ => true

def rules : LimiterRules := anyLimiterFailure.also setsExpiry

end FixedWindow
end

namespace FixedWindow
open RateLimitService

variable {rule : RateLimitRule} {subject : String} {R : LimiterRules}

/-- A command on the key of the limiter that does not count down. -/
def OnKey (rule : RateLimitRule) (subject : String) (q : CounterRequest) : Prop :=
  q.key = buildRateLimitKey rule.name subject ∧ ∀ k, q ≠ .decr k

theorem consume_calls : (consume (buildRateLimitKey rule.name subject) rule.limit
      rule.windowSeconds).Calls
    (OnKey rule subject) :=
  .bind (.await ⟨rfl, fun _ => nofun⟩) fun _ =>
    .ite (.bind (.await ⟨rfl, fun _ => nofun⟩) fun _ =>
      .bind (.await ⟨rfl, fun _ => nofun⟩) fun _ => trivial)
      (.bind (.await ⟨rfl, fun _ => nofun⟩) fun _ => trivial)

theorem program_calls (op : LimiterOperation) :
    (op.program rule subject).Calls (OnKey rule subject) := by
  cases op with
  | consumeRule => exact .bind consume_calls fun _ => trivial
  | consumeAttempt =>
    exact .bind (.bind consume_calls fun _ => .bind .throwIf fun _ => trivial) fun _ => trivial
  | assertAvailable =>
    exact .bind (.bind (.await ⟨rfl, fun _ => nofun⟩) fun _ =>
      .bind (.await ⟨rfl, fun _ => nofun⟩) fun _ => .throwIf)
      fun _ => trivial
  | clearAttempts => exact .bind (.await ⟨rfl, fun _ => nofun⟩) fun _ => trivial

/-- Every call is on the key. -/
def commands (rule : RateLimitRule) (subject : String) :
    Outline CounterRequest CounterReply Counters :=
  ⟨fun _ => True, fun _ _ q => OnKey rule subject q⟩

theorem commands_kept : (commands rule subject).Kept (limiter rule subject) R :=
  ⟨fun _ _ _ => trivial, fun _ _ => trivial⟩

theorem commands_safe (op : LimiterOperation) :
    Safe (limiter rule subject) R (commands rule subject) ((limiter rule subject).program op) :=
  Safe.calls (program_calls op) fun _ _ _ _ hq _ _ => hq

/-- So many calls fit the limit and the counter. -/
structure Fits (rule : RateLimitRule) (subject : String) (r : Counters) (n : Nat) : Prop where
  limit : n ≤ rule.limit
  counter : ∀ e, r.live (buildRateLimitKey rule.name subject) = some e → (n : Int) ≤ e.value
  absent : r.live (buildRateLimitKey rule.name subject) = none → n = 0

theorem admits_error {p : Nat} {q : CounterRequest} {e : LimitThrown} :
    admits rule subject ⟨p, q, .error e⟩ = false := by
  cases q <;> rfl

/-- An increment raises what fits with it. -/
theorem Fits.incr {r : Counters} {n : Nat} (hf : Fits rule subject r n) :
    Fits rule subject (r.add (buildRateLimitKey rule.name subject) 1).1 n ∧ (0 ≤ rule.limit -
      (r.add (buildRateLimitKey rule.name subject) 1).2 →
      Fits rule subject (r.add (buildRateLimitKey rule.name subject) 1).1 (n + 1)) := by
  rcases r.add_cases (buildRateLimitKey rule.name subject) 1 with ⟨c, hc, hreply, hlive⟩ | ⟨hnone,
    hreply, hlive⟩
  · have hle := hf.counter c hc
    have fits : ∀ m : Nat, (m : Int) ≤ c.value + 1 → m ≤ rule.limit →
        Fits rule subject (r.add (buildRateLimitKey rule.name subject) 1).1 m := by
      intro m hm hlimit
      refine ⟨hlimit, fun e he => ?_, fun hnone => ?_⟩
      · rw [hlive] at he
        cases he
        exact hm
      · rw [hlive] at hnone
        cases hnone
    rw [hreply]
    exact ⟨fits n (by omega) hf.limit, fun hfits => fits (n + 1) (by omega) (by omega)⟩
  · have hzero := hf.absent hnone
    subst hzero
    have fits : ∀ m : Nat, m ≤ 1 → m ≤ rule.limit →
        Fits rule subject (r.add (buildRateLimitKey rule.name subject) 1).1 m := by
      intro m hm hlimit
      refine ⟨hlimit, fun e he => ?_, fun hnone => ?_⟩
      · rw [hlive] at he
        cases he
        exact Int.ofNat_le.mpr hm
      · rw [hlive] at hnone
        cases hnone
    rw [hreply]
    exact ⟨fits 0 (Nat.zero_le _) (Nat.zero_le _), fun hfits => fits 1 (Nat.le_refl _) (by omega)⟩

/-- The step lemma for one command. -/
theorem Fits.exec {r : Counters} {d : Delivery} {p n : Nat} {q : CounterRequest}
    (hf : Fits rule subject r n) (hq : OnKey rule subject q)
    (present : (r.exec d q).1.live (buildRateLimitKey rule.name subject) ≠ none) :
    Fits rule subject (r.exec d q).1
      (n + ([(⟨p, q, (r.exec d q).2⟩ : CounterEvent)].filter (admits rule subject)).length) := by
  have unchanged : admits rule subject ⟨p, q, (r.exec d q).2⟩ = false →
    Fits rule subject (r.exec d q).1 n →
      Fits rule subject (r.exec d q).1
        (n + ([(⟨p, q, (r.exec d q).2⟩ : CounterEvent)].filter (admits rule subject)).length) := by
    intro hno hfits
    rw [List.filter_cons_of_neg (by simp [hno])]
    exact hfits
  obtain ⟨hkey, hdecr⟩ := hq
  by_cases hincr : ∃ k, q = .incr k
  · obtain ⟨k, rfl⟩ := hincr
    have hk : k = buildRateLimitKey rule.name subject := hkey
    subst hk
    rcases Counters.exec_cases d (.incr (buildRateLimitKey rule.name subject)) r with
      ⟨-, hstore, e, hreply⟩ | ⟨-, hstore, e, hreply⟩ | ⟨hstore, hreply⟩
    · exact unchanged (by rw [hreply]; exact admits_error) (hstore.symm ▸ hf)
    · exact unchanged (by rw [hreply]; exact admits_error) (hstore.symm ▸ hf.incr.1)
    · by_cases hfits : 0 ≤ rule.limit - (r.add (buildRateLimitKey rule.name subject) 1).2
      · have hyes : admits rule subject ⟨p, .incr (buildRateLimitKey rule.name subject),
            .ok (r.perform (.incr (buildRateLimitKey rule.name subject))).2⟩ = true :=
              decide_eq_true ⟨rfl, hfits⟩
        rw [hreply, hstore, List.filter_cons_of_pos hyes]
        exact hf.incr.2 hfits
      · refine unchanged ?_ (hstore.symm ▸ hf.incr.1)
        rw [hreply]
        exact decide_eq_false fun h => hfits h.2
  · have hother : ∀ k, q ≠ .incr k := fun k hk => hincr ⟨k, hk⟩
    have hfits : admits rule subject ⟨p, q, (r.exec d q).2⟩ = false := by
      cases q with
      | incr k => exact absurd rfl (hother k)
      | _ => rfl
    refine unchanged hfits ⟨hf.limit, fun c hc => ?_, fun hnone => absurd hnone present⟩
    rcases Counters.exec_cases d q r with ⟨-, hstore, -⟩ | ⟨-, hstore, -⟩ | ⟨hstore, -⟩
      <;> rw [hstore] at hc
    · exact hf.counter c hc
    all_goals
      obtain ⟨e, he, hvalue⟩ := Counters.value_perform hother hdecr hc
      exact hvalue ▸ hf.counter e he

/-- The step lemma: one more admitted call fits if the key is still there. -/
theorem Fits.step {s m : LimiterPool} {a : LimiterAction} {n : Nat}
    (hs : s.Respects (limiter rule subject) R (commands rule subject) fun _ _ _ _ => True)
    (h : (limiter rule subject).step R s a = some m)
    (hlive : (m.shared.store.live (buildRateLimitKey rule.name subject)).isSome = true)
    (hf : Fits rule subject s.shared.store n) :
    ∃ new, m.shared.log = new ++ s.shared.log ∧
      Fits rule subject m.shared.store (n + (new.filter (admits rule subject)).length) := by
  have present : m.shared.store.live (buildRateLimitKey rule.name subject) ≠ none :=
    Option.isSome_iff_ne_none.mp hlive
  obtain ⟨op, _, _, rfl⟩ | ⟨p, d, op, q, k, _, hp, ha, rfl⟩ | ⟨e, _, hd, rfl⟩ := System.step_cases h
  · exact ⟨[], rfl, hf⟩
  · refine ⟨[_], rfl, ?_⟩
    exact hf.exec (hs.call hp ha) present
  · exact ⟨[], rfl, hf.limit, fun c hc => hf.counter c (Counters.live_tick hc),
      fun hnone => absurd hnone present⟩

/-- The run lemma. -/
theorem Fits.run {bs : List LimiterAction} {s t : LimiterPool} {n : Nat}
    (hs : s.Respects (limiter rule subject) R (commands rule subject) fun _ _ _ _ => True)
    (h : (limiter rule subject).run R s bs = some t) (hlive : LiveThroughout rule subject R s bs)
    (hf : Fits rule subject s.shared.store n) :
    ∃ new, t.shared.log = new ++ s.shared.log ∧
    n + (new.filter (admits rule subject)).length ≤ rule.limit := by
  induction bs generalizing s n with
  | nil =>
    cases Option.some.inj h
    exact ⟨[], rfl, hf.limit⟩
  | cons a bs ih =>
    obtain ⟨m, hm, hr⟩ := System.run_cons h
    obtain ⟨m', hm', hpresent, hrest⟩ := hlive
    cases Option.some.inj (hm'.symm.trans hm)
    obtain ⟨new, hlog, hfits⟩ := Fits.step hs hm hpresent hf
    have hm := hs.step commands_kept (fun s p op hi _ _ => commands_safe op p s hi) hm
    obtain ⟨newer, hlog', hle⟩ := ih hm hr hrest hfits
    refine ⟨newer ++ new, by rw [hlog', hlog, List.append_assoc], ?_⟩
    rw [List.filter_append, List.length_append]
    omega

/-- Whatever fails, a key admits no more than its limit. -/
theorem admitted_le {r : Counters} {as bs : List LimiterAction} {s t : LimiterPool}
    (hs : (limiter rule subject).run R (.initial r) as = some s)
    (habsent : s.shared.store.live (buildRateLimitKey rule.name subject) = none)
    (ht : (limiter rule subject).run R s bs = some t) (hlive : LiveThroughout rule subject R s bs) :
    ((t.shared.log.take (t.shared.log.length - s.shared.log.length)).filter
      (admits rule subject)).length ≤
      rule.limit := by
  have hrespects : s.Respects (limiter rule subject) R (commands rule subject) fun _ _ _ _ =>
      True :=
    Safe.run commands_kept commands_safe trivial hs
  have hfits : Fits rule subject s.shared.store 0 :=
    ⟨Nat.zero_le _, fun e he => (by rw [habsent] at he; cases he), fun _ => rfl⟩
  obtain ⟨new, hlog, hle⟩ := Fits.run hrespects ht hlive hfits
  rw [hlog, List.length_append, Nat.add_sub_cancel, List.take_left]
  omega

/-- A key without an expiry is about to get one. -/
structure Expiring (rule : RateLimitRule) (subject : String) (s : LimiterShared) : Prop where
  within : ∀ e t, s.store.live (buildRateLimitKey rule.name subject) = some e →
    e.expiresAt = some t →
    t ≤ s.store.clock + rule.windowSeconds * 1000
  awaited : ∀ e, s.store.live (buildRateLimitKey rule.name subject) = some e → e.expiresAt = none →
    ∃ p, owesExpiry p s.log = true

/-- A call that has created the key sets its expiry next. -/
def outline (rule : RateLimitRule) (subject : String) :
    Outline CounterRequest CounterReply Counters :=
  ⟨Expiring rule subject, fun s p q => OnKey rule subject q ∧
    (q = .expire (buildRateLimitKey rule.name subject) rule.windowSeconds ∨
      ((∀ k n, q ≠ .expire k n) ∧ owesExpiry p s.log = false))⟩

section
variable {s : LimiterShared} {p p' : Nat} {d : Delivery} {q : CounterRequest}

theorem owesExpiry_after : owesExpiry p ((limiter rule subject).after d p q s).log =
    created ⟨p, q, (limiter rule subject).reply d q s⟩ := by
  show Option.any created (lastOwn p (_ :: s.log)) = Option.any created (some _)
  exact congrArg (Option.any created) (lastOwn_self rfl)

theorem owesExpiry_other (h : p' ≠ p) : owesExpiry p ((limiter rule subject).after d p' q s).log =
    owesExpiry p s.log := by
  show (lastOwn p (_ :: s.log)).any created = _
  rw [lastOwn_other h]
  rfl

theorem owed_iff : owed p s.log = true ↔ ∃ p', p' ≠ p ∧ owesExpiry p' s.log = true := by
  simp only [owed, List.any_eq_true, Bool.and_eq_true, decide_eq_true_eq]
  constructor
  · rintro ⟨e, -, hne, howes⟩
    exact ⟨e.pid, hne, howes⟩
  · rintro ⟨p', hne, howes⟩
    obtain ⟨e, he, -⟩ := (Option.any_eq_true _ _).mp howes
    have hpid := List.find?_some he
    cases beq_iff_eq.mp hpid
    exact ⟨e, List.mem_of_find?_eq_some he, hne, howes⟩

/-- Another process that owes the expiry still does. -/
theorem owed_after (h : owed p s.log = true) :
    ∃ p', owesExpiry p' ((limiter rule subject).after d p q s).log = true := by
  obtain ⟨p', hne, howes⟩ := owed_iff.mp h
  exact ⟨p', (owesExpiry_other hne.symm).trans howes⟩

theorem clock_after : ((limiter rule subject).after d p q s).store.clock = s.store.clock := by
  show (s.store.exec d q).1.clock = s.store.clock
  rcases Counters.exec_cases d q s.store with ⟨-, h, -⟩ | ⟨-, h, -⟩ | ⟨h, -⟩ <;> rw [h]
  · exact Counters.clock_perform
  · exact Counters.clock_perform

/-- A call that owes nothing and leaves the expiry as it is. -/
theorem Expiring.carried (h : Expiring rule subject s) (hno : owesExpiry p s.log = false)
    (hsame : ∀ e', ((limiter rule subject).after d p q s).store.live
      (buildRateLimitKey rule.name subject) = some e' →
      ∃ e, s.store.live (buildRateLimitKey rule.name subject) = some e ∧
        e.expiresAt = e'.expiresAt) :
    Expiring rule subject ((limiter rule subject).after d p q s) := by
  refine ⟨fun e' t he' ht => ?_, fun e' he' hnone => ?_⟩
  · obtain ⟨e, he, hexp⟩ := hsame e' he'
    rw [clock_after]
    exact h.within e t he (hexp.trans ht)
  · obtain ⟨e, he, hexp⟩ := hsame e' he'
    obtain ⟨p', howes⟩ := h.awaited e he (hexp.trans hnone)
    have hne : p ≠ p' := fun hpp => by
      rw [hpp, howes] at hno
      cases hno
    exact ⟨p', (owesExpiry_other hne).trans howes⟩

/-- A failed or empty command. -/
theorem Expiring.idle (h : Expiring rule subject s) (hno : owesExpiry p s.log = false)
    (hstore : (s.store.exec d q).1 = s.store) :
    Expiring rule subject ((limiter rule subject).after d p q s) := by
  have hafter : ((limiter rule subject).after d p q s).store = s.store := hstore
  exact h.carried hno fun e' he' => ⟨e', hafter ▸ he', rfl⟩

theorem Expiring.incr (h : Expiring rule subject s) (hno : owesExpiry p s.log = false)
    (hset : d = .lost → (s.store.live (buildRateLimitKey rule.name subject)).isSome = true ∨
      owed p s.log = true) :
    Expiring rule subject ((limiter rule subject).after d p
      (.incr (buildRateLimitKey rule.name subject)) s) := by
  have performed : (s.store.exec d (.incr (buildRateLimitKey rule.name subject))).1 =
      (s.store.add (buildRateLimitKey rule.name subject) 1).1 →
      (s.store.live (buildRateLimitKey rule.name subject) = none →
        ∃ p', owesExpiry p' ((limiter rule subject).after d p
          (.incr (buildRateLimitKey rule.name subject)) s).log = true) →
      Expiring rule subject ((limiter rule subject).after d p
        (.incr (buildRateLimitKey rule.name subject)) s) := by
    intro hstore howes
    have hafter : ((limiter rule subject).after d p (.incr (buildRateLimitKey rule.name subject))
      s).store =
        (s.store.add (buildRateLimitKey rule.name subject) 1).1 := hstore
    rcases s.store.add_cases (buildRateLimitKey rule.name subject) 1 with ⟨c, hc, -,
      hlive⟩ | ⟨hnone, -, hlive⟩
    · refine h.carried hno fun e' he' => ⟨c, hc, ?_⟩
      rw [hafter, hlive] at he'
      cases he'
      rfl
    · refine ⟨fun e' t he' ht => ?_, fun e' he' _ => howes hnone⟩
      rw [hafter, hlive] at he'
      cases he'
      cases ht
  rcases Counters.exec_cases d (.incr (buildRateLimitKey rule.name subject)) s.store with
    ⟨-, hstore, -⟩ | ⟨hlost, hstore, -⟩ | ⟨hstore, hreply⟩
  · exact h.idle hno hstore
  · refine performed hstore fun hnone => ?_
    rcases hset hlost with hsome | howed
    · rw [hnone] at hsome
      cases hsome
    · exact owed_after howed
  · refine performed hstore fun hnone => ⟨p, owesExpiry_after.trans ?_⟩
    have hone : (s.store.add (buildRateLimitKey rule.name subject) 1).2 = 1 := by
      rcases s.store.add_cases (buildRateLimitKey rule.name subject) 1 with ⟨c, hc,
        -⟩ | ⟨-, hreply, -⟩
      · rw [hc] at hnone
        cases hnone
      · exact hreply
    show created ⟨p, _, (s.store.exec d (.incr (buildRateLimitKey rule.name subject))).2⟩ = true
    rw [hreply]
    exact decide_eq_true hone

theorem Expiring.expire (h : Expiring rule subject s)
    (hset : d = .failed → ((s.store.live (buildRateLimitKey rule.name subject)).all fun e =>
      e.expiresAt.isSome) = true ∨
      owed p s.log = true) :
    Expiring rule subject ((limiter rule subject).after d p
      (.expire (buildRateLimitKey rule.name subject) rule.windowSeconds) s) := by
  have performed : (s.store.exec d (.expire (buildRateLimitKey rule.name subject)
    rule.windowSeconds)).1 =
      (s.store.perform (.expire (buildRateLimitKey rule.name subject) rule.windowSeconds)).1 →
      Expiring rule subject ((limiter rule subject).after d p
        (.expire (buildRateLimitKey rule.name subject) rule.windowSeconds) s) := by
    intro hstore
    have deadline : ∀ e', ((limiter rule subject).after d p
        (.expire (buildRateLimitKey rule.name subject) rule.windowSeconds) s).store.live
          (buildRateLimitKey rule.name subject) = some e' →
        e'.expiresAt = some (s.store.clock + rule.windowSeconds * 1000) := by
      intro e' he'
      change (s.store.exec d (.expire (buildRateLimitKey rule.name subject)
        rule.windowSeconds)).1.live _ = _ at he'
      rw [hstore, Counters.perform] at he'
      cases hlive : s.store.live (buildRateLimitKey rule.name subject) with
      | some e =>
        simp only [hlive, Counters.live_set] at he'
        cases (Option.filter_eq_some_iff.mp he').1
        rfl
      | none =>
        simp only [hlive] at he'
        cases he'
    refine ⟨fun e' t he' ht => ?_, fun e' he' hnone => ?_⟩
    · rw [deadline e' he'] at ht
      cases ht
      rw [clock_after]
    · rw [deadline e' he'] at hnone
      cases hnone
  rcases Counters.exec_cases d (.expire (buildRateLimitKey rule.name subject) rule.windowSeconds)
    s.store with
    ⟨hfailed, hstore, -⟩ | ⟨-, hstore, -⟩ | ⟨hstore, -⟩
  · have hafter : ((limiter rule subject).after d p
        (.expire (buildRateLimitKey rule.name subject) rule.windowSeconds) s).store = s.store :=
          hstore
    refine ⟨fun e t he ht => ?_, fun e he hnone => ?_⟩
    · rw [hafter] at he ⊢
      exact h.within e t he ht
    · rw [hafter] at he
      rcases hset hfailed with hsome | howed
      · rw [he, Option.all_some, hnone] at hsome
        cases hsome
      · exact owed_after howed
  · exact performed hstore
  · exact performed hstore

/-- What a command leaves of the expiry of the key. -/
theorem Expiring.after (h : Expiring rule subject s) (ha : rules.allows s p q d = true)
    (hp : (outline rule subject).pre s p q) :
    Expiring rule subject ((limiter rule subject).after d p q s) := by
  obtain ⟨⟨hkey, hdecr⟩, rfl | ⟨hexpire, hno⟩⟩ := hp
  · refine h.expire fun hd => ?_
    subst hd
    exact (Bool.or_eq_true _ _).mp ha
  · cases q with
    | incr k =>
      have hk : k = buildRateLimitKey rule.name subject := hkey
      subst hk
      refine h.incr hno fun hd => ?_
      subst hd
      exact (Bool.or_eq_true _ _).mp ha
    | decr k => exact absurd rfl (hdecr k)
    | expire k n => exact absurd rfl (hexpire k n)
    | ttl k =>
      refine h.idle hno ?_
      rcases Counters.exec_cases d (.ttl k) s.store with ⟨-, hs, -⟩ | ⟨-, hs, -⟩ | ⟨hs, -⟩
        <;> exact hs
    | get k =>
      refine h.idle hno ?_
      rcases Counters.exec_cases d (.get k) s.store with ⟨-, hs, -⟩ | ⟨-, hs, -⟩ | ⟨hs, -⟩
        <;> exact hs
    | del k =>
      have hk : k = buildRateLimitKey rule.name subject := hkey
      subst hk
      have gone : (s.store.exec d (.del (buildRateLimitKey rule.name subject))).1 =
          (s.store.perform (.del (buildRateLimitKey rule.name subject))).1 →
          Expiring rule subject ((limiter rule subject).after d p
            (.del (buildRateLimitKey rule.name subject)) s) := by
        intro hstore
        refine h.carried hno fun e' he' => ?_
        change (s.store.exec d (.del (buildRateLimitKey rule.name subject))).1.live _ = _ at he'
        rw [hstore, Counters.live_del] at he'
        cases he'
      rcases Counters.exec_cases d (.del (buildRateLimitKey rule.name subject)) s.store with
        ⟨-, hs, -⟩ | ⟨-, hs, -⟩ | ⟨hs, -⟩
      · exact h.idle hno hs
      · exact gone hs
      · exact gone hs

theorem outline_kept : (outline rule subject).Kept (limiter rule subject) rules := by
  refine ⟨fun hi ha hp => Expiring.after hi ha hp,
    fun {s n} hi _ => ⟨fun e t he ht => ?_, fun e he hnone => ?_⟩⟩
  · have hle : t ≤ s.store.clock + rule.windowSeconds * 1000 :=
      hi.within e t (Counters.live_tick he) ht
    exact hle.trans (Nat.add_le_add_right (Nat.le_add_right _ _) _)
  · exact hi.awaited e (Counters.live_tick he) hnone

/-- A process that owes nothing between its calls. -/
def Paid (p : Nat) {α : Type} (_ : Except LimitThrown α) (t : LimiterShared) : Prop :=
  owesExpiry p t.log = false

theorem paid_stable : Stable (limiter rule subject) rules (outline rule subject) p fun t =>
      owesExpiry p t.log = false := by
  intro t t' h ht
  cases h with
  | other ne => exact (owesExpiry_other ne).trans ht
  | drift => exact ht

theorem paid_ret {α : Type} {a : α} (h : owesExpiry p s.log = false) :
    Meets (limiter rule subject) rules (outline rule subject) p (.ret a) (Paid p) s :=
  Meets.ret paid_stable h fun _ ht _ => ht

theorem paid_throw {α : Type} {e : LimitThrown} (h : owesExpiry p s.log = false) :
    Meets (limiter rule subject) rules (outline rule subject) p (.throw e : CounterRoutine α)
    (Paid p) s :=
  Meets.throw paid_stable h fun _ ht _ => ht

/-- A call that creates nothing, in front of the rest. -/
theorem paid_await {α : Type} {f : q.Answer → CounterRoutine α} (hq : OnKey rule subject q)
    (hexpire : ∀ k n, q ≠ .expire k n) (hincr : ∀ k, q ≠ .incr k) (h : owesExpiry p s.log = false)
    (hf : ∀ a t, owesExpiry p t.log = false →
      Meets (limiter rule subject) rules (outline rule subject) p (f a) (Paid p) t) :
    Meets (limiter rule subject) rules (outline rule subject) p ((awaitCounter q).bind f)
    (Paid p) s := by
  refine Meets.await paid_stable h fun t ht _ d _ => ⟨⟨hq, .inr ⟨hexpire, ht⟩⟩, ?_⟩
  have hpaid : owesExpiry p ((limiter rule subject).after d p q t).log = false := by
    rw [owesExpiry_after]
    cases q with
    | incr k => exact absurd rfl (hincr k)
    | _ => rfl
  exact ⟨fun a _ => hf a _ hpaid, fun e _ => paid_throw hpaid⟩

theorem consume_paid (h : owesExpiry p s.log = false) :
    Meets (limiter rule subject) rules (outline rule subject) p
      (consume (buildRateLimitKey rule.name subject) rule.limit rule.windowSeconds) (Paid p) s := by
  have rest : ∀ (count : Int) t, owesExpiry p t.log = false →
    Meets (limiter rule subject) rules (outline rule subject) p
      ((awaitCounter (.ttl (buildRateLimitKey rule.name subject))).bind fun ttl =>
        .ret (⟨buildRateLimitKey rule.name subject, rule.limit, rule.limit - count,
          if ttl > 0 then ttl else rule.windowSeconds⟩ : RateLimitResult)) (Paid p) t :=
    fun count t ht => paid_await ⟨rfl, nofun⟩ nofun nofun ht fun _ _ ht => paid_ret ht
  refine Meets.await paid_stable h fun t ht _ d _ => ⟨⟨⟨rfl, nofun⟩, .inr ⟨nofun, ht⟩⟩,
    fun count hcount => ?_, fun e he => ?_⟩
  · split
    · refine Meets.await (Stable.const True) trivial fun u _ _ d _ =>
        ⟨⟨⟨rfl, nofun⟩, .inl rfl⟩, fun _ _ => ?_, fun e _ => ?_⟩
      · exact rest count _ owesExpiry_after
      · exact paid_throw owesExpiry_after
    · rename_i hne
      refine rest count _ (owesExpiry_after.trans ?_)
      rw [hcount]
      exact decide_eq_false hne
  · refine paid_throw (owesExpiry_after.trans ?_)
    rw [he]
    rfl

theorem program_paid (op : LimiterOperation) (h : owesExpiry p s.log = false) :
    Meets (limiter rule subject) rules (outline rule subject) p (op.program rule subject)
    (Paid p) s := by
  have mapped : ∀ {α : Type} {x : CounterRoutine α} (f : α → Option RateLimitResult),
      Meets (limiter rule subject) rules (outline rule subject) p x (Paid p) s →
      Meets (limiter rule subject) rules (outline rule subject) p (x.bind fun a => .ret (f a))
        (Paid p) s :=
    fun f hx => hx.next (fun _ _ _ ht => ht) fun _ _ _ ht => paid_ret ht
  cases op with
  | consumeRule => exact mapped some (consume_paid h)
  | consumeAttempt =>
    refine mapped some ((consume_paid h).next (fun _ _ _ ht => ht) fun result t _ ht => ?_)
    exact Meets.throwIf (fun _ => paid_throw ht) fun _ => paid_ret ht
  | assertAvailable =>
    refine mapped (fun _ => none) (paid_await ⟨rfl, nofun⟩ nofun nofun h fun count t ht => ?_)
    refine paid_await ⟨rfl, nofun⟩ nofun nofun ht fun ttl t ht => ?_
    rw [← Prog.bind_ret (Prog.throwIf _ _)]
    exact Meets.throwIf (fun _ => paid_throw ht) fun _ => paid_ret ht
  | clearAttempts => exact paid_await ⟨rfl, nofun⟩ nofun nofun h fun _ _ ht => paid_ret ht

theorem owesExpiry_fresh (h : ∀ e ∈ s.log, e.pid ≠ p) : owesExpiry p s.log = false := by
  rw [owesExpiry, lastOwn_none h]
  rfl

/-- A process that owes the expiry is in progress. -/
theorem Expiring.none_owed {t : LimiterPool}
    (ht : t.Respects (limiter rule subject) rules (outline rule subject) fun p _ r t => Paid p r t)
    (hidle : t.idle = true) :
    owesExpiry p t.shared.log = false := by
  cases hp : t.procs[p]? with
  | none =>
    refine owesExpiry_fresh fun e he hpid => ?_
    have hlt := ht.known e he
    rw [List.getElem?_eq_none_iff] at hp
    omega
  | some x =>
    obtain ⟨op, x⟩ := x
    cases x with
    | ret a => exact ht.meets p op _ hp t.shared .refl ht.inv
    | throw e => exact ht.meets p op _ hp t.shared .refl ht.inv
    | call q k => exact absurd hp (Pool.not_waiting_of_idle hidle p op q k)

end

end FixedWindow

def emptyCounters : Counters := ⟨fun _ => none, 0⟩

/-- Three attempts a minute. -/
def demoRule : RateLimitRule := ⟨"files:download:password-failure", 3, 60⟩

/-- The reply to the first increment is lost, with the process that waits for it. -/
def crashAfterIncrement : List LimiterAction := [.start .consumeRule, .advance 0 .lost]

end Redbox
