import Redbox.Backend.World
import Redbox.Interleaving.Expansion

/-! The counters of the rate limiter in Redis, and the limiter's routines over them. -/
namespace Redbox
open Interleaving

inductive ConcurrencyKind where
  | user | ip
  deriving DecidableEq

/-- The keys by what is hashed into them. -/
inductive CounterKey where
  | rateLimit (ns subject : String)
  | concurrency (scope : String) (kind : ConcurrencyKind) (subject : String)
  deriving DecidableEq

structure Counter where
  value : Int
  expiresAt : Option Time
  deriving DecidableEq

structure Counters where
  entries : CounterKey → Option Counter
  clock : Time

inductive CounterRequest where
  | incr (key : CounterKey)
  | decr (key : CounterKey)
  | expire (key : CounterKey) (seconds : Nat)
  | ttl (key : CounterKey)
  | get (key : CounterKey)
  | del (key : CounterKey)

abbrev CounterRequest.Answer : CounterRequest → Type
  | incr _ | decr _ | ttl _ => Int
  | get _ => Option Int
  | expire _ _ | del _ => Unit

namespace Counters

/-- The counter of a key that has not run out. -/
def live (r : Counters) (key : CounterKey) : Option Counter :=
  (r.entries key).filter fun e => e.expiresAt.all fun t => decide (r.clock < t)

def set (r : Counters) (key : CounterKey) (e : Option Counter) : Counters :=
  { r with entries := Function.update r.entries key e }

/-- A missing key counts from zero and gets no expiry. -/
def add (r : Counters) (key : CounterKey) (n : Int) : Counters × Int :=
  match r.live key with
  | some e => (r.set key (some ⟨e.value + n, e.expiresAt⟩), e.value + n)
  | none => (r.set key (some ⟨n, none⟩), n)

/-- The seconds that a key has left: -2 for a missing key, -1 for one without an expiry. -/
def ttl (r : Counters) (key : CounterKey) : Int :=
  match r.live key with
  | some ⟨_, some t⟩ => ((t - r.clock + 500) / 1000 : Nat)
  | some ⟨_, none⟩ => -1
  | none => -2

def perform (r : Counters) : (q : CounterRequest) → Counters × q.Answer
  | .incr key => r.add key 1
  | .decr key => r.add key (-1)
  | .expire key seconds => match r.live key with
    | some e => (r.set key (some ⟨e.value, Redis.deadline r.clock seconds⟩), ())
    | none => (r, ())
  | .ttl key => (r, r.ttl key)
  | .get key => (r, (r.live key).map (·.value))
  | .del key => (r.set key none, ())

def tick (n : Nat) (r : Counters) : Counters := { r with clock := r.clock + n }

section
variable {r : Counters} {key k : CounterKey} {e : Option Counter} {n : Int}

@[simp] theorem clock_set : (r.set key e).clock = r.clock := rfl

theorem live_set : (r.set key e).live key = e.filter fun e => e.expiresAt.all fun t =>
      decide (r.clock < t) := by
  simp only [live, set, Function.update_self]
  rfl

theorem live_set_other (h : k ≠ key) : (r.set key e).live k = r.live k := by
  simp only [live, set, Function.update_of_ne h]
  rfl

/-- A live counter has not run out. -/
theorem fresh_of_live {c : Counter} (h : r.live key = some c) :
    (c.expiresAt.all fun t => decide (r.clock < t)) = true :=
  (Option.filter_eq_some_iff.mp h).2

/-- What a count does to the key it names. -/
theorem add_cases (r : Counters) (key : CounterKey) (n : Int) :
    (∃ c, r.live key = some c ∧ (r.add key n).2 = c.value + n ∧
      (r.add key n).1.live key = some ⟨c.value + n, c.expiresAt⟩) ∨
    (r.live key = none ∧ (r.add key n).2 = n ∧ (r.add key n).1.live key = some ⟨n, none⟩) := by
  unfold add
  cases h : r.live key with
  | some c =>
    have hfresh := fresh_of_live h
    refine .inl ⟨c, rfl, rfl, ?_⟩
    rw [live_set]
    exact Option.filter_eq_some_iff.mpr ⟨rfl, hfresh⟩
  | none =>
    refine .inr ⟨rfl, rfl, ?_⟩
    rw [live_set]
    rfl

/-- What a key counts, which is nothing where it is missing. -/
def value (r : Counters) (key : CounterKey) : Int := ((r.live key).map (·.value)).getD 0

theorem value_add (r : Counters) (key : CounterKey) (n : Int) :
    (r.add key n).1.value key = r.value key + n ∧ (r.add key n).2 = r.value key + n := by
  rcases add_cases r key n with ⟨c, hc, hreply, hlive⟩ | ⟨hnone, hreply, hlive⟩
  · rw [value, value, hreply, hlive, hc]
    exact ⟨rfl, rfl⟩
  · rw [value, value, hreply, hlive, hnone]
    exact ⟨(Int.zero_add n).symm, (Int.zero_add n).symm⟩

theorem value_congr {r' : Counters} (h : r'.live key = r.live key) :
    r'.value key = r.value key := by
  rw [value, value, h]

theorem live_add_other (h : k ≠ key) : (r.add key n).1.live k = r.live k := by
  unfold add
  split <;> exact live_set_other h

@[simp] theorem clock_add : (r.add key n).1.clock = r.clock := by
  unfold add
  split <;> rfl

theorem live_del : (r.perform (.del key)).1.live key = none := by
  rw [perform, live_set]
  rfl

end

end Counters

namespace CounterRequest

/-- The key that a command concerns. -/
def key : CounterRequest → CounterKey
  | incr key | decr key | expire key _ | ttl key | get key | del key => key

end CounterRequest

namespace Counters
variable {r : Counters} {q : CounterRequest}

/-- A command leaves the other keys alone. -/
theorem live_perform {k : CounterKey} (h : k ≠ q.key) : (r.perform q).1.live k = r.live k := by
  cases q with
  | incr key => exact live_add_other h
  | decr key => exact live_add_other h
  | expire key seconds =>
    simp only [perform]
    split
    · exact live_set_other h
    · rfl
  | ttl key => rfl
  | get key => rfl
  | del key => exact live_set_other h

/-- A new expiry leaves the value as it is. -/
theorem value_expire {key : CounterKey} {seconds : Nat} (h : 0 < seconds) :
    ((r.perform (.expire key seconds)).1.live key).map (·.value) = (r.live key).map (·.value) := by
  simp only [perform]
  cases hlive : r.live key with
  | none => simp [hlive]
  | some e =>
    have hfresh : r.clock < r.clock + seconds * 1000 :=
      Nat.lt_add_of_pos_right (Nat.mul_pos h (by decide))
    simp [live_set, Redis.deadline, hfresh]

/-- Only the counting commands change the value of a key. -/
theorem value_perform {k : CounterKey} {c : Counter} (hincr : ∀ key, q ≠ .incr key)
    (hdecr : ∀ key, q ≠ .decr key) (h : (r.perform q).1.live k = some c) :
    ∃ e, r.live k = some e ∧ e.value = c.value := by
  by_cases hk : k = q.key
  · cases q with
    | incr key => exact absurd rfl (hincr key)
    | decr key => exact absurd rfl (hdecr key)
    | expire key seconds =>
      cases hk
      simp only [perform, CounterRequest.key] at h ⊢
      split at h
      · rename_i e he
        rw [live_set] at h
        cases (Option.filter_eq_some_iff.mp h).1
        exact ⟨e, he, rfl⟩
      · exact ⟨c, h, rfl⟩
    | ttl key => exact ⟨c, h, rfl⟩
    | get key => exact ⟨c, h, rfl⟩
    | del key =>
      cases hk
      cases h.symm.trans live_del
  · rw [live_perform hk] at h
    exact ⟨c, h, rfl⟩

@[simp] theorem clock_perform : (r.perform q).1.clock = r.clock := by
  cases q with
  | incr key => exact clock_add
  | decr key => exact clock_add
  | expire key seconds =>
    simp only [perform]
    split <;> rfl
  | ttl key => rfl
  | get key => rfl
  | del key => rfl

/-- Time only makes keys run out. -/
theorem live_tick {key : CounterKey} {n : Nat} {c : Counter} (h : (r.tick n).live key = some c) :
    r.live key = some c := by
  obtain ⟨hentry, hfresh⟩ := Option.filter_eq_some_iff.mp h
  refine Option.filter_eq_some_iff.mpr ⟨hentry, ?_⟩
  cases hx : c.expiresAt with
  | none => rfl
  | some t =>
    rw [hx] at hfresh
    exact decide_eq_true (Nat.lt_of_le_of_lt (Nat.le_add_right _ _) (of_decide_eq_true hfresh))

end Counters

/-- `RateLimitExceededException`, or what Redis and the other calls throw. -/
inductive LimitThrown where
  | exceeded (message : String) (retryAfterSeconds : Option Int)
  | thrown (e : Thrown)
  deriving DecidableEq

abbrev CounterReply (q : CounterRequest) : Type := Except LimitThrown q.Answer

namespace Counters

/-- A command that fails or whose reply is lost ends the process that waits for it, as a crash does.
-/
def exec (r : Counters) (d : Delivery) (q : CounterRequest) : Counters × CounterReply q :=
  match d with
  | .failed => (r, .error (.thrown (.fault .unavailable)))
  | .lost => ((r.perform q).1, .error (.thrown (.fault .unavailable)))
  | _ => ((r.perform q).1, .ok (r.perform q).2)

end Counters

theorem Counters.exec_cases (d : Delivery) (q : CounterRequest) (r : Counters) :
    (d = .failed ∧ (r.exec d q).1 = r ∧ ∃ e, (r.exec d q).2 = .error e) ∨
    (d = .lost ∧ (r.exec d q).1 = (r.perform q).1 ∧ ∃ e, (r.exec d q).2 = .error e) ∨
    ((r.exec d q).1 = (r.perform q).1 ∧ (r.exec d q).2 = .ok (r.perform q).2) := by
  cases d with
  | delivered => exact .inr (.inr ⟨rfl, rfl⟩)
  | failed => exact .inl ⟨rfl, rfl, _, rfl⟩
  | lost => exact .inr (.inl ⟨rfl, rfl, _, rfl⟩)
  | late => exact .inr (.inr ⟨rfl, rfl⟩)

abbrev CounterRoutine (α : Type) := Prog CounterRequest CounterReply LimitThrown α

def awaitCounter (q : CounterRequest) : CounterRoutine q.Answer := Prog.await id q

structure RateLimitRule where
  name : String
  limit : Nat
  windowSeconds : Nat

structure RateLimitResult where
  key : CounterKey
  limit : Nat
  remaining : Int
  ttlSeconds : Int
  deriving DecidableEq

namespace RateLimitService

def defaultConcurrencyTtlSeconds : Nat := 2 * 60 * 60

def tooManyAttempts : String := "Too many attempts. Please try again later."

def buildRateLimitKey (ns subject : String) : CounterKey := .rateLimit ns subject

def buildConcurrencyKey (scope : String) (kind : ConcurrencyKind) (subject : String) : CounterKey :=
  .concurrency scope kind subject

def consume (key : CounterKey) (limit windowSeconds : Nat) : CounterRoutine RateLimitResult := do
  let count ← awaitCounter (.incr key)
  if count = 1 then
    awaitCounter (.expire key windowSeconds)
  let ttl ← awaitCounter (.ttl key)
  return ⟨key, limit, limit - count, if ttl > 0 then ttl else windowSeconds⟩

def consumeRule (rule : RateLimitRule) (subject : String) : CounterRoutine RateLimitResult :=
  consume (buildRateLimitKey rule.name subject) rule.limit rule.windowSeconds

/-- The two commands are sent together, and Redis takes them in the order of the array. -/
def assertAvailable (ns subject : String) (limit windowSeconds : Nat) : CounterRoutine Unit := do
  let key := buildRateLimitKey ns subject
  let rawCount ← awaitCounter (.get key)
  let ttl ← awaitCounter (.ttl key)
  Prog.throwIf (rawCount.getD 0 ≥ limit)
    (.exceeded tooManyAttempts (some (if ttl > 0 then ttl else windowSeconds)))

def consumeAttempt (ns subject : String) (limit windowSeconds : Nat) :
    CounterRoutine RateLimitResult := do
  let result ← consume (buildRateLimitKey ns subject) limit windowSeconds
  Prog.throwIf (result.remaining < 0) (.exceeded tooManyAttempts (some result.ttlSeconds))
  return result

def clearAttempts (ns subject : String) : CounterRoutine Unit :=
  awaitCounter (.del (buildRateLimitKey ns subject))

end RateLimitService
end Redbox
