import Redbox.RateLimit.RateLimitService
import Redbox.Interleaving.Holders

/-! Event streams and the counters that limit how many of them are open. -/
namespace Redbox
open Interleaving

namespace RateLimitService

/-- `DECR` for each key: the commands are sent together, and a failure of one stops none of the
others. -/
def decrAll : List CounterKey → CounterRoutine (List (CounterKey × Except LimitThrown Int))
  | [] => return []
  | key :: keys => .call (.decr key) fun r => do
    return (key, r) :: (← decrAll keys)

/-- `DEL` for the keys that were counted down to zero; the first failure of all is what is thrown.
-/
def settleAll : List (CounterKey × Except LimitThrown Int) → CounterRoutine (Option LimitThrown)
  | [] => return none
  | (key, .ok count) :: rest =>
    if count ≤ 0 then
      .call (.del key) fun
        | .ok _ => settleAll rest
        | .error e => do
          let _ ← settleAll rest
          return some e
    else settleAll rest
  | (_, .error e) :: rest => do
    let _ ← settleAll rest
    return some e

def releaseConcurrentKeys (keys : List CounterKey) : CounterRoutine Unit := do
  match ← settleAll (← decrAll keys) with
  | some e => throw e
  | none => return ()

def acquireConcurrentKeys (acquiredKeys : List CounterKey) (ttlSeconds : Nat) :
    List (CounterKey × Nat) → CounterRoutine Unit
  | [] => return ()
  | (key, limit) :: entries => do
    let count ← awaitCounter (.incr key)
    if count = 1 then
      awaitCounter (.expire key ttlSeconds)
    if count > limit then
      let _ ← awaitCounter (.decr key)
      releaseConcurrentKeys acquiredKeys
      throw (.exceeded "Too many open event streams" none)
    acquireConcurrentKeys (acquiredKeys ++ [key]) ttlSeconds entries

end RateLimitService

structure StreamOptions where
  scope : String
  userSubject : String
  userLimit : Nat
  ipSubject : String
  ipLimit : Nat
  ttlSeconds : Option Nat

namespace StreamOptions

def userKey (o : StreamOptions) : CounterKey :=
  RateLimitService.buildConcurrencyKey o.scope .user o.userSubject

def ipKey (o : StreamOptions) : CounterKey :=
  RateLimitService.buildConcurrencyKey o.scope .ip o.ipSubject

theorem userKey_ne_ipKey (o : StreamOptions) : o.userKey ≠ o.ipKey := nofun

end StreamOptions

inductive StreamRequest where
  | counter (c : CounterRequest)
  /-- The continuation of the acquisition: `acquired = true` and `source$.subscribe`. -/
  | subscribe (userKey ipKey : CounterKey)
  /-- The teardown of a subscription that has acquired its slots. -/
  | teardown

/-- A subscription to the source is answered with whether the client had unsubscribed before. -/
abbrev StreamRequest.Answer : StreamRequest → Type
  | counter c => c.Answer
  | subscribe _ _ => Bool
  | teardown => Unit

abbrev StreamReply (q : StreamRequest) : Type := Except LimitThrown q.Answer

abbrev StreamRoutine (α : Type) := Prog StreamRequest StreamReply LimitThrown α

/-- What becomes of a command, and whether the client has unsubscribed by then. -/
structure StreamChoice where
  delivery : Delivery
  unsubscribed : Bool
  deriving DecidableEq

def liftStream {α : Type} (x : CounterRoutine α) : StreamRoutine α :=
  x.expand fun q => .call (.counter q) .ret

theorem liftStream_bind {α β : Type} (x : CounterRoutine α) (f : α → CounterRoutine β) :
    liftStream (x.bind f) = (liftStream x).bind fun a => liftStream (f a) :=
  Prog.expand_bind x f

def awaitStream (q : StreamRequest) : StreamRoutine q.Answer := Prog.await id q

theorem liftStream_await (q : CounterRequest) :
    liftStream (awaitCounter q) = awaitStream (.counter q) := by
  refine congrArg (Prog.call (StreamRequest.counter q)) (funext fun r => ?_)
  cases r <;> rfl

/-- One subscription. The teardown function has run before the acquisition is through where the
client unsubscribes early; it finds `acquired` false then, and does not run again. -/
def trackConcurrentSse (o : StreamOptions) : StreamRoutine Unit := do
  let ttlSeconds := o.ttlSeconds.getD RateLimitService.defaultConcurrencyTtlSeconds
  liftStream (RateLimitService.acquireConcurrentKeys [] ttlSeconds [(o.userKey, o.userLimit),
    (o.ipKey, o.ipLimit)])
  if ← awaitStream (.subscribe o.userKey o.ipKey) then
    return ()
  awaitStream .teardown
  liftStream (RateLimitService.releaseConcurrentKeys [o.userKey, o.ipKey])

/-- Any number of subscriptions, over the counters in Redis. -/
def eventStreams : System StreamRequest StreamReply LimitThrown Unit Counters StreamOptions
      StreamChoice Nat where
  exec := fun c q r => match q with
    | .counter q => r.exec c.delivery q
    | .subscribe _ _ => (r, .ok c.unsubscribed)
    | .teardown => (r, .ok ())
  drift := Counters.tick
  program := trackConcurrentSse

abbrev StreamEvent := Event StreamRequest StreamReply
abbrev StreamShared := Shared StreamRequest StreamReply Counters
abbrev StreamRules := Rules StreamRequest StreamReply Counters StreamOptions StreamChoice Nat
abbrev StreamPool := Pool StreamRequest StreamReply LimitThrown Unit Counters StreamOptions

namespace EventStreams

/-- A stream is admitted to the two keys and stays open. -/
def opens (key : CounterKey) : Kind StreamRequest StreamReply
  | _, ⟨_, .subscribe userKey ipKey, .ok false⟩ => decide (key = userKey ∨ key = ipKey)
  | _, _ => false

def closes : Kind StreamRequest StreamReply
  | _, ⟨_, .teardown, _⟩ => true
  | _, _ => false

/-- A slot of the key is counted. -/
def counts (key : CounterKey) : Kind StreamRequest StreamReply
  | _, ⟨_, .counter (.incr k), .ok _⟩ => decide (k = key)
  | _, _ => false

/-- A slot of the key is given back. -/
def releases (key : CounterKey) : Kind StreamRequest StreamReply
  | _, ⟨_, .counter (.decr k), .ok _⟩ => decide (k = key)
  | _, _ => false

/-- The source is subscribed for a client that is gone. -/
def forgets : Kind StreamRequest StreamReply
  | _, ⟨_, .subscribe _ _, .ok true⟩ => true
  | _, _ => false

def subscribes : Kind StreamRequest StreamReply
  | _, ⟨_, .subscribe _ _, _⟩ => true
  | _, _ => false

end EventStreams

open EventStreams

/-- The streams that have been admitted and not yet closed. -/
def openStreams (key : CounterKey) (log : List StreamEvent) : List Nat :=
  holders (opens key) closes log

/-- Streams open and close, each with the limit of its key, and every command is delivered. -/
def streams (limits : CounterKey → Nat) : StreamRules where
  starts := fun _ o => decide (o.userLimit = limits o.userKey ∧ o.ipLimit = limits o.ipKey)
  allows := fun _ _ _ c => decide (c.delivery = .delivered)
  drifts := fun _ _ => true

/-- No more streams are open than a key admits. -/
def StreamsAreLimited (limits : CounterKey → Nat) (R : StreamRules) (r : Counters) : Prop :=
  ∀ as s, eventStreams.run R (.initial r) as = some s →
    ∀ key, (openStreams key s.shared.log).length ≤ limits key

/-- The keys that were ever counted. -/
def usedKeys : List StreamEvent → List CounterKey
  | [] => []
  | ⟨_, .counter (.incr key), .ok _⟩ :: log => key :: usedKeys log
  | _ :: log => usedKeys log

/-- Any order of events, where any command may fail; no key runs out. -/
def failingStreams (limits : CounterKey → Nat) : StreamRules where
  starts := fun _ o => decide (o.userLimit = limits o.userKey ∧ o.ipLimit = limits o.ipKey)
  allows := fun _ _ _ _ => true
  drifts := fun s n => (usedKeys s.log).all fun key =>
    (s.store.live key).isNone || ((s.store.tick n).live key).isSome

/-- When no call is in progress, every counter is absent or zero, each slot that was taken has been
given back once, and no source is left subscribed. -/
structure SlotsAreReturned (s : StreamPool) : Prop where
  counters : ∀ key e, s.shared.store.live key = some e → e.value = 0
  slots : ∀ p key, timesOf p (releases key) s.shared.log = timesOf p (counts key) s.shared.log
  sources : holders subscribes closes s.shared.log = []

def NoSlotLeaks (R : StreamRules) (r : Counters) : Prop :=
  ∀ as s, eventStreams.run R (.initial r) as = some s → s.idle = true → SlotsAreReturned s

end Redbox
