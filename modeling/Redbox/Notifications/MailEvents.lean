import Redbox.Backend.World
import Mathlib.Data.List.Basic
import Mathlib.Data.List.TakeWhile

/-! `mail-events.service.ts`: server processes that pass mail events on to the streams of their
users, over a channel of Redis. Each stream is sent the events of its user, each once. -/
namespace Redbox
namespace MailEvents

inductive MailPushEventType where
  | connected | heartbeat | created | updated | deleted | recalled | bulkUpdated | bulkDeleted
  deriving DecidableEq

inductive MailEventSource where
  | external | internal | user | admin
  deriving DecidableEq

structure MailPushEvent where
  type : MailPushEventType
  mailId : Option Id
  mailIds : Option (List Id)
  source : Option MailEventSource
  folder : Option String
  isRead : Option Bool
  count : Option Nat
  reason : Option String
  timestamp : Option Time
  deriving DecidableEq

structure RedisMailPushEvent extends MailPushEvent where
  userId : Id
  originId : Nat
  deriving DecidableEq

structure MessageEvent where
  type : MailPushEventType
  data : MailPushEvent
  deriving DecidableEq

def toMessageEvent (event : RedisMailPushEvent) : MessageEvent :=
  ⟨event.type, event.toMailPushEvent⟩

/-- A stream of a user, with the set of subscribers that it has joined and what it has sent. -/
structure Stream where
  server : Nat
  userId : Id
  userSubscribers : Nat
  isOpen : Bool
  received : List MessageEvent
  deriving DecidableEq

/-- `subscriber.next`, which does nothing once the stream is closed. -/
def Stream.next (x : Stream) (message : MessageEvent) : Stream :=
  if x.isOpen then { x with received := x.received ++ [message] } else x

/-- `subscribers`, which has a set for each user, and the set objects that there have been. -/
structure Subscribers where
  ofUser : Id → Option Nat
  sets : List (List Nat)

namespace Subscribers

def join (t : Subscribers) (userId : Id) (j : Nat) : Subscribers × Nat :=
  let (sets, userSubscribers) := match t.ofUser userId with
    | some userSubscribers => (t.sets, userSubscribers)
    | none => (t.sets ++ [[]], t.sets.length)
  (⟨Function.update t.ofUser userId (some userSubscribers),
    sets.modify userSubscribers (· ++ [j])⟩, userSubscribers)

/-- The stream leaves the set that it joined; the user loses his set if that one is empty now. -/
def leave (t : Subscribers) (userId : Id) (userSubscribers j : Nat) : Subscribers :=
  let sets := t.sets.modify userSubscribers (·.erase j)
  ⟨if sets[userSubscribers]? = some [] then Function.update t.ofUser userId none else t.ofUser,
    sets⟩

end Subscribers

structure Server where
  subscribers : Subscribers
  /-- Whether its connection takes part in the channel, and what has come over it. -/
  subscribed : Bool
  inbox : List RedisMailPushEvent
  /-- What it has to publish. -/
  outbox : List RedisMailPushEvent

/-- What is published goes to the servers that take part. -/
def Server.receive (server : Server) (event : RedisMailPushEvent) : Server :=
  if server.subscribed then { server with inbox := server.inbox ++ [event] } else server

structure Hub where
  clock : Time
  servers : List Server
  streams : List Stream

/-- Whatever may happen next. Numbers say which server or stream is meant. -/
inductive Action where
  | onModuleInit
  | disconnect (i : Nat)
  | reconnect (i : Nat)
  | streamForUser (i : Nat) (userId : Id)
  | heartbeat (j : Nat)
  | close (j : Nat)
  | emitToUser (i : Nat) (userId : Id) (event : MailPushEvent)
  | publish (i : Nat)
  | publishFails (i : Nat)
  | deliver (i : Nat)
  | tick (n : Nat)
  deriving DecidableEq

/-- An event of a server about its streams. -/
def ownEvent (type : MailPushEventType) (now : Time) : MessageEvent :=
  ⟨type, type, none, none, none, none, none, none, none, some now⟩

namespace Hub

def initial : Hub := ⟨0, [], []⟩

def streamForUser (s : Hub) (i : Nat) (userId : Id) (server : Server) : Hub :=
  let (subscribers, userSubscribers) := server.subscribers.join userId s.streams.length
  { s with
    servers := s.servers.set i { server with subscribers }
    streams := s.streams ++
      [⟨i, userId, userSubscribers, true, [ownEvent .connected s.clock]⟩] }

def close (s : Hub) (j : Nat) (x : Stream) : Hub :=
  { s with
    servers := s.servers.modify x.server fun server => { server with
      subscribers := server.subscribers.leave x.userId x.userSubscribers j }
    streams := s.streams.set j { x with isOpen := false } }

def deliverRedisEvent (s : Hub) (server : Server) (event : RedisMailPushEvent) : Hub :=
  match server.subscribers.ofUser event.userId with
  | none => s
  | some userSubscribers =>
    { s with
      streams := (server.subscribers.sets[userSubscribers]?.getD []).foldl
        (fun streams j => streams.modify j (·.next (toMessageEvent event))) s.streams }

def step (s : Hub) : Action → Hub
  | .onModuleInit => { s with servers := s.servers ++ [⟨⟨fun _ => none, []⟩, true, [], []⟩] }
  | .disconnect i => { s with
      servers := s.servers.modify i fun server => { server with subscribed := false, inbox := [] } }
  | .reconnect i => { s with
      servers := s.servers.modify i fun server => { server with subscribed := true } }
  | .streamForUser i userId => match s.servers[i]? with
    | some server => s.streamForUser i userId server
    | none => s
  | .heartbeat j => { s with
      streams := s.streams.modify j (·.next (ownEvent .heartbeat s.clock)) }
  | .close j => match s.streams[j]? with
    | some x => if x.isOpen then s.close j x else s
    | none => s
  | .emitToUser i userId event => { s with
      servers := s.servers.modify i fun server => { server with
        outbox := server.outbox ++
          [⟨{ event with timestamp := event.timestamp.getD s.clock }, userId, i⟩] } }
  | .publish i => match s.servers[i]?.bind (·.outbox.head?) with
    | some event => { s with
        servers := (s.servers.modify i fun server =>
          { server with outbox := server.outbox.tail }).map (·.receive event) }
    | none => s
  | .publishFails i => { s with
      servers := s.servers.modify i fun server => { server with outbox := server.outbox.tail } }
  | .deliver i => match s.servers[i]? with
    | some server => match server.inbox with
      | event :: inbox =>
        ({ s with servers := s.servers.set i { server with inbox } }).deliverRedisEvent server event
      | [] => s
    | none => s
  | .tick n => { s with clock := s.clock + n }

def run (s : Hub) (acts : List Action) : Hub := acts.foldl step s

/-- The event that the channel hands to a server in a step. -/
def hands (s : Hub) (i : Nat) : Action → Option RedisMailPushEvent
  | .deliver k => if k = i then s.servers[i]?.bind (·.inbox.head?) else none
  | _ => none

/-- The event that is published in a step. -/
def publishes (s : Hub) : Action → Option RedisMailPushEvent
  | .publish k => s.servers[k]?.bind (·.outbox.head?)
  | _ => none

/-- All events of a kind along a run, the oldest first. -/
def along (f : Hub → Action → Option RedisMailPushEvent) (s : Hub) :
    List Action → List RedisMailPushEvent
  | [] => []
  | act :: acts => (f s act).toList ++ along f (s.step act) acts

def inbox (s : Hub) (i : Nat) : List RedisMailPushEvent := (s.servers[i]?.map (·.inbox)).getD []

end Hub

/-- Where a stream is, and whether it is open. -/
structure Place where
  server : Nat
  userId : Id
  userSubscribers : Nat
  isOpen : Bool

def Stream.place (x : Stream) : Place := ⟨x.server, x.userId, x.userSubscribers, x.isOpen⟩

namespace Hub

def table (s : Hub) : Nat → Option Subscribers := fun i => s.servers[i]?.map (·.subscribers)

def place (s : Hub) : Nat → Option Place := fun j => s.streams[j]?.map Stream.place

end Hub

/-- A set holds the open streams that have joined it, each once, and it is the set of their user. -/
structure Inv (table : Nat → Option Subscribers) (place : Nat → Option Place) : Prop where
  members : ∀ i t r set, table i = some t → t.sets[r]? = some set → set.Nodup ∧
    ∀ j, j ∈ set ↔ ∃ u, place j = some ⟨i, u, r, true⟩
  current : ∀ j i u r, place j = some ⟨i, u, r, true⟩ →
    ∃ t, table i = some t ∧ t.ofUser u = some r
  allotted : ∀ i t u r, table i = some t → t.ofUser u = some r → r < t.sets.length
  apart : ∀ i t u u' r, table i = some t → t.ofUser u = some r → t.ofUser u' = some r → u = u'

section
variable {table : Nat → Option Subscribers} {place : Nat → Option Place} {t t' : Subscribers}
  {i j r : Nat} {u : Id}

theorem inv_initial : Inv Hub.initial.table Hub.initial.place := by
  constructor <;> simp [Hub.initial, Hub.table, Hub.place]

theorem Inv.ofUser (h : Inv table place) (hi : table i = some t)
    (hj : place j = some ⟨i, u, r, true⟩) : t.ofUser u = some r := by
  obtain ⟨t', ht', hu⟩ := h.current j i u r hj
  rwa [Option.some.inj (hi.symm.trans ht')]

theorem Inv.boot (h : Inv table place) (hi : table i = none) :
    Inv (Function.update table i (some ⟨fun _ => none, []⟩)) place := by
  have hcase : ∀ k t, Function.update table i (some ⟨fun _ => none, []⟩) k = some t →
      t = ⟨fun _ => none, []⟩ ∨ table k = some t := by
    intro k t hk
    by_cases hki : k = i
    · rw [hki, Function.update_self] at hk
      exact .inl (Option.some.inj hk).symm
    · rw [Function.update_of_ne hki] at hk
      exact .inr hk
  refine ⟨fun k t r set hk hset => ?_, fun j k u r hj => ?_, fun k t u r hk hu => ?_,
    fun k t u u' r hk hu hu' => ?_⟩
  · rcases hcase k t hk with rfl | hk
    · cases hset
    · exact h.members k t r set hk hset
  · obtain ⟨t, hk, hu⟩ := h.current j k u r hj
    refine ⟨t, ?_, hu⟩
    rwa [Function.update_of_ne]
    rintro rfl
    exact absurd (hi.symm.trans hk) nofun
  · rcases hcase k t hk with rfl | hk
    · cases hu
    · exact h.allotted k t u r hk hu
  · rcases hcase k t hk with rfl | hk
    · cases hu
    · exact h.apart k t u u' r hk hu hu'

/-- The sets of one server change, and one stream comes or goes. -/
theorem Inv.replace {p : Option Place} (h : Inv table place) (hi : table i = some t)
    (hp : ∀ q, p = some q → q.server = i) (hj : ∀ q, place j = some q → q.server = i)
    (members : ∀ r set, t'.sets[r]? = some set → set.Nodup ∧
      ∀ k, k ∈ set ↔ ∃ u, Function.update place j p k = some ⟨i, u, r, true⟩)
    (current : ∀ k u r, Function.update place j p k = some ⟨i, u, r, true⟩ → t'.ofUser u = some r)
    (allotted : ∀ u r, t'.ofUser u = some r → r < t'.sets.length)
    (apart : ∀ u u' r, t'.ofUser u = some r → t'.ofUser u' = some r → u = u') :
    Inv (Function.update table i (some t')) (Function.update place j p) := by
  have hcase : ∀ k t, Function.update table i (some t') k = some t →
      k = i ∧ t = t' ∨ k ≠ i ∧ table k = some t := by
    intro k t hk
    by_cases hki : k = i
    · rw [hki, Function.update_self] at hk
      exact .inl ⟨hki, (Option.some.inj hk).symm⟩
    · rw [Function.update_of_ne hki] at hk
      exact .inr ⟨hki, hk⟩
  -- the stream is on this server, so nothing changes on the others
  have hothers : ∀ m k u r, k ≠ i →
      (Function.update place j p m = some ⟨k, u, r, true⟩ ↔ place m = some ⟨k, u, r, true⟩) := by
    intro m k u r hki
    by_cases hmj : m = j
    · rw [hmj, Function.update_self]
      exact ⟨fun hm => absurd (hp _ hm) hki, fun hm => absurd (hj _ hm) hki⟩
    · rw [Function.update_of_ne hmj]
  refine ⟨fun k t r set hk hset => ?_, fun m k u r hm => ?_, fun k t u r hk hu => ?_,
    fun k t u u' r hk hu hu' => ?_⟩
  · obtain ⟨rfl, rfl⟩ | ⟨hki, hk⟩ := hcase k t hk
    · exact members r set hset
    · obtain ⟨hnodup, hmem⟩ := h.members k t r set hk hset
      exact ⟨hnodup, fun m => (hmem m).trans (exists_congr fun u => (hothers m k u r hki).symm)⟩
  · by_cases hki : k = i
    · subst hki
      exact ⟨t', Function.update_self .., current m u r hm⟩
    · obtain ⟨t, hk, hu⟩ := h.current m k u r ((hothers m k u r hki).mp hm)
      exact ⟨t, (Function.update_of_ne hki ..).trans hk, hu⟩
  · obtain ⟨rfl, rfl⟩ | ⟨hki, hk⟩ := hcase k t hk
    · exact allotted u r hu
    · exact h.allotted k t u r hk hu
  · obtain ⟨rfl, rfl⟩ | ⟨hki, hk⟩ := hcase k t hk
    · exact apart u u' r hu hu'
    · exact h.apart k t u u' r hk hu hu'

theorem getElem?_modify_eq_some {α : Type} {l : List α} {f : α → α} {m k : Nat} {b : α}
    (h : (l.modify m f)[k]? = some b) : m = k ∧ (∃ a, l[k]? = some a ∧ b = f a) ∨
      m ≠ k ∧ l[k]? = some b := by
  rw [List.getElem?_modify] at h
  split at h
  · rename_i hmk
    obtain ⟨a, ha, rfl⟩ := Option.map_eq_some_iff.mp h
    exact .inl ⟨hmk, a, ha, rfl⟩
  · rename_i hmk
    exact .inr ⟨hmk, (id_map _).symm.trans h⟩

/-- The place of a stream that is new. -/
theorem update_new {place : Nat → Option Place} {u' : Id} {r' k : Nat} (hj : place j = none) :
    Function.update place j (some ⟨i, u, r, true⟩) k = some ⟨i, u', r', true⟩ ↔
      k = j ∧ u = u' ∧ r = r' ∨ place k = some ⟨i, u', r', true⟩ := by
  by_cases hkj : k = j
  · rw [hkj, Function.update_self, hj, Option.some.injEq, Place.mk.injEq]
    simp
  · rw [Function.update_of_ne hkj]
    exact (or_iff_right fun hk => hkj hk.1).symm

/-- The stream is added to the set that its user has. -/
theorem Inv.joinSet (h : Inv table place) (hi : table i = some t) (hj : place j = none)
    (hr : t.ofUser u = some r) :
    Inv (Function.update table i (some ⟨t.ofUser, t.sets.modify r (· ++ [j])⟩))
      (Function.update place j (some ⟨i, u, r, true⟩)) := by
  refine h.replace hi (by rintro q ⟨⟩; rfl) (fun q hq => absurd (hj.symm.trans hq) nofun)
    (fun r' set hset => ?_) (fun k u' r' hk => ?_) (fun u' r' hu' => ?_)
    fun u' u'' r' => h.apart i t u' u'' r' hi
  · obtain ⟨rfl, old, hold, rfl⟩ | ⟨hrr, hold⟩ := getElem?_modify_eq_some hset
    · obtain ⟨hnodup, hmem⟩ := h.members i t r old hi hold
      refine ⟨List.nodup_append.mpr ⟨hnodup, List.nodup_singleton j, ?_⟩, fun k => ?_⟩
      · rintro a ha b hb rfl
        obtain ⟨u', hu'⟩ := (hmem a).mp ha
        rw [List.mem_singleton.mp hb, hj] at hu'
        cases hu'
      · simp only [update_new hj, exists_or, ← hmem, List.mem_append, List.mem_singleton]
        simp [or_comm]
    · obtain ⟨hnodup, hmem⟩ := h.members i t r' set hi hold
      refine ⟨hnodup, fun k => ?_⟩
      simp only [update_new hj, exists_or, ← hmem]
      simp [hrr]
  · rcases (update_new hj).mp hk with ⟨-, rfl, rfl⟩ | hk
    · exact hr
    · have hold := h.ofUser hi hk
      exact hold
  · rw [List.length_modify]
    exact h.allotted i t u' r' hi hu'

/-- A set is made for the stream. -/
theorem Inv.joinFresh (h : Inv table place) (hi : table i = some t) (hj : place j = none)
    (hnew : t.ofUser u = none) :
    Inv (Function.update table i
        (some ⟨Function.update t.ofUser u (some t.sets.length), t.sets ++ [[j]]⟩))
      (Function.update place j (some ⟨i, u, t.sets.length, true⟩)) := by
  have hofUser : ∀ u' r', Function.update t.ofUser u (some t.sets.length) u' = some r' →
      u' = u ∧ r' = t.sets.length ∨ t.ofUser u' = some r' ∧ r' < t.sets.length := by
    intro u' r' hu'
    by_cases hne : u' = u
    · rw [hne, Function.update_self] at hu'
      exact .inl ⟨hne, (Option.some.inj hu').symm⟩
    · rw [Function.update_of_ne hne] at hu'
      exact .inr ⟨hu', h.allotted i t u' r' hi hu'⟩
  refine h.replace hi (by rintro q ⟨⟩; rfl) (fun q hq => absurd (hj.symm.trans hq) nofun)
    (fun r' set hset => ?_) (fun k u' r' hk => ?_) (fun u' r' hu' => ?_)
    fun u' u'' r' hu' hu'' => ?_
  · rcases Nat.lt_or_ge r' t.sets.length with hlt | hge
    · rw [List.getElem?_append_left hlt] at hset
      obtain ⟨hnodup, hmem⟩ := h.members i t r' set hi hset
      refine ⟨hnodup, fun k => ?_⟩
      simp only [update_new hj, exists_or, ← hmem]
      simp [Nat.ne_of_gt hlt]
    · rw [List.getElem?_append_right hge, List.getElem?_singleton] at hset
      split at hset
      · rename_i hr'
        cases hset
        have hnobody : ∀ k, ¬ ∃ u', place k = some ⟨i, u', r', true⟩ := fun k ⟨u', hk⟩ =>
          Nat.not_lt.mpr hge (h.allotted i t u' r' hi (h.ofUser hi hk))
        refine ⟨List.nodup_singleton j, fun k => ?_⟩
        simp only [update_new hj, exists_or, hnobody, or_false, List.mem_singleton]
        simp [Nat.le_antisymm hge (Nat.sub_eq_zero_iff_le.mp hr')]
      · cases hset
  · rcases (update_new hj).mp hk with ⟨-, rfl, rfl⟩ | hk
    · exact Function.update_self ..
    · have hold := h.ofUser hi hk
      have hne : u' ≠ u := by
        rintro rfl
        exact absurd (hnew.symm.trans hold) nofun
      exact (Function.update_of_ne hne ..).trans hold
  · rw [List.length_append]
    rcases hofUser u' r' hu' with ⟨-, rfl⟩ | ⟨-, hlt⟩
    · exact Nat.lt_succ_self _
    · exact Nat.lt_succ_of_lt hlt
  · rcases hofUser u' r' hu' with ⟨rfl, rfl⟩ | ⟨hold, hlt⟩
    · rcases hofUser u'' _ hu'' with ⟨rfl, -⟩ | ⟨-, hlt⟩
      · rfl
      · exact absurd hlt (Nat.lt_irrefl _)
    · rcases hofUser u'' _ hu'' with ⟨-, rfl⟩ | ⟨hold', -⟩
      · exact absurd hlt (Nat.lt_irrefl _)
      · exact h.apart i t u' u'' r' hi hold hold'

theorem Inv.join (h : Inv table place) (hi : table i = some t) (hj : place j = none) (u : Id) :
    Inv (Function.update table i (some (t.join u j).1))
      (Function.update place j (some ⟨i, u, (t.join u j).2, true⟩)) := by
  cases hu : t.ofUser u with
  | some r =>
    have heq : t.join u j = (⟨t.ofUser, t.sets.modify r (· ++ [j])⟩, r) := by
      simp only [Subscribers.join, hu]
      rw [Function.update_eq_self_iff.mpr hu.symm]
    rw [heq]
    exact h.joinSet hi hj hu
  | none =>
    have hsets : (t.sets ++ [[]]).modify t.sets.length (· ++ [j]) = t.sets ++ [[j]] := by
      rw [List.modify_eq_take_cons_drop (by rw [List.length_append]; exact Nat.lt_succ_self _)]
      simp
    have heq : t.join u j = (⟨Function.update t.ofUser u (some t.sets.length), t.sets ++ [[j]]⟩,
        t.sets.length) := by
      simp only [Subscribers.join, hu]
      rw [hsets]
    rw [heq]
    exact h.joinFresh hi hj hu

theorem Inv.leave (h : Inv table place) (hi : table i = some t)
    (hj : place j = some ⟨i, u, r, true⟩) :
    Inv (Function.update table i (some (t.leave u r j)))
      (Function.update place j (some ⟨i, u, r, false⟩)) := by
  have hlt := h.allotted i t u r hi (h.ofUser hi hj)
  obtain ⟨hnodup, hmem⟩ := h.members i t r t.sets[r] hi (List.getElem?_eq_getElem hlt)
  have hset : (t.sets.modify r (·.erase j))[r]? = some (t.sets[r].erase j) := by
    rw [List.getElem?_modify_eq, List.getElem?_eq_getElem hlt]
    rfl
  -- a user keeps his set or loses it
  have hofUser : ∀ u' r', (t.leave u r j).ofUser u' = some r' → t.ofUser u' = some r' := by
    intro u' r' hu'
    unfold Subscribers.leave at hu'
    dsimp only at hu'
    split at hu'
    · by_cases hne : u' = u
      · rw [hne, Function.update_self] at hu'
        cases hu'
      · rwa [Function.update_of_ne hne] at hu'
    · exact hu'
  have hopen : ∀ k u' r', Function.update place j (some ⟨i, u, r, false⟩) k =
      some ⟨i, u', r', true⟩ ↔ k ≠ j ∧ place k = some ⟨i, u', r', true⟩ := by
    intro k u' r'
    by_cases hkj : k = j
    · rw [hkj, Function.update_self]
      exact iff_of_false nofun fun hk => hk.1 rfl
    · rw [Function.update_of_ne hkj]
      exact (and_iff_right hkj).symm
  refine h.replace hi (by rintro q ⟨⟩; rfl) (fun q hq => ?_) (fun r' set hset' => ?_)
    (fun k u' r' hk => ?_) (fun u' r' hu' => ?_)
    fun u' u'' r' hu' hu'' => h.apart i t u' u'' r' hi (hofUser u' r' hu') (hofUser u'' r' hu'')
  · rw [← Option.some.inj (hj.symm.trans hq)]
  · obtain ⟨rfl, old, hold, rfl⟩ | ⟨hrr, hold⟩ := getElem?_modify_eq_some hset'
    · rw [List.getElem?_eq_getElem hlt] at hold
      cases hold
      refine ⟨hnodup.erase j, fun k => ?_⟩
      rw [hnodup.mem_erase_iff, hmem]
      simp only [hopen, exists_and_left]
    · obtain ⟨hnodup', hmem'⟩ := h.members i t r' set hi hold
      refine ⟨hnodup', fun k => (hmem' k).trans (exists_congr fun u' => ?_)⟩
      rw [hopen]
      refine ⟨fun hk => ⟨?_, hk⟩, And.right⟩
      rintro rfl
      exact hrr (congrArg Place.userSubscribers (Option.some.inj (hj.symm.trans hk)))
  · obtain ⟨hkj, hplace⟩ := (hopen k u' r').mp hk
    have hold := h.ofUser hi hplace
    unfold Subscribers.leave
    dsimp only
    rw [hset]
    split
    · rename_i hempty
      have hne : u' ≠ u := by
        rintro rfl
        cases (h.ofUser hi hj).symm.trans hold
        have hin : k ∈ t.sets[r].erase j :=
          hnodup.mem_erase_iff.mpr ⟨hkj, (hmem k).mpr ⟨u', hplace⟩⟩
        rw [Option.some.inj hempty] at hin
        cases hin
      exact (Function.update_of_ne hne ..).trans hold
    · exact hold
  · have := h.allotted i t u' r' hi (hofUser u' r' hu')
    unfold Subscribers.leave
    dsimp only
    rwa [List.length_modify]

end

section
variable {s : Hub} {i j : Nat} {x : Stream} {server server' : Server}

theorem table_eq (h : s.servers[i]? = some server) : s.table i = some server.subscribers := by
  rw [Hub.table, h]
  rfl

theorem place_eq (h : s.streams[j]? = some x) : s.place j = some x.place := by
  rw [Hub.place, h]
  rfl

theorem map_set {α β : Type} {l : List α} {m : Nat} {a : α} (g : α → β) (h : m < l.length) :
    (fun k => (l.set m a)[k]?.map g) = Function.update (fun k => l[k]?.map g) m (some (g a)) := by
  funext k
  by_cases hk : k = m
  · rw [hk, Function.update_self, List.getElem?_set_self h]
    rfl
  · rw [Function.update_of_ne hk, List.getElem?_set_ne (Ne.symm hk)]

theorem map_append {α β : Type} {l : List α} {a : α} (g : α → β) :
    (fun k => (l ++ [a])[k]?.map g) =
      Function.update (fun k => l[k]?.map g) l.length (some (g a)) := by
  funext k
  rcases Nat.lt_trichotomy k l.length with hlt | rfl | hgt
  · rw [Function.update_of_ne (Nat.ne_of_lt hlt), List.getElem?_append_left hlt]
  · rw [Function.update_self, List.getElem?_append_right le_rfl, Nat.sub_self]
    rfl
  · rw [Function.update_of_ne (Nat.ne_of_gt hgt),
      List.getElem?_eq_none (by rw [List.length_append]; exact hgt),
      List.getElem?_eq_none (Nat.le_of_lt hgt)]

theorem map_modify {α β : Type} {l : List α} {m : Nat} {f : α → α} {g : α → β}
    (h : ∀ a, g (f a) = g a) :
    (fun k : Nat => (l.modify m f)[k]?.map g) = fun k : Nat => l[k]?.map g := by
  funext k
  rw [List.getElem?_modify, Option.map_eq_map, Option.map_map]
  refine congrArg (Option.map · _) (funext fun a => ?_)
  rw [Function.comp_apply]
  split
  · exact h a
  · rfl

theorem map_modify_some {α β : Type} {l : List α} {m : Nat} {f : α → α} {a : α} (g : α → β)
    (h : l[m]? = some a) :
    (fun k : Nat => (l.modify m f)[k]?.map g) =
      Function.update (fun k : Nat => l[k]?.map g) m (some (g (f a))) := by
  funext k
  by_cases hk : k = m
  · rw [hk, Function.update_self, List.getElem?_modify_eq, h]
    rfl
  · rw [Function.update_of_ne hk, List.getElem?_modify_ne _ _ (Ne.symm hk)]

theorem place_next (x : Stream) (message : MessageEvent) : (x.next message).place = x.place := by
  unfold Stream.next
  split <;> rfl

theorem foldl_modify {α : Type} (f : α → α) {set : List Nat} (h : set.Nodup) (l : List α) :
    (set.foldl (fun l j => l.modify j f) l)[j]? = if j ∈ set then l[j]?.map f else l[j]? := by
  induction set generalizing l with
  | nil => rfl
  | cons k set ih =>
    obtain ⟨hk, hset⟩ := List.nodup_cons.mp h
    rw [List.foldl_cons, ih hset]
    by_cases hkj : k = j
    · subst hkj
      rw [if_neg hk, List.getElem?_modify_eq, if_pos List.mem_cons_self]
      rfl
    · rw [List.getElem?_modify_ne _ _ hkj]
      simp [Ne.symm hkj]

theorem place_deliver (event : RedisMailPushEvent) :
    (s.deliverRedisEvent server event).place = s.place := by
  unfold Hub.deliverRedisEvent
  split
  · rfl
  · rename_i r _
    show (fun k => Option.map Stream.place _) = fun k => Option.map Stream.place _
    generalize server.subscribers.sets[r]?.getD [] = set
    generalize s.streams = streams
    induction set generalizing streams with
    | nil => rfl
    | cons k set ih => exact (ih _).trans (map_modify (place_next · _))

theorem table_deliver (event : RedisMailPushEvent) :
    (s.deliverRedisEvent server event).table = s.table := by
  unfold Hub.deliverRedisEvent
  split <;> rfl

theorem table_publish (event : RedisMailPushEvent) {servers : List Server} :
    (fun k : Nat => (((servers.modify i fun server => { server with
        outbox := server.outbox.tail }).map (·.receive event))[k]?.map (·.subscribers))) =
      fun k : Nat => servers[k]?.map (·.subscribers) := by
  refine Eq.trans ?_ (map_modify (m := i) (f := fun server : Server => { server with
    outbox := server.outbox.tail }) fun _ => rfl)
  funext k
  rw [List.getElem?_map, Option.map_map]
  refine congrArg (Option.map · _) (funext fun server => ?_)
  rw [Function.comp_apply, Server.receive]
  split <;> rfl

theorem Inv.step (h : Inv s.table s.place) (act : Action) :
    Inv (s.step act).table (s.step act).place := by
  cases act with
  | onModuleInit =>
    have htable : (s.step .onModuleInit).table =
        Function.update s.table s.servers.length (some ⟨fun _ => none, []⟩) := map_append _
    rw [htable]
    exact h.boot (Option.map_eq_none_iff.mpr (List.getElem?_eq_none le_rfl))
  | disconnect i => rwa [show (s.step (.disconnect i)).table = s.table from map_modify fun _ => rfl]
  | reconnect i => rwa [show (s.step (.reconnect i)).table = s.table from map_modify fun _ => rfl]
  | publishFails i =>
    rwa [show (s.step (.publishFails i)).table = s.table from map_modify fun _ => rfl]
  | emitToUser i userId event =>
    rwa [show (s.step (.emitToUser i userId event)).table = s.table from map_modify fun _ => rfl]
  | heartbeat j =>
    rwa [show (s.step (.heartbeat j)).place = s.place from map_modify (place_next · _)]
  | tick n => exact h
  | streamForUser i userId =>
    unfold Hub.step
    dsimp only
    split
    · rename_i server hi
      have htable : (s.streamForUser i userId server).table = Function.update s.table i
          (some (server.subscribers.join userId s.streams.length).1) :=
        map_set _ (List.getElem?_eq_some_iff.mp hi).1
      have hplace : (s.streamForUser i userId server).place = Function.update s.place
          s.streams.length
          (some ⟨i, userId, (server.subscribers.join userId s.streams.length).2, true⟩) :=
        map_append _
      rw [htable, hplace]
      exact h.join (table_eq hi) (Option.map_eq_none_iff.mpr (List.getElem?_eq_none le_rfl)) userId
    · exact h
  | close j =>
    unfold Hub.step
    dsimp only
    split
    · rename_i x hj
      split
      · rename_i hopen
        have hx : s.place j = some ⟨x.server, x.userId, x.userSubscribers, true⟩ :=
          (place_eq hj).trans (congrArg some (by rw [Stream.place, hopen]))
        obtain ⟨t, ht, -⟩ := h.current j _ _ _ hx
        obtain ⟨server, hi, rfl⟩ := Option.map_eq_some_iff.mp ht
        have htable : (s.close j x).table = Function.update s.table x.server
            (some (server.subscribers.leave x.userId x.userSubscribers j)) := map_modify_some _ hi
        have hplace : (s.close j x).place = Function.update s.place j
            (some ⟨x.server, x.userId, x.userSubscribers, false⟩) :=
          map_set _ (List.getElem?_eq_some_iff.mp hj).1
        rw [htable, hplace]
        exact h.leave ht hx
      · exact h
    · exact h
  | publish i =>
    unfold Hub.step
    dsimp only
    split
    · rename_i event _
      exact (congrArg (Inv · s.place) (table_publish event)).mpr h
    · exact h
  | deliver i =>
    unfold Hub.step
    dsimp only
    split
    · rename_i server hi
      split
      · rename_i event inbox _
        have htable : Hub.table { s with servers := s.servers.set i { server with inbox } } =
            Function.update s.table i (some server.subscribers) :=
          map_set _ (List.getElem?_eq_some_iff.mp hi).1
        rw [place_deliver, table_deliver, htable,
          Function.update_eq_self_iff.mpr (table_eq hi).symm]
        exact h
      · exact h
    · exact h

theorem inv_run (acts : List Action) (h : Inv s.table s.place) :
    Inv (s.run acts).table (s.run acts).place := by
  induction acts generalizing s with
  | nil => exact h
  | cons act acts ih => exact ih (h.step act)

end

/-- The events about mails, without those of the server about the stream. -/
def mails (messages : List MessageEvent) : List MessageEvent :=
  messages.filter fun m => decide (m.type ≠ .connected ∧ m.type ≠ .heartbeat)

/-- What a stream of the user is to be sent of the events. -/
def forUser (userId : Id) (events : List RedisMailPushEvent) : List MessageEvent :=
  mails ((events.filter (·.userId == userId)).map toMessageEvent)

section
variable {s : Hub} {i j : Nat} {x : Stream} {server : Server} {u : Id}

theorem mails_append (l l' : List MessageEvent) : mails (l ++ l') = mails l ++ mails l' :=
  List.filter_append ..

theorem forUser_append (l l' : List RedisMailPushEvent) :
    forUser u (l ++ l') = forUser u l ++ forUser u l' := by
  rw [forUser, List.filter_append, List.map_append, mails_append]
  rfl

theorem forUser_own {event : RedisMailPushEvent} (h : event.userId = u) :
    forUser u [event] = mails [toMessageEvent event] := by
  rw [forUser, List.filter_singleton, h, beq_self_eq_true]
  rfl

theorem forUser_other {event : RedisMailPushEvent} (h : event.userId ≠ u) :
    forUser u [event] = [] := by
  rw [forUser, List.filter_singleton, beq_false_of_ne h]
  rfl

/-- What has become of a stream: it is where it was, and has been sent these. -/
structure Goes (x y : Stream) (sent : List MessageEvent) : Prop where
  place : y.place = x.place
  sent : mails y.received = mails x.received ++ sent

theorem Goes.refl (x : Stream) : Goes x x [] := ⟨rfl, (List.append_nil _).symm⟩

theorem goes_next {message : MessageEvent} (h : x.isOpen = true) :
    Goes x (x.next message) (mails [message]) := by
  refine ⟨place_next x message, ?_⟩
  rw [Stream.next, if_pos h]
  exact mails_append _ _

/-- A stream that is open is sent what its server hands on for its user. -/
theorem goes_deliver {event : RedisMailPushEvent} (h : Inv s.table s.place)
    (hi : s.servers[i]? = some server) (hj : s.streams[j]? = some x) (hopen : x.isOpen = true) :
    ∃ y, (s.deliverRedisEvent server event).streams[j]? = some y ∧
      Goes x y (if x.server = i then forUser x.userId [event] else []) := by
  have hx : s.place j = some ⟨x.server, x.userId, x.userSubscribers, true⟩ :=
    (place_eq hj).trans (congrArg some (by rw [Stream.place, hopen]))
  have hown : x.server = i → server.subscribers.ofUser x.userId = some x.userSubscribers := by
    rintro rfl
    exact h.ofUser (table_eq hi) hx
  -- nothing is for a stream that is elsewhere or of another user
  have hothers : ¬ (x.server = i ∧ event.userId = x.userId) →
      (if x.server = i then forUser x.userId [event] else []) = [] := by
    intro hne
    split
    · rename_i hxi
      exact forUser_other fun hu => hne ⟨hxi, hu⟩
    · rfl
  unfold Hub.deliverRedisEvent
  split
  · rename_i hnone
    refine ⟨x, hj, ?_⟩
    rw [hothers]
    · exact .refl x
    · rintro ⟨hxi, hu⟩
      rw [hu, hown hxi] at hnone
      cases hnone
  · rename_i r hr
    have hlt := h.allotted i _ _ r (table_eq hi) hr
    obtain ⟨hnodup, hmem⟩ := h.members i _ r _ (table_eq hi) (List.getElem?_eq_getElem hlt)
    rw [List.getElem?_eq_getElem hlt]
    dsimp only [Option.getD_some]
    rw [foldl_modify _ hnodup, hj]
    split
    · rename_i hin
      obtain ⟨u, hu⟩ := (hmem j).mp hin
      obtain ⟨hxi, -, hxr, -⟩ := Place.mk.inj (Option.some.inj (hx.symm.trans hu))
      have huser := h.apart i _ _ _ _ (table_eq hi) hr (hxr ▸ hown hxi)
      refine ⟨_, rfl, ?_⟩
      rw [if_pos hxi, forUser_own huser]
      exact goes_next hopen
    · rename_i hout
      refine ⟨x, rfl, ?_⟩
      rw [hothers]
      · exact .refl x
      · rintro ⟨hxi, hu⟩
        rw [hu, hown hxi] at hr
        cases hr
        exact hout ((hmem j).mpr ⟨_, hxi ▸ hx⟩)

/-- Only its streams matter of the state in which a server hands on an event. -/
theorem streams_deliver (servers : List Server) (event : RedisMailPushEvent) :
    (Hub.deliverRedisEvent { s with servers } server event).streams =
      (s.deliverRedisEvent server event).streams := by
  unfold Hub.deliverRedisEvent
  split <;> rfl

theorem goes_modify {m : Nat} {f : Stream → Stream} (hj : s.streams[j]? = some x)
    (hf : Goes x (f x) []) : ∃ y, (s.streams.modify m f)[j]? = some y ∧ Goes x y [] := by
  by_cases hmj : m = j
  · rw [hmj, List.getElem?_modify_eq, hj]
    exact ⟨f x, rfl, hf⟩
  · rw [List.getElem?_modify_ne _ _ hmj]
    exact ⟨x, hj, .refl x⟩

theorem hands_none {k : Nat} (h : s.servers[i]?.bind (·.inbox.head?) = none) :
    s.hands k (.deliver i) = none := by
  rw [Hub.hands]
  split
  · rename_i hik
    rw [← hik, h]
  · rfl

theorem goes_step (h : Inv s.table s.place) (hj : s.streams[j]? = some x) (hopen : x.isOpen = true)
    {act : Action} (hact : act ≠ .close j) :
    ∃ y, (s.step act).streams[j]? = some y ∧
      Goes x y (forUser x.userId (s.hands x.server act).toList) := by
  have hsame : ∃ y, s.streams[j]? = some y ∧ Goes x y [] := ⟨x, hj, .refl x⟩
  cases act with
  | heartbeat m => exact goes_modify hj (goes_next hopen)
  | streamForUser i userId =>
    unfold Hub.step
    dsimp only
    split
    · exact ⟨x, (List.getElem?_append_left (List.getElem?_eq_some_iff.mp hj).1).trans hj, .refl x⟩
    · exact hsame
  | close m =>
    unfold Hub.step
    dsimp only
    split
    · split
      · refine ⟨x, ?_, .refl x⟩
        have hmj : m ≠ j := by
          rintro rfl
          exact hact rfl
        exact (List.getElem?_set_ne hmj).trans hj
      · exact hsame
    · exact hsame
  | publish i =>
    unfold Hub.step
    dsimp only
    split <;> exact hsame
  | deliver i =>
    unfold Hub.step
    dsimp only
    split
    · rename_i server hi
      split
      · rename_i event inbox hinbox
        obtain ⟨y, hy, hgoes⟩ := goes_deliver h hi hj hopen
        refine ⟨y, (congrArg (·[j]?) (streams_deliver _ event)).trans hy, ?_⟩
        convert hgoes using 1
        by_cases hxi : x.server = i
        · rw [if_pos hxi, Hub.hands, if_pos hxi.symm, hxi, hi, Option.bind_some, hinbox]
          rfl
        · rw [if_neg hxi, Hub.hands, if_neg (Ne.symm hxi)]
          rfl
      · rename_i hinbox
        rw [hands_none (by rw [hi, Option.bind_some, hinbox]; rfl)]
        exact hsame
    · rename_i hi
      rw [hands_none (by rw [hi]; rfl)]
      exact hsame
  | _ => exact hsame

theorem isOpen_of_goes {y : Stream} {sent : List MessageEvent} (h : Goes x y sent) :
    y.isOpen = x.isOpen :=
  congrArg Place.isOpen h.place

/-- Along a run in which the stream stays open. -/
theorem goes_run (h : Inv s.table s.place) (hj : s.streams[j]? = some x) (hopen : x.isOpen = true)
    {acts : List Action} (hacts : .close j ∉ acts) :
    ∃ y, (s.run acts).streams[j]? = some y ∧
      Goes x y (forUser x.userId (Hub.along (Hub.hands · x.server) s acts)) := by
  induction acts generalizing s x with
  | nil => exact ⟨x, hj, .refl x⟩
  | cons act acts ih =>
    obtain ⟨hact, hrest⟩ := not_or.mp (mt List.mem_cons.mpr hacts)
    obtain ⟨y, hy, hgoes⟩ := goes_step h hj hopen (Ne.symm hact)
    obtain ⟨z, hz, hgoes'⟩ := ih (h.step act) hy ((isOpen_of_goes hgoes).trans hopen) hrest
    have huser : y.userId = x.userId := congrArg Place.userId hgoes.place
    have hserver : y.server = x.server := congrArg Place.server hgoes.place
    refine ⟨z, hz, hgoes'.place.trans hgoes.place, ?_⟩
    rw [hgoes'.sent, hgoes.sent, huser, hserver, List.append_assoc, ← forUser_append]
    rfl

/-- A closed stream is sent nothing. -/
theorem closed_step (hj : s.streams[j]? = some x) (hclosed : x.isOpen = false) (act : Action) :
    (s.step act).streams[j]? = some x := by
  have hnext : ∀ message, x.next message = x := fun message => by
    rw [Stream.next, if_neg (by rw [hclosed]; decide)]
  have hmodify : ∀ m message (streams : List Stream), streams[j]? = some x →
      (streams.modify m (·.next message))[j]? = some x := by
    intro m message streams hx
    by_cases hmj : m = j
    · rw [hmj, List.getElem?_modify_eq, hx, Option.map_eq_map, Option.map_some, hnext]
    · exact (List.getElem?_modify_ne _ _ hmj).trans hx
  cases act with
  | heartbeat m => exact hmodify m _ _ hj
  | streamForUser i userId =>
    unfold Hub.step
    dsimp only
    split
    · exact (List.getElem?_append_left (List.getElem?_eq_some_iff.mp hj).1).trans hj
    · exact hj
  | close m =>
    unfold Hub.step
    dsimp only
    split
    · rename_i y hm
      split
      · rename_i hopen
        have hmj : m ≠ j := by
          rintro rfl
          cases hm.symm.trans hj
          exact absurd (hopen.symm.trans hclosed) nofun
        exact (List.getElem?_set_ne hmj).trans hj
      · exact hj
    · exact hj
  | publish i =>
    unfold Hub.step
    dsimp only
    split <;> exact hj
  | deliver i =>
    unfold Hub.step
    dsimp only
    split
    · rename_i server _
      split
      · rename_i event _ _
        rw [streams_deliver]
        unfold Hub.deliverRedisEvent
        split
        · exact hj
        · rename_i r _
          dsimp only
          generalize server.subscribers.sets[r]?.getD [] = set
          generalize s.streams = streams at hj
          induction set generalizing streams with
          | nil => exact hj
          | cons m set ih => exact ih _ (hmodify m _ streams hj)
      · exact hj
    · exact hj
  | _ => exact hj

theorem closed_run (hj : s.streams[j]? = some x) (hclosed : x.isOpen = false) (acts : List Action) :
    (s.run acts).streams[j]? = some x := by
  induction acts generalizing s with
  | nil => exact hj
  | cons act acts ih => exact ih (closed_step hj hclosed act)

/-- What the close does to the stream. -/
theorem close_step (hj : s.streams[j]? = some x) (hopen : x.isOpen = true) :
    (s.step (.close j)).streams[j]? = some { x with isOpen := false } := by
  simp only [Hub.step, hj, hopen, if_true]
  exact List.getElem?_set_self (List.getElem?_eq_some_iff.mp hj).1

/-- A new stream of the user. -/
theorem opened (s : Hub) (userId : Id) (h : i < s.servers.length) :
    ∃ x, (s.step (.streamForUser i userId)).streams[s.streams.length]? = some x ∧
      x.server = i ∧ x.userId = userId ∧ x.isOpen = true ∧ mails x.received = [] := by
  simp only [Hub.step, List.getElem?_eq_getElem h]
  exact ⟨_, List.getElem?_concat_length .., rfl, rfl, rfl, rfl⟩

end

/-- Until it is closed a stream is sent the events of its user that its server is handed, each once
and in their order, and no others. -/
theorem streams_exact (pre post : List Action) (i : Nat) (userId : Id)
    (h : i < (Hub.initial.run pre).servers.length) :
    let s := Hub.initial.run pre
    let j := s.streams.length
    ∃ x, (s.run (.streamForUser i userId :: post)).streams[j]? = some x ∧
      mails x.received = forUser userId (Hub.along (Hub.hands · i)
        (s.step (.streamForUser i userId)) (post.takeWhile (· ≠ .close j))) := by
  intro s j
  obtain ⟨x, hx, rfl, rfl, hopen, hnew⟩ := opened s userId h
  have hinv := (inv_run pre inv_initial).step (.streamForUser x.server x.userId)
  have hmem : .close j ∉ post.takeWhile (· ≠ .close j) := by
    intro hin
    have hkept := List.mem_takeWhile_imp hin
    exact absurd rfl (of_decide_eq_true hkept)
  obtain ⟨y, hy, hgoes⟩ := goes_run hinv hx hopen hmem
  have hsent := hgoes.sent
  rw [hnew, List.nil_append] at hsent
  have hsplit : (s.run (.streamForUser x.server x.userId :: post)) =
      ((s.step (.streamForUser x.server x.userId)).run (post.takeWhile (· ≠ .close j))).run
        (post.dropWhile (· ≠ .close j)) := by
    rw [Hub.run, Hub.run, Hub.run, ← List.foldl_append, List.takeWhile_append_dropWhile]
    rfl
  rw [hsplit]
  cases hrest : post.dropWhile (· ≠ .close j) with
  | nil => exact ⟨y, hy, hsent⟩
  | cons act rest =>
    have hact : act = .close j := by
      have := List.head?_dropWhile_not (· ≠ .close j) post
      rw [hrest] at this
      simpa using this
    rw [hact]
    have hclosed := close_step hy ((isOpen_of_goes hgoes).trans hopen)
    exact ⟨_, closed_run hclosed rfl rest, hsent⟩

def newMail : MailPushEvent :=
  ⟨.created, some 3, none, some .external, none, none, none, none, none⟩

theorem streams_exact_two_users :
    ∃ x, (Hub.initial.run [.onModuleInit, .streamForUser 0 7, .emitToUser 0 7 newMail,
      .emitToUser 0 8 newMail, .publish 0, .publish 0, .deliver 0, .deliver 0]).streams[0]? =
        some x ∧
      mails x.received = [⟨.created, { newMail with timestamp := some 0 }⟩] :=
  streams_exact [.onModuleInit] [.emitToUser 0 7 newMail, .emitToUser 0 8 newMail, .publish 0,
    .publish 0, .deliver 0, .deliver 0] 0 7 (by decide)

section
variable {s : Hub} {i : Nat} {server server' : Server}

/-- What a server still has to hand on. -/
structure Keeps (server server' : Server) (handed published : List RedisMailPushEvent) : Prop where
  subscribed : server'.subscribed = server.subscribed
  inbox : handed ++ server'.inbox = server.inbox ++ published

theorem Keeps.refl (server : Server) : Keeps server server [] [] :=
  ⟨rfl, (List.append_nil _).symm⟩

theorem keeps_modify {m : Nat} {f : Server → Server} (hi : s.servers[i]? = some server)
    (hf : m = i → Keeps server (f server) [] []) :
    ∃ server', (s.servers.modify m f)[i]? = some server' ∧ Keeps server server' [] [] := by
  by_cases hmi : m = i
  · rw [hmi, List.getElem?_modify_eq, hi]
    exact ⟨f server, rfl, hf hmi⟩
  · rw [List.getElem?_modify_ne _ _ hmi]
    exact ⟨server, hi, .refl server⟩

theorem keeps_set {m : Nat} (hi : s.servers[i]? = some server)
    (hf : m = i → Keeps server server' [] []) :
    ∃ server'', (s.servers.set m server')[i]? = some server'' ∧ Keeps server server'' [] [] := by
  by_cases hmi : m = i
  · subst hmi
    exact ⟨server', List.getElem?_set_self (List.getElem?_eq_some_iff.mp hi).1, hf rfl⟩
  · exact ⟨server, (List.getElem?_set_ne hmi).trans hi, .refl server⟩

theorem servers_deliver (event : RedisMailPushEvent) :
    (s.deliverRedisEvent server event).servers = s.servers := by
  unfold Hub.deliverRedisEvent
  split <;> rfl

theorem keeps_step (hi : s.servers[i]? = some server) (hsub : server.subscribed = true)
    (act : Action) (hact : act ≠ .disconnect i) :
    ∃ server', (s.step act).servers[i]? = some server' ∧
      Keeps server server' (s.hands i act).toList (s.publishes act).toList := by
  cases act with
  | onModuleInit =>
    exact ⟨server, (List.getElem?_append_left (List.getElem?_eq_some_iff.mp hi).1).trans hi,
      .refl server⟩
  | disconnect m =>
    apply keeps_modify hi
    rintro rfl
    exact absurd rfl hact
  | reconnect m =>
    apply keeps_modify hi
    exact fun _ => ⟨hsub.symm, (List.append_nil _).symm⟩
  | publishFails m =>
    apply keeps_modify hi
    exact fun _ => ⟨rfl, (List.append_nil _).symm⟩
  | emitToUser m userId event =>
    apply keeps_modify hi
    exact fun _ => ⟨rfl, (List.append_nil _).symm⟩
  | streamForUser m userId =>
    dsimp only [Hub.step]
    split
    · rename_i server' hm
      apply keeps_set hi
      rintro rfl
      cases hm.symm.trans hi
      exact ⟨rfl, (List.append_nil _).symm⟩
    · exact ⟨server, hi, .refl server⟩
  | close j =>
    dsimp only [Hub.step]
    split
    · split
      · apply keeps_modify hi
        exact fun _ => ⟨rfl, (List.append_nil _).symm⟩
      · exact ⟨server, hi, .refl server⟩
    · exact ⟨server, hi, .refl server⟩
  | publish m =>
    dsimp only [Hub.step, Hub.publishes]
    split
    · rename_i event hevent
      obtain ⟨server', hserver', hkeeps⟩ := keeps_modify (m := m)
        (f := fun server => { server with outbox := server.outbox.tail }) hi
        fun _ => ⟨rfl, (List.append_nil _).symm⟩
      refine ⟨server'.receive event, ?_, ?_⟩
      · rw [List.getElem?_map, hserver']
        rfl
      · have hreceive : server'.receive event =
            { server' with inbox := server'.inbox ++ [event] } :=
          if_pos (hkeeps.subscribed.trans hsub)
        rw [hreceive, hevent]
        refine ⟨hkeeps.subscribed, ?_⟩
        rw [← show server'.inbox = server.inbox from hkeeps.inbox.trans (List.append_nil _)]
        rfl
    · rename_i hnone
      rw [hnone]
      exact ⟨server, hi, .refl server⟩
  | deliver m =>
    dsimp only [Hub.step]
    split
    · rename_i server' hm
      split
      · rename_i event inbox hinbox
        rw [servers_deliver]
        by_cases hmi : m = i
        · subst hmi
          cases hm.symm.trans hi
          refine ⟨_, List.getElem?_set_self (List.getElem?_eq_some_iff.mp hi).1, rfl, ?_⟩
          rw [Hub.hands, if_pos rfl, hi, Option.bind_some, hinbox]
          exact (List.append_nil _).symm
        · rw [Hub.hands, if_neg hmi]
          exact ⟨server, (List.getElem?_set_ne hmi).trans hi, .refl server⟩
      · rename_i hinbox
        rw [hands_none (by rw [hm, Option.bind_some, hinbox]; rfl)]
        exact ⟨server, hi, .refl server⟩
    · rename_i hm
      rw [hands_none (by rw [hm]; rfl)]
      exact ⟨server, hi, .refl server⟩
  | _ => exact ⟨server, hi, .refl server⟩

/-- While a server takes part in the channel, what is published is handed on or waits. -/
theorem keeps_run (hi : s.servers[i]? = some server) (hsub : server.subscribed = true)
    {acts : List Action} (hacts : .disconnect i ∉ acts) :
    ∃ server', (s.run acts).servers[i]? = some server' ∧
      Keeps server server' (Hub.along (Hub.hands · i) s acts) (Hub.along Hub.publishes s acts) := by
  induction acts generalizing s server with
  | nil => exact ⟨server, hi, .refl server⟩
  | cons act acts ih =>
    obtain ⟨hact, hrest⟩ := not_or.mp (mt List.mem_cons.mpr hacts)
    obtain ⟨next, hnext, hstep⟩ := keeps_step hi hsub act (Ne.symm hact)
    obtain ⟨last, hlast, hrun⟩ := ih hnext (hstep.subscribed.trans hsub) hrest
    refine ⟨last, hlast, hrun.subscribed.trans hstep.subscribed, ?_⟩
    calc (s.hands i act).toList ++ Hub.along (Hub.hands · i) (s.step act) acts ++ last.inbox
        = (s.hands i act).toList ++ (next.inbox ++ Hub.along Hub.publishes (s.step act) acts) := by
          rw [List.append_assoc, hrun.inbox]
      _ = server.inbox ++ ((s.publishes act).toList ++
            Hub.along Hub.publishes (s.step act) acts) := by
          rw [← List.append_assoc, hstep.inbox, List.append_assoc]

end

/-- While its server takes part in the channel and it stays open, a stream is sent all that is
published for its user, in the order of the channel, but for what still waits. -/
theorem no_event_lost (pre post : List Action) (i : Nat) (userId : Id) (server : Server)
    (hi : (Hub.initial.run pre).servers[i]? = some server) (hsub : server.subscribed = true)
    (hconnected : .disconnect i ∉ post)
    (hopen : .close (Hub.initial.run pre).streams.length ∉ post) :
    let s := (Hub.initial.run pre).step (.streamForUser i userId)
    ∃ x server', (s.run post).streams[(Hub.initial.run pre).streams.length]? = some x ∧
      (s.run post).servers[i]? = some server' ∧
      mails x.received ++ forUser userId server'.inbox =
        forUser userId (server.inbox ++ Hub.along Hub.publishes s post) := by
  intro s
  obtain ⟨x, hx, rfl, rfl, hx_open, hnew⟩ := opened (Hub.initial.run pre) userId
    (List.getElem?_eq_some_iff.mp hi).1
  have hinv := (inv_run pre inv_initial).step (.streamForUser x.server x.userId)
  obtain ⟨y, hy, hgoes⟩ := goes_run hinv hx hx_open hopen
  obtain ⟨next, hnext, hstep⟩ := keeps_step hi hsub (.streamForUser x.server x.userId) nofun
  obtain ⟨last, hlast, hrun⟩ := keeps_run hnext (hstep.subscribed.trans hsub) hconnected
  have hinbox : next.inbox = server.inbox := hstep.inbox.trans (List.append_nil _)
  refine ⟨y, last, hy, hlast, ?_⟩
  rw [hgoes.sent, hnew, List.nil_append, ← forUser_append, hrun.inbox, hinbox]

theorem no_event_lost_two_servers :
    ∃ x server', (Hub.initial.run [.onModuleInit, .onModuleInit, .streamForUser 0 7,
      .emitToUser 1 7 newMail, .publish 1]).streams[0]? = some x ∧
      (Hub.initial.run [.onModuleInit, .onModuleInit, .streamForUser 0 7,
        .emitToUser 1 7 newMail, .publish 1]).servers[0]? = some server' ∧
      mails x.received ++ forUser 7 server'.inbox =
        [⟨.created, { newMail with timestamp := some 0 }⟩] :=
  no_event_lost [.onModuleInit, .onModuleInit] [.emitToUser 1 7 newMail, .publish 1] 0 7 _ rfl rfl
    (by decide) (by decide)

end MailEvents
end Redbox
