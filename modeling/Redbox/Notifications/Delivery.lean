import Redbox.Notifications.NotificationHub
import Mathlib.Data.List.Basic

/-! Every stream receives every notification, in its snapshot or as an event. -/
namespace Redbox
namespace Notifications

variable {s : Hub} {x y : Stream} {i : Nat} {n : SystemNotificationPayload}
  {event : SystemNotificationEvent}

/-- The user has been told of the notification. -/
def Stream.HasReceived (x : Stream) (n : SystemNotificationPayload) : Prop :=
  ∃ event ∈ x.received, match event with
    | .created _ m => m = n
    | .snapshot _ ns => n ∈ ns
    | _ => False

/-- The stream goes on: what it had received it still has, and the answer to its query is not lost.
-/
structure Stream.GoesOn (x y : Stream) : Prop where
  server : y.server = x.server
  isOpen : y.isOpen = true → x.isOpen = true
  received : ∀ event ∈ x.received, event ∈ y.received
  answer : ∀ ns, x.snapshot = .answered ns → y.isOpen = true → y.snapshot = .answered ns ∨ ∀ n ∈ ns,
    y.HasReceived n

theorem Stream.GoesOn.refl (x : Stream) : x.GoesOn x := ⟨rfl, id, fun _ h => h, fun _ h _ => .inl h⟩

theorem Stream.GoesOn.hasReceived (h : x.GoesOn y) (hx : x.HasReceived n) : y.HasReceived n :=
  hx.imp fun _ he => ⟨h.received _ he.1, he.2⟩

theorem Stream.goesOn_next (x : Stream) (event : SystemNotificationEvent) :
    x.GoesOn (x.next event) := by
  unfold Stream.next
  split
  · exact ⟨rfl, id, fun _ h => List.mem_cons_of_mem _ h, fun _ h _ => .inl h⟩
  · exact .refl x

theorem Stream.next_received (h : (x.next event).isOpen = true) :
    event ∈ (x.next event).received := by
  unfold Stream.next at h ⊢
  split
  · exact List.mem_cons_self
  · rename_i hclosed
    rw [if_neg hclosed] at h
    exact absurd h hclosed

theorem getElem?_modify {α : Type} {l : List α} {f : α → α} {k : Nat} {a : α} (h : l[i]? = some a) :
    (l.modify k f)[i]? = some (if k = i then f a else a) := by
  rw [List.getElem?_modify, h]
  rfl

/-- Each stream goes on in every step. -/
theorem step_goesOn (s : Hub) (act : Action) (h : s.streams[i]? = some x) :
    ∃ y, (s.step act).streams[i]? = some y ∧ x.GoesOn y := by
  have hdeliver : ∀ (t : Hub) server event, t.streams = s.streams →
      ∃ y, (t.deliverRedisEvent server event).streams[i]? = some y ∧ x.GoesOn y := by
    intro t server event ht
    refine ⟨if x.server = server then x.next event else x, ?_, ?_⟩
    · simp [Hub.deliverRedisEvent, ht, h]
    · split
      · exact x.goesOn_next event
      · exact .refl x
  have hmodify : ∀ (k : Nat) (f : Stream → Stream), x.GoesOn (f x) →
      ∃ y, (s.streams.modify k f)[i]? = some y ∧ x.GoesOn y := by
    intro k f hf
    refine ⟨_, getElem?_modify h, ?_⟩
    split
    · exact hf
    · exact .refl x
  have hsame : ∃ y, s.streams[i]? = some y ∧ x.GoesOn y := ⟨x, h, .refl x⟩
  cases act with
  | onModuleInit server => exact hsame
  | createNotification server adminUserId dto =>
    simp only [Hub.step]
    split
    · exact hsame
    · exact hsame
  | commit k =>
    simp only [Hub.step]
    split
    · exact hsame
    · exact hsame
  | rollback k => exact hsame
  | emit k =>
    simp only [Hub.step]
    split
    · exact hdeliver _ _ _ rfl
    · exact hsame
  | publish k =>
    simp only [Hub.step]
    split
    · exact hsame
    · exact hsame
  | deliver k =>
    simp only [Hub.step]
    split
    · exact hdeliver _ _ _ rfl
    · exact hsame
  | stream server =>
    simp only [Hub.step]
    split
    · have hi : i < s.streams.length := (List.getElem?_eq_some_iff.mp h).1
      exact ⟨x, (List.getElem?_append_left hi).trans h, .refl x⟩
    · exact hsame
  | query k =>
    refine hmodify k _ ?_
    rw [Stream.query]
    split
    · rename_i now hasked
      exact ⟨rfl, id, fun _ h => h, fun ns hns _ => by cases hasked.symm.trans hns⟩
    · exact .refl x
  | snapshot k =>
    refine hmodify k _ ?_
    rw [Stream.sendSnapshot]
    split
    · rename_i ns hns
      have hnext := x.goesOn_next (.snapshot s.clock ns)
      refine ⟨hnext.server, hnext.isOpen, hnext.received, fun ns' hns' hopen => .inr fun n hn => ?_⟩
      cases hns.symm.trans hns'
      exact ⟨_, Stream.next_received hopen, hn⟩
    · exact .refl x
  | heartbeat k => exact hmodify k _ (x.goesOn_next _)
  | close k =>
    refine hmodify k _ ⟨rfl, fun h => ?_, fun _ h => h, fun _ _ h => ?_⟩
    · cases h
    · cases h
  | tick n => exact hsame

/-- Streams belong to servers that have subscribed, and no query has been asked in the future. -/
structure Wired (s : Hub) : Prop where
  server : ∀ x ∈ s.streams, x.server ∈ s.servers
  asked : ∀ x ∈ s.streams, ∀ now, x.snapshot = .asked now → now ≤ s.clock

theorem Stream.next_fields (x : Stream) (event : SystemNotificationEvent) :
    (x.next event).server = x.server ∧ (x.next event).snapshot = x.snapshot := by
  unfold Stream.next
  split
  · exact ⟨rfl, rfl⟩
  · exact ⟨rfl, rfl⟩

/-- The streams of a step are those of the state before, each changed in what it has received or
been answered, or a new one. -/
theorem Wired.of_streams {t : Hub} (h : Wired s) (hservers : ∀ p ∈ s.servers, p ∈ t.servers)
    (hclock : s.clock ≤ t.clock) (hstreams : ∀ y ∈ t.streams,
      (∃ x ∈ s.streams, y.server = x.server ∧ ∀ now, y.snapshot = .asked now →
      x.snapshot = .asked now) ∨
      y.server ∈ t.servers ∧ ∀ now, y.snapshot = .asked now → now ≤ t.clock) : Wired t := by
  refine ⟨fun y hy => ?_, fun y hy now hnow => ?_⟩
  · rcases hstreams y hy with ⟨x, hx, hserver, -⟩ | ⟨hserver, -⟩
    · exact hserver ▸ hservers _ (h.server x hx)
    · exact hserver
  · rcases hstreams y hy with ⟨x, hx, -, hasked⟩ | ⟨-, hasked⟩
    · exact Nat.le_trans (h.asked x hx now (hasked now hnow)) hclock
    · exact hasked now hnow

theorem Wired.step (h : Wired s) (act : Action) : Wired (s.step act) := by
  have hsame : ∀ {t : Hub}, t.streams = s.streams → (∀ p ∈ s.servers, p ∈ t.servers) →
      s.clock ≤ t.clock → Wired t :=
    fun ht hservers hclock => h.of_streams hservers hclock fun y hy =>
      .inl ⟨y, ht ▸ hy, rfl, fun _ h => h⟩
  have hmap : ∀ {t : Hub} (f : Stream → Stream), t.streams = s.streams.map f →
    t.servers = s.servers → t.clock = s.clock →
      (∀ x, (f x).server = x.server ∧ ∀ now, (f x).snapshot = .asked now →
        x.snapshot = .asked now) → Wired t := by
    intro t f ht hservers hclock hf
    refine h.of_streams (fun _ hp => hservers ▸ hp) (Nat.le_of_eq hclock.symm) fun y hy => .inl ?_
    rw [ht] at hy
    obtain ⟨x, hx, rfl⟩ := List.mem_map.mp hy
    exact ⟨x, hx, hf x⟩
  have hmodify : ∀ (k : Nat) (f : Stream → Stream),
    (∀ x, (f x).server = x.server ∧ ∀ now, (f x).snapshot = .asked now →
      x.snapshot = .asked now) → Wired { s with streams := s.streams.modify k f } := by
    intro k f hf
    refine h.of_streams (fun _ hp => hp) (Nat.le_refl _) fun y hy => .inl ?_
    obtain ⟨j, hj⟩ := List.mem_iff_getElem?.mp hy
    simp only [List.getElem?_modify, Option.map_eq_map, Option.map_eq_some_iff] at hj
    obtain ⟨x, hx, rfl⟩ := hj
    refine ⟨x, List.mem_of_getElem? hx, ?_⟩
    split
    · exact hf x
    · exact ⟨rfl, fun _ h => h⟩
  have hgiven : ∀ server event (x : Stream),
    (if x.server = server then x.next event else x).server = x.server ∧
      ∀ now, (if x.server = server then x.next event else x).snapshot = .asked now →
        x.snapshot = .asked now := by
    intro server event x
    split
    · exact ⟨(x.next_fields event).1, fun now h => (x.next_fields event).2 ▸ h⟩
    · exact ⟨rfl, fun _ h => h⟩
  cases act with
  | onModuleInit server => exact hsame rfl (fun _ hp => List.mem_cons_of_mem _ hp) (Nat.le_refl _)
  | createNotification server adminUserId dto =>
    simp only [Hub.step]
    split
    · exact hsame rfl (fun _ hp => hp) (Nat.le_refl _)
    · exact h
  | commit k =>
    simp only [Hub.step]
    split
    · exact hsame rfl (fun _ hp => hp) (Nat.le_refl _)
    · exact h
  | rollback k => exact hsame rfl (fun _ hp => hp) (Nat.le_refl _)
  | emit k =>
    simp only [Hub.step]
    split
    · exact hmap _ rfl rfl rfl (hgiven _ _)
    · exact h
  | publish k =>
    simp only [Hub.step]
    split
    · exact hsame rfl (fun _ hp => hp) (Nat.le_refl _)
    · exact h
  | deliver k =>
    simp only [Hub.step]
    split
    · exact hmap _ rfl rfl rfl (hgiven _ _)
    · exact h
  | stream server =>
    simp only [Hub.step]
    split
    · rename_i hserver
      refine h.of_streams (fun _ hp => hp) (Nat.le_refl _) fun y hy => ?_
      rcases List.mem_append.mp hy with hy | hy
      · exact .inl ⟨y, hy, rfl, fun _ h => h⟩
      · cases List.mem_singleton.mp hy
        refine .inr ⟨hserver, fun now hnow => ?_⟩
        cases hnow
        exact Nat.le_refl _
    · exact h
  | query k =>
    refine hmodify k _ fun x => ?_
    rw [Stream.query]
    split
    · exact ⟨rfl, fun now h => by cases h⟩
    · exact ⟨rfl, fun _ h => h⟩
  | snapshot k =>
    refine hmodify k _ fun x => ?_
    rw [Stream.sendSnapshot]
    split
    · exact ⟨(x.next_fields _).1, fun now h => by cases h⟩
    · exact ⟨rfl, fun _ h => h⟩
  | heartbeat k =>
    exact hmodify k _ fun x => ⟨(x.next_fields _).1, fun now h => (x.next_fields _).2 ▸ h⟩
  | close k => exact hmodify k _ fun x => ⟨rfl, fun _ h => h⟩
  | tick n => exact hsame rfl (fun _ hp => hp) (Nat.le_add_right _ _)

/-- The stream is closed, or its user has been told of the notification or is going to be. -/
def Stream.Reaches (s : Hub) (x : Stream) (n : SystemNotificationPayload) : Prop :=
  x.isOpen = true → x.HasReceived n ∨ (∃ ns, x.snapshot = .answered ns ∧ n ∈ ns) ∨
    (∃ server, (server, n) ∈ s.commits) ∨
    (∃ t, .created t n ∈ s.publications) ∨ ∃ t, (x.server, .created t n) ∈ s.channel

theorem mem_eraseIdx_or {α : Type} {l : List α} {k : Nat} {a b : α} (h : a ∈ l)
    (hk : l[k]? = some b) : a = b ∨ a ∈ l.eraseIdx k := by
  obtain ⟨j, hj⟩ := List.mem_iff_getElem?.mp h
  by_cases hjk : j = k
  · subst hjk
    exact .inl (Option.some.inj (hj.symm.trans hk))
  · exact .inr (List.mem_eraseIdx_iff_getElem?.mpr ⟨j, hjk, hj⟩)

/-- What is on its way stays so, as far as a step does not touch it. -/
theorem Stream.Reaches.goesOn {t : Hub} (h : x.Reaches s n) (hxy : x.GoesOn y)
    (hcommits : s.commits ⊆ t.commits) (hpublications : s.publications ⊆ t.publications)
    (hchannel : s.channel ⊆ t.channel) : y.Reaches t n := by
  intro hopen
  rcases h (hxy.isOpen hopen) with hr | ⟨ns, hns, hn⟩ | ⟨server, hc⟩ | ⟨time, hp⟩ | ⟨time, hd⟩
  · exact .inl (hxy.hasReceived hr)
  · rcases hxy.answer ns hns hopen with hns' | hall
    · exact .inr (.inl ⟨ns, hns', hn⟩)
    · exact .inl (hall n hn)
  · exact .inr (.inr (.inl ⟨server, hcommits hc⟩))
  · exact .inr (.inr (.inr (.inl ⟨time, hpublications hp⟩)))
  · exact .inr (.inr (.inr (.inr ⟨time, hxy.server ▸ hchannel hd⟩)))

/-- A notification on its way to a stream gets there or goes on. -/
theorem Stream.Reaches.step (h : x.Reaches s n) (hs : Wired s) (hx : s.streams[i]? = some x)
    (act : Action) :
    ∃ y, (s.step act).streams[i]? = some y ∧ y.Reaches (s.step act) n := by
  obtain ⟨y, hy, hxy⟩ := step_goesOn s act hx
  refine ⟨y, hy, ?_⟩
  have hsame : ∀ {t : Hub}, t.commits = s.commits → t.publications = s.publications →
      t.channel = s.channel → y.Reaches t n :=
    fun hc hp hd => h.goesOn hxy (fun _ h => hc ▸ h) (fun _ h => hp ▸ h) fun _ h => hd ▸ h
  cases act with
  | onModuleInit server => exact hsame rfl rfl rfl
  | createNotification server adminUserId dto =>
    simp only [Hub.step]
    split
    · exact hsame rfl rfl rfl
    · exact hsame rfl rfl rfl
  | commit k =>
    simp only [Hub.step]
    split
    · exact h.goesOn hxy (fun _ h => List.mem_append_left _ h) (fun _ h => h) fun _ h => h
    · exact hsame rfl rfl rfl
  | rollback k => exact hsame rfl rfl rfl
  | emit k =>
    simp only [Hub.step] at hy ⊢
    split at hy
    · rename_i server m hk
      intro hopen
      rcases h (hxy.isOpen hopen) with hr | ⟨ns, hns, hn⟩ | ⟨server', hc⟩ | ⟨time, hp⟩ | ⟨time, hd⟩
      · exact .inl (hxy.hasReceived hr)
      · rcases hxy.answer ns hns hopen with hns' | hall
        · exact .inr (.inl ⟨ns, hns', hn⟩)
        · exact .inl (hall n hn)
      · rcases mem_eraseIdx_or hc hk with heq | hc
        · obtain ⟨-, rfl⟩ := Prod.mk.inj heq
          exact .inr (.inr (.inr (.inl ⟨s.clock, List.mem_append_right _ List.mem_cons_self⟩)))
        · exact .inr (.inr (.inl ⟨server', hc⟩))
      · exact .inr (.inr (.inr (.inl ⟨time, List.mem_append_left _ hp⟩)))
      · exact .inr (.inr (.inr (.inr ⟨time, hxy.server ▸ hd⟩)))
    · rename_i hk
      exact hsame rfl rfl rfl
  | publish k =>
    simp only [Hub.step]
    split
    · rename_i event hk
      intro hopen
      rcases h (hxy.isOpen hopen) with hr | ⟨ns, hns, hn⟩ | hc | ⟨time, hp⟩ | ⟨time, hd⟩
      · exact .inl (hxy.hasReceived hr)
      · rcases hxy.answer ns hns hopen with hns' | hall
        · exact .inr (.inl ⟨ns, hns', hn⟩)
        · exact .inl (hall n hn)
      · exact .inr (.inr (.inl hc))
      · rcases mem_eraseIdx_or hp hk with rfl | hp
        · refine .inr (.inr (.inr (.inr ⟨time,
            List.mem_append_right _ (List.mem_map.mpr ⟨y.server, ?_, rfl⟩)⟩)))
          exact hxy.server ▸ hs.server x (List.mem_of_getElem? hx)
        · exact .inr (.inr (.inr (.inl ⟨time, hp⟩)))
      · exact .inr (.inr (.inr (.inr ⟨time, List.mem_append_left _ (hxy.server ▸ hd)⟩)))
    · exact hsame rfl rfl rfl
  | deliver k =>
    simp only [Hub.step] at hy ⊢
    split at hy
    · rename_i server event hk
      intro hopen
      rcases h (hxy.isOpen hopen) with hr | ⟨ns, hns, hn⟩ | hc | hp | ⟨time, hd⟩
      · exact .inl (hxy.hasReceived hr)
      · rcases hxy.answer ns hns hopen with hns' | hall
        · exact .inr (.inl ⟨ns, hns', hn⟩)
        · exact .inl (hall n hn)
      · exact .inr (.inr (.inl hc))
      · exact .inr (.inr (.inr (.inl hp)))
      · rcases mem_eraseIdx_or hd hk with heq | hd
        · obtain ⟨rfl, rfl⟩ := Prod.mk.inj heq
          have hyx : y = x.next (.created time n) := by
            simp [Hub.deliverRedisEvent, hx] at hy
            exact hy.symm
          subst hyx
          exact .inl ⟨_, Stream.next_received hopen, rfl⟩
        · exact .inr (.inr (.inr (.inr ⟨time, hxy.server ▸ hd⟩)))
    · rename_i hk
      exact hsame rfl rfl rfl
  | stream server =>
    simp only [Hub.step]
    split
    · exact hsame rfl rfl rfl
    · exact hsame rfl rfl rfl
  | query k => exact hsame rfl rfl rfl
  | snapshot k => exact hsame rfl rfl rfl
  | heartbeat k => exact hsame rfl rfl rfl
  | close k => exact hsame rfl rfl rfl
  | tick m => exact hsame rfl rfl rfl

namespace Hub

/-- A stream waits for its first notifications, and the query has not run. -/
def Asks (s : Hub) (i : Nat) : Prop := ∃ x now, s.streams[i]? = some x ∧ x.snapshot = .asked now

/-- The creators have heard of their commits, and all that was published and asked for has arrived.
-/
structure Settled (s : Hub) : Prop where
  commits : s.commits = []
  publications : s.publications = []
  channel : s.channel = []
  snapshots : ∀ x ∈ s.streams, x.isOpen = true → x.snapshot = .done

/-- A notification that the stream is owed when its query has run in `asked`: it was there and had
not expired, or it is new. -/
def Owes (asked : Hub) (n : SystemNotification) : Prop := n ∉ asked.notifications ∨
    asked.clock < n.expiresAt

end Hub

open Hub

/-- A row that a step adds is on its way. -/
theorem step_notifications (s : Hub) (act : Action) {n : SystemNotification}
    (hn : n ∈ (s.step act).notifications) :
    n ∈ s.notifications ∨ ∃ server, (server, toPayload n) ∈ (s.step act).commits := by
  cases act with
  | commit k =>
    simp only [Hub.step] at hn ⊢
    split at hn
    · rename_i server m hk
      rcases List.mem_cons.mp hn with rfl | hn
      · exact .inr ⟨server, List.mem_append_right _ List.mem_cons_self⟩
      · exact .inl hn
    · exact .inl hn
  | createNotification server adminUserId dto =>
    simp only [Hub.step] at hn
    split at hn
    · exact .inl hn
    · exact .inl hn
  | emit k =>
    simp only [Hub.step] at hn
    split at hn
    · exact .inl hn
    · exact .inl hn
  | publish k =>
    simp only [Hub.step] at hn
    split at hn
    · exact .inl hn
    · exact .inl hn
  | deliver k =>
    simp only [Hub.step] at hn
    split at hn
    · exact .inl hn
    · exact .inl hn
  | stream server =>
    simp only [Hub.step] at hn
    split at hn
    · exact .inl hn
    · exact .inl hn
  | _ => exact .inl hn

theorem wired_run (acts : List Action) : Wired (run acts) := by
  have hfold : ∀ (acts : List Action) (s : Hub), Wired s → Wired (acts.foldl Hub.step s) := by
    intro acts
    induction acts with
    | nil => exact fun _ hs => hs
    | cons act acts ih => exact fun s hs => ih _ (hs.step act)
  refine hfold acts initial ⟨fun x hx => ?_, fun x hx => ?_⟩
  · cases hx
  · cases hx

/-- What a stream is owed reaches it, once its query has run. -/
structure Serves (asked : Hub) (i : Nat) (s : Hub) : Prop where
  wired : Wired s
  stream : ∃ x, s.streams[i]? = some x ∧ ∀ n ∈ s.notifications, asked.Owes n →
    x.Reaches s (toPayload n)

/-- The query answers with all that has not expired. -/
theorem serves_query (hs : Wired s) (h : s.Asks i) : Serves s i (s.step (.query i)) := by
  obtain ⟨x, now, hx, hasked⟩ := h
  refine ⟨hs.step _, { x with snapshot := .answered (s.getActiveNotifications now) }, ?_,
    fun n hn howes _ => .inr (.inl ⟨_, rfl, ?_⟩)⟩
  · have hmodified := getElem?_modify (k := i) (f :=
      fun x : Stream => x.query s.getActiveNotifications) hx
    rw [if_pos rfl] at hmodified
    simp only [Stream.query, hasked] at hmodified
    exact hmodified
  · have hn : n ∈ s.notifications := hn
    have hlive : s.clock < n.expiresAt := howes.resolve_left fun hnot => hnot hn
    have hnow : now < n.expiresAt :=
      Nat.lt_of_le_of_lt (hs.asked x (List.mem_of_getElem? hx) now hasked) hlive
    exact List.mem_map.mpr ⟨n, List.mem_filter.mpr ⟨hn, decide_eq_true hnow⟩, rfl⟩

theorem Serves.step {asked : Hub} (h : Serves asked i s) (act : Action) :
    Serves asked i (s.step act) := by
  obtain ⟨x, hx, hreach⟩ := h.stream
  obtain ⟨y, hy, hxy⟩ := step_goesOn s act hx
  refine ⟨h.wired.step act, y, hy, fun n hn howes => ?_⟩
  rcases step_notifications s act hn with hold | ⟨server, hnew⟩
  · obtain ⟨y', hy', hr⟩ := (hreach n hold howes).step h.wired hx act
    cases hy.symm.trans hy'
    exact hr
  · exact fun _ => .inr (.inr (.inl ⟨server, hnew⟩))

theorem Serves.run {asked : Hub} (h : Serves asked i s) (acts : List Action) :
    Serves asked i (acts.foldl Hub.step s) := by
  induction acts generalizing s with
  | nil => exact h
  | cons act acts ih => exact ih (h.step act)

/-- Whatever happens before and after the query of a stream: when everything has arrived and the
stream is still open, its user has received each notification that was committed and had not expired
when the query ran, and each one committed later. -/
theorem no_notification_missed {before after : List Action} {i : Nat} {x : Stream}
    (hasks : (run before).Asks i) (hsettled : (run (before ++ .query i :: after)).Settled)
    (hx : (run (before ++ .query i :: after)).streams[i]? = some x) (hopen : x.isOpen = true)
    {n : SystemNotification} (hn : n ∈ (run (before ++ .query i :: after)).notifications)
    (howes : (run before).Owes n) : x.HasReceived (toPayload n) := by
  have hrun : run (before ++ .query i :: after) =
      after.foldl Hub.step ((run before).step (.query i)) := by
    simp [run]
  rw [hrun] at hsettled hx hn
  obtain ⟨y, hy, hreach⟩ := ((serves_query (wired_run before) hasks).run after).stream
  cases hx.symm.trans hy
  rcases hreach n hn howes hopen with hr | ⟨ns, hns, -⟩ | ⟨server, hc⟩ | ⟨time, hp⟩ | ⟨time, hd⟩
  · exact hr
  · cases hns.symm.trans (hsettled.snapshots x (List.mem_of_getElem? hx) hopen)
  · rw [hsettled.commits] at hc
    cases hc
  · rw [hsettled.publications] at hp
    cases hp
  · rw [hsettled.channel] at hd
    cases hd

/-- The second of two servers has the stream, the first one announces a notification after the
query. -/
def laterActions : List Action :=
  [.createNotification 1 7 ⟨.info, "hello", some 60, none, none⟩, .commit 0, .emit 0, .publish 0,
    .snapshot 0, .deliver 0, .deliver 0]

theorem no_notification_missed_demo :
    ∃ x : Stream, x.isOpen = true ∧ x.HasReceived (toPayload ⟨0, .INFO, "hello", 0, 60000, 7⟩) := by
  have hopen : ((run ([.onModuleInit 1, .onModuleInit 2, .stream 2] ++ .query 0 ::
    laterActions)).streams[0]?.any (·.isOpen)) = true := by
    decide +kernel
  obtain ⟨x, hx, hopen⟩ := (Option.any_eq_true _ _).mp hopen
  refine ⟨x, hopen, no_notification_missed ⟨_, _, rfl, rfl⟩ ?_ hx hopen ?_ (.inl ?_)⟩
  · constructor
    · decide +kernel
    · decide +kernel
    · decide +kernel
    · decide +kernel
  · decide +kernel
  · decide +kernel

end Notifications
end Redbox
