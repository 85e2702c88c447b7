import Mathlib.Data.List.Induction
import Redbox.Notifications.NotificationHub

/-! `useSystemNotifications.ts`: the list that a page shows is the merge of what the stream and the
polling bring. -/
namespace Redbox

/-! A `Map` as its entries in the order in which their keys were first set. -/
namespace EntryMap
variable {α β : Type} [DecidableEq α]

def set (key : α) (value : β) : List (α × β) → List (α × β)
  | [] => [(key, value)]
  | (k, v) :: entries => if k = key then (k, value) :: entries else (k, v) :: set key value entries

theorem mem_set_self (key : α) (value : β) (entries : List (α × β)) :
    (key, value) ∈ set key value entries := by
  induction entries with
  | nil => simp [set]
  | cons e entries ih =>
    obtain ⟨k, v⟩ := e
    rw [set]
    split
    · next h => simp [h]
    · exact List.mem_cons_of_mem _ ih

theorem mem_set_of_ne {key : α} (value : β) {entries : List (α × β)} {e : α × β} (h : e ∈ entries)
    (hk : e.1 ≠ key) : e ∈ set key value entries := by
  induction entries with
  | nil => simp at h
  | cons f entries ih =>
    obtain ⟨k, v⟩ := f
    rw [set]
    rcases List.mem_cons.mp h with rfl | h
    · rw [if_neg hk]
      exact List.mem_cons_self
    · split
      · exact List.mem_cons_of_mem _ h
      · exact List.mem_cons_of_mem _ (ih h)

theorem mem_of_mem_set {key : α} {value : β} {entries : List (α × β)} {e : α × β}
    (h : e ∈ set key value entries) : e = (key, value) ∨ e ∈ entries := by
  induction entries with
  | nil => simpa [set] using h
  | cons f entries ih =>
    obtain ⟨k, v⟩ := f
    rw [set] at h
    split at h
    · next hk => grind
    · rcases List.mem_cons.mp h with rfl | h
      · exact .inr List.mem_cons_self
      · exact (ih h).imp_right (List.mem_cons_of_mem _)

theorem keys_set (key : α) (value : β) (entries : List (α × β)) :
    (set key value entries).map Prod.fst =
      if key ∈ entries.map Prod.fst then entries.map Prod.fst
      else entries.map Prod.fst ++ [key] := by
  induction entries with
  | nil => rfl
  | cons e entries ih =>
    obtain ⟨k, v⟩ := e
    rw [set]
    split
    · next h => simp [h]
    · next h => grind

theorem nodup_set {entries : List (α × β)} (h : (entries.map Prod.fst).Nodup) (key : α)
    (value : β) : ((set key value entries).map Prod.fst).Nodup := by
  rw [keys_set]
  split
  · exact h
  · next hk => exact List.nodup_append.mpr ⟨h, List.nodup_singleton key, by grind⟩

end EntryMap

namespace SystemNotifications
open Notifications (NotificationCategoryApi SystemNotificationPayload)

structure SystemNotification where
  id : String
  category : NotificationCategoryApi
  message : String
  timestamp : String
  createdAt : String
  expiresAt : String
  deriving DecidableEq

/-- What `toPayload` gives, as JSON has it. -/
def sent (idText : Id → String) (toISOString : Time → String) (p : SystemNotificationPayload) :
    SystemNotification :=
  ⟨idText p.id, p.category, p.message, toISOString p.timestamp, toISOString p.createdAt,
    toISOString p.expiresAt⟩

structure NotificationStreamMessage where
  type : Option String
  notifications : Option (List SystemNotification)
  notification : Option SystemNotification

/-- What the page receives: an answer to its polling, or an event of the stream with its parsed
`data`, if there is any. -/
inductive Message where
  | polled (result : Option (List SystemNotification))
  | event (event : String) (data : Option NotificationStreamMessage)

section
variable (newDate : String → Option Int) (now : Int) (dismissed : List String)

def notificationTime (notification : SystemNotification) : Option Int :=
  newDate (if notification.createdAt = "" then notification.timestamp else notification.createdAt)

def filterVisibleNotifications (items : List SystemNotification) : List SystemNotification :=
  items.filter fun n => (newDate n.expiresAt).any (now < ·) && !dismissed.contains n.id

/-- `notificationTime(b) - notificationTime(a)`, where `sort` takes `NaN` for zero. -/
def difference (a b : SystemNotification) : Int :=
  match notificationTime newDate b, notificationTime newDate a with
  | some s, some t => s - t
  | _, _ => 0

def byId (current incoming : List SystemNotification) : List (String × SystemNotification) :=
  let entries := (filterVisibleNotifications newDate now dismissed current).foldl
    (fun entries notification => EntryMap.set notification.id notification entries) []
  (filterVisibleNotifications newDate now dismissed incoming).foldl
    (fun entries notification => EntryMap.set notification.id notification entries) entries

def mergeVisibleNotifications (current incoming : List SystemNotification) :
    List SystemNotification :=
  ((byId newDate now dismissed current incoming).map Prod.snd).mergeSort
    fun a b => difference newDate a b ≤ 0

def onmessage (prev : List SystemNotification) (event : String) :
    Option NotificationStreamMessage → List SystemNotification
  | none => prev
  | some data =>
    let eventType := if event = "" then data.type.getD "" else event
    if eventType = "" then prev
    else if eventType = "notification.snapshot" then
      mergeVisibleNotifications newDate now dismissed prev (data.notifications.getD [])
    else if eventType = "notification.created" then
      match data.notification with
      | none => prev
      | some n => mergeVisibleNotifications newDate now dismissed prev [n]
    else prev

def receive (prev : List SystemNotification) : Message → List SystemNotification
  | .polled result => mergeVisibleNotifications newDate now dismissed prev (result.getD [])
  | .event event data => onmessage newDate now dismissed prev event data

/-- Neither expired nor dismissed. -/
def Visible (n : SystemNotification) : Prop :=
  (∃ expiry, newDate n.expiresAt = some expiry ∧ now < expiry) ∧ n.id ∉ dismissed

end

theorem notificationTime_sent {newDate : String → Option Int} {toISOString : Time → String}
    (hiso : ∀ t : Time, newDate (toISOString t) = some (t : Int)) (hempty : newDate "" = none)
    (idText : Id → String) (p : SystemNotificationPayload) :
    notificationTime newDate (sent idText toISOString p) = some (p.createdAt : Int) := by
  have hne : toISOString p.createdAt ≠ "" := by
    intro h
    have := hiso p.createdAt
    rw [h, hempty] at this
    cases this
  simp [notificationTime, sent, hne, hiso]

/-- The name of an event is its own, or else the one in its data. -/
def NotificationStreamMessage.Named (data : NotificationStreamMessage) (event name : String) :
    Prop :=
  event = name ∨ event = "" ∧ data.type = some name

/-- A message brings a notification if it is a list that has it or announces it. -/
def Message.Brings (n : SystemNotification) : Message → Prop
  | .polled result => ∃ items ∈ result, n ∈ items
  | .event name data => ∃ d ∈ data,
      d.Named name "notification.snapshot" ∧ (∃ items ∈ d.notifications, n ∈ items) ∨
      d.Named name "notification.created" ∧ d.notification = some n

def Received (messages : List Message) (n : SystemNotification) : Prop :=
  ∃ m ∈ messages, m.Brings n

/-- Equal ids have equal content. -/
def Consistent (p : SystemNotification → Prop) : Prop :=
  ∀ n n', p n → p n' → n.id = n'.id → n = n'

section Merge
variable {newDate : String → Option Int} {now : Int} {dismissed : List String}

theorem mem_filterVisibleNotifications {items : List SystemNotification} {n : SystemNotification} :
    n ∈ filterVisibleNotifications newDate now dismissed items ↔
      n ∈ items ∧ Visible newDate now dismissed n := by
  simp only [filterVisibleNotifications, List.mem_filter, Visible, Bool.and_eq_true,
    Option.any_eq_true_iff_get, Bool.not_eq_true', List.contains_eq_mem, decide_eq_false_iff_not]
  refine and_congr_right fun _ => and_congr_left fun _ => ?_
  cases newDate n.expiresAt <;> simp

/-- The map has each key once, and its entries are some notifications under their ids. -/
structure Entries (p : SystemNotification → Prop) (entries : List (String × SystemNotification)) :
    Prop where
  nodup : (entries.map Prod.fst).Nodup
  mem : ∀ k n, (k, n) ∈ entries ↔ k = n.id ∧ p n

theorem Entries.set {p q : SystemNotification → Prop} {entries : List (String × SystemNotification)}
    (h : Entries p entries) {n : SystemNotification} (hq : ∀ n', q n' ↔ p n' ∨ n' = n)
    (hc : Consistent q) : Entries q (EntryMap.set n.id n entries) where
  nodup := EntryMap.nodup_set h.nodup n.id n
  mem := by
    intro k n'
    constructor
    · intro hm
      rcases EntryMap.mem_of_mem_set hm with he | hm
      · obtain ⟨rfl, rfl⟩ := Prod.mk.inj he
        exact ⟨rfl, (hq _).mpr (.inr rfl)⟩
      · obtain ⟨hk, hp⟩ := (h.mem k n').mp hm
        exact ⟨hk, (hq _).mpr (.inl hp)⟩
    · rintro ⟨rfl, hn⟩
      by_cases hid : n'.id = n.id
      · obtain rfl := hc n' n hn ((hq n).mpr (.inr rfl)) hid
        exact EntryMap.mem_set_self _ _ _
      · rcases (hq n').mp hn with hp | rfl
        · exact EntryMap.mem_set_of_ne n ((h.mem _ _).mpr ⟨rfl, hp⟩) hid
        · exact absurd rfl hid

theorem Entries.foldl {p : SystemNotification → Prop} (items : List SystemNotification)
    {entries : List (String × SystemNotification)} (h : Entries p entries)
    (hc : Consistent fun n => p n ∨ n ∈ items) :
    Entries (fun n => p n ∨ n ∈ items) (items.foldl
      (fun entries notification => EntryMap.set notification.id notification entries) entries) := by
  induction items generalizing p entries with
  | nil => simpa using h
  | cons n items ih =>
    have hc' : Consistent fun n' => (p n' ∨ n' = n) ∨ n' ∈ items := by
      simpa only [List.mem_cons, or_assoc] using hc
    have hs := h.set (fun _ => Iff.rfl) fun a b ha hb => hc' a b (.inl ha) (.inl hb)
    simpa only [List.foldl_cons, List.mem_cons, or_assoc] using ih hs hc'

variable (newDate now dismissed) in
theorem entries_byId {current incoming : List SystemNotification}
    (hc : Consistent fun n => n ∈ current ∨ n ∈ incoming) :
    Entries (fun n => (n ∈ current ∨ n ∈ incoming) ∧ Visible newDate now dismissed n)
      (byId newDate now dismissed current incoming) := by
  have hf : ∀ items n, n ∈ filterVisibleNotifications newDate now dismissed items → n ∈ items :=
    fun _ _ h => (mem_filterVisibleNotifications.mp h).1
  have h0 : Entries (fun _ => False) [] := ⟨List.nodup_nil, by simp⟩
  have h1 := h0.foldl (filterVisibleNotifications newDate now dismissed current)
    fun a b ha hb => hc a b (.inl (hf _ _ (ha.resolve_left id)))
      (.inl (hf _ _ (hb.resolve_left id)))
  have h2 := h1.foldl (filterVisibleNotifications newDate now dismissed incoming)
    fun a b ha hb => hc a b (ha.imp (fun h => hf _ _ (h.resolve_left id)) (hf _ _))
      (hb.imp (fun h => hf _ _ (h.resolve_left id)) (hf _ _))
  simpa only [byId, false_or, mem_filterVisibleNotifications, ← or_and_right] using h2

theorem mem_mergeVisibleNotifications {current incoming : List SystemNotification}
    (hc : Consistent fun n => n ∈ current ∨ n ∈ incoming) {n : SystemNotification} :
    n ∈ mergeVisibleNotifications newDate now dismissed current incoming ↔
      (n ∈ current ∨ n ∈ incoming) ∧ Visible newDate now dismissed n := by
  have he := entries_byId newDate now dismissed hc
  rw [mergeVisibleNotifications, List.mem_mergeSort, List.mem_map]
  constructor
  · rintro ⟨⟨k, n'⟩, hm, rfl⟩
    exact ((he.mem k n').mp hm).2
  · intro h
    exact ⟨(n.id, n), (he.mem _ _).mpr ⟨rfl, h⟩, rfl⟩

theorem nodup_mergeVisibleNotifications {current incoming : List SystemNotification}
    (hc : Consistent fun n => n ∈ current ∨ n ∈ incoming) :
    ((mergeVisibleNotifications newDate now dismissed current incoming).map
      SystemNotification.id).Nodup := by
  have he := entries_byId newDate now dismissed hc
  have hk : (byId newDate now dismissed current incoming).map Prod.fst =
      ((byId newDate now dismissed current incoming).map Prod.snd).map SystemNotification.id := by
    rw [List.map_map]
    exact List.map_congr_left fun e h => ((he.mem e.1 e.2).mp h).1
  rw [mergeVisibleNotifications]
  apply ((List.mergeSort_perm _ _).map SystemNotification.id).nodup_iff.mpr
  rw [← hk]
  exact he.nodup

theorem mergeSort_congr {α : Type} {r s : α → α → Bool} {l : List α}
    (h : ∀ a ∈ l, ∀ b ∈ l, r a b = s a b) : l.mergeSort r = l.mergeSort s := by
  simpa only [List.map_id, id_eq] using List.map_mergeSort (f := id) h

theorem pairwise_mergeVisibleNotifications (current incoming : List SystemNotification)
    (ht : ∀ n ∈ mergeVisibleNotifications newDate now dismissed current incoming,
      (notificationTime newDate n).isSome) :
    (mergeVisibleNotifications newDate now dismissed current incoming).Pairwise fun a b =>
      ∃ s ∈ notificationTime newDate a, ∃ t ∈ notificationTime newDate b, t ≤ s := by
  -- where all have a time, the comparison is one of numbers, hence total and transitive
  let time := fun n => (notificationTime newDate n).getD 0
  have htime : ∀ n ∈ mergeVisibleNotifications newDate now dismissed current incoming,
      notificationTime newDate n = some (time n) := by
    intro n hn
    obtain ⟨t, h⟩ := Option.isSome_iff_exists.mp (ht n hn)
    simp [time, h]
  have hsort : mergeVisibleNotifications newDate now dismissed current incoming =
      ((byId newDate now dismissed current incoming).map Prod.snd).mergeSort
        fun a b => time b ≤ time a := by
    apply mergeSort_congr
    intro a ha b hb
    rw [difference, htime a (List.mem_mergeSort.mpr ha), htime b (List.mem_mergeSort.mpr hb)]
    exact decide_eq_decide.mpr ⟨Int.le_of_sub_nonpos, Int.sub_nonpos_of_le⟩
  have hpairs : (mergeVisibleNotifications newDate now dismissed current incoming).Pairwise
      fun a b => time b ≤ time a := by
    rw [hsort]
    have htrans : ∀ a b c, decide (time b ≤ time a) → decide (time c ≤ time b) →
        decide (time c ≤ time a) := by
      intro a b c hab hbc
      simp only [decide_eq_true_eq] at *
      omega
    have htotal : ∀ a b, decide (time b ≤ time a) || decide (time a ≤ time b) := by
      intro a b
      simp only [Bool.or_eq_true, decide_eq_true_eq]
      omega
    simpa only [decide_eq_true_eq] using List.pairwise_mergeSort htrans htotal
      ((byId newDate now dismissed current incoming).map Prod.snd)
  refine hpairs.imp_of_mem fun ha hb hab => ?_
  exact ⟨_, htime _ ha, _, htime _ hb, hab⟩

end Merge

section Messages
variable (newDate : String → Option Int) (now : Int) (dismissed : List String)

/-- The visible ones of the received, each once, the latest first. A time that is none cannot be
compared. -/
structure Shows (received : SystemNotification → Prop) (notifications : List SystemNotification) :
    Prop where
  mem : ∀ n, n ∈ notifications ↔ received n ∧ Visible newDate now dismissed n
  once : (notifications.map SystemNotification.id).Nodup
  sorted : (∀ n ∈ notifications, (notificationTime newDate n).isSome) →
    notifications.Pairwise fun a b =>
      ∃ s ∈ notificationTime newDate a, ∃ t ∈ notificationTime newDate b, t ≤ s

variable {newDate now dismissed}

theorem Shows.merge {received : SystemNotification → Prop} {prev : List SystemNotification}
    (h : Shows newDate now dismissed received prev) {items : List SystemNotification}
    (hc : Consistent fun n => received n ∨ n ∈ items) :
    Shows newDate now dismissed (fun n => received n ∨ n ∈ items)
      (mergeVisibleNotifications newDate now dismissed prev items) := by
  have hc' : Consistent fun n => n ∈ prev ∨ n ∈ items := fun a b ha hb =>
    hc a b (ha.imp_left fun h' => ((h.mem a).mp h').1) (hb.imp_left fun h' => ((h.mem b).mp h').1)
  constructor
  · intro n
    rw [mem_mergeVisibleNotifications hc', h.mem]
    tauto
  · exact nodup_mergeVisibleNotifications hc'
  · exact pairwise_mergeVisibleNotifications prev items

theorem named_iff {data : NotificationStreamMessage} {event name : String} (h : name ≠ "") :
    data.Named event name ↔ (if event = "" then data.type.getD "" else event) = name := by
  unfold NotificationStreamMessage.Named
  split
  · next he =>
    cases data.type <;> simp [he, h.symm]
  · next he => simp [he]

variable (newDate now dismissed) in
/-- A message is merged as the list of what it brings, unless it brings nothing. -/
theorem receive_cases (prev : List SystemNotification) (m : Message) :
    (∃ items, (∀ n, m.Brings n ↔ n ∈ items) ∧
      receive newDate now dismissed prev m =
        mergeVisibleNotifications newDate now dismissed prev items) ∨
    (∀ n, ¬ m.Brings n) ∧ receive newDate now dismissed prev m = prev := by
  cases m with
  | polled result =>
    refine .inl ⟨result.getD [], fun n => ?_, rfl⟩
    cases result <;> simp [Message.Brings]
  | event event data =>
    cases data with
    | none => exact .inr ⟨by simp [Message.Brings], rfl⟩
    | some data =>
      simp only [Message.Brings, receive, onmessage, Option.mem_def, Option.some.injEq,
        exists_eq_left', named_iff (show "notification.snapshot" ≠ "" by decide),
        named_iff (show "notification.created" ≠ "" by decide)]
      generalize (if event = "" then data.type.getD "" else event) = eventType
      by_cases hs : eventType = "notification.snapshot"
      · refine .inl ⟨data.notifications.getD [], fun n => ?_, by simp [hs]⟩
        cases data.notifications <;> simp [hs]
      · by_cases hcr : eventType = "notification.created"
        · cases hn : data.notification with
          | none => exact .inr ⟨by simp [hcr], by simp [hcr]⟩
          | some n => exact .inl ⟨[n], by simp [hcr, eq_comm], by simp [hcr]⟩
        · exact .inr ⟨by simp [hs, hcr], by simp [hs, hcr]⟩

theorem Shows.receive {received : SystemNotification → Prop} {prev : List SystemNotification}
    (h : Shows newDate now dismissed received prev) {m : Message}
    (hc : Consistent fun n => received n ∨ m.Brings n) :
    Shows newDate now dismissed (fun n => received n ∨ m.Brings n)
      (receive newDate now dismissed prev m) := by
  rcases receive_cases newDate now dismissed prev m with
    ⟨items, hitems, heq⟩ | ⟨hnone, heq⟩
  · rw [heq]
    simp only [hitems] at hc ⊢
    exact h.merge hc
  · rw [heq]
    simpa only [hnone, or_false] using h

theorem received_append (messages : List Message) (m : Message) :
    Received (messages ++ [m]) = fun n => Received messages n ∨ m.Brings n := by
  funext n
  simp [Received, or_and_right, exists_or]

/-- Whatever the order of the messages, the page shows what they brought and is visible. -/
theorem received_shown (newDate : String → Option Int) (now : Int) (dismissed : List String)
    (messages : List Message) (hc : Consistent (Received messages)) :
    Shows newDate now dismissed (Received messages)
      (messages.foldl (receive newDate now dismissed) []) := by
  induction messages using List.reverseRecOn with
  | nil =>
    exact ⟨by simp [Received], List.nodup_nil, fun _ => List.Pairwise.nil⟩
  | append_singleton messages m ih =>
    rw [received_append] at hc ⊢
    rw [List.foldl_append]
    exact (ih fun a b ha hb => hc a b (.inl ha) (.inl hb)).receive hc

/-- Three notifications, one of them dismissed, that are announced, polled and in a snapshot. -/
theorem received_shown_twice :
    let newDate : String → Option Int := fun text =>
      if text = "2026-01-01T00:00:00.000Z" then some 1767225600000
      else if text = "2026-01-02T00:00:00.000Z" then some 1767312000000
      else if text = "2026-01-03T00:00:00.000Z" then some 1767398400000 else none
    let maintenance : SystemNotification := ⟨"a", .maintenance, "Tonight",
      "2026-01-01T00:00:00.000Z", "2026-01-01T00:00:00.000Z", "2026-01-03T00:00:00.000Z"⟩
    let outage : SystemNotification := ⟨"b", .error, "Outage",
      "2026-01-02T00:00:00.000Z", "2026-01-02T00:00:00.000Z", "2026-01-03T00:00:00.000Z"⟩
    let welcome : SystemNotification := ⟨"c", .info, "Welcome",
      "2026-01-02T00:00:00.000Z", "2026-01-02T00:00:00.000Z", "2026-01-03T00:00:00.000Z"⟩
    let messages : List Message := [
      .event "notification.created" (some ⟨none, none, some maintenance⟩),
      .polled (some [outage, maintenance, welcome]), .polled none,
      .event "" (some ⟨some "notification.snapshot", some [welcome, outage, maintenance], none⟩)]
    Shows newDate 1767315600000 ["c"] (Received messages)
      (messages.foldl (receive newDate 1767315600000 ["c"]) []) := by
  intro newDate maintenance outage welcome messages
  have hreceived : ∀ n, Received messages n → n = maintenance ∨ n = outage ∨ n = welcome := by
    intro n h
    simp [Received, messages, Message.Brings, NotificationStreamMessage.Named] at h
    tauto
  apply received_shown newDate 1767315600000 ["c"] messages
  intro n n' h h' hid
  rcases hreceived n h with rfl | rfl | rfl <;> rcases hreceived n' h' with rfl | rfl | rfl <;>
    first | rfl | exact absurd hid (by decide)

end Messages
end SystemNotifications
end Redbox
