import Redbox.Backend.World
import Redbox.Text.JsString

/-! `notifications.service.ts` and `notification-events.service.ts`: server processes that
announce notifications to the streams of their users, over a channel of Redis. -/
namespace Redbox
namespace Notifications

inductive NotificationCategoryApi where
  | info | warning | error | success | maintenance
  deriving DecidableEq

inductive SystemNotificationCategory where
  | INFO | WARNING | ERROR | SUCCESS | MAINTENANCE
  deriving DecidableEq

def toPrismaCategory : NotificationCategoryApi → SystemNotificationCategory
  | .warning => .WARNING
  | .error => .ERROR
  | .success => .SUCCESS
  | .maintenance => .MAINTENANCE
  | .info => .INFO

def toApiCategory : SystemNotificationCategory → NotificationCategoryApi
  | .WARNING => .warning
  | .ERROR => .error
  | .SUCCESS => .success
  | .MAINTENANCE => .maintenance
  | .INFO => .info

theorem toApiCategory_toPrismaCategory (c : NotificationCategoryApi) :
    toApiCategory (toPrismaCategory c) = c := by
  cases c <;> rfl

structure CreateSystemNotificationDto where
  category : NotificationCategoryApi
  message : String
  durationSeconds : Option Nat
  durationMinutes : Option Nat
  /-- A timestamp is the instant that it names, if it names one. -/
  expiresAt : Option (Option Time)

structure SystemNotification where
  id : Id
  category : SystemNotificationCategory
  message : String
  createdAt : Time
  expiresAt : Time
  createdByAdminUserId : Id
  deriving DecidableEq

structure SystemNotificationPayload where
  id : Id
  category : NotificationCategoryApi
  message : String
  timestamp : Time
  createdAt : Time
  expiresAt : Time
  deriving DecidableEq

def toPayload (n : SystemNotification) : SystemNotificationPayload :=
  ⟨n.id, toApiCategory n.category, n.message, n.createdAt, n.createdAt, n.expiresAt⟩

def resolveExpiresAt (now : Time) (dto : CreateSystemNotificationDto) : Except Thrown Time :=
  let expiryInputs := [dto.expiresAt.isSome, dto.durationSeconds.isSome,
    dto.durationMinutes.isSome].countP id
  if expiryInputs ≠ 1 then
    .error (badRequest "Provide exactly one expiry option: expiresAt, durationSeconds or durationMinutes")
  else match dto.expiresAt with
    | some (some expiresAt) =>
      if expiresAt ≤ now then .error (badRequest "expiresAt must be in the future")
        else .ok expiresAt
    | some none => .error (badRequest "expiresAt must be in the future")
    | none => .ok (now + match dto.durationSeconds with
      | some seconds => seconds * 1000
      | none => dto.durationMinutes.getD 0 * 60 * 1000)

/-- What `createNotification` hands to its transaction. The id and the time of creation are the
database's. -/
def draft (now : Time) (adminUserId : Id) (dto : CreateSystemNotificationDto) :
    Except Thrown SystemNotification := do
  let expiresAt ← resolveExpiresAt now dto
  let message := Text.trim dto.message
  if message = "" then .error (badRequest "Message can't be empty")
  return ⟨0, toPrismaCategory dto.category, message, 0, expiresAt, adminUserId⟩

inductive SystemNotificationEvent where
  | connected (timestamp : Time)
  | heartbeat (timestamp : Time)
  | snapshot (timestamp : Time) (notifications : List SystemNotificationPayload)
  | created (timestamp : Time) (notification : SystemNotificationPayload)
  deriving DecidableEq

/-- The query for the first notifications of a stream: it has been asked, it has run, or its answer
has been sent on. -/
inductive SnapshotQuery where
  | asked (now : Time)
  | answered (notifications : List SystemNotificationPayload)
  | done
  deriving DecidableEq

/-- A stream of a user on one server, and the events that the user has received. -/
structure Stream where
  server : Nat
  isOpen : Bool
  snapshot : SnapshotQuery
  received : List SystemNotificationEvent

/-- `subscriber.next`, which does nothing once the stream is closed. -/
def Stream.next (x : Stream) (event : SystemNotificationEvent) : Stream :=
  if x.isOpen then { x with received := event :: x.received } else x

/-- The query for the first notifications runs. -/
def Stream.query (x : Stream) (getActiveNotifications : Time → List SystemNotificationPayload) :
    Stream :=
  match x.snapshot with
  | .asked now => { x with snapshot := .answered (getActiveNotifications now) }
  | _ => x

/-- Its answer is sent on. -/
def Stream.sendSnapshot (x : Stream) (timestamp : Time) : Stream :=
  match x.snapshot with
  | .answered notifications => { x.next (.snapshot timestamp notifications) with snapshot := .done }
  | _ => x

/-- The database, the servers with their streams, and all that is on its way between them. -/
structure Hub where
  clock : Time
  nextId : Id
  /-- Newest first. -/
  notifications : List SystemNotification
  /-- The servers that have subscribed to the channel. -/
  servers : List Nat
  streams : List Stream
  transactions : List (Nat × SystemNotification)
  /-- Notifications of which their server has not heard that they are committed. -/
  commits : List (Nat × SystemNotificationPayload)
  publications : List SystemNotificationEvent
  /-- What the channel has for each server. -/
  channel : List (Nat × SystemNotificationEvent)

namespace Hub

def initial : Hub := ⟨0, 0, [], [], [], [], [], [], []⟩

def getActiveNotifications (s : Hub) (now : Time) : List SystemNotificationPayload :=
  (s.notifications.filter fun n => decide (now < n.expiresAt)).map toPayload

/-- All streams of the server are given the event. -/
def deliverRedisEvent (s : Hub) (server : Nat) (event : SystemNotificationEvent) : Hub :=
  { s with streams := s.streams.map fun x => if x.server = server then x.next event else x }

/-- The streams of the server first, then the channel. -/
def emitNotificationCreated (s : Hub) (server : Nat)
    (notification : SystemNotificationPayload) : Hub :=
  let event := .created s.clock notification
  let s := s.deliverRedisEvent server event
  { s with publications := s.publications ++ [event] }

end Hub

/-- Whatever may happen next. Numbers say which transaction, message or stream is meant. -/
inductive Action where
  | onModuleInit (server : Nat)
  | createNotification (server : Nat) (adminUserId : Id) (dto : CreateSystemNotificationDto)
  | commit (k : Nat)
  | rollback (k : Nat)
  | emit (k : Nat)
  | publish (k : Nat)
  | deliver (k : Nat)
  | stream (server : Nat)
  | query (i : Nat)
  | snapshot (i : Nat)
  | heartbeat (i : Nat)
  | close (i : Nat)
  | tick (n : Nat)

namespace Hub

def step (s : Hub) : Action → Hub
  | .onModuleInit server => { s with servers := server :: s.servers }
  | .createNotification server adminUserId dto => match draft s.clock adminUserId dto with
    | .ok n => { s with transactions := s.transactions ++ [(server, n)] }
    | .error _ => s
  | .commit k => match s.transactions[k]? with
    | some (server, n) =>
      let n := { n with id := s.nextId, createdAt := s.clock }
      { s with
        transactions := s.transactions.eraseIdx k
        notifications := n :: s.notifications
        nextId := s.nextId + 1
        commits := s.commits ++ [(server, toPayload n)] }
    | none => s
  | .rollback k => { s with transactions := s.transactions.eraseIdx k }
  | .emit k => match s.commits[k]? with
    | some (server, notification) =>
      ({ s with commits := s.commits.eraseIdx k }).emitNotificationCreated server notification
    | none => s
  | .publish k => match s.publications[k]? with
    | some event => { s with
      publications := s.publications.eraseIdx k
      channel := s.channel ++ s.servers.map fun server => (server, event) }
    | none => s
  | .deliver k => match s.channel[k]? with
    | some (server, event) =>
      ({ s with channel := s.channel.eraseIdx k }).deliverRedisEvent server event
    | none => s
  | .stream server =>
    -- a server has subscribed before it takes requests
    if server ∈ s.servers then
      { s with streams := s.streams ++ [⟨server, true, .asked s.clock, [.connected s.clock]⟩] }
    else s
  | .query i => { s with streams := s.streams.modify i fun x => x.query s.getActiveNotifications }
  | .snapshot i => { s with streams := s.streams.modify i fun x => x.sendSnapshot s.clock }
  | .heartbeat i => { s with streams := s.streams.modify i fun x => x.next (.heartbeat s.clock) }
  | .close i => { s with streams := s.streams.modify i fun x => { x with isOpen := false } }
  | .tick n => { s with clock := s.clock + n }

def run (acts : List Action) : Hub := acts.foldl step initial

end Hub
end Notifications
end Redbox
