import Redbox.ServiceWorker.ContentDisposition
import Mathlib.Algebra.Ring.Int.Defs
import Mathlib.Data.List.AList
import Mathlib.Logic.Function.Basic

/-! The service worker that turns streams of a page into downloads: its three maps, its
timers and the listeners for messages and fetches. Things that come with an event (the
session, its stream, its port, its lifetime, a fetch) go by the number of the event. -/
namespace Redbox
namespace DownloadWorker

def protocolVersion : Int := 1
def maxPlaintextSize : Int := 50 * 1024 * 1024 * 1024
def maxSafeInteger : Int := 2 ^ 53 - 1
def sessionTtlMs : Nat := 30000
def fetchWaitMs : Nat := 10000
def activeSessionTtlMs : Nat := 5 * 60000
def completeGraceMs : Nat := 5000
def maxPendingSessions : Nat := 4
def maxPendingFetches : Nat := 8
def maxActiveDownloads : Nat := 4

/-- A value that a message can hold, as far as the worker looks at it. -/
inductive JsValue where
  | integer (n : Int)
  | string (s : JsString)
  | readable
  | other
  deriving DecidableEq

structure MessageData where
  type : JsValue
  version : JsValue
  id : JsValue
  fileName : JsValue
  size : JsValue
  readable : JsValue

/-- A message whose data is no object has none. -/
structure MessageEvent where
  data : Option MessageData
  hasPort : Bool
  sourceId : Option JsString

structure FetchEvent where
  sameOrigin : Bool
  pathname : JsString
  search : JsString
  isGet : Bool
  hasRange : Bool

structure Session where
  id : JsString
  fileName : JsString
  size : Int
  sourceId : JsString
  claimed : Bool
  /-- Whether its timer has been set. -/
  timeout : Bool

/-- The download of a session. -/
structure ActiveEntry where
  session : Nat
  sourceId : JsString
  timeout : Option Nat

/-- A timer goes by what it is for. Those of active downloads are set again, so they are numbered.
-/
inductive Timer where
  | session (session : Nat)
  | waiter (id : JsString) (fetch : Nat)
  | active (n : Nat) (id : JsString) (session : Nat)
  deriving DecidableEq

inductive Body where
  | empty
  | text (s : String)
  | stream (readable : Nat)
  deriving DecidableEq

structure Response where
  status : Nat
  headers : List (String × String)
  body : Body
  deriving DecidableEq

inductive Reply where
  | error (id : JsString) (message : String)
  | started (id : JsString)
  deriving DecidableEq

inductive Effect where
  | post (port : Nat) (reply : Reply)
  | closePort (port : Nat)
  | cancel (readable : Nat) (reason : String)
  | releaseLifetime (lifetime : Nat)
  | respond (fetch : Nat) (response : Response)
  /-- The promise of a fetch is rejected. -/
  | reject (fetch : Nat)
  deriving DecidableEq

structure State where
  sessions : AList fun _ : JsString => Nat
  /-- The fetches that wait. -/
  fetchWaiters : AList fun _ : JsString => Nat
  activeDownloads : AList fun _ : JsString => ActiveEntry
  objects : Nat → Option Session
  timers : List (Timer × Nat)
  nextTimer : Nat
  /-- Fetches whose waiting is over, with the session they are given. -/
  microtasks : List (Nat × Option Nat)
  effects : List Effect
  events : Nat

namespace State

def initial : State := ⟨∅, ∅, ∅, fun _ => none, [], 0, [], [], 0⟩

def emit (s : State) (es : List Effect) : State := { s with effects := es.reverse ++ s.effects }

def setTimeout (s : State) (t : Timer) (delay : Nat) : State :=
  { s with timers := (t, delay) :: s.timers }

def clearTimeout (s : State) (t : Timer) : State :=
  { s with timers := s.timers.filter fun x => decide (x.1 ≠ t) }

def setSession (s : State) (n : Nat) (session : Session) : State :=
  { s with objects := Function.update s.objects n (some session) }

/-- The timer of the entry, if it has one. -/
def clearEntry (s : State) (id : JsString) (entry : ActiveEntry) : State :=
  match entry.timeout with
  | some n => s.clearTimeout (.active n id entry.session)
  | none => s

def releaseActiveDownload (s : State) (id : JsString) (session : Nat) : State :=
  match s.activeDownloads.lookup id with
  | some entry =>
    if entry.session = session then
      ({ s.clearEntry id entry with activeDownloads := s.activeDownloads.erase id }).emit
        [.releaseLifetime entry.session]
    else s
  | none => s

def refreshActiveDownload (s : State) (id : JsString) (entry : ActiveEntry) (delay : Nat) : State :=
  let s := (s.clearEntry id entry).setTimeout (.active s.nextTimer id entry.session) delay
  { s with
    activeDownloads := s.activeDownloads.insert id { entry with timeout := some s.nextTimer }
    nextTimer := s.nextTimer + 1 }

/-- The session is taken: its flag is set, its timer cleared and its id free. -/
def take (s : State) (n : Nat) (session : Session) : State :=
  let s := s.setSession n { session with claimed := true }
  let s := if session.timeout then s.clearTimeout (.session n) else s
  { s with sessions := s.sessions.erase session.id }

def expireSession (s : State) (n : Nat) (message : String) : State :=
  match s.objects n with
  | some session =>
    if session.claimed then s
    else (s.take n session).emit [.post n (.error session.id message), .closePort n,
      .releaseLifetime n, .cancel n message]
  | none => s

end State

def goneResponse : Response where
  status := 410
  headers :=
    [("Cache-Control", "no-store"), ("Content-Type", "text/plain; charset=utf-8"),
      ("X-Content-Type-Options", "nosniff")]
  body := .text "Download session expired or was already used."

def downloadResponse (n : Nat) (session : Session) (contentDisposition : String) : Response where
  status := 200
  headers :=
    [("Accept-Ranges", "none"), ("Cache-Control", "private, no-store, no-transform"),
      ("Content-Disposition", contentDisposition), ("Content-Length", toString session.size),
      ("Content-Security-Policy", "default-src 'none'"),
      ("Content-Type", "application/octet-stream"),
      ("Cross-Origin-Resource-Policy", "same-origin"), ("X-Content-Type-Options", "nosniff")]
  body := .stream n

def refusalResponse (hasRange : Bool) : Response where
  status := if hasRange then 416 else 405
  headers := [("Accept-Ranges", "none"), ("Cache-Control", "no-store"),
    ("X-Content-Type-Options", "nosniff")]
  body := .empty

namespace State

/-- The response, or nothing where the function throws. -/
def claimSession (s : State) (n : Nat) : State × Option Response :=
  match s.objects n with
  | none => (s, some goneResponse)
  | some session =>
    if session.claimed then (s, some goneResponse)
    else if maxActiveDownloads ≤ s.activeDownloads.keys.length then
      (s.expireSession n "Too many secure downloads are active.", some goneResponse)
    else
      let entry : ActiveEntry := ⟨n, session.sourceId, none⟩
      let s := s.take n session
      let s := { s with activeDownloads := s.activeDownloads.insert session.id entry }
      let s := s.refreshActiveDownload session.id entry activeSessionTtlMs
      (s.emit [.post n (.started session.id), .closePort n],
        (contentDisposition session.fileName).map (downloadResponse n session))

/-- `respondWith` for a fetch. -/
def respondWith (fetch : Nat) (r : State × Option Response) : State :=
  match r.2 with
  | some response => r.1.emit [.respond fetch response]
  | none => r.1.emit [.reject fetch]

/-- The promise of a waiter is resolved. -/
def resolve (s : State) (fetch : Nat) (session : Option Nat) : State :=
  { s with microtasks := s.microtasks ++ [(fetch, session)] }

def waitForSession (s : State) (id : JsString) (fetch : Nat) : State :=
  if id ∈ s.fetchWaiters ∨ maxPendingFetches ≤ s.fetchWaiters.keys.length then s.resolve fetch none
  else { s.setTimeout (.waiter id fetch)
    fetchWaitMs with fetchWaiters := s.fetchWaiters.insert id fetch }

/-- The waiter leaves the map and is resolved. -/
def wake (s : State) (id : JsString) (fetch : Nat) (session : Option Nat) : State :=
  ({ s.clearTimeout (.waiter id fetch) with fetchWaiters := s.fetchWaiters.erase id }).resolve
    fetch session

/-- The session has been taken over, or there is no room for it. -/
def offerSession (s : State) (n : Nat) (session : Session) : State × Bool :=
  if maxActiveDownloads ≤ s.activeDownloads.keys.length then (s, false)
  else match s.fetchWaiters.lookup session.id with
    | some fetch => (s.wake session.id fetch (some n), true)
    | none =>
      if session.id ∈ s.sessions ∨ maxPendingSessions ≤ s.sessions.keys.length then (s, false)
      else
        let s := (s.setSession n { session with timeout := true }).setTimeout (.session n)
          sessionTtlMs
        ({ s with sessions := s.sessions.insert session.id n }, true)

end State

def isSessionId (s : JsString) : Bool :=
  s.length == 64 && s.all fun u => (48 ≤ u.toNat && u.toNat ≤ 57) || (97 ≤ u.toNat && u.toNat ≤ 102)

/-- The fields of a message that asks for a download. -/
def validSession (e : MessageEvent) (data : MessageData) : Option Session :=
  match data.version, data.id, data.fileName, data.size, data.readable, e.sourceId with
  | .integer version, .string id, .string fileName, .integer size, .readable, some sourceId =>
    if version = protocolVersion ∧ isSessionId id = true ∧ 1 ≤ fileName.length ∧
      fileName.length ≤ 100 ∧
        size ≤ maxSafeInteger ∧ 1 ≤ size ∧ size ≤ maxPlaintextSize then
      some ⟨id, fileName, size, sourceId, false, false⟩
    else none
  | _, _, _, _, _, _ => none

inductive ControlType where
  | heartbeat | complete | cancel

def controlType (type : JsValue) : Option ControlType :=
  if type = .string (.ascii "REDBOX_DOWNLOAD_HEARTBEAT") then some .heartbeat
  else if type = .string (.ascii "REDBOX_DOWNLOAD_COMPLETE") then some .complete
  else if type = .string (.ascii "REDBOX_DOWNLOAD_CANCEL") then some .cancel
  else none

namespace State

/-- A cancel that is for no active download. -/
def cancelPending (s : State) (e : MessageEvent) (id : JsString) : State :=
  match s.sessions.lookup id with
  | some n =>
    if (s.objects n).any (fun session => decide (some session.sourceId = e.sourceId)) then
      s.expireSession n "Download cancelled."
    else wakeGone
  | none => wakeGone
where
  wakeGone : State := match s.fetchWaiters.lookup id with
    | some fetch => s.wake id fetch none
    | none => s

def onControl (s : State) (e : MessageEvent) (type : ControlType) (id : JsString) : State :=
  match s.activeDownloads.lookup id with
  | some entry =>
    if some entry.sourceId = e.sourceId then match type with
      | .heartbeat => s.refreshActiveDownload id entry activeSessionTtlMs
      | .complete => s.refreshActiveDownload id entry completeGraceMs
      | .cancel => s.releaseActiveDownload id entry.session
    else inactive type
  | none => inactive type
where
  inactive : ControlType → State
    | .cancel => s.cancelPending e id
    | _ => s

def onStreamDownload (s : State) (e : MessageEvent) (data : MessageData) : State :=
  let n := s.events
  match validSession e data with
  | none =>
    let id := match data.id with
      | .string id => id
      | _ => []
    let s := if data.readable = .readable then s.emit [.cancel n "Invalid download session."] else s
    s.emit [.post n (.error id "Invalid secure download session."), .closePort n]
  | some session =>
    let (s, accepted) := (s.setSession n session).offerSession n session
    if accepted then s else s.expireSession n "Too many secure downloads are waiting to start."

/-- A probe works on a stream and a port of its own and touches none of the maps. -/
def onMessage (s : State) (e : MessageEvent) : State :=
  match e.data with
  | none => s
  | some data =>
    if data.type = .string (.ascii "REDBOX_DOWNLOAD_PROBE") then s
    else match controlType data.type with
      | some type => match data.version, data.id with
        | .integer version, .string id =>
          if version = protocolVersion ∧ isSessionId id = true then s.onControl e type id else s
        | _, _ => s
      | none =>
        if data.type = .string (.ascii "REDBOX_STREAM_DOWNLOAD") ∧
          e.hasPort = true then s.onStreamDownload e data else s

end State

/-- `DOWNLOAD_PATH_PATTERN` -/
def downloadId (pathname : JsString) : Option JsString :=
  ((JsString.ascii "/__redbox_download/file/").isPrefixOf? pathname).filter isSessionId

/-- The id of a fetch that the worker answers. -/
def FetchEvent.downloadId (e : FetchEvent) : Option JsString :=
  (DownloadWorker.downloadId e.pathname).filter fun _ => e.sameOrigin && e.search.isEmpty

namespace State

def onFetch (s : State) (e : FetchEvent) : State :=
  match e.downloadId with
  | none => s
  | some id =>
    if e.isGet = false ∨ e.hasRange =
      true then s.emit [.respond s.events (refusalResponse e.hasRange)]
    else match s.sessions.lookup id with
      | some existing =>
        let fetch := s.events
        respondWith fetch (({ s with sessions := s.sessions.erase id } : State).claimSession
          existing)
      | none => s.waitForSession id s.events

/-- A timer that is set runs out. -/
def onTimer (s : State) (t : Timer) : State :=
  if s.timers.any (fun x => decide (x.1 = t)) then
    let s := s.clearTimeout t
    match t with
    | .session n => s.expireSession n "The secure download was not claimed in time."
    | .waiter id fetch => ({ s with fetchWaiters := s.fetchWaiters.erase id }).resolve fetch none
    | .active _ id session => s.releaseActiveDownload id session
  else s

/-- What a fetch does when its waiting is over. -/
def runMicrotask (s : State) (task : Nat × Option Nat) : State :=
  match task.2 with
  | some n => respondWith task.1 (s.claimSession n)
  | none => s.emit [.respond task.1 goneResponse]

def runMicrotasks (s : State) : State := s.microtasks.foldl runMicrotask { s with microtasks := [] }

end State

inductive WorkerEvent where
  | message (e : MessageEvent)
  | fetch (e : FetchEvent)
  | timer (t : Timer)

namespace State

def handle (s : State) : WorkerEvent → State
  | .message e => s.onMessage e
  | .fetch e => s.onFetch e
  | .timer t => s.onTimer t

/-- One event and its microtasks. -/
def step (s : State) (e : WorkerEvent) : State :=
  { (s.handle e).runMicrotasks with events := s.events + 1 }

def run (evs : List WorkerEvent) : State := evs.foldl step initial

end State
end DownloadWorker
end Redbox
