import Redbox.ServiceWorker.DownloadWorker

/-! The page's side of a download: what `createDestination` sets up, and what its timers, its port,
its abort signal and the calls of its caller do. Chunks that are written change none of this and are
left out. -/
namespace Redbox
namespace DownloadWorker
namespace DownloadPage

def hexDigit (n : Nat) : UInt16 := if n < 10 then (48 + n).toUInt16 else (87 + n).toUInt16

/-- `byte.toString(16).padStart(2, '0')` -/
def hexByte (byte : UInt8) : JsString := [hexDigit (byte.toNat / 16), hexDigit (byte.toNat % 16)]

def randomDownloadId (bytes : Fin 32 → UInt8) : JsString := (List.ofFn bytes).flatMap hexByte

/-- The messages that a page posts to the worker for one download. -/
inductive PageMessage where
  | streamDownload | heartbeat | complete | cancel
  deriving DecidableEq

inductive Ready where
  | pending | resolved | rejected
  deriving DecidableEq

/-- The writer of the page's stream. -/
inductive Writer where
  | writable | closing | closed | errored
  deriving DecidableEq

structure Page where
  terminal : Bool
  /-- `readySettled` is that this is no longer pending. -/
  ready : Ready
  startTimeout : Bool
  heartbeatInterval : Bool
  /-- Whether `port1` is open. -/
  port : Bool
  /-- `signal.aborted` -/
  aborted : Bool
  /-- Whether `onAbort` listens to the signal. -/
  listening : Bool
  writer : Writer
  /-- `writer.closed` has been rejected and its handler has run. -/
  closedHandled : Bool
  /-- The calls of `close` that await `ready`. -/
  closing : Nat
  posted : List PageMessage
  deriving DecidableEq

namespace Page

def initial : Page where
  terminal := false
  ready := .pending
  startTimeout := true
  heartbeatInterval := false
  port := true
  aborted := false
  listening := true
  writer := .writable
  closedHandled := false
  closing := 0
  posted := []

def post (p : Page) (m : PageMessage) : Page := { p with posted := p.posted ++ [m] }

def stopHeartbeat (p : Page) : Page := { p with heartbeatInterval := false }

def startHeartbeat (p : Page) : Page :=
  if p.heartbeatInterval ∨ p.terminal then p
    else { p.post .heartbeat with heartbeatInterval := true }

/-- With an error or without one. -/
def settleReady (p : Page) (error : Bool) : Page :=
  if p.ready ≠ .pending then p
  else
    let p := { p with startTimeout := false, port := false }
    if error then { p with ready := .rejected } else { p.startHeartbeat with ready := .resolved }

def cancelWorkerSession (p : Page) : Page := p.post .cancel

/-- `writer.abort`: a close that is under way may still go either way. -/
def abortWriter (p : Page) : Page :=
  if p.writer = .writable then { p with writer := .errored } else p

def onStartTimeout (p : Page) : Page :=
  if p.startTimeout then ({ p with startTimeout :=
    false }.settleReady true).cancelWorkerSession.abortWriter else p

def onHeartbeat (p : Page) : Page := if p.heartbeatInterval then p.post .heartbeat else p

def onMessage (p : Page) (id : JsString) : Reply → Page
  | .started id' => if p.port ∧ id' = id then p.settleReady false else p
  | .error id' _ => if p.port ∧ id' = id then p.settleReady true else p

def onMessageError (p : Page) : Page := if p.port then p.settleReady true else p

def onAbort (p : Page) : Page :=
  if p.terminal then p
  else ({ p with terminal := true }.stopHeartbeat.settleReady true).cancelWorkerSession.abortWriter

/-- `downloadController.abort`: the listener runs once. -/
def abortController (p : Page) : Page :=
  if p.aborted then p
  else
    let p := { p with aborted := true }
    if p.listening then { p with listening := false }.onAbort else p

/-- The handler of a rejection of `writer.closed`. -/
def onClosedRejected (p : Page) : Page :=
  if p.writer = .errored ∧ p.closedHandled = false then
    let p := { p with closedHandled := true }
    if ¬ p.terminal ∧ ¬ p.aborted then p.abortController else p
  else p

/-- The stream fails, since its reader has cancelled it. -/
def onStreamError (p : Page) : Page :=
  if p.writer = .writable then { p with writer := .errored } else p

def abort (p : Page) : Page :=
  if p.terminal then p
  else
    let p := { p with terminal := true }.stopHeartbeat.settleReady true
    { p with listening := false }.cancelWorkerSession.abortWriter

def close (p : Page) : Page := if p.terminal then p else { p with closing := p.closing + 1 }

/-- A call of `close` goes on when `ready` is settled. A stream is not closed twice. -/
def afterReady (p : Page) : Page :=
  if p.closing = 0 ∨ p.ready = .pending then p
  else
    let p := { p with closing := p.closing - 1 }
    if p.ready = .resolved ∧ p.writer = .writable then { p with writer := .closing } else p

/-- `writer.close()` is fulfilled, and the call of `close` ends. -/
def afterClose (p : Page) : Page :=
  if p.writer = .closing then
    { ({ p with writer := .closed }.post
      .complete).stopHeartbeat with terminal := true, listening := false }
  else p

def onCloseRejected (p : Page) : Page :=
  if p.writer = .closing then { p with writer := .errored } else p

end Page

inductive PageEvent where
  | startTimeout | heartbeat | messageError
  | abortSignal | abort | close
  | readySettled | closeFulfilled | closeRejected
  | streamError | closedRejected

namespace Page

def step (p : Page) : PageEvent → Page
  | .startTimeout => p.onStartTimeout
  | .heartbeat => p.onHeartbeat
  | .messageError => p.onMessageError
  | .abortSignal => p.abortController
  | .abort => p.abort
  | .close => p.close
  | .readySettled => p.afterReady
  | .closeFulfilled => p.afterClose
  | .closeRejected => p.onCloseRejected
  | .streamError => p.onStreamError
  | .closedRejected => p.onClosedRejected

end Page

/-- What happens in the `try` of `createDestination`. -/
inductive Attempt where
  | started | offerThrows | clickThrows

def createDestination : Attempt → Page
  | .started => Page.initial.post .streamDownload
  | .offerThrows => Page.initial.abort
  | .clickThrows => (Page.initial.post .streamDownload).abort

/-- The constants of a destination: the random bytes of its id, the file and the page itself. -/
structure Destination where
  bytes : Fin 32 → UInt8
  fileName : JsString
  plaintextSize : JsValue
  sourceId : JsString
  attempt : Attempt

def Destination.id (d : Destination) : JsString := randomDownloadId d.bytes

/-- The type of a message. -/
def PageMessage.type : PageMessage → String
  | .streamDownload => "REDBOX_STREAM_DOWNLOAD"
  | .heartbeat => "REDBOX_DOWNLOAD_HEARTBEAT"
  | .complete => "REDBOX_DOWNLOAD_COMPLETE"
  | .cancel => "REDBOX_DOWNLOAD_CANCEL"

/-- The event of the worker that a message of the page becomes. -/
def Destination.message (d : Destination) (m : PageMessage) : MessageEvent where
  data := some {
    type := .string (.ascii m.type)
    version := .integer protocolVersion
    id := .string d.id
    fileName := if m = .streamDownload then .string d.fileName else .other
    size := if m = .streamDownload then d.plaintextSize else .other
    readable := if m = .streamDownload then .readable else .other }
  hasPort := decide (m = .streamDownload)
  sourceId := some d.sourceId

theorem isSessionId_random (bytes : Fin 32 → UInt8) :
    isSessionId (randomDownloadId bytes) = true := by
  have hdigit : ∀ n, n < 16 → ((48 ≤ (hexDigit n).toNat && (hexDigit n).toNat ≤ 57) ||
      (97 ≤ (hexDigit n).toNat && (hexDigit n).toNat ≤ 102)) = true := by decide
  have hlength : (randomDownloadId bytes).length = 64 := by
    simp [randomDownloadId, hexByte]
  have hall : ∀ u ∈ randomDownloadId bytes,
      ((48 ≤ u.toNat && u.toNat ≤ 57) || (97 ≤ u.toNat && u.toNat ≤ 102)) = true := by
    intro u hu
    obtain ⟨byte, -, hu⟩ := List.mem_flatMap.mp hu
    have hbyte := byte.toNat_lt
    rcases List.mem_pair.mp hu with rfl | rfl
    · exact hdigit _ (by omega)
    · exact hdigit _ (by omega)
  unfold isSessionId
  rw [hlength]
  exact List.all_eq_true.mpr hall

namespace Page

variable {p q r : Page} {id : JsString} {e : PageEvent}

/-- What a step of the page may do that completes nothing. It settles `ready` well only if it is
told so. -/
structure Move (told : Prop) (p q : Page) : Prop where
  posted : ∃ ms, q.posted = p.posted ++ ms ∧ .streamDownload ∉ ms ∧ .complete ∉ ms
  settled : p.ready ≠ .pending → q.ready = p.ready
  resolved : q.ready = .resolved → p.ready = .resolved ∨ told
  timeout : q.startTimeout = true → p.startTimeout = true ∧
    (p.ready = .pending → q.ready = .pending)
  closing : q.writer = .closing → p.writer = .closing ∨ q.ready = .resolved

variable {told : Prop}

theorem Move.trans (h : Move told p q) (h' : Move told q r) : Move told p r where
  posted := by
    obtain ⟨ms, hms, hoffer, hcomplete⟩ := h.posted
    obtain ⟨ms', hms', hoffer', hcomplete'⟩ := h'.posted
    refine ⟨ms ++ ms', by rw [hms', hms, List.append_assoc], ?_, ?_⟩
    · simp [hoffer, hoffer']
    · simp [hcomplete, hcomplete']
  settled hp := by
    have hq := h.settled hp
    rw [h'.settled (hq ▸ hp), hq]
  resolved hr := (h'.resolved hr).elim h.resolved .inr
  timeout hr := by
    obtain ⟨hq, hpending'⟩ := h'.timeout hr
    obtain ⟨hp, hpending⟩ := h.timeout hq
    exact ⟨hp, fun hx => hpending' (hpending hx)⟩
  closing hr := by
    rcases h'.closing hr with hq | hresolved
    · rcases h.closing hq with hp | hresolved
      · exact .inl hp
      · exact .inr ((h'.settled (by simp [hresolved])).trans hresolved)
    · exact .inr hresolved

/-- A change of the other fields. -/
theorem Move.aside (hposted : q.posted = p.posted) (hready : q.ready = p.ready)
    (htimeout : q.startTimeout = true → p.startTimeout = true)
    (hwriter : q.writer = .closing → p.writer = .closing ∨ p.ready = .resolved) :
    Move told p q where
  posted := ⟨[], by rw [hposted, List.append_nil], List.not_mem_nil, List.not_mem_nil⟩
  settled _ := hready
  resolved hq := .inl (hready ▸ hq)
  timeout hq := ⟨htimeout hq, fun hp => hready.trans hp⟩
  closing hq := hready ▸ hwriter hq

theorem Move.refl (p : Page) : Move told p p := .aside rfl rfl (fun h => h) .inl

theorem Move.post (p : Page) {m : PageMessage} (hoffer : m ≠ .streamDownload)
    (hcomplete : m ≠ .complete) : Move told p (p.post m) where
  posted := ⟨[m], rfl, by simpa using hoffer.symm, by simpa using hcomplete.symm⟩
  settled _ := rfl
  resolved := .inl
  timeout hq := ⟨hq, fun hp => hp⟩
  closing := .inl

theorem Move.startHeartbeat (p : Page) : Move told p p.startHeartbeat := by
  unfold Page.startHeartbeat
  split
  · exact .refl p
  · exact Move.trans (.post p (by simp) (by simp)) (.aside rfl rfl (fun h => h) .inl)

theorem startHeartbeat_fields (p : Page) : p.startHeartbeat =
    { p with posted := p.startHeartbeat.posted, heartbeatInterval :=
      p.startHeartbeat.heartbeatInterval } := by
  unfold Page.startHeartbeat
  split <;> rfl

theorem Move.settleReady (p : Page) {error : Bool} (htold : error = false → told) :
    Move told p (p.settleReady error) := by
  unfold Page.settleReady
  split
  · exact .refl p
  · rename_i hpending
    have hpending : p.ready = .pending := not_not.mp hpending
    cases error with
    | true =>
      exact ⟨⟨[], by simp, by simp, by simp⟩, fun h => absurd hpending h, by simp, by simp, .inl⟩
    | false =>
      have hstart : Move told { p with startTimeout := false, port :=
        false } { p with startTimeout := false, port := false }.startHeartbeat :=
        .startHeartbeat _
      refine ⟨hstart.posted, fun h => absurd hpending h, fun _ => .inr (htold rfl), fun hq => ?_,
        fun _ => .inr rfl⟩
      simp only [Bool.false_eq_true, if_false] at hq
      rw [startHeartbeat_fields] at hq
      cases hq

theorem Move.abortWriter (p : Page) : Move told p p.abortWriter := by
  unfold Page.abortWriter
  split
  · exact .aside rfl rfl (fun h => h) (by simp)
  · exact .refl p

/-- `ready` is settled with an error, and the download is cancelled. -/
theorem Move.cancel (p : Page) : Move told p (p.settleReady true).cancelWorkerSession.abortWriter :=
  ((Move.settleReady p (by simp)).trans (.post _ (by simp) (by simp))).trans (.abortWriter _)

theorem Move.onAbort (p : Page) : Move told p p.onAbort := by
  unfold Page.onAbort
  split
  · exact .refl p
  · refine Move.trans ?_ (.cancel _)
    exact .aside rfl rfl (fun h => h) .inl

theorem Move.abortController (p : Page) : Move told p p.abortController := by
  unfold Page.abortController
  split
  · exact .refl p
  · dsimp only
    split
    · refine Move.trans ?_ (.onAbort _)
      exact .aside rfl rfl (fun h => h) .inl
    · exact .aside rfl rfl (fun h => h) .inl

theorem Move.abort (p : Page) : Move told p p.abort := by
  unfold Page.abort
  split
  · exact .refl p
  · refine Move.trans (q := { p with terminal := true }.stopHeartbeat.settleReady true) ?_ ?_
    · refine Move.trans ?_ (.settleReady _ (by simp))
      exact .aside rfl rfl (fun h => h) .inl
    · refine Move.trans ?_ (.abortWriter _)
      refine Move.trans ?_ (.post _ (by simp) (by simp))
      exact .aside rfl rfl (fun h => h) .inl

theorem Move.step (p : Page) (he : e ≠ .closeFulfilled) : Move told p (p.step e) := by
  cases e with
  | startTimeout =>
    show Move told p p.onStartTimeout
    unfold Page.onStartTimeout
    split
    · refine Move.trans ?_ (.cancel _)
      exact .aside rfl rfl (by simp) .inl
    · exact .refl p
  | heartbeat =>
    show Move told p p.onHeartbeat
    unfold Page.onHeartbeat
    split
    · exact .post p (by simp) (by simp)
    · exact .refl p
  | messageError =>
    show Move told p p.onMessageError
    unfold Page.onMessageError
    split
    · exact .settleReady p (by simp)
    · exact .refl p
  | abortSignal => exact .abortController p
  | abort => exact .abort p
  | close =>
    show Move told p p.close
    unfold Page.close
    split
    · exact .refl p
    · exact .aside rfl rfl (fun h => h) .inl
  | readySettled =>
    show Move told p p.afterReady
    unfold Page.afterReady
    split
    · exact .refl p
    · dsimp only
      split
      · rename_i hready
        exact .aside rfl rfl (fun h => h) fun _ => .inr hready.1
      · exact .aside rfl rfl (fun h => h) .inl
  | closeFulfilled => exact absurd rfl he
  | closeRejected =>
    show Move told p p.onCloseRejected
    unfold Page.onCloseRejected
    split
    · exact .aside rfl rfl (fun h => h) (by simp)
    · exact .refl p
  | streamError => exact .abortWriter p
  | closedRejected =>
    show Move told p p.onClosedRejected
    unfold Page.onClosedRejected
    split
    · dsimp only
      split
      · refine Move.trans ?_ (.abortController _)
        exact .aside rfl rfl (fun h => h) .inl
      · exact .aside rfl rfl (fun h => h) .inl
    · exact .refl p

theorem step_spec (p : Page) (e : PageEvent) : (∃ ms, (p.step e).posted = p.posted ++ ms) ∧
    ((p.step e).ready = .resolved → p.ready = .resolved) := by
  by_cases he : e = .closeFulfilled
  · subst he
    show (∃ ms, p.afterClose.posted = p.posted ++ ms) ∧
      (p.afterClose.ready = .resolved → p.ready = .resolved)
    unfold Page.afterClose
    split
    · exact ⟨⟨[.complete], rfl⟩, fun h => h⟩
    · exact ⟨⟨[], (List.append_nil _).symm⟩, fun h => h⟩
  · have hmove : Move False p (p.step e) := .step p he
    obtain ⟨ms, hms, -⟩ := hmove.posted
    exact ⟨⟨ms, hms⟩, fun h => (hmove.resolved h).resolve_right id⟩

/-- A reply that says that the download has started. -/
def tells : Reply → Prop
  | .started _ => True
  | .error _ _ => False

theorem Move.onMessage (p : Page) (id : JsString) (reply : Reply) :
    Move (tells reply) p (p.onMessage id reply) := by
  cases reply with
  | started id' =>
    unfold Page.onMessage
    dsimp only
    split
    · exact .settleReady p fun _ => trivial
    · exact .refl p
  | error id' message =>
    unfold Page.onMessage
    dsimp only
    split
    · exact .settleReady p (by simp)
    · exact .refl p

/-- Nothing is left that could post a message. -/
structure Quiet (p : Page) : Prop where
  terminal : p.terminal = true
  listening : p.listening = false
  heartbeat : p.heartbeatInterval = false
  timeout : p.startTimeout = false
  ready : p.ready = .resolved
  writer : p.writer = .closed

theorem Quiet.settleReady (h : Quiet p) (error : Bool) : p.settleReady error = p := by
  unfold Page.settleReady
  rw [if_pos (by simp [h.ready])]

theorem Quiet.step (h : Quiet p) (e : PageEvent) :
    Quiet (p.step e) ∧ (p.step e).posted = p.posted := by
  have hsame : Quiet p ∧ p.posted = p.posted := ⟨h, rfl⟩
  obtain ⟨hterminal, hlistening, hheartbeat, htimeout, hready, hwriter⟩ := h
  cases e with
  | startTimeout => simpa [Page.step, onStartTimeout, htimeout] using hsame
  | heartbeat => simpa [Page.step, onHeartbeat, hheartbeat] using hsame
  | messageError => simpa [Page.step, onMessageError, hsame.1.settleReady] using hsame
  | abortSignal =>
    show Quiet p.abortController ∧ p.abortController.posted = p.posted
    unfold Page.abortController
    split
    · exact hsame
    · rw [if_neg (by simp [hlistening])]
      exact ⟨⟨hterminal, hlistening, hheartbeat, htimeout, hready, hwriter⟩, rfl⟩
  | abort => simpa [Page.step, Page.abort, hterminal] using hsame
  | close => simpa [Page.step, Page.close, hterminal] using hsame
  | readySettled =>
    show Quiet p.afterReady ∧ p.afterReady.posted = p.posted
    unfold Page.afterReady
    split
    · exact hsame
    · rw [if_neg (by simp [hwriter])]
      exact ⟨⟨hterminal, hlistening, hheartbeat, htimeout, hready, hwriter⟩, rfl⟩
  | closeFulfilled => simpa [Page.step, afterClose, hwriter] using hsame
  | closeRejected => simpa [Page.step, onCloseRejected, hwriter] using hsame
  | streamError => simpa [Page.step, onStreamError, hwriter] using hsame
  | closedRejected => simpa [Page.step, onClosedRejected, hwriter] using hsame

theorem Quiet.onMessage (h : Quiet p) (id : JsString) (reply : Reply) :
    p.onMessage id reply = p := by
  cases reply with
  | started id' =>
    unfold Page.onMessage
    dsimp only
    rw [h.settleReady, ite_self]
  | error id' message =>
    unfold Page.onMessage
    dsimp only
    rw [h.settleReady, ite_self]

/-- The offer is the first message, if it is posted at all, and the completion is the last one. -/
structure Orderly (p : Page) : Prop where
  offer : ∀ i, p.posted[i]? = some .streamDownload → i = 0
  last : ∀ before later, p.posted = before ++ .complete :: later → later = []
  timeout : p.startTimeout = true → p.ready = .pending
  closing : p.writer = .closing → p.ready = .resolved
  ended : .complete ∈ p.posted → Quiet p

theorem first_append {l ms : List PageMessage} (h : ∀ i, l[i]? = some .streamDownload → i = 0)
    (hms : .streamDownload ∉ ms) :
    ∀ i, (l ++ ms)[i]? = some .streamDownload → i = 0 := by
  intro i hi
  by_cases hlt : i < l.length
  · rw [List.getElem?_append_left hlt] at hi
    exact h i hi
  · rw [List.getElem?_append_right (Nat.le_of_not_lt hlt)] at hi
    exact absurd (List.mem_of_getElem? hi) hms

theorem last_append {l before later : List PageMessage} (hnone : .complete ∉ l)
    (h : l ++ [.complete] = before ++ .complete :: later) :
    later = [] := by
  rcases List.eq_nil_or_concat later with hnil | ⟨later', m, rfl⟩
  · exact hnil
  · have hl : l = before ++ .complete :: later' := by
      have happend : l ++ [.complete] = (before ++ .complete :: later') ++ [m] := by simpa using h
      exact (List.append_inj' happend rfl).1
    exact absurd (by simp [hl]) hnone

theorem Orderly.move (h : Orderly p) (hmove : Move told p q)
    (hquiet : Quiet p → Quiet q ∧ q.posted = p.posted) : Orderly q := by
  obtain ⟨ms, hms, hoffer, hcomplete⟩ := hmove.posted
  have hold : .complete ∈ q.posted → .complete ∈ p.posted := by
    rw [hms, List.mem_append]
    exact fun hq => hq.resolve_right hcomplete
  refine ⟨hms ▸ first_append h.offer hoffer, fun before later hq => ?_, fun hq => ?_, fun hq => ?_,
    fun hq => (hquiet (h.ended (hold hq))).1⟩
  · have hmem : .complete ∈ p.posted := hold (by simp [hq])
    exact h.last before later ((hquiet (h.ended hmem)).2 ▸ hq)
  · obtain ⟨hp, hpending⟩ := hmove.timeout hq
    exact hpending (h.timeout hp)
  · rcases hmove.closing hq with hp | hready
    · have hready := h.closing hp
      exact (hmove.settled (by simp [hready])).trans hready
    · exact hready

theorem Orderly.afterClose (h : Orderly p) : Orderly p.afterClose := by
  unfold Page.afterClose
  split
  · rename_i hwriter
    have hready := h.closing hwriter
    have htimeout : p.startTimeout = false := by
      cases htimeout : p.startTimeout with
      | false => rfl
      | true => cases hready.symm.trans (h.timeout htimeout)
    have hnone : PageMessage.complete ∉ p.posted := fun hmem => by
      cases hwriter.symm.trans (h.ended hmem).writer
    have hoffer : ∀ i, (p.posted ++ [PageMessage.complete])[i]? = some .streamDownload → i = 0 :=
      first_append h.offer (by simp)
    refine ⟨hoffer, fun before later hq =>
      last_append hnone hq, ?_, by simp [post, stopHeartbeat], fun _ => ?_⟩
    · simp [post, stopHeartbeat, htimeout]
    · exact ⟨rfl, rfl, rfl, htimeout, hready, rfl⟩
  · exact h

theorem Orderly.step (h : Orderly p) (e : PageEvent) : Orderly (p.step e) := by
  by_cases he : e = .closeFulfilled
  · subst he
    exact h.afterClose
  · have hmove : Move False p (p.step e) := .step p he
    exact h.move hmove fun hquiet => hquiet.step e

theorem Orderly.onMessage (h : Orderly p) (id : JsString) (reply : Reply) :
    Orderly (p.onMessage id reply) :=
  h.move (.onMessage p id reply) fun hquiet => by
    rw [hquiet.onMessage]
    exact ⟨hquiet, rfl⟩

theorem orderly_initial : Orderly Page.initial := by
  refine ⟨by simp [Page.initial], by simp [Page.initial], fun _ => rfl, ?_, by simp [Page.initial]⟩
  simp [Page.initial]

theorem orderly_offered : Orderly (Page.initial.post .streamDownload) := by
  have hsingle : ∀ m : PageMessage, m ∈ (Page.initial.post .streamDownload).posted →
      m = .streamDownload := fun m hm =>
    List.mem_singleton.mp hm
  refine ⟨fun i hi => ?_, fun before later h => ?_, fun _ => rfl, fun h => ?_, fun h => ?_⟩
  · have hlt := (List.getElem?_eq_some_iff.mp hi).1
    exact Nat.lt_one_iff.mp hlt
  · cases hsingle .complete (by simp [h])
  · cases h
  · cases hsingle .complete h

end Page

theorem orderly_createDestination (attempt : Attempt) : (createDestination attempt).Orderly := by
  cases attempt with
  | started => exact Page.orderly_offered
  | offerThrows => exact Page.orderly_initial.step .abort
  | clickThrows => exact Page.orderly_offered.step .abort

end DownloadPage
end DownloadWorker
end Redbox
