import Redbox.ServiceWorker.DownloadFrames
import Redbox.Frontend.DownloadDestination

/-! A page that downloads a file and the service worker, with the messages between them in flight.
The worker also has the fetches of the browser, its own timers and the messages of everybody else.
-/
namespace Redbox
namespace DownloadWorker
namespace DownloadPage

/-- The reply that an effect is on the port. -/
def replyOn (port : Nat) : Effect → Option Reply
  | .post n reply => if n = port then some reply else none
  | _ => none

/-- The page, the worker, and how far each has read what the other one posts. -/
structure PageAndWorker where
  page : Page
  worker : State
  delivered : Nat
  /-- The event that has brought the offer: the port and the stream of the page go by it. -/
  port : Option Nat
  received : Nat

inductive Event where
  | page (e : PageEvent)
  /-- The oldest message in flight reaches the worker. -/
  | deliver
  /-- The oldest reply on the port reaches the page. -/
  | reply
  | fetch (e : FetchEvent)
  | timer (t : Timer)
  /-- A message that is none of this download. -/
  | other (e : MessageEvent)

namespace PageAndWorker

variable (d : Destination)

def initial : PageAndWorker := ⟨createDestination d.attempt, State.initial, 0, none, 0⟩

def replies (s : PageAndWorker) (port : Nat) : List Reply :=
  s.worker.effects.reverse.filterMap (replyOn port)

def step (s : PageAndWorker) : Event → PageAndWorker
  | .page e => { s with page := s.page.step e }
  | .deliver => match s.page.posted[s.delivered]? with
    | some m => { s with
        worker := s.worker.step (.message (d.message m))
        delivered := s.delivered + 1
        port := if m = .streamDownload then some s.worker.events else s.port }
    | none => s
  | .reply => match s.port.bind fun port => (s.replies port)[s.received]? with
    | some reply => { s with page := s.page.onMessage d.id reply, received := s.received + 1 }
    | none => s
  | .fetch e => { s with worker := s.worker.step (.fetch e) }
  | .timer t => { s with worker := s.worker.step (.timer t) }
  | .other e => { s with worker := s.worker.step (.message e) }

def run (evs : List Event) : PageAndWorker := evs.foldl (step d) (initial d)

end PageAndWorker

/-- What the worker knows of the download, and that nobody else has its id. -/
structure Serves (d : Destination) (port : Option Nat) (w : State) : Prop where
  good : State.Good w.events w
  idle : w.microtasks = []
  truthful : w.Truthful
  linked : ∃ lost, State.Linked w.events lost w ∧ ∀ n, port = some n → n ∉ lost
  known : ∀ n, port = some n → n < w.events
  only : ∀ n x, w.objects n = some x → x.id = d.id → port = some n
  own : ∀ n x, port = some n → w.objects n = some x → x.id = d.id ∧ x.sourceId = d.sourceId
  pending : ∀ n x, port = some n → w.objects n = some x → State.Pending d.id n w

section
variable {d : Destination} {port : Option Nat} {w : State} {n : Nat} {e : WorkerEvent}

theorem Serves.alone (h : Serves d port w) (hn : port = some n) : w.Alone d.id n :=
  fun m x hm hid =>
  Option.some.inj ((h.only m x hm hid).symm.trans hn)

/-- A download whose stream is a response is claimed. -/
theorem Serves.settled (h : Serves d port w) (hn : port = some n) (hs : w.Streamed n) :
    w.Settled d.id := by
  intro m x hm hid
  obtain rfl : m = n := h.alone hn m x hm hid
  obtain ⟨fetch, response, hmem, -, hbody⟩ := hs
  have hbodies : 0 < w.bodies m := List.countP_pos_iff.mpr ⟨_, hmem, decide_eq_true hbody⟩
  have hstreams := h.good.streams m
  unfold State.uses at hstreams
  by_cases hclaimed : m < w.events ∧ (w.objects m).all (·.claimed) = true
  · simpa [hm] using hclaimed.2
  · rw [if_neg hclaimed] at hstreams
    omega

/-- Any event but the offer of the page. -/
theorem Serves.step (h : Serves d port w) (hno : ∀ m x, e = .message m → m.offer = some x →
      x.id ≠ d.id) : Serves d port (w.step e) := by
  obtain ⟨lost, hlinked, hlost⟩ := h.linked
  have hold : ∀ n x, (w.step e).objects n = some x → port = some n ∨ x.id = d.id →
      ∃ y, w.objects n = some y ∧ y.Becomes x := by
    intro n x hx hport
    rcases State.step_objects h.good hlinked e hx with hold | ⟨rfl, m, rfl, y, hoffer, hbecomes⟩
    · exact hold
    · rcases hport with hport | hid
      · exact absurd (h.known _ hport) (Nat.lt_irrefl _)
      · exact absurd (hbecomes.id.symm.trans hid) (hno m y rfl hoffer)
  refine ⟨h.good.step e, State.step_microtasks w e, h.truthful.step h.good hlinked e,
    ⟨_, hlinked.step h.idle e, fun n hn hmem => ?_⟩, fun n hn => Nat.lt_succ_of_lt (h.known n hn),
    fun n x hx hid => ?_,
    fun n x hn hx => ?_, fun n x hn hx => ?_⟩
  · rcases hmem with hmem | hmem
    · exact hlost n hn hmem
    · refine State.not_displaced hlinked (fun session hs => ?_) hmem
      rw [(h.own n session hn hs).1]
      exact ⟨h.alone hn, hno⟩
  · obtain ⟨y, hy, hbecomes⟩ := hold n x hx (.inr hid)
    exact h.only n y hy (hbecomes.id.symm.trans hid)
  · obtain ⟨y, hy, hbecomes⟩ := hold n x hx (.inl hn)
    obtain ⟨hid, hsource⟩ := h.own n y hn hy
    exact ⟨hbecomes.id.trans hid, hbecomes.sourceId.trans hsource⟩
  · obtain ⟨y, hy, -⟩ := hold n x hx (.inl hn)
    exact State.step_pending h.good hlinked e (h.alone hn) hno (h.pending n y hn hy)

theorem named_message (d : Destination) (m : PageMessage) {id : JsString}
    (hid : id ∈ (d.message m).named) : id = d.id := by
  obtain ⟨data, hdata, hname⟩ := hid
  cases hdata
  exact (JsValue.string.inj hname).symm

theorem offer_control (d : Destination) {m : PageMessage} (hm : m ≠ .streamDownload) :
    (d.message m).offer = none := by
  simp [MessageEvent.offer, Destination.message, hm]

theorem onMessage_control (d : Destination) {m : PageMessage} {type : ControlType}
    (hprobe : JsValue.string (.ascii m.type) ≠ .string (.ascii "REDBOX_DOWNLOAD_PROBE"))
    (htype : controlType (.string (.ascii m.type)) = some type) :
    w.onMessage (d.message m) = w.onControl (d.message m) type d.id := by
  unfold State.onMessage
  simp only [Destination.message, if_neg hprobe, htype]
  exact if_pos ⟨trivial, isSessionId_random d.bytes⟩

theorem onMessage_cancel (d : Destination) (w : State) :
    w.onMessage (d.message .cancel) = w.onControl (d.message .cancel) .cancel d.id :=
  onMessage_control d (by decide) (by rfl)

theorem onMessage_complete (d : Destination) (w : State) :
    w.onMessage (d.message .complete) = w.onControl (d.message .complete) .complete d.id :=
  onMessage_control d (by decide) (by rfl)

/-- The offer of the page. -/
theorem Serves.offer (h : Serves d none w) :
    Serves d (some w.events) (w.step (.message (d.message .streamDownload))) := by
  obtain ⟨lost, hlinked, -⟩ := h.linked
  have hspare := hlinked.spare
  have hfresh : ∀ x, w.objects w.events ≠ some x :=
    fun x hx => Nat.lt_irrefl _ (hlinked.fresh _ (by simp [hx]))
  have hnew : ∀ x, (w.step (.message (d.message .streamDownload))).objects w.events = some x →
      ∃ y, (d.message .streamDownload).offer = some y ∧ y.Becomes x := by
    intro x hx
    rcases State.step_objects h.good hlinked _ hx with ⟨y, hy, -⟩ | ⟨-, m, hm, y, hoffer, hbecomes⟩
    · exact absurd hy (hfresh y)
    · cases hm
      exact ⟨y, hoffer, hbecomes⟩
  refine ⟨h.good.step _, State.step_microtasks w _, h.truthful.step h.good hlinked _,
    ⟨_, hspare.step h.idle _, fun n hn hmem => ?_⟩, fun n hn => ?_, fun n x hx hid => ?_,
      fun n x hn hx => ?_, fun n x hn hx => ?_⟩
  · cases hn
    rcases hmem with hmem | hmem
    · exact hmem.2 rfl
    · exact State.not_displaced hlinked (fun session hs => absurd hs (hfresh session)) hmem
  · cases hn
    exact Nat.lt_succ_self _
  · rcases State.step_objects h.good hlinked _ hx with ⟨y, hy, hbecomes⟩ | ⟨rfl, -⟩
    · cases h.only n y hy (hbecomes.id.symm.trans hid)
    · rfl
  · cases hn
    obtain ⟨y, hoffer, hbecomes⟩ := hnew x hx
    refine ⟨hbecomes.id.trans (named_message d _ (State.offer_named hoffer)),
      hbecomes.sourceId.trans ?_⟩
    exact Option.some.inj (State.offer_fresh hoffer).2.2
  · cases hn
    obtain ⟨y, hoffer, -⟩ := hnew x hx
    have hpending := State.offer_pending h.idle hoffer
    rwa [named_message d _ (State.offer_named hoffer)] at hpending

/-- A cancel that reaches the worker ends the lifetime. -/
theorem Serves.cancel (h : Serves d port w) (hn : port = some n) {x : Session}
    (hx : (w.step (.message (d.message .cancel))).objects n = some x) :
    (w.step (.message (d.message .cancel))).released n := by
  obtain ⟨lost, hlinked, hlost⟩ := h.linked
  obtain ⟨y, hy, -⟩ : ∃ y, w.objects n = some y ∧ y.Becomes x := by
    rcases State.step_objects h.good hlinked _ hx with hold | ⟨rfl, -⟩
    · exact hold
    · exact absurd (h.known _ hn) (Nat.lt_irrefl _)
  obtain ⟨hid, hsource⟩ := h.own n y hn hy
  have hreleased : (w.onMessage (d.message .cancel)).released n := by
    rw [onMessage_cancel, ← hid]
    exact State.cancel_releases hlinked hy (hlost n hn) (hid ▸ h.alone hn)
      (hid ▸ h.pending n y hn hy) (hsource ▸ rfl)
  have hframe : State.Frame ∅ (w.onMessage (d.message .cancel))
      (w.onMessage (d.message .cancel)).runMicrotasks :=
    .runMicrotasks (h.good.handle (.message (d.message .cancel)))
  exact hframe.effects.mem hreleased

/-- The download has a timer that was set with the grace. -/
def Graced (d : Destination) (w : State) : Prop :=
  ∀ entry, w.activeDownloads.lookup d.id = some entry →
  ∃ i, entry.timeout = some i ∧ (Timer.active i d.id entry.session, completeGraceMs) ∈ w.timers

theorem Graced.stays (h : Graced d w) {w' : State} (hstays : State.Stays d.id w w') :
    Graced d w' := by
  intro entry he
  obtain ⟨he, htimers⟩ := hstays entry he
  obtain ⟨i, hi, htimer⟩ := h entry he
  exact ⟨i, hi, htimers i _ htimer⟩

/-- A completion that reaches the worker leaves the download the grace. -/
theorem Serves.complete (h : Serves d port w) :
    Graced d (w.step (.message (d.message .complete))) := by
  obtain ⟨lost, hlinked, -⟩ := h.linked
  have hown : ∀ entry, w.activeDownloads.lookup d.id = some entry →
      some entry.sourceId = (d.message .complete).sourceId := by
    intro entry he
    obtain ⟨x, hx⟩ := hlinked.active d.id entry he
    have hsource := (h.own _ x (h.only _ x hx.object hx.named) hx.object).2
    exact congrArg some (hx.owned.symm.trans hsource)
  have htasks : (w.onControl (d.message .complete) .complete d.id).microtasks = [] := by
    cases hlookup : w.activeDownloads.lookup d.id with
    | none =>
      exact (congrArg State.microtasks (State.onControl_inactive hlookup .complete)).trans h.idle
    | some entry =>
      rw [State.onControl_complete hlookup (hown entry hlookup)]
      exact State.refresh_microtasks.trans h.idle
  have hstep : w.step (.message (d.message .complete)) =
      { w.onControl (d.message .complete) .complete d.id with microtasks := [], events :=
        w.events + 1 } := by
    unfold State.step State.handle State.runMicrotasks
    dsimp only
    rw [onMessage_complete, htasks]
    rfl
  rw [hstep]
  exact fun entry he => State.complete_grace hown he

end

namespace PageAndWorker

variable {d : Destination} {s : PageAndWorker}

/-- The message has reached the worker. -/
def Reached (s : PageAndWorker) (m : PageMessage) : Prop := m ∈ s.page.posted.take s.delivered

/-- What holds of the page and the worker whatever happens. -/
structure Sound (d : Destination) (s : PageAndWorker) : Prop where
  orderly : s.page.Orderly
  bound : s.delivered ≤ s.page.posted.length
  serves : Serves d s.port s.worker
  early : s.delivered = 0 → s.port = none
  offered : s.Reached .streamDownload → ∃ n, s.port = some n ∧
    ((d.message .streamDownload).offer.isSome = true → (s.worker.objects n).isSome = true)
  ready : s.page.ready = .resolved → ∃ n, s.port = some n ∧ s.worker.Streamed n
  cancelled : s.Reached .cancel → ∀ n x, s.port = some n → s.worker.objects n = some x →
    s.worker.released n
  graced : s.Reached .complete → Graced d s.worker

theorem serves_initial (d : Destination) : Serves d none State.initial := by
  refine ⟨(State.sound_run []).good, rfl, fun n id hpost => ?_,
    ⟨∅, State.linked_initial, fun n hn => ?_⟩, fun n hn => ?_,
    fun n x hx => ?_, fun n x hn => ?_, fun n x hn => ?_⟩
  · cases hpost
  · cases hn
  · cases hn
  · cases hx
  · cases hn
  · cases hn

theorem sound_initial (d : Destination) : Sound d (initial d) := by
  have hpending : (createDestination d.attempt).ready ≠ .resolved := by
    cases d.attempt <;> decide
  refine ⟨orderly_createDestination d.attempt, Nat.zero_le _, serves_initial d, fun _ => rfl,
    fun hr => ?_, fun hr => ?_,
    fun hr => ?_, fun hr => ?_⟩
  · cases hr
  · exact absurd hr hpending
  · cases hr
  · cases hr

theorem Sound.settled (h : Sound d s) (hcomplete : .complete ∈ s.page.posted) :
    s.worker.Settled d.id := by
  obtain ⟨n, hn, hstreamed⟩ := h.ready (h.orderly.ended hcomplete).ready
  exact h.serves.settled hn hstreamed

/-- The worker handles an event that is no message of this download. -/
theorem Sound.work (h : Sound d s) {e : WorkerEvent} (hid : d.id ∉ e.named) :
    Sound d { s with worker := s.worker.step e } := by
  obtain ⟨lost, hlinked, -⟩ := h.serves.linked
  have hno : ∀ m x, e = .message m → m.offer = some x → x.id ≠ d.id := by
    rintro m x rfl hoffer hx
    exact hid (hx ▸ State.offer_named hoffer)
  have heffects := State.step_effects h.serves.good hlinked e
  refine ⟨h.orderly, h.bound, h.serves.step hno, h.early, fun hr => ?_, fun hr => ?_,
    fun hr n x hn hx => ?_, fun hr => ?_⟩
  · obtain ⟨n, hn, hobject⟩ := h.offered hr
    refine ⟨n, hn, fun hvalid => ?_⟩
    obtain ⟨x, hx⟩ := Option.isSome_iff_exists.mp (hobject hvalid)
    obtain ⟨y, hy, -⟩ := State.step_kept h.serves.good hlinked e (State.offered_kept hlinked e hx)
    exact Option.isSome_iff_exists.mpr ⟨y, hy⟩
  · obtain ⟨n, hn, hstreamed⟩ := h.ready hr
    exact ⟨n, hn, hstreamed.mono heffects⟩
  · rcases State.step_objects h.serves.good hlinked e hx with ⟨y, hy, -⟩ | ⟨rfl, -⟩
    · exact heffects.mem (h.cancelled hr n y hn hy)
    · exact absurd (h.serves.known _ hn) (Nat.lt_irrefl _)
  · have hsettled := h.settled (List.mem_of_mem_take hr)
    exact (h.graced hr).stays (State.step_stays h.serves.good hlinked hid hsettled)

/-- The page goes on, and its `ready` is resolved only when the stream is a response. -/
theorem Sound.turn (h : Sound d s) {q : Page} {received : Nat} (horderly : q.Orderly)
    (hposted : ∃ ms, q.posted = s.page.posted ++ ms)
    (hready : q.ready = .resolved → s.page.ready = .resolved ∨ ∃ n, s.port = some n ∧
      s.worker.Streamed n) :
    Sound d { s with page := q, received := received } := by
  obtain ⟨ms, hms⟩ := hposted
  have hreached : ∀ m, Reached { s with page := q, received := received } m → s.Reached m := by
    intro m hm
    unfold Reached at hm
    dsimp only at hm
    rwa [hms, List.take_append_of_le_length h.bound] at hm
  have hbound : s.delivered ≤ q.posted.length := by
    rw [hms, List.length_append]
    exact Nat.le_add_right_of_le h.bound
  exact ⟨horderly, hbound, h.serves, h.early, fun hr => h.offered (hreached _ hr),
    fun hr => (hready hr).elim h.ready id,
    fun hr => h.cancelled (hreached _ hr), fun hr => h.graced (hreached _ hr)⟩

theorem Sound.page (h : Sound d s) (e : PageEvent) : Sound d { s with page := s.page.step e } := by
  obtain ⟨hposted, hresolved⟩ := s.page.step_spec e
  exact h.turn (h.orderly.step e) hposted fun hr => .inl (hresolved hr)

theorem mem_replies {port : Nat} {reply : Reply} (h : reply ∈ s.replies port) :
    Effect.post port reply ∈ s.worker.effects := by
  obtain ⟨effect, hmem, hreply⟩ := List.mem_filterMap.mp h
  cases effect with
  | post n reply' =>
    unfold replyOn at hreply
    dsimp only at hreply
    split at hreply
    · rename_i hn
      cases Option.some.inj hreply
      exact hn ▸ List.mem_reverse.mp hmem
    · cases hreply
  | _ => cases hreply

theorem Sound.reply (h : Sound d s) {port : Nat} {reply : Reply} (hport : s.port = some port)
    (hreply : reply ∈ s.replies port) :
    Sound d { s with page := s.page.onMessage d.id reply, received := s.received + 1 } := by
  have hmove := Page.Move.onMessage s.page d.id reply
  obtain ⟨ms, hms, -⟩ := hmove.posted
  refine h.turn (h.orderly.onMessage d.id reply) ⟨ms, hms⟩ fun hr =>
    (hmove.resolved hr).imp_right fun htells => ?_
  cases reply with
  | started id => exact ⟨port, hport, h.serves.truthful port id (mem_replies hreply)⟩
  | error id message => exact htells.elim

/-- The offer reaches the worker. -/
theorem Sound.offer (h : Sound d s) (hm : s.page.posted[s.delivered]? = some .streamDownload) :
    Sound d { s with
    worker := s.worker.step (.message (d.message .streamDownload)), delivered :=
      s.delivered + 1, port := some s.worker.events } := by
  obtain ⟨lost, hlinked, -⟩ := h.serves.linked
  have hfirst := h.orderly.offer _ hm
  have hport := h.early hfirst
  have hreached : ∀ m ∈ s.page.posted.take (s.delivered + 1), m = .streamDownload := by
    rw [List.take_add_one, hm, hfirst]
    exact fun m hm => List.mem_singleton.mp hm
  refine ⟨h.orderly, (List.getElem?_eq_some_iff.mp hm).1, ?_,
    fun hr => absurd hr (Nat.succ_ne_zero _), fun _ => ?_, fun hr => ?_,
    fun hr => ?_, fun hr => ?_⟩
  · exact (hport ▸ h.serves).offer
  · refine ⟨s.worker.events, rfl, fun hvalid => ?_⟩
    obtain ⟨x, hoffer⟩ := Option.isSome_iff_exists.mp hvalid
    have hobject : (s.worker.offered (.message (d.message .streamDownload))).objects
        s.worker.events = some x := by
      simp only [State.offered, hoffer]
      exact Function.update_self ..
    obtain ⟨y, hy, -⟩ := State.step_kept h.serves.good hlinked _ hobject
    exact Option.isSome_iff_exists.mpr ⟨y, hy⟩
  · obtain ⟨n, hn, -⟩ := h.ready hr
    cases hport.symm.trans hn
  · cases hreached _ hr
  · cases hreached _ hr

/-- No message is in flight behind the completion. -/
theorem Sound.last (h : Sound d s) (hcomplete : s.Reached .complete) :
    s.page.posted.length ≤ s.delivered := by
  obtain ⟨before, after, happend⟩ := List.append_of_mem hcomplete
  have hposted : s.page.posted = before ++ .complete ::
      (after ++ s.page.posted.drop s.delivered) := by
    rw [← List.cons_append, ← List.append_assoc, ← happend, List.take_append_drop]
  exact List.drop_eq_nil_iff.mp (List.append_eq_nil_iff.mp (h.orderly.last _ _ hposted)).2

/-- A message that is no offer reaches the worker. -/
theorem Sound.control (h : Sound d s) {m : PageMessage} (hm : s.page.posted[s.delivered]? = some m)
    (hcontrol : m ≠ .streamDownload) :
    Sound d { s with worker := s.worker.step (.message (d.message m)), delivered :=
      s.delivered + 1 } := by
  obtain ⟨lost, hlinked, -⟩ := h.serves.linked
  obtain ⟨hlt, -⟩ := List.getElem?_eq_some_iff.mp hm
  have hno : ∀ m' x, WorkerEvent.message (d.message m) = .message m' → m'.offer = some x →
      x.id ≠ d.id := by
    rintro m' x heq hoffer
    cases heq
    cases (offer_control d hcontrol).symm.trans hoffer
  have heffects := State.step_effects h.serves.good hlinked (.message (d.message m))
  have hreached : ∀ m', m' ∈ s.page.posted.take (s.delivered + 1) → s.Reached m' ∨ m' = m := by
    intro m' hm'
    rw [List.take_add_one, hm] at hm'
    exact (List.mem_append.mp hm').imp_right List.mem_singleton.mp
  refine ⟨h.orderly, hlt, h.serves.step hno, fun hr => absurd hr (Nat.succ_ne_zero _), fun hr => ?_,
    fun hr => ?_,
    fun hr n x hn hx => ?_, fun hr => ?_⟩
  · obtain ⟨n, hn, hobject⟩ := h.offered ((hreached _ hr).resolve_right hcontrol.symm)
    refine ⟨n, hn, fun hvalid => ?_⟩
    obtain ⟨x, hx⟩ := Option.isSome_iff_exists.mp (hobject hvalid)
    obtain ⟨y, hy, -⟩ := State.step_kept h.serves.good hlinked _ (State.offered_kept hlinked _ hx)
    exact Option.isSome_iff_exists.mpr ⟨y, hy⟩
  · obtain ⟨n, hn, hstreamed⟩ := h.ready hr
    exact ⟨n, hn, hstreamed.mono heffects⟩
  · rcases hreached _ hr with hr | rfl
    · rcases State.step_objects h.serves.good hlinked _ hx with ⟨y, hy, -⟩ | ⟨rfl, -⟩
      · exact heffects.mem (h.cancelled hr n y hn hy)
      · exact absurd (h.serves.known _ hn) (Nat.lt_irrefl _)
    · exact h.serves.cancel hn hx
  · rcases hreached _ hr with hr | rfl
    · exact absurd hlt (Nat.not_lt.mpr (h.last hr))
    · exact h.serves.complete

theorem Sound.step (h : Sound d s) {e : Event} (hfresh : ∀ m, e = .other m → d.id ∉ m.named) :
    Sound d (s.step d e) := by
  cases e with
  | page e => exact h.page e
  | deliver =>
    unfold PageAndWorker.step
    dsimp only
    split
    · rename_i m hm
      by_cases hcontrol : m = .streamDownload
      · subst hcontrol
        exact h.offer hm
      · rw [if_neg hcontrol]
        exact h.control hm hcontrol
    · exact h
  | reply =>
    unfold PageAndWorker.step
    dsimp only
    split
    · rename_i reply hreply
      obtain ⟨port, hport, hreply⟩ := Option.bind_eq_some_iff.mp hreply
      exact h.reply hport (List.mem_of_getElem? hreply)
    · exact h
  | fetch e => exact h.work (Set.notMem_empty _)
  | timer t => exact h.work (Set.notMem_empty _)
  | other m => exact h.work (hfresh m rfl)

theorem Sound.steps (h : Sound d s) {evs : List Event}
    (hfresh : ∀ m, .other m ∈ evs → d.id ∉ m.named) :
    Sound d (evs.foldl (PageAndWorker.step d) s) := by
  induction evs generalizing s with
  | nil => exact h
  | cons e evs ih =>
    apply ih
    · exact h.step fun m hm => hfresh m (hm ▸ List.mem_cons_self)
    · exact fun m hm => hfresh m (List.mem_cons_of_mem _ hm)

theorem sound_run (d : Destination) {evs : List Event}
    (hfresh : ∀ m, .other m ∈ evs → d.id ∉ m.named) : Sound d (run d evs) :=
  (sound_initial d).steps hfresh

/-- When everything has been delivered after a cancel, the id is free. -/
theorem Sound.free (h : Sound d s) (hcancel : s.Reached .cancel) :
    d.id ∉ s.worker.sessions ∧ d.id ∉ s.worker.activeDownloads := by
  obtain ⟨lost, hlinked, -⟩ := h.serves.linked
  constructor
  · intro hmem
    obtain ⟨n, hn⟩ := Option.isSome_iff_exists.mp (AList.lookup_isSome.mpr hmem)
    obtain ⟨x, hx, hid, hc, -⟩ := hlinked.sessions d.id n hn
    exact (hlinked.pending n x hx hc).unreleased
      (h.cancelled hcancel n x (h.serves.only n x hx hid) hx)
  · intro hmem
    obtain ⟨entry, he⟩ := Option.isSome_iff_exists.mp (AList.lookup_isSome.mpr hmem)
    obtain ⟨x, hx⟩ := hlinked.active d.id entry he
    exact hx.unreleased (h.cancelled hcancel _ x (h.serves.only _ x hx.object hx.named) hx.object)

theorem reached_append {q : Page} {ms : List PageMessage} {m : PageMessage}
    (hq : q.posted = s.page.posted ++ ms) (hm : s.Reached m) (received : Nat) :
    Reached { s with page := q, received := received } m := by
  unfold Reached
  dsimp only
  rw [hq, List.take_append]
  exact List.mem_append_left _ hm

/-- After the completion the worker's download stays as it is until it ends. -/
theorem Sound.stays (h : Sound d s) (hcomplete : s.Reached .complete) {e : Event}
    (hfresh : ∀ m, e = .other m → d.id ∉ m.named) :
    (s.step d e).Reached .complete ∧ State.Stays d.id s.worker (s.step d e).worker := by
  obtain ⟨lost, hlinked, -⟩ := h.serves.linked
  have hsettled := h.settled (List.mem_of_mem_take hcomplete)
  have hwork : ∀ e : WorkerEvent, d.id ∉ e.named → State.Stays d.id s.worker (s.worker.step e) :=
    fun e hid =>
    State.step_stays h.serves.good hlinked hid hsettled
  have hsame : State.Stays d.id s.worker s.worker := fun entry he => ⟨he, fun _ _ htimer => htimer⟩
  cases e with
  | page e =>
    obtain ⟨⟨ms, hms⟩, -⟩ := s.page.step_spec e
    exact ⟨reached_append hms hcomplete s.received, hsame⟩
  | deliver =>
    have hnone : s.page.posted[s.delivered]? = none := List.getElem?_eq_none (h.last hcomplete)
    have hstep : s.step d .deliver = s := by
      unfold PageAndWorker.step
      dsimp only
      rw [hnone]
    rw [hstep]
    exact ⟨hcomplete, hsame⟩
  | reply =>
    unfold PageAndWorker.step
    dsimp only
    split
    · rename_i reply _
      obtain ⟨ms, hms, -⟩ := (Page.Move.onMessage s.page d.id reply).posted
      exact ⟨reached_append hms hcomplete _, hsame⟩
    · exact ⟨hcomplete, hsame⟩
  | fetch e => exact ⟨hcomplete, hwork (.fetch e) (Set.notMem_empty _)⟩
  | timer t => exact ⟨hcomplete, hwork (.timer t) (Set.notMem_empty _)⟩
  | other m => exact ⟨hcomplete, hwork (.message m) (hfresh m rfl)⟩

theorem Sound.stays_steps (h : Sound d s) (hcomplete : s.Reached .complete) {evs : List Event}
    (hfresh : ∀ m, .other m ∈ evs → d.id ∉ m.named) :
    (evs.foldl (PageAndWorker.step d) s).Reached .complete ∧
    State.Stays d.id s.worker (evs.foldl (PageAndWorker.step d) s).worker := by
  induction evs generalizing s with
  | nil => exact ⟨hcomplete, fun entry he => ⟨he, fun _ _ htimer => htimer⟩⟩
  | cons e evs ih =>
    have hhead : ∀ m, e = .other m → d.id ∉ m.named :=
      fun m hm => hfresh m (hm ▸ List.mem_cons_self)
    obtain ⟨hreached, hstays⟩ := h.stays hcomplete hhead
    obtain ⟨hreached, hstays'⟩ := ih (h.step hhead) hreached fun m hm =>
      hfresh m (List.mem_cons_of_mem _ hm)
    exact ⟨hreached, hstays.trans hstays'⟩

end PageAndWorker

open PageAndWorker in
/-- The page and the worker agree on the download: its `ready` is resolved only when the page's
stream is the body of a response; a cancel that has been delivered leaves nothing of it; and no
heartbeat follows its completion. -/
structure Agrees (d : Destination) (s : PageAndWorker) : Prop where
  ready : s.page.ready = .resolved → ∃ n, s.port = some n ∧ s.worker.Streamed n
  cancelled : .cancel ∈ s.page.posted → s.delivered = s.page.posted.length →
    d.id ∉ s.worker.sessions ∧ d.id ∉ s.worker.activeDownloads
  released : .cancel ∈ s.page.posted → s.delivered = s.page.posted.length →
    .streamDownload ∈ s.page.posted →
    ∃ n, s.port = some n ∧ ((d.message .streamDownload).offer.isSome = true → s.worker.released n)
  completed : ∀ before later, s.page.posted = before ++ .complete :: later → .heartbeat ∉ later

/-- The download has ended, or it is the one that the completion has left, with the timer that it
has set. -/
def GraceOnly (d : Destination) (s t : PageAndWorker) : Prop :=
  ∀ entry, t.worker.activeDownloads.lookup d.id = some entry →
    s.worker.activeDownloads.lookup d.id = some entry ∧
    ∃ i, entry.timeout = some i ∧ (Timer.active i d.id entry.session, completeGraceMs) ∈
      t.worker.timers

open PageAndWorker in
theorem Agrees.ofSound {d : Destination} {s : PageAndWorker} (h : PageAndWorker.Sound d s) :
    Agrees d s where
  ready := h.ready
  cancelled hcancel hall := by
    refine h.free ?_
    rwa [Reached, hall, List.take_length]
  released hcancel hall hoffer := by
    obtain ⟨n, hn, hobject⟩ := h.offered (by rwa [Reached, hall, List.take_length])
    refine ⟨n, hn, fun hvalid => ?_⟩
    obtain ⟨x, hx⟩ := Option.isSome_iff_exists.mp (hobject hvalid)
    exact h.cancelled (by rwa [Reached, hall, List.take_length]) n x hn hx
  completed before later hposted := by
    rw [h.orderly.last before later hposted]
    exact List.not_mem_nil

open PageAndWorker in
/-- A page and the worker agree on a download in every run in which nobody else's message names its
id, and after the completion has been delivered the download is never given more than the grace. -/
theorem page_and_worker_agree (d : Destination) (evs : List Event)
    (hfresh : ∀ m, .other m ∈ evs → d.id ∉ m.named) :
    Agrees d (run d evs) ∧ ∀ evs', evs' <+: evs → (run d evs').Reached .complete →
    GraceOnly d (run d evs') (run d evs) := by
  have hsound := sound_run d hfresh
  refine ⟨.ofSound hsound, ?_⟩
  rintro evs' ⟨more, rfl⟩ hcomplete entry he
  have hbefore := sound_run d fun m hm => hfresh m (List.mem_append_left more hm)
  have hrun : run d (evs' ++ more) = more.foldl (PageAndWorker.step d) (run d evs') :=
    List.foldl_append
  obtain ⟨hreached, hstays⟩ := hbefore.stays_steps hcomplete fun m hm =>
    hfresh m (List.mem_append_right evs' hm)
  rw [← hrun] at hreached hstays
  exact ⟨(hstays entry he).1, hsound.graced hreached entry he⟩

/-- A file that a page downloads. -/
def report : Destination where
  bytes := fun _ => 0
  fileName := .ascii "report.pdf"
  plaintextSize := .integer 1000
  sourceId := .ascii "page"
  attempt := .started

/-- The browser fetches before the offer comes, another page downloads at the same time, and the
page closes its stream and aborts afterwards. -/
def download : List Event :=
  [.fetch (pageFetch report.id), .other (pageOffer chosenId "elsewhere"), .deliver, .reply,
    .page .heartbeat, .page .close,
    .page .readySettled, .deliver, .page .closeFulfilled, .page .abort, .deliver, .deliver]

open PageAndWorker in
theorem download_agrees : (Agrees report (run report download) ∧ ∀ evs', evs' <+: download →
      (run report evs').Reached .complete →
    GraceOnly report (run report evs') (run report download)) ∧
    (run report download).page.ready = .resolved ∧ (run report download).Reached .complete := by
  have hready : (run report download).page.ready = .resolved := by decide +kernel
  have hreached : .complete ∈ (run report download).page.posted.take
      (run report download).delivered := by decide +kernel
  refine ⟨page_and_worker_agree report download fun m hm hid => ?_, hready, hreached⟩
  have hm : m = pageOffer chosenId "elsewhere" := by simpa [download] using hm
  subst hm
  obtain ⟨data, hdata, hname⟩ := hid
  cases hdata
  have hne : report.id ≠ chosenId := by decide +kernel
  exact hne (JsValue.string.inj hname).symm

end DownloadPage
end DownloadWorker
end Redbox
