import Redbox.ServiceWorker.SessionMaps
import Mathlib.Data.Set.Basic

/-! What an event leaves as it was: the effects of the service worker only grow, a session stays
what it is and pends until it is claimed, and a download that goes on changes only by a message that
names its id. -/
namespace Redbox
namespace DownloadWorker

/-- The session later on. -/
structure Session.Becomes (x y : Session) : Prop where
  id : y.id = x.id
  sourceId : y.sourceId = x.sourceId
  claimed : x.claimed = true → y.claimed = true

theorem Session.Becomes.refl (x : Session) : x.Becomes x := ⟨rfl, rfl, fun h => h⟩

theorem Session.Becomes.trans {x y z : Session} (h : x.Becomes y) (h' : y.Becomes z) :
    x.Becomes z :=
  ⟨h'.id.trans h.id, h'.sourceId.trans h.sourceId, fun hc => h'.claimed (h.claimed hc)⟩

/-- The ids that a message names. -/
def MessageEvent.named (e : MessageEvent) : Set JsString :=
  {id | ∃ data, e.data = some data ∧ data.id = .string id}

def WorkerEvent.named : WorkerEvent → Set JsString
  | .message e => e.named
  | _ => ∅

namespace State

/-- The stream is the body of a successful response. -/
def Streamed (s : State) (n : Nat) : Prop :=
  ∃ fetch response, Effect.respond fetch response ∈ s.effects ∧ response.status = 200 ∧
    response.body = .stream n

/-- No session under the id is still to be claimed. -/
def Settled (s : State) (id : JsString) : Prop :=
  ∀ n session, s.objects n = some session → session.id = id → session.claimed = true

/-- No other session has the id. -/
def Alone (s : State) (id : JsString) (n : Nat) : Prop := ∀ m session, s.objects m = some session →
    session.id = id → m = n

variable {s t u : State} {n k : Nat} {id : JsString} {session : Session} {entry : ActiveEntry}
  {ids : Set JsString} {lost : Set Nat}

/-- The session pends as long as nobody claims it. -/
def Pending (id : JsString) (n : Nat) (s : State) : Prop :=
  s.sessions.lookup id = some n ∨ ∃ session, s.objects n = some session ∧ session.claimed = true

/-- The download of the id goes on with the timers that it had, or it has ended. -/
def Stays (id : JsString) (s t : State) : Prop :=
  ∀ entry, t.activeDownloads.lookup id = some entry → s.activeDownloads.lookup id = some entry ∧
    ∀ i delay, (Timer.active i id entry.session, delay) ∈ s.timers →
      (.active i id entry.session, delay) ∈ t.timers

theorem Stays.trans (h : Stays id s t) (h' : Stays id t u) : Stays id s u := by
  intro entry he
  obtain ⟨he, htimers'⟩ := h' entry he
  obtain ⟨he, htimers⟩ := h entry he
  exact ⟨he, fun i delay hi => htimers' i delay (htimers i delay hi)⟩

structure Frame (ids : Set JsString) (s t : State) : Prop where
  effects : s.effects <:+ t.effects
  started : ∀ n id, .post n (.started id) ∈ t.effects → .post n (.started id) ∈ s.effects ∨
    t.Streamed n
  objects : ∀ n y, t.objects n = some y → ∃ x, s.objects n = some x ∧ x.Becomes y
  kept : ∀ n, (s.objects n).isSome = true → (t.objects n).isSome = true
  pends : ∀ id n, s.Alone id n → Pending id n s → Pending id n t
  stays : ∀ id ∉ ids, s.Settled id → Stays id s t

theorem Streamed.mono (h : s.Streamed n) (hst : s.effects <:+ t.effects) : t.Streamed n := by
  obtain ⟨fetch, response, hmem, hresponse⟩ := h
  exact ⟨fetch, response, hst.mem hmem, hresponse⟩

theorem Settled.mono (h : s.Settled id)
    (hst : ∀ n y, t.objects n = some y → ∃ x, s.objects n = some x ∧ x.Becomes y) :
    t.Settled id := by
  intro n y hy hid
  obtain ⟨x, hx, hbecomes⟩ := hst n y hy
  exact hbecomes.claimed (h n x hx (hbecomes.id.symm.trans hid))

theorem Alone.mono (h : s.Alone id n)
    (hst : ∀ n y, t.objects n = some y → ∃ x, s.objects n = some x ∧ x.Becomes y) :
    t.Alone id n := by
  intro m y hy hid
  obtain ⟨x, hx, hbecomes⟩ := hst m y hy
  exact h m x hx (hbecomes.id.symm.trans hid)

theorem Frame.trans (h : Frame ids s t) (h' : Frame ids t u) : Frame ids s u where
  effects := h.effects.trans h'.effects
  started n id hpost := by
    rcases h'.started n id hpost with hpost | hstreamed
    · exact (h.started n id hpost).imp_right fun hstreamed => hstreamed.mono h'.effects
    · exact .inr hstreamed
  objects n z hz := by
    obtain ⟨y, hy, hyz⟩ := h'.objects n z hz
    obtain ⟨x, hx, hxy⟩ := h.objects n y hy
    exact ⟨x, hx, hxy.trans hyz⟩
  kept n hn := h'.kept n (h.kept n hn)
  pends id n halone hn := h'.pends id n (halone.mono h.objects) (h.pends id n halone hn)
  stays id hid hs := (h.stays id hid hs).trans (h'.stays id hid (hs.mono h.objects))

/-- A change of the waiters, the microtasks and other timers. -/
theorem Frame.aside (heffects : t.effects = s.effects) (hobjects : t.objects = s.objects)
    (hsessions : t.sessions = s.sessions) (hactive : t.activeDownloads = s.activeDownloads)
    (htimers : ∀ i id n delay, (Timer.active i id n, delay) ∈ s.timers →
      (Timer.active i id n, delay) ∈ t.timers) : Frame ids s t where
  effects := heffects ▸ List.suffix_refl _
  started _ _ hpost := .inl (heffects ▸ hpost)
  objects _ x hx := ⟨x, hobjects ▸ hx, .refl x⟩
  kept _ hn := hobjects ▸ hn
  pends _ _ _ hn := hn.imp (fun hn => hsessions ▸ hn) fun hx => hobjects ▸ hx
  stays id _ _ entry he := ⟨hactive ▸ he, fun i delay => htimers i id entry.session delay⟩

theorem Frame.refl (s : State) : Frame ids s s := .aside rfl rfl rfl rfl fun _ _ _ _ h => h

theorem Frame.emit (s : State) {es : List Effect} (hes : ∀ n id, Effect.post n (.started id) ∉ es) :
    Frame ids s (s.emit es) where
  effects := List.suffix_append _ _
  started n id hpost := .inl ((List.mem_append.mp hpost).resolve_left fun h =>
    hes n id (List.mem_reverse.mp h))
  objects _ x hx := ⟨x, hx, .refl x⟩
  kept _ hn := hn
  pends _ _ _ hn := hn
  stays _ _ _ _ he := ⟨he, fun _ _ h => h⟩

theorem mem_timers_clear {timer : Timer} {x : Timer × Nat} :
    x ∈ (s.clearTimeout timer).timers ↔ x ∈ s.timers ∧ x.1 ≠ timer := by
  simp [State.clearTimeout]

theorem timers_take {i m delay : Nat} (h : (Timer.active i id m, delay) ∈ s.timers) :
    (Timer.active i id m, delay) ∈ (s.take n session).timers := by
  simp only [take]
  split
  · exact (mem_timers_clear (s := s.setSession n _)).mpr ⟨h, by simp⟩
  · exact h

/-- A session is replaced by what it becomes. -/
theorem Frame.update {x y : Session} (hn : s.objects n = some x) (hx : x.Becomes y)
    (heffects : t.effects = s.effects) (hobjects : t.objects = Function.update s.objects n (some y))
    (hactive : t.activeDownloads = s.activeDownloads)
    (hsessions : y.claimed = true ∨ t.sessions.lookup x.id = some n)
    (hothers : ∀ id, id ≠ x.id → t.sessions.lookup id = s.sessions.lookup id)
    (htimers : ∀ i id n delay, (Timer.active i id n, delay) ∈ s.timers →
      (Timer.active i id n, delay) ∈ t.timers) : Frame ids s t where
  effects := heffects ▸ List.suffix_refl _
  started _ _ hpost := .inl (heffects ▸ hpost)
  objects m y hy := by
    rw [hobjects] at hy
    rcases updated_some hy with ⟨rfl, rfl⟩ | hy
    · exact ⟨x, hn, hx⟩
    · exact ⟨y, hy, .refl y⟩
  kept m hm := by
    rw [hobjects]
    by_cases hmn : m = n
    · rw [hmn, Function.update_self]
      rfl
    · rwa [Function.update_of_ne hmn]
  pends id m halone hm := by
    rcases hm with hm | ⟨z, hz, hc⟩
    · by_cases hid : id = x.id
      · obtain rfl : n = m := halone n x hn hid.symm
        rcases hsessions with hy | hlookup
        · exact .inr ⟨y, hobjects ▸ Function.update_self .., hy⟩
        · exact .inl (hid ▸ hlookup)
      · exact .inl ((hothers id hid).trans hm)
    · rw [Pending, hobjects]
      by_cases hmn : m = n
      · subst hmn
        cases hn.symm.trans hz
        exact .inr ⟨y, Function.update_self .., hx.claimed hc⟩
      · exact .inr ⟨z, (Function.update_of_ne hmn _ _).trans hz, hc⟩
  stays id _ _ entry he := ⟨hactive ▸ he, fun i delay => htimers i id entry.session delay⟩

theorem Frame.take (hn : s.objects n = some session) : Frame ids s (s.take n session) := by
  have htimers : ∀ i id m delay, (Timer.active i id m, delay) ∈ s.timers →
      (Timer.active i id m, delay) ∈ (s.take n session).timers :=
    fun _ _ _ _ h => timers_take h
  rw [take_fields] at htimers ⊢
  exact .update hn (y := { session with claimed := true }) ⟨rfl, rfl, fun _ => rfl⟩ rfl rfl rfl
    (.inl rfl) (fun _ hne => AList.lookup_erase_ne hne) htimers

theorem Frame.expireSession (s : State) (n : Nat) (message : String) :
    Frame ids s (s.expireSession n message) := by
  unfold State.expireSession
  split
  · rename_i session hn
    split
    · exact .refl s
    · exact (Frame.take hn).trans (.emit _ (by simp))
  · exact .refl s

theorem timers_clearEntry {id' : JsString} {i m delay : Nat} (hid : id ≠ id')
    (h : (Timer.active i id m, delay) ∈ s.timers) :
    (Timer.active i id m, delay) ∈ (s.clearEntry id' entry).timers := by
  unfold clearEntry
  split
  · exact mem_timers_clear.mpr ⟨h, by simp [hid]⟩
  · exact h

/-- A change of the download of one id. -/
theorem Frame.ofActive (heffects : t.effects = s.effects) (hobjects : t.objects = s.objects)
    (hsessions : t.sessions = s.sessions) (hactive : ∀ id ∉ ids, s.Settled id → Stays id s t) :
    Frame ids s t where
  effects := heffects ▸ List.suffix_refl _
  started _ _ hpost := .inl (heffects ▸ hpost)
  objects _ x hx := ⟨x, hobjects ▸ hx, .refl x⟩
  kept _ hn := hobjects ▸ hn
  pends _ _ _ hn := hn.imp (fun hn => hsessions ▸ hn) fun hx => hobjects ▸ hx
  stays := hactive

theorem Frame.releaseActiveDownload (s : State) (id : JsString)
    (n : Nat) : Frame ids s (s.releaseActiveDownload id n) := by
  unfold State.releaseActiveDownload
  split
  · rename_i entry he
    split
    · refine Frame.trans (t := { s.clearEntry id
        entry with activeDownloads := s.activeDownloads.erase id }) ?_ (.emit _ (by simp))
      have htimers : ∀ id', id' ≠ id → ∀ i m delay, (Timer.active i id' m, delay) ∈ s.timers →
          (Timer.active i id' m, delay) ∈ (s.clearEntry id entry).timers :=
            fun _ hne _ _ _ h => timers_clearEntry hne h
      rw [clearEntry_fields] at htimers ⊢
      refine .ofActive rfl rfl rfl fun id' _ _ entry' he' => ?_
      have hne : id' ≠ id := by
        rintro rfl
        cases (AList.lookup_erase _ _).symm.trans he'
      exact ⟨(AList.lookup_erase_ne hne).symm.trans he',
        fun i delay => htimers id' hne i entry'.session delay⟩
    · exact .refl s
  · exact .refl s

theorem timers_refresh {id' : JsString} {i m delay delay' : Nat} (hid : id ≠ id')
    (h : (Timer.active i id m, delay) ∈ s.timers) :
    (Timer.active i id m, delay) ∈ (s.refreshActiveDownload id' entry delay').timers := by
  unfold State.refreshActiveDownload
  exact List.mem_cons_of_mem _ (timers_clearEntry hid h)

theorem Frame.refreshActiveDownload (hids : id ∈ ids) (entry : ActiveEntry) (delay : Nat) :
    Frame ids s (s.refreshActiveDownload id entry delay) := by
  have htimers : ∀ id', id' ≠ id → ∀ i m delay', (Timer.active i id' m, delay') ∈ s.timers →
      (Timer.active i id' m, delay') ∈ (s.refreshActiveDownload id entry delay).timers :=
        fun _ hne _ _ _ h => timers_refresh hne h
  rw [refresh_fields] at htimers ⊢
  refine .ofActive rfl rfl rfl fun id' hid' _ entry' he' => ?_
  have hne : id' ≠ id := fun heq => hid' (heq ▸ hids)
  exact ⟨(AList.lookup_insert_ne hne).symm.trans he',
    fun i delay => htimers id' hne i entry'.session delay⟩

/-- A download starts under the id of a session that was still to be claimed. -/
theorem Frame.start (hn : s.objects n = some session) (hc : session.claimed = false) :
    Frame ids s (s.start n session) := by
  have htimers : ∀ id, id ≠ session.id → ∀ i m delay, (Timer.active i id m, delay) ∈ s.timers →
      (Timer.active i id m, delay) ∈ (s.start n session).timers := by
    intro id hid i m delay h
    unfold State.start
    refine timers_refresh hid ?_
    exact timers_take h
  have htake : Frame ids s (s.take n session) := .take hn
  have hobjects : (s.start n session).objects = (s.take n session).objects := by
    rw [start_fields, take_fields]
  have heffects : (s.start n session).effects = s.effects := by rw [start_fields]
  have hactive : (s.start n session).activeDownloads =
      s.activeDownloads.insert session.id ⟨n, session.sourceId, some s.nextTimer⟩ := by
        rw [start_fields]
  have hsessions : (s.start n session).sessions = (s.take n session).sessions := by
    rw [start_fields, take_fields]
  refine ⟨heffects ▸ List.suffix_refl _, fun m id hpost => .inl (heffects ▸ hpost),
    fun m y hy => ?_, fun m hm => ?_,
    fun id m halone hm => ?_, fun id _ hs entry he => ?_⟩
  · exact htake.objects m y (hobjects ▸ hy)
  · exact hobjects ▸ htake.kept m hm
  · exact (htake.pends id m halone hm).imp (fun hm => hsessions ▸ hm) fun hx => hobjects ▸ hx
  · have hne : id ≠ session.id := by
      rintro rfl
      cases hc.symm.trans (hs n session hn rfl)
    rw [hactive] at he
    exact ⟨(AList.lookup_insert_ne hne).symm.trans he,
      fun i delay => htimers id hne i entry.session delay⟩

/-- A stream that starts is the body of a response. -/
theorem Frame.claimSession (h : Good k s) (n fetch : Nat) :
    Frame ids s (respondWith fetch (s.claimSession n)) := by
  have hgone : ∀ t, Frame ids t (t.emit [.respond fetch goneResponse]) := fun t => .emit t (by simp)
  cases hn : s.objects n with
  | none =>
    unfold State.claimSession
    simp only [hn]
    exact hgone s
  | some session =>
    cases hc : session.claimed with
    | true =>
      unfold State.claimSession
      simp only [hn, hc, if_true]
      exact hgone s
    | false =>
      by_cases hroom : s.activeDownloads.keys.length < maxActiveDownloads
      · obtain ⟨disposition, hd⟩ := claimed_isSome h hn
        have hresponse : (s.claimSession n).2 = some (downloadResponse n session disposition) := by
          unfold State.claimSession
          simp only [hn, hc, Bool.false_eq_true, if_false, Nat.not_le.mpr hroom, hd,
            Option.map_some]
        unfold State.respondWith
        rw [hresponse, claimSession_start hn hc hroom]
        have hstart : Frame ids s (s.start n session) := .start hn hc
        refine ⟨?_, fun m id hpost => ?_, hstart.objects, hstart.kept, hstart.pends, hstart.stays⟩
        · exact hstart.effects.trans (List.suffix_append [_, _, _] _)
        · rcases List.mem_append.mp
            (show _ ∈ [_, _, _] ++ (s.start n session).effects from hpost) with hpost | hpost
          · obtain ⟨hm, -⟩ : m = n ∧ id = session.id := by simpa using hpost
            exact .inr ⟨fetch, downloadResponse n session disposition, List.mem_cons_self,
              rfl, hm ▸ rfl⟩
          · have heffects : (s.start n session).effects = s.effects := by rw [start_fields]
            exact .inl (heffects ▸ hpost)
      · have hexpire : s.claimSession n =
            (s.expireSession n "Too many secure downloads are active.", some goneResponse) := by
          unfold State.claimSession
          simp only [hn, hc, Bool.false_eq_true, if_false, if_pos (Nat.not_lt.mp hroom)]
        rw [hexpire]
        exact (Frame.expireSession s n _).trans (hgone _)

theorem Frame.clearTimeout {timer : Timer} (s : State)
    (hactive : ∀ i id entry, s.activeDownloads.lookup id = some entry →
      timer ≠ .active i id entry.session) :
    Frame ids s (s.clearTimeout timer) :=
  .ofActive rfl rfl rfl fun id _ _ entry he =>
    ⟨he, fun i _ h => mem_timers_clear.mpr ⟨h, (hactive i id entry he).symm⟩⟩

theorem Frame.wake (s : State) (id : JsString) (fetch : Nat) (session : Option Nat) :
    Frame ids s (s.wake id fetch session) :=
  .aside rfl rfl rfl rfl fun _ _ _ _ h => mem_timers_clear.mpr ⟨h, by simp⟩

theorem Frame.waitForSession (s : State) (id : JsString) (fetch : Nat) :
    Frame ids s (s.waitForSession id fetch) := by
  unfold State.waitForSession
  split
  · exact .aside rfl rfl rfl rfl fun _ _ _ _ h => h
  · exact .aside rfl rfl rfl rfl fun _ _ _ _ h => List.mem_cons_of_mem _ h

theorem Frame.offerSession (hn : s.objects n = some session) :
    Frame ids s (s.offerSession n session).1 := by
  unfold State.offerSession
  split
  · exact .refl s
  · split
    · exact .wake s _ _ _
    · split
      · exact .refl s
      · exact .update hn (y := { session with timeout := true }) ⟨rfl, rfl, fun h => h⟩ rfl rfl rfl
          (.inr (AList.lookup_insert _)) (fun _ hne => AList.lookup_insert_ne hne) fun _ _ _ _ h =>
            List.mem_cons_of_mem _ h

theorem Frame.onTimer (s : State) (timer : Timer) : Frame ids s (s.onTimer timer) := by
  by_cases harmed : timer ∈ s.armed
  · have hset : s.timers.any (fun x => decide (x.1 = timer)) = true := by simpa [armed] using harmed
    unfold State.onTimer
    rw [if_pos hset]
    cases timer with
    | session n =>
      show Frame ids s ((s.clearTimeout (.session n)).expireSession n _)
      exact (Frame.clearTimeout s (by simp)).trans (.expireSession _ _ _)
    | waiter id fetch =>
      exact .aside rfl rfl rfl rfl fun _ _ _ _ h => mem_timers_clear.mpr ⟨h, by simp⟩
    | active i id n =>
      show Frame ids s ((s.clearTimeout (.active i id n)).releaseActiveDownload id n)
      rw [releaseActiveDownload_clear]
      refine (Frame.releaseActiveDownload s id n).trans (.clearTimeout _ fun i' id' entry he heq =>
        ?_)
      obtain ⟨-, rfl, rfl⟩ := Timer.active.inj heq
      exact releaseActiveDownload_ends he rfl
  · have hset : ¬ s.timers.any (fun x => decide (x.1 = timer)) = true := by
      simpa [armed] using harmed
    unfold State.onTimer
    rw [if_neg hset]
    exact .refl s

theorem Frame.onFetch (h : Good k s) (hlinked : Linked k lost s) (e : FetchEvent) :
    Frame ids s (s.onFetch e) := by
  unfold State.onFetch
  split
  · exact .refl s
  · rename_i id _
    split
    · exact .emit s (by simp)
    · split
      · rename_i n hn
        obtain ⟨session, hs, rfl, hc, -⟩ := hlinked.sessions id n hn
        rw [claimSession_erased hs hc]
        exact .claimSession h n _
      · exact .waitForSession s id _

theorem Frame.cancelPending (s : State) (e : MessageEvent) (id : JsString) :
    Frame ids s (s.cancelPending e id) := by
  have hgone : Frame ids s (State.cancelPending.wakeGone s id) := by
    unfold State.cancelPending.wakeGone
    split
    · exact .wake s id _ none
    · exact .refl s
  unfold State.cancelPending
  split
  · split
    · exact .expireSession s _ _
    · exact hgone
  · exact hgone

theorem Frame.onControl (s : State) (e : MessageEvent) (type : ControlType) (hids : id ∈ ids) :
    Frame ids s (s.onControl e type id) := by
  have hinactive : Frame ids s (State.onControl.inactive s e id type) := by
    cases type with
    | cancel => exact .cancelPending s e id
    | heartbeat => exact .refl s
    | complete => exact .refl s
  unfold State.onControl
  split
  · rename_i entry he
    split
    · cases type with
      | heartbeat => exact .refreshActiveDownload hids entry _
      | complete => exact .refreshActiveDownload hids entry _
      | cancel => exact .releaseActiveDownload s id _
    · exact hinactive
  · exact hinactive

/-- The session that a message brings is there before it is offered. -/
def offered (s : State) : WorkerEvent → State
  | .message e => match e.offer with
    | some session => s.setSession s.events session
    | none => s
  | _ => s

theorem Frame.onMessage (s : State) (e : MessageEvent) :
    Frame e.named (s.offered (.message e)) (s.onMessage e) := by
  cases hoffer : e.offer with
  | some session =>
    have hoffered : s.offered (.message e) = s.setSession s.events session := by
      simp only [offered, hoffer]
    have hframe : Frame e.named (s.setSession s.events session)
        ((s.setSession s.events session).offerSession s.events session).1 :=
      .offerSession (Function.update_self ..)
    rw [onMessage_offer hoffer, hoffered]
    split
    · exact hframe
    · exact hframe.trans (.expireSession _ _ _)
  | none =>
    have hoffered : s.offered (.message e) = s := by simp only [offered, hoffer]
    rw [hoffered]
    unfold State.onMessage
    split
    · exact .refl s
    · rename_i data hdata
      split
      · exact .refl s
      · split
        · split
          · rename_i id _ hid
            split
            · have hnamed : id ∈ e.named := ⟨data, hdata, hid⟩
              exact .onControl s e _ hnamed
            · exact .refl s
          · exact .refl s
        · split
          · rename_i hstream
            have hvalid : validSession e data = none :=
              (offer_spec hdata hstream.1 hstream.2).symm.trans hoffer
            unfold State.onStreamDownload
            rw [hvalid]
            dsimp only
            split
            · exact (Frame.emit s (by simp)).trans (.emit _ (by simp))
            · exact .emit s (by simp)
          · exact .refl s

theorem Frame.runMicrotasks (h : Good k s) : Frame ids s s.runMicrotasks := by
  have hfold : ∀ (tasks : List (Nat × Option Nat)) (t : State), Good k t →
      Frame ids t (tasks.foldl State.runMicrotask t) := by
    intro tasks
    induction tasks with
    | nil => exact fun t _ => .refl t
    | cons task tasks ih =>
      intro t ht
      refine Frame.trans ?_ (ih _ (ht.runMicrotask task))
      unfold State.runMicrotask
      split
      · exact .claimSession ht _ _
      · exact .emit t (by simp)
  have hcleared : Good k { s with microtasks := [] } :=
    ⟨h.pending, h.fetches, h.active, h.streams, h.known, h.timers⟩
  have hclear : Frame ids s { s with microtasks := [] } := .aside rfl rfl rfl rfl fun _ _ _ _ h => h
  exact hclear.trans (hfold s.microtasks _ hcleared)

/-- What a step leaves as it was. -/
theorem Frame.step (h : Good s.events s) (hlinked : Linked s.events lost s) (e : WorkerEvent) :
    Frame e.named (s.offered e) (s.step e) := by
  have hhandle : Frame e.named (s.offered e) (s.handle e) := by
    cases e with
    | message e => exact .onMessage s e
    | fetch e => exact .onFetch h hlinked e
    | timer timer => exact .onTimer s timer
  have hmicrotasks : Frame e.named (s.handle e) (s.handle e).runMicrotasks :=
    .runMicrotasks (h.handle e)
  exact (hhandle.trans hmicrotasks).trans (.aside rfl rfl rfl rfl fun _ _ _ _ h => h)

/-- Nothing but its session comes with a message. -/
theorem offered_some {e : WorkerEvent} (hn : (s.offered e).objects n = some session) :
    s.objects n = some session ∨
    n = s.events ∧ ∃ m : MessageEvent, e = .message m ∧ m.offer = some session := by
  cases e with
  | message m =>
    cases hoffer : m.offer with
    | none =>
      simp only [offered, hoffer] at hn
      exact .inl hn
    | some x =>
      simp only [offered, hoffer] at hn
      rcases updated_some hn with ⟨rfl, rfl⟩ | hn
      · exact .inr ⟨rfl, m, rfl, hoffer⟩
      · exact .inl hn
  | fetch e => exact .inl hn
  | timer timer => exact .inl hn

theorem offered_kept (h : Linked s.events lost s) (e : WorkerEvent)
    (hn : s.objects n = some session) :
    (s.offered e).objects n = some session := by
  have hne : n ≠ s.events := Nat.ne_of_lt (h.fresh n (by simp [hn]))
  cases e with
  | message m =>
    unfold offered
    dsimp only
    split
    · exact (Function.update_of_ne hne _ _).trans hn
    · exact hn
  | fetch e => exact hn
  | timer timer => exact hn

theorem offered_fields (s : State) (e : WorkerEvent) :
    s.offered e = { s with objects := (s.offered e).objects } := by
  cases e with
  | message m =>
    unfold offered
    dsimp only
    split <;> rfl
  | fetch e => rfl
  | timer timer => rfl

theorem offer_named {e : MessageEvent} (h : e.offer = some session) : session.id ∈ e.named := by
  obtain ⟨data, hdata, hvalid⟩ := Option.bind_eq_some_iff.mp h
  refine ⟨data, hdata, ?_⟩
  split at hvalid
  · unfold validSession at hvalid
    split at hvalid
    · rename_i hid _ _ _ _
      split at hvalid
      · cases Option.some.inj hvalid
        exact hid
      · cases hvalid
    · cases hvalid
  · cases hvalid

theorem Good.step (h : Good s.events s) (e : WorkerEvent) : Good (s.step e).events (s.step e) := by
  have hgood := (h.handle e).runMicrotasks
  exact ⟨hgood.pending, hgood.fetches, hgood.active, hgood.streams, hgood.known, hgood.timers⟩

theorem step_effects (h : Good s.events s) (hlinked : Linked s.events lost s) (e : WorkerEvent) :
    s.effects <:+ (s.step e).effects := by
  have hframe := (Frame.step h hlinked e).effects
  rwa [offered_fields] at hframe

/-- Each page that is told that its download has started is right. -/
def Truthful (s : State) : Prop := ∀ n id, .post n (.started id) ∈ s.effects → s.Streamed n

theorem Truthful.step (ht : s.Truthful) (h : Good s.events s) (hlinked : Linked s.events lost s)
    (e : WorkerEvent) :
    (s.step e).Truthful := by
  intro n id hpost
  rcases (Frame.step h hlinked e).started n id hpost with hpost | hstreamed
  · rw [offered_fields] at hpost
    exact (ht n id hpost).mono (step_effects h hlinked e)
  · exact hstreamed

theorem step_objects (h : Good s.events s) (hlinked : Linked s.events lost s) (e : WorkerEvent)
    {y : Session} (hy : (s.step e).objects n = some y) : (∃ x, s.objects n = some x ∧ x.Becomes y) ∨
    n = s.events ∧ ∃ m : MessageEvent, e = .message m ∧ ∃ x, m.offer = some x ∧ x.Becomes y := by
  obtain ⟨x, hx, hbecomes⟩ := (Frame.step h hlinked e).objects n y hy
  rcases offered_some hx with hx | ⟨rfl, m, rfl, hoffer⟩
  · exact .inl ⟨x, hx, hbecomes⟩
  · exact .inr ⟨rfl, m, rfl, x, hoffer, hbecomes⟩

/-- An event that does not name the id leaves a download of it alone, except for ending it. -/
theorem step_stays (h : Good s.events s) (hlinked : Linked s.events lost s) {e : WorkerEvent}
    (hid : id ∉ e.named) (hs : s.Settled id) :
    Stays id s (s.step e) := by
  have hsettled : (s.offered e).Settled id := by
    intro n x hx hname
    rcases offered_some hx with hx | ⟨rfl, m, rfl, hoffer⟩
    · exact hs n x hx hname
    · exact absurd (hname ▸ offer_named hoffer) hid
  have hstays := (Frame.step h hlinked e).stays id hid hsettled
  rwa [offered_fields] at hstays

theorem expireSession_pending (hn : s.objects n = some session) (message : String) :
    Pending id n (s.expireSession n message) := by
  have hframe : Frame ∅ s (s.expireSession n message) := .expireSession s n message
  obtain ⟨y, hy⟩ := Option.isSome_iff_exists.mp (hframe.kept n (by simp [hn]))
  exact .inr ⟨y, hy, expireSession_claims hy⟩

theorem claimSession_pending (hn : s.objects n = some session) (fetch : Nat) :
    Pending id n (respondWith fetch (s.claimSession n)) := by
  rw [respondWith_fields]
  cases hc : session.claimed with
  | true =>
    unfold State.claimSession
    simp only [hn, hc, if_true]
    exact .inr ⟨session, hn, hc⟩
  | false =>
    by_cases hroom : s.activeDownloads.keys.length < maxActiveDownloads
    · rw [claimSession_start hn hc hroom, start_fields]
      exact .inr ⟨{ session with claimed := true }, Function.update_self .., rfl⟩
    · have hexpire : (s.claimSession n).1 =
          s.expireSession n "Too many secure downloads are active." := by
        unfold State.claimSession
        simp only [hn, hc, Bool.false_eq_true, if_false, if_pos (Nat.not_lt.mp hroom)]
      rw [hexpire]
      exact expireSession_pending hn _

/-- A session that is offered pends when the message has been handled. -/
theorem offer_pending {e : MessageEvent} (htasks : s.microtasks = [])
    (hoffer : e.offer = some session) :
    Pending session.id s.events (s.step (.message e)) := by
  show Pending session.id s.events (s.onMessage e).runMicrotasks
  rw [onMessage_offer hoffer]
  have hn : (s.setSession s.events session).objects s.events = some session :=
    Function.update_self ..
  have htasks' : (s.setSession s.events session).microtasks = [] := htasks
  generalize s.setSession s.events session = s' at hn htasks'
  have hidle : ∀ t : State, t.microtasks = [] → Pending session.id s.events t →
      Pending session.id s.events t.runMicrotasks := by
    intro t ht hpending
    unfold State.runMicrotasks
    rw [ht]
    exact hpending
  have hrefused : Pending session.id s.events
      (s'.expireSession s.events "Too many secure downloads are waiting to start.").runMicrotasks :=
    hidle _ ((expireSession_microtasks ..).trans htasks') (expireSession_pending hn _)
  unfold State.offerSession
  split
  · exact hrefused
  · split
    · rename_i fetch _
      simp only [if_true, State.runMicrotasks, State.wake, State.resolve, State.clearTimeout,
        htasks', List.nil_append, List.foldl_cons,
        List.foldl_nil]
      apply claimSession_pending
      exact hn
    · split
      · exact hrefused
      · exact hidle _ htasks' (.inl (AList.lookup_insert _))

/-- A session pends until it is claimed, when no other one has its id. -/
theorem step_pending (h : Good s.events s) (hlinked : Linked s.events lost s) (e : WorkerEvent)
    (halone : s.Alone id n) (hno : ∀ m x, e = .message m → m.offer = some x → x.id ≠ id)
    (hpending : Pending id n s) : Pending id n (s.step e) := by
  have halone : (s.offered e).Alone id n := by
    intro m x hx hid
    rcases offered_some hx with hx | ⟨-, m', rfl, hoffer⟩
    · exact halone m x hx hid
    · exact absurd hid (hno m' x rfl hoffer)
  refine (Frame.step h hlinked e).pends id n halone ?_
  rcases hpending with hlookup | ⟨x, hx, hc⟩
  · rw [Pending, offered_fields]
    exact .inl hlookup
  · exact .inr ⟨x, offered_kept hlinked e hx, hc⟩

theorem step_kept (h : Good s.events s) (hlinked : Linked s.events lost s) (e : WorkerEvent)
    {x : Session} (hn : (s.offered e).objects n = some x) :
    ∃ y, (s.step e).objects n = some y ∧ x.Becomes y := by
  have hframe := Frame.step h hlinked e
  obtain ⟨y, hy⟩ := Option.isSome_iff_exists.mp (hframe.kept n (by simp [hn]))
  obtain ⟨x', hx', hbecomes⟩ := hframe.objects n y hy
  cases hn.symm.trans hx'
  exact ⟨y, hy, hbecomes⟩

/-- The next event has lost nothing yet. -/
theorem Linked.spare (h : Linked k lost s) : Linked k (lost \ {k}) s := by
  have hspare : ∀ n x, s.objects n = some x → n ∉ lost \ {k} → n ∉ lost := by
    intro n x hn hl hlost
    refine hl ⟨hlost, ?_⟩
    rintro rfl
    exact Nat.lt_irrefl _ (h.fresh _ (by simp [hn]))
  exact ⟨h.fresh, h.releases, h.sessions, h.pending, h.active, h.apart,
    fun n x hn hc hl => h.timed n x hn hc (hspare n x hn hl),
    fun n x hn hc hr hl => h.reached n x hn hc hr (hspare n x hn hl)⟩

/-- The download of a session is not overwritten when no other session has its id. -/
theorem not_displaced {e : WorkerEvent} (h : Linked k lost s)
    (hn : ∀ session, s.objects n = some session →
    s.Alone session.id n ∧ ∀ m x, e = .message m → m.offer = some x → x.id ≠ session.id) :
    n ∉ s.displaced e := by
  rintro ⟨id, hid, -, entry, he, rfl⟩
  obtain ⟨session, hs⟩ := h.active id entry he
  obtain ⟨halone, hno⟩ := hn session hs.object
  cases e with
  | message m =>
    obtain ⟨hmap, -⟩ := Option.filter_eq_some_iff.mp hid
    obtain ⟨x, hoffer, hx⟩ := Option.map_eq_some_iff.mp hmap
    exact hno m x rfl hoffer (hx.trans hs.named.symm)
  | fetch e =>
    obtain ⟨-, hget⟩ := Option.filter_eq_some_iff.mp hid
    simp only [Bool.and_eq_true, decide_eq_true_eq] at hget
    obtain ⟨m, hm⟩ := Option.isSome_iff_exists.mp (AList.lookup_isSome.mpr hget.2)
    obtain ⟨x, hx, hname, hc, -⟩ := h.sessions id m hm
    obtain rfl : m = entry.session := halone m x hx (hname.trans hs.named.symm)
    cases hs.object.symm.trans hx
    cases hc.symm.trans hs.claimed
  | timer timer => cases hid

theorem onControl_complete {e : MessageEvent} (he : s.activeDownloads.lookup id = some entry)
    (hown : some entry.sourceId = e.sourceId) :
    s.onControl e .complete id = s.refreshActiveDownload id entry completeGraceMs := by
  unfold State.onControl
  simp only [he, hown, if_true]

theorem onControl_cancel {e : MessageEvent} (he : s.activeDownloads.lookup id = some entry)
    (hown : some entry.sourceId = e.sourceId) :
    s.onControl e .cancel id = s.releaseActiveDownload id entry.session := by
  unfold State.onControl
  simp only [he, hown, if_true]

theorem onControl_inactive {e : MessageEvent} (he : s.activeDownloads.lookup id = none)
    (type : ControlType) :
    s.onControl e type id = State.onControl.inactive s e id type := by
  unfold State.onControl
  simp only [he]

/-- A cancel ends the lifetime of the session, in whatever stage the session is. -/
theorem cancel_releases {e : MessageEvent} (h : Linked k lost s) (hn : s.objects n = some session)
    (hlost : n ∉ lost) (halone : s.Alone session.id n) (hpending : Pending session.id n s)
    (hown : some session.sourceId = e.sourceId) :
    (s.onControl e .cancel session.id).released n := by
  cases hc : session.claimed with
  | true =>
    by_cases hr : s.released n
    · have hframe : Frame {session.id} s (s.onControl e .cancel session.id) :=
        .onControl s e .cancel rfl
      exact hframe.effects.mem hr
    · obtain ⟨entry, he, rfl⟩ := h.reached n session hn hc hr hlost
      obtain ⟨x, hx⟩ := h.active session.id entry he
      cases hn.symm.trans hx.object
      rw [onControl_cancel he (hx.owned ▸ hown)]
      unfold State.releaseActiveDownload
      simp only [he, if_true]
      exact released_emit.mpr (.inl (by simp))
  | false =>
    have hlookup : s.sessions.lookup session.id = some n := by
      refine hpending.resolve_right ?_
      rintro ⟨x, hx, hclaimed⟩
      cases hn.symm.trans hx
      cases hc.symm.trans hclaimed
    have hnone : s.activeDownloads.lookup session.id = none := by
      refine Option.eq_none_iff_forall_ne_some.mpr fun entry he => ?_
      obtain ⟨x, hx⟩ := h.active session.id entry he
      obtain rfl : entry.session = n := halone _ x hx.object hx.named
      cases hn.symm.trans hx.object
      cases hc.symm.trans hx.claimed
    rw [onControl_inactive hnone]
    show State.released (s.cancelPending e session.id) n
    unfold State.cancelPending State.expireSession
    simp only [hlookup, hn, Option.any_some, hown, decide_true, hc, Bool.false_eq_true,
      if_true, if_false]
    exact released_emit.mpr (.inl (by simp))

/-- A completion leaves the download the grace at most. -/
theorem complete_grace {e : MessageEvent}
    (hown : ∀ entry, s.activeDownloads.lookup id = some entry → some entry.sourceId = e.sourceId)
    (he : (s.onControl e .complete id).activeDownloads.lookup id = some entry) :
    ∃ i, entry.timeout = some i ∧ (Timer.active i id entry.session, completeGraceMs) ∈
      (s.onControl e .complete id).timers := by
  cases hlookup : s.activeDownloads.lookup id with
  | none =>
    rw [onControl_inactive hlookup] at he
    cases hlookup.symm.trans he
  | some old =>
    rw [onControl_complete hlookup (hown old hlookup)] at he ⊢
    have hactive : (s.refreshActiveDownload id old completeGraceMs).activeDownloads =
        s.activeDownloads.insert id { old with timeout := some s.nextTimer } := by
          rw [refresh_fields]
    rw [hactive] at he
    cases (AList.lookup_insert _).symm.trans he
    refine ⟨s.nextTimer, rfl, ?_⟩
    unfold State.refreshActiveDownload
    exact List.mem_cons_self

end State
end DownloadWorker
end Redbox
