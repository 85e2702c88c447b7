import Redbox.ServiceWorker.SessionMaps

/-! Whose sessions and downloads a message of a client may change. -/
namespace Redbox
namespace DownloadWorker

namespace State

variable {s t u : State} {n k : Nat} {id : JsString} {session : Session} {entry : ActiveEntry}
  {timer : Timer} {c : Option JsString}
  {lost : Set Nat}

/-- The sessions and downloads of everybody else are as they were, with their timers. -/
structure Undisturbed (c : Option JsString) (s t : State) : Prop where
  sessions : ∀ id n session, s.sessions.lookup id = some n → s.objects n = some session →
    some session.sourceId ≠ c →
    t.sessions.lookup id = some n ∧ t.objects n = some session ∧
      (.session n ∈ t.armed ↔ .session n ∈ s.armed)
  active : ∀ id entry, s.activeDownloads.lookup id = some entry → some entry.sourceId ≠ c →
    t.activeDownloads.lookup id = some entry ∧ ∀ i, Timer.active i id entry.session ∈ t.armed ↔
      .active i id entry.session ∈ s.armed

theorem Undisturbed.trans (h : Undisturbed c s t) (h' : Undisturbed c t u) : Undisturbed c s u where
  sessions id n session hid hn hc := by
    obtain ⟨hid, hn, harmed⟩ := h.sessions id n session hid hn hc
    obtain ⟨hid, hn, harmed'⟩ := h'.sessions id n session hid hn hc
    exact ⟨hid, hn, harmed'.trans harmed⟩
  active id entry he hc := by
    obtain ⟨he, harmed⟩ := h.active id entry he hc
    obtain ⟨he, harmed'⟩ := h'.active id entry he hc
    exact ⟨he, fun i => (harmed' i).trans (harmed i)⟩

/-- A change of the waiters, the effects and the microtasks. -/
theorem Undisturbed.aside (hsessions : t.sessions = s.sessions)
    (hactive : t.activeDownloads = s.activeDownloads) (hobjects : t.objects = s.objects)
    (harmed : ∀ timer, (∀ id fetch, timer ≠ .waiter id fetch) →
      (timer ∈ t.armed ↔ timer ∈ s.armed)) :
    Undisturbed c s t where
  sessions id n session hid hn _ := ⟨hsessions ▸ hid, hobjects ▸ hn, harmed _ (by simp)⟩
  active id entry he _ := ⟨hactive ▸ he, fun _ => harmed _ (by simp)⟩

theorem Undisturbed.refl (s : State) : Undisturbed c s s := .aside rfl rfl rfl fun _ _ => Iff.rfl

theorem Undisturbed.then (h : Undisturbed c s t) (hsessions : u.sessions = t.sessions)
    (hactive : u.activeDownloads = t.activeDownloads) (hobjects : u.objects = t.objects)
    (htimers : u.timers = t.timers) : Undisturbed c s u :=
  h.trans (.aside hsessions hactive hobjects fun timer _ => by simp only [armed, htimers])

theorem Undisturbed.wake (s : State) (id : JsString) (fetch : Nat) (session : Option Nat) :
    Undisturbed c s (s.wake id fetch session) :=
  .aside rfl rfl rfl fun _ hne => mem_armed_clear.trans (and_iff_right (hne id fetch))

/-- A session without an object has none that could be disturbed. -/
theorem Undisturbed.setSession (hnone : s.objects n = none) (session : Session) :
    Undisturbed c s (s.setSession n session) where
  sessions id m x hid hm _ := by
    have hmn : m ≠ n := by
      rintro rfl
      cases hnone.symm.trans hm
    exact ⟨hid, (Function.update_of_ne hmn _ _).trans hm, Iff.rfl⟩
  active id entry he _ := ⟨he, fun _ => Iff.rfl⟩

/-- A client takes a session of its own out of the map. -/
theorem Undisturbed.take (hn : s.objects n = some session) (hown : some session.sourceId = c)
    (hid : ∀ m, s.sessions.lookup session.id = some m → m = n) :
    Undisturbed c s (s.take n session) := by
  have harmed : ∀ timer, timer ∈ (s.take n session).armed ↔ _ := fun _ => mem_armed_take
  rw [take_fields] at harmed ⊢
  refine ⟨fun id m x hm hx hc => ?_, fun id entry he _ => ⟨he, fun i => ?_⟩⟩
  · have hmn : m ≠ n := by
      rintro rfl
      cases hn.symm.trans hx
      exact hc hown
    have hne : id ≠ session.id := by
      rintro rfl
      exact hmn (hid m hm)
    exact ⟨(AList.lookup_erase_ne hne).trans hm, (Function.update_of_ne hmn _ _).trans hx,
      (harmed _).trans (and_iff_left fun _ => by simpa using hmn)⟩
  · exact (harmed _).trans (and_iff_left fun _ => by simp)

theorem Undisturbed.expireSession (hn : s.objects n = some session)
    (hown : some session.sourceId = c) (hid : ∀ m, s.sessions.lookup session.id = some m → m = n)
    (message : String) : Undisturbed c s (s.expireSession n message) := by
  unfold State.expireSession
  simp only [hn]
  split
  · exact .refl s
  · exact (Undisturbed.take hn hown hid).then rfl rfl rfl rfl

theorem Undisturbed.store (hn : s.objects n = some session) (hown : some session.sourceId = c)
    (hid : session.id ∉ s.sessions) :
    Undisturbed c s (s.store n session) := by
  have harmed : ∀ timer, timer ∈ (s.store n session).armed ↔ timer = .session n ∨ timer ∈ s.armed :=
    fun _ => mem_armed_set
  refine ⟨fun id m x hm hx hc => ?_,
    fun id entry he _ => ⟨he, fun i => (harmed _).trans (or_iff_right (by simp))⟩⟩
  have hmn : m ≠ n := by
    rintro rfl
    cases hn.symm.trans hx
    exact hc hown
  have hne : id ≠ session.id := by
    rintro rfl
    exact hid (AList.lookup_isSome.mp (by simp [hm]))
  exact ⟨(AList.lookup_insert_ne hne).trans hm, (Function.update_of_ne hmn _ _).trans hx,
    (harmed _).trans (or_iff_right (by simpa using hmn))⟩

/-- The entry of an id that nobody else has changes. -/
theorem Undisturbed.replace (hid : ∀ entry, s.activeDownloads.lookup id = some entry →
      some entry.sourceId = c) (hsessions : t.sessions = s.sessions)
    (hobjects : t.objects = s.objects)
    (hactive : ∀ id', id' ≠ id → t.activeDownloads.lookup id' = s.activeDownloads.lookup id')
    (harmed : ∀ timer, (∀ i n, timer ≠ .active i id n) → (timer ∈ t.armed ↔ timer ∈ s.armed)) :
    Undisturbed c s t := by
  refine ⟨fun id' m x hm hx _ => ⟨hsessions ▸ hm, hobjects ▸ hx, harmed _ (by simp)⟩,
    fun id' entry he hc => ?_⟩
  have hne : id' ≠ id := by
    rintro rfl
    exact hc (hid entry he)
  exact ⟨(hactive id' hne).trans he, fun i => harmed _ (by simp [hne])⟩

theorem mem_armed_clearEntry_ne (h : ∀ i n, timer ≠ .active i id n) :
    timer ∈ (s.clearEntry id entry).armed ↔ timer ∈ s.armed :=
  mem_armed_clearEntry.trans (and_iff_left fun i _ => h i entry.session)

theorem Undisturbed.releaseActiveDownload (hid : ∀ entry, s.activeDownloads.lookup id = some entry →
      some entry.sourceId = c) (n : Nat) :
    Undisturbed c s (s.releaseActiveDownload id n) := by
  unfold State.releaseActiveDownload
  split
  · split
    · rename_i entry _ _
      have harmed : ∀ timer : Timer, (∀ i n, timer ≠ .active i id n) →
          (timer ∈ (s.clearEntry id entry).armed ↔ timer ∈ s.armed) :=
        fun _ => mem_armed_clearEntry_ne
      rw [clearEntry_fields] at harmed ⊢
      exact .replace hid rfl rfl (fun id' hne => AList.lookup_erase_ne hne) harmed
    · exact .refl s
  · exact .refl s

theorem Undisturbed.refreshActiveDownload (hid : ∀ entry, s.activeDownloads.lookup id = some entry →
      some entry.sourceId = c) (entry : ActiveEntry) (delay : Nat) :
    Undisturbed c s (s.refreshActiveDownload id entry delay) := by
  have harmed : ∀ timer, (∀ i n, timer ≠ .active i id n) →
      (timer ∈ (s.refreshActiveDownload id entry delay).armed ↔ timer ∈ s.armed) :=
    fun timer h => mem_armed_refresh.trans
      ((or_iff_right (h _ _)).trans (mem_armed_clearEntry_ne h))
  rw [refresh_fields] at harmed ⊢
  exact .replace hid rfl rfl (fun id' hne => AList.lookup_insert_ne hne) harmed

/-- A client starts the download of its session under an id that nobody else has. -/
theorem Undisturbed.start (hn : s.objects n = some session) (hown : some session.sourceId = c)
    (hid : ∀ m, s.sessions.lookup session.id = some m → m = n)
    (hactive : ∀ entry, s.activeDownloads.lookup session.id = some entry →
      some entry.sourceId = c) :
    Undisturbed c s (s.start n session) := by
  refine (Undisturbed.take hn hown hid).trans ?_
  have htake : (s.take n session).activeDownloads = s.activeDownloads := by rw [take_fields]
  refine Undisturbed.trans (t := { s.take n session with
    activeDownloads := (s.take n session).activeDownloads.insert session.id ⟨n, session.sourceId,
      none⟩ }) ?_ ?_
  · exact .replace (htake ▸ hactive) rfl rfl (fun id' hne => AList.lookup_insert_ne hne) fun _ _ =>
      Iff.rfl
  · refine Undisturbed.refreshActiveDownload (fun entry he => ?_) _ _
    cases (AList.lookup_insert _).symm.trans he
    exact hown

theorem Undisturbed.claim (h : Undisturbed c s t) (hn : t.objects n = some session)
    (hc : session.claimed = false) (hroom : t.activeDownloads.keys.length < maxActiveDownloads)
    (hown : some session.sourceId = c) (hid : ∀ m, t.sessions.lookup session.id = some m → m = n)
    (hactive : ∀ entry, t.activeDownloads.lookup session.id = some entry → some entry.sourceId = c)
    (fetch : Nat) :
    Undisturbed c s (respondWith fetch (t.claimSession n)) := by
  rw [respondWith_fields, claimSession_start hn hc hroom]
  exact (h.trans (.start hn hown hid hactive)).then rfl rfl rfl rfl

/-- The worker refuses the session that a message offers. -/
def refuses (s : State) (session : Session) : Prop :=
  ((s.setSession s.events session).offerSession s.events session).2 = false

/-- A message leaves the sessions and downloads of other clients alone, and an offer that is refused
takes away no session and no download. -/
structure LeavesOthers (e : MessageEvent) (s t : State) : Prop where
  undisturbed : Undisturbed e.sourceId s t
  refused : ∀ session, e.offer = some session → s.refuses session → t.sessions = s.sessions ∧
    t.activeDownloads = s.activeDownloads

/-- A session is offered under an id that a pending session has, or a fetch waits for it while the
id is that of another client's download. -/
def disturbs (s : State) (e : MessageEvent) : Prop := ∃ session, e.offer = some session ∧
    (session.id ∈ s.sessions ∨
  session.id ∈ s.fetchWaiters ∧ s.activeDownloads.keys.length < maxActiveDownloads ∧
    ∃ entry, s.activeDownloads.lookup session.id = some entry ∧ some entry.sourceId ≠ e.sourceId)

theorem runMicrotasks_undisturbed (h : Undisturbed c s t)
    (htasks : ∀ task ∈ t.microtasks, task.2 = none) : Undisturbed c s t.runMicrotasks := by
  have hfold : ∀ (tasks : List (Nat × Option Nat)) (u : State), (∀ task ∈ tasks, task.2 = none) →
    Undisturbed c s u →
      Undisturbed c s (tasks.foldl runMicrotask u) := by
    intro tasks
    induction tasks with
    | nil => exact fun u _ hu => hu
    | cons task tasks ih =>
      intro u hnone hu
      apply ih _ fun x hx => hnone x (List.mem_cons_of_mem _ hx)
      have htask := hnone task List.mem_cons_self
      unfold runMicrotask
      rw [htask]
      exact hu.then rfl rfl rfl rfl
  exact hfold _ _ htasks (h.then rfl rfl rfl rfl)

theorem undisturbed_onControl (h : Linked k lost s) (htasks : s.microtasks = []) (e : MessageEvent)
    (type : ControlType) (id : JsString) :
    Undisturbed e.sourceId s (s.onControl e type id) ∧ ∀ task ∈ (s.onControl e type id).microtasks,
      task.2 = none := by
  have hnone : ∀ t : State, t.microtasks = s.microtasks → ∀ task ∈ t.microtasks, task.2 = none :=
    fun t ht task htask => by
    rw [ht, htasks] at htask
    cases htask
  have hgone : Undisturbed e.sourceId s (State.cancelPending.wakeGone s id) ∧
      ∀ task ∈ (State.cancelPending.wakeGone s id).microtasks, task.2 = none := by
    unfold State.cancelPending.wakeGone
    split
    · exact ⟨.wake s id _ none, by simp [State.wake, State.resolve, State.clearTimeout, htasks]⟩
    · exact ⟨.refl s, hnone s rfl⟩
  have hinactive : Undisturbed e.sourceId s (State.onControl.inactive s e id type) ∧
      ∀ task ∈ (State.onControl.inactive s e id type).microtasks, task.2 = none := by
    cases type with
    | heartbeat => exact ⟨.refl s, hnone s rfl⟩
    | complete => exact ⟨.refl s, hnone s rfl⟩
    | cancel =>
      show Undisturbed e.sourceId s (s.cancelPending e id) ∧
        ∀ task ∈ (s.cancelPending e id).microtasks, task.2 = none
      unfold State.cancelPending
      split
      · rename_i n hn
        split
        · rename_i hown
          obtain ⟨session, hs, rfl, -⟩ := h.sessions id n hn
          rw [hs] at hown
          refine ⟨.expireSession hs (of_decide_eq_true hown) (fun m hm =>
            Option.some.inj (hm.symm.trans hn)) _, ?_⟩
          exact hnone _ (expireSession_microtasks ..)
        · exact hgone
      · exact hgone
  unfold State.onControl
  split
  · rename_i entry he
    split
    · rename_i hown
      have hid : ∀ entry', s.activeDownloads.lookup id = some entry' →
          some entry'.sourceId = e.sourceId := fun entry' he' => by
        cases he.symm.trans he'
        exact hown
      cases type with
      | heartbeat => exact ⟨.refreshActiveDownload hid entry _, hnone _ refresh_microtasks⟩
      | complete => exact ⟨.refreshActiveDownload hid entry _, hnone _ refresh_microtasks⟩
      | cancel =>
        exact ⟨.releaseActiveDownload hid _, hnone _ (releaseActiveDownload_microtasks ..)⟩
    · exact hinactive
  · exact hinactive

/-- A session that is offered under an id of its own. -/
theorem offered_undisturbed {e : MessageEvent} (h : Linked s.events lost s)
    (htasks : s.microtasks = []) (hoffer : e.offer = some session) (hid : session.id ∉ s.sessions)
    (hactive : session.id ∈ s.fetchWaiters → s.activeDownloads.keys.length < maxActiveDownloads →
      ∀ entry, s.activeDownloads.lookup session.id = some entry →
        some entry.sourceId = e.sourceId) :
    Undisturbed e.sourceId s (s.onMessage e).runMicrotasks := by
  obtain ⟨hc, -, hown⟩ := offer_fresh hoffer
  have hfresh : s.objects s.events = none := by
    cases hk : s.objects s.events with
    | none => rfl
    | some x => exact absurd (h.fresh _ (by simp [hk])) (Nat.lt_irrefl _)
  have hset : Undisturbed e.sourceId s (s.setSession s.events session) := .setSession hfresh session
  generalize hs' : s.setSession s.events session = s' at hset
  have hn : s'.objects s.events = some session := by
    rw [← hs']
    exact Function.update_self ..
  have hid' : session.id ∉ s'.sessions := hs' ▸ hid
  have hnone : ∀ m, s'.sessions.lookup session.id = some m → m = s.events := fun m hm =>
    absurd (AList.lookup_isSome.mp (by simp [hm])) hid'
  have htasks' : s'.microtasks = [] := hs' ▸ htasks
  have hrefused : Undisturbed e.sourceId s
      (s'.expireSession s.events "Too many secure downloads are waiting to start.").runMicrotasks := by
    refine runMicrotasks_undisturbed (hset.trans (.expireSession hn hown hnone _)) fun task htask =>
      ?_
    rw [expireSession_microtasks, htasks'] at htask
    cases htask
  rw [onMessage_offer hoffer, hs']
  unfold State.offerSession
  split
  · exact hrefused
  · rename_i hroom
    split
    · rename_i fetch hw
      have hmem : session.id ∈ s'.fetchWaiters := AList.lookup_isSome.mp (by simp [hw])
      have hroom : s'.activeDownloads.keys.length < maxActiveDownloads := Nat.lt_of_not_le hroom
      have hactive' : ∀ entry, s'.activeDownloads.lookup session.id = some entry →
          some entry.sourceId = e.sourceId := by
        subst hs'
        exact hactive hmem hroom
      have hwake : Undisturbed e.sourceId s
          ({ s'.wake session.id fetch (some s.events) with microtasks := [] } : State) :=
        (hset.trans (.wake s' session.id fetch (some s.events))).then rfl rfl rfl rfl
      simp only [if_true, State.runMicrotasks, State.wake, State.resolve, State.clearTimeout,
        htasks', List.nil_append, List.foldl_cons,
        List.foldl_nil]
      exact hwake.claim hn hc hroom hown hnone hactive' fetch
    · split
      · exact hrefused
      · refine runMicrotasks_undisturbed (hset.trans (.store hn hown hid')) fun task htask => ?_
        have htask : task ∈ s'.microtasks := htask
        rw [htasks'] at htask
        cases htask

theorem undisturbed_message {e : MessageEvent} (h : Linked s.events lost s)
    (htasks : s.microtasks = []) (he : ¬ s.disturbs e) :
    Undisturbed e.sourceId s (s.onMessage e).runMicrotasks := by
  cases hoffer : e.offer with
  | some session =>
    refine offered_undisturbed h htasks hoffer (fun hid => he ⟨session, hoffer, .inl hid⟩)
      fun hw hroom entry hentry => ?_
    by_contra hne
    exact he ⟨session, hoffer, .inr ⟨hw, hroom, entry, hentry, hne⟩⟩
  | none =>
    have hsame : Undisturbed e.sourceId s s.runMicrotasks :=
      runMicrotasks_undisturbed (.refl s) fun task htask => by
      rw [htasks] at htask
      cases htask
    unfold State.onMessage
    split
    · exact hsame
    · rename_i data hdata
      split
      · exact hsame
      · split
        · split
          · split
            · obtain ⟨hcontrol, hnone⟩ := undisturbed_onControl h htasks e ‹_› ‹_›
              exact runMicrotasks_undisturbed hcontrol hnone
            · exact hsame
          · exact hsame
        · split
          · rename_i hstream
            have hvalid : validSession e data = none :=
              (offer_spec hdata hstream.1 hstream.2).symm.trans hoffer
            have hinvalid : Undisturbed e.sourceId s (s.onStreamDownload e data) ∧
                (s.onStreamDownload e data).microtasks = [] := by
              unfold State.onStreamDownload
              rw [hvalid]
              dsimp only
              split
              · exact ⟨(Undisturbed.refl s).then rfl rfl rfl rfl, htasks⟩
              · exact ⟨(Undisturbed.refl s).then rfl rfl rfl rfl, htasks⟩
            refine runMicrotasks_undisturbed hinvalid.1 fun task htask => ?_
            rw [hinvalid.2] at htask
            cases htask
          · exact hsame

theorem offerSession_refused (h : (s.offerSession n session).2 = false) :
    (s.offerSession n session).1 = s := by
  unfold State.offerSession at h ⊢
  split
  · rfl
  · rename_i hroom
    rw [if_neg hroom] at h
    split
    · rename_i hw
      rw [hw] at h
      cases h
    · rename_i hw
      rw [hw] at h
      split
      · rfl
      · rename_i hfree
        simp only [if_neg hfree] at h
        cases h

theorem Linked.refuses (h : Linked k lost s) (hid : session.id ∈ s.sessions) :
    s.refuses session := by
  have hnone : (s.setSession s.events session).fetchWaiters.lookup session.id = none :=
    AList.lookup_eq_none.mpr fun hw => h.apart session.id hw hid
  unfold State.refuses State.offerSession
  split
  · rfl
  · rw [hnone]
    dsimp only
    rw [if_pos (.inl hid)]

theorem refused_step {e : MessageEvent} (hoffer : e.offer = some session)
    (hrefused : s.refuses session) (htasks : s.microtasks = []) :
    (s.step (.message e)).sessions = s.sessions.erase session.id ∧
    (s.step (.message e)).activeDownloads = s.activeDownloads := by
  have hexpire : s.onMessage e = (s.setSession s.events session).expireSession s.events
      "Too many secure downloads are waiting to start." := by
    rw [onMessage_offer hoffer, hrefused, offerSession_refused hrefused]
    rfl
  have htasks : (s.onMessage e).microtasks = [] := by
    rw [hexpire]
    exact (expireSession_microtasks ..).trans htasks
  have hstep : (s.step (.message e)) = { s.onMessage e with microtasks := [], events :=
    s.events + 1 } := by
    unfold State.step State.handle State.runMicrotasks
    rw [htasks]
    rfl
  have hfields : (s.onMessage e).sessions = s.sessions.erase session.id ∧
      (s.onMessage e).activeDownloads = s.activeDownloads := by
    rw [hexpire]
    unfold State.expireSession
    simp only [State.setSession, Function.update_self, (offer_fresh hoffer).1,
      Bool.false_eq_true, if_false]
    rw [take_fields]
    exact ⟨rfl, rfl⟩
  rw [hstep]
  exact hfields

theorem leavesOthers_iff {e : MessageEvent} (h : Linked s.events lost s)
    (htasks : s.microtasks = []) :
    LeavesOthers e s (s.step (.message e)) ↔ ¬ s.disturbs e := by
  constructor
  · rintro hleaves ⟨session, hoffer, hid | ⟨hw, hroom, entry, hentry, hne⟩⟩
    · obtain ⟨hsessions, -⟩ := hleaves.refused session hoffer (h.refuses hid)
      rw [(refused_step hoffer (h.refuses hid) htasks).1] at hsessions
      rw [← hsessions] at hid
      exact (AList.mem_erase.mp hid).1 rfl
    · have hid : s.startedBy (.message e) = some session.id := by simp [startedBy, hoffer, hw]
      obtain ⟨n, hstarted⟩ := step_started h htasks hid hroom
      obtain ⟨x, hx⟩ := h.active session.id entry hentry
      obtain ⟨timeout, sourceId, hinsert⟩ := hstarted.active
      have hkept := (hleaves.undisturbed.active session.id entry hentry hne).1
      rw [hinsert] at hkept
      cases (AList.lookup_insert _).symm.trans hkept
      cases hx.claimed.symm.trans (hstarted.unclaimed x hx.object)
  · intro he
    refine ⟨(undisturbed_message h htasks he).then rfl rfl rfl rfl,
      fun session hoffer hrefused => ?_⟩
    have hid : session.id ∉ s.sessions := fun hid => he ⟨session, hoffer, .inl hid⟩
    obtain ⟨hsessions, hactive⟩ := refused_step hoffer hrefused htasks
    refine ⟨hsessions.trans ?_, hactive⟩
    apply AList.ext
    exact List.kerase_of_notMem_keys hid

end State

open State in
/-- A message of a client disturbs nobody else's session or download, and a refusal takes nothing
away, exactly when the client does not offer a session under an id that is taken. -/
theorem clients_apart (evs : List WorkerEvent) (e : MessageEvent) :
    LeavesOthers e (run evs) ((run evs).step (.message e)) ↔ ¬ (run evs).disturbs e := by
  obtain ⟨lost, h⟩ := linked_run evs
  exact leavesOthers_iff h (run_microtasks evs)

open State in
/-- An offer that is refused takes away the pending session of another client with the same id. -/
theorem refused_offer_disturbs : ¬ LeavesOthers (pageOffer chosenId "intruder")
    (run [.message (pageOffer chosenId "page")])
    ((run [.message (pageOffer chosenId "page")]).step
      (.message (pageOffer chosenId "intruder"))) := by
  have htaken : ((pageOffer chosenId "intruder").offer.any
      fun session => decide (session.id ∈ (run [.message (pageOffer chosenId "page")]).sessions)) =
        true := by decide +kernel
  obtain ⟨session, hoffer, hid⟩ := (Option.any_eq_true _ _).mp htaken
  obtain ⟨lost, h⟩ := linked_run [.message (pageOffer chosenId "page")]
  exact fun hleaves => (leavesOthers_iff h (run_microtasks _)).mp hleaves ⟨session, hoffer,
    .inl (of_decide_eq_true hid)⟩

end DownloadWorker
end Redbox
