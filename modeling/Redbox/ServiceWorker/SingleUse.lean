import Redbox.ServiceWorker.DownloadWorker

/-! Each stream that the service worker is given is used at most once, each fetch is
answered once, and no map grows beyond its capacity. -/
namespace Redbox

section
variable {α β : Type} [DecidableEq α] {id : α} {v : β}

/-- A key that is present stands for one of the values. -/
theorem count_values_kerase [DecidableEq β] {l : List (Sigma fun _ : α => β)}
    (h : l.dlookup id = some v) (w : β) :
    (l.map (·.2)).count w = ((l.kerase id).map (·.2)).count w + if v = w then 1 else 0 := by
  induction l with
  | nil => cases h
  | cons x l ih =>
    obtain ⟨id', v'⟩ := x
    by_cases hid : id = id'
    · subst hid
      rw [List.dlookup_cons_eq] at h
      cases Option.some.inj h
      have herase : List.kerase id (⟨id, v⟩ :: l) = l := List.kerase_cons_eq rfl
      rw [herase, List.map_cons, List.count_cons]
      simp
    · rw [List.dlookup_cons_ne _ _ hid] at h
      rw [List.kerase_cons_ne hid, List.map_cons, List.map_cons, List.count_cons,
        List.count_cons, ih h]
      omega

theorem length_keys_erase (m : AList fun _ : α => β) :
    (m.erase id).keys.length ≤ m.keys.length := by
  rw [AList.keys_erase]
  exact List.length_erase_le

theorem length_keys_insert (m : AList fun _ : α => β) (id : α) (v : β) :
    (m.insert id v).keys.length ≤ m.keys.length + 1 := by
  rw [AList.keys_insert, List.length_cons]
  exact Nat.succ_le_succ List.length_erase_le

theorem length_keys_update {m : AList fun _ : α => β} (h : id ∈ m) :
    (m.insert id v).keys.length = m.keys.length := by
  have hmem : id ∈ m.keys := h
  have hpos := List.length_pos_of_mem hmem
  rw [AList.keys_insert, List.length_cons, List.length_erase_of_mem hmem]
  omega

end

namespace DownloadWorker

/-- The stream becomes the body of a response or is cancelled. -/
def Effect.isBody (n : Nat) : Effect → Bool
  | .respond _ response => decide (response.body = .stream n)
  | _ => false

def Effect.isCancel (n : Nat) : Effect → Bool
  | .cancel readable _ => decide (readable = n)
  | _ => false

def Effect.answers (fetch : Nat) : Effect → Bool
  | .respond f _ => decide (f = fetch)
  | _ => false

/-- Whether the worker answers the event with a response. -/
def WorkerEvent.answered : WorkerEvent → Bool
  | .fetch e => e.downloadId.isSome
  | _ => false

namespace State

def bodies (s : State) (n : Nat) : Nat := s.effects.countP (Effect.isBody n)
def cancels (s : State) (n : Nat) : Nat := s.effects.countP (Effect.isCancel n)
def answers (s : State) (fetch : Nat) : Nat := s.effects.countP (Effect.answers fetch)
def uses (s : State) (n : Nat) : Nat := s.bodies n + s.cancels n

def armed (s : State) : List Timer := s.timers.map (·.1)

def waiting (s : State) (fetch : Nat) : Nat := (s.fetchWaiters.entries.map (·.2)).count fetch

/-- The responses that a fetch has and those that it is going to have. -/
def owed (s : State) (fetch : Nat) : Nat :=
  s.answers fetch + s.waiting fetch + (s.microtasks.map (·.1)).count fetch

/-- The maps are within their capacities, a stream has been used once at most and a session that
is not claimed not at all, and each waiter has its timer. -/
structure Good (k : Nat) (s : State) : Prop where
  pending : s.sessions.keys.length ≤ maxPendingSessions
  fetches : s.fetchWaiters.keys.length ≤ maxPendingFetches
  active : s.activeDownloads.keys.length ≤ maxActiveDownloads
  streams : ∀ n, s.uses n ≤ if n < k ∧ (s.objects n).all (·.claimed) = true then 1 else 0
  known : ∀ n session, s.objects n = some session → n < k ∧ session.fileName.length ≤ 100
  timers : ∀ id fetch, Timer.waiter id fetch ∈ s.armed ↔ s.fetchWaiters.lookup id = some fetch

variable {s : State} {k n fetch : Nat} {id : JsString} {t t' : Timer}

section
variable {es : List Effect}

theorem uses_emit (s : State) (es : List Effect) (n : Nat) :
    (s.emit es).uses n = (es.countP (Effect.isBody n) + es.countP (Effect.isCancel n)) +
      s.uses n := by
  simp only [uses, bodies, cancels, emit, List.countP_append, List.countP_reverse]
  omega

theorem owed_emit : (s.emit es).owed fetch = es.countP (Effect.answers fetch) + s.owed fetch := by
  simp only [owed, answers, emit, List.countP_append, List.countP_reverse]
  show _ + s.waiting fetch + _ = _
  omega

theorem mem_armed_clear : t ∈ (s.clearTimeout t').armed ↔ t ≠ t' ∧ t ∈ s.armed := by
  simp only [armed, clearTimeout, List.mem_map, List.mem_filter, decide_eq_true_eq]
  constructor
  · rintro ⟨x, ⟨hx, hne⟩, rfl⟩
    exact ⟨hne, x, hx, rfl⟩
  · rintro ⟨hne, x, hx, rfl⟩
    exact ⟨x, ⟨hx, hne⟩, rfl⟩

theorem mem_armed_set {delay : Nat} : t ∈ (s.setTimeout t' delay).armed ↔ t = t' ∨ t ∈ s.armed :=
  List.mem_cons

end

/-- The entry's timer is no waiter's, and its clearing leaves everything else. -/
theorem clearEntry_eq (s : State) (id : JsString) (entry : ActiveEntry) :
    ∃ timers, s.clearEntry id entry = { s with timers := timers } ∧
    ∀ id' fetch, Timer.waiter id' fetch ∈ timers.map (·.1) ↔ Timer.waiter id' fetch ∈ s.armed := by
  unfold clearEntry
  split
  · rename_i n _
    refine ⟨_, rfl, fun id' fetch => ?_⟩
    exact mem_armed_clear.trans (and_iff_right (by simp))
  · exact ⟨s.timers, rfl, fun _ _ => Iff.rfl⟩

/-- Taking a session sets its flag and frees its id. -/
theorem take_eq (session : Session) : ∃ timers, s.take n session = { s with
      sessions := s.sessions.erase session.id
      objects := Function.update s.objects n (some { session with claimed := true })
      timers := timers } ∧
    ∀ id' fetch, Timer.waiter id' fetch ∈ timers.map (·.1) ↔ Timer.waiter id' fetch ∈ s.armed := by
  simp only [take]
  split
  · refine ⟨_, rfl, fun id' fetch => ?_⟩
    exact mem_armed_clear.trans (and_iff_right (by simp))
  · exact ⟨s.timers, rfl, fun _ _ => Iff.rfl⟩

theorem updated_some {objects : Nat → Option Session} {m : Nat} {session x : Session}
    (h : Function.update objects n (some session) m = some x) :
    (m = n ∧ x = session) ∨ objects m = some x := by
  by_cases hm : m = n
  · subst hm
    rw [Function.update_self] at h
    exact .inl ⟨rfl, (Option.some.inj h).symm⟩
  · rw [Function.update_of_ne hm] at h
    exact .inr h

/-- A session that is taken may be used once. -/
theorem Good.taken (h : Good k s) (es : List Effect) {session : Session}
    (hn : s.objects n = some session) (hc : session.claimed = false) {t : State}
    (hsessions : t.sessions.keys.length ≤ s.sessions.keys.length)
    (hwaiters : t.fetchWaiters = s.fetchWaiters)
    (hactive : t.activeDownloads.keys.length ≤ maxActiveDownloads)
    (hobjects : t.objects = Function.update s.objects n (some { session with claimed := true }))
    (heffects : t.effects = es.reverse ++ s.effects)
    (harmed : ∀ id fetch, Timer.waiter id fetch ∈ t.armed ↔ Timer.waiter id fetch ∈ s.armed)
    (hes : ∀ m, es.countP (Effect.isBody m) + es.countP (Effect.isCancel m) ≤ if m = n then 1
      else 0) : Good k t := by
  have huses : ∀ m, t.uses m = es.countP (Effect.isBody m) + es.countP (Effect.isCancel m) +
      s.uses m := by
    intro m
    have := uses_emit s es m
    simp only [uses, bodies, cancels, heffects, emit] at this ⊢
    exact this
  obtain ⟨hk, hname⟩ := h.known n session hn
  refine ⟨Nat.le_trans hsessions h.pending, hwaiters ▸ h.fetches, hactive, fun m => ?_,
    fun m x hm => ?_, fun id fetch => ?_⟩
  · have hstream := h.streams m
    have hnew := hes m
    rw [huses m, hobjects]
    by_cases hm : m = n
    · subst hm
      rw [Function.update_self]
      simp only [hn, Option.all_some, hc, Bool.false_eq_true, and_false, if_false] at hstream
      simp only [Option.all_some, and_true, if_pos hk]
      simp only [if_true] at hnew
      omega
    · rw [Function.update_of_ne hm]
      simp only [if_neg hm] at hnew
      omega
  · rw [hobjects] at hm
    rcases updated_some hm with ⟨rfl, rfl⟩ | hm
    · exact ⟨hk, hname⟩
    · exact h.known m x hm
  · rw [harmed, hwaiters]
    exact h.timers id fetch

theorem Good.expireSession (h : Good k s) (n : Nat) (message : String) :
    Good k (s.expireSession n message) := by
  unfold State.expireSession
  split
  · rename_i session hn
    split
    · exact h
    · rename_i hc
      obtain ⟨timers, htake, htimers⟩ := take_eq (s := s) (n := n) session
      rw [htake]
      refine h.taken _ hn (Bool.eq_false_iff.mpr hc) (length_keys_erase _) rfl h.active rfl rfl
        htimers fun m => ?_
      by_cases hm : m = n
      · simp [Effect.isBody, Effect.isCancel, hm]
      · simp [Effect.isBody, Effect.isCancel, hm, Ne.symm hm]
  · exact h

/-- A change that uses no stream and wakes no fetch. -/
theorem Good.aside (h : Good k s) {t : State}
    (hsessions : t.sessions.keys.length ≤ maxPendingSessions)
    (hwaiters : t.fetchWaiters = s.fetchWaiters)
    (hactive : t.activeDownloads.keys.length ≤ maxActiveDownloads)
    (hobjects : t.objects = s.objects) (huses : ∀ m, t.uses m = s.uses m)
    (harmed : ∀ id fetch, Timer.waiter id fetch ∈ t.armed ↔ Timer.waiter id fetch ∈ s.armed) :
    Good k t := by
  refine ⟨hsessions, hwaiters ▸ h.fetches, hactive, fun m => ?_, fun m x hm => ?_,
    fun id fetch => ?_⟩
  · rw [huses, hobjects]
    exact h.streams m
  · rw [hobjects] at hm
    exact h.known m x hm
  · rw [harmed, hwaiters]
    exact h.timers id fetch

theorem Good.emit (h : Good k s) {es : List Effect}
    (hes : ∀ m, es.countP (Effect.isBody m) + es.countP (Effect.isCancel m) = 0) :
    Good k (s.emit es) :=
  h.aside h.pending rfl h.active rfl (fun m => by rw [uses_emit, hes m, Nat.zero_add]) fun _ _ =>
    Iff.rfl

theorem Good.releaseActiveDownload (h : Good k s) (id : JsString) (session : Nat) :
    Good k (s.releaseActiveDownload id session) := by
  unfold State.releaseActiveDownload
  split
  · rename_i entry _
    split
    · obtain ⟨timers, hclear, htimers⟩ := clearEntry_eq s id entry
      rw [hclear]
      exact h.aside h.pending rfl (Nat.le_trans (length_keys_erase _) h.active) rfl (fun m =>
        (uses_emit _ _ m).trans (Nat.zero_add _))
        htimers
    · exact h
  · exact h

theorem Good.refreshActiveDownload (h : Good k s) {entry : ActiveEntry}
    (he : id ∈ s.activeDownloads) (delay : Nat) :
    Good k (s.refreshActiveDownload id entry delay) := by
  unfold State.refreshActiveDownload
  obtain ⟨timers, hclear, htimers⟩ := clearEntry_eq s id entry
  rw [hclear]
  refine h.aside h.pending rfl (Nat.le_trans (Nat.le_of_eq (length_keys_update he)) h.active) rfl
    (fun _ => rfl) fun id' fetch => ?_
  rw [← htimers]
  exact mem_armed_set.trans (or_iff_right (by simp))

/-- The fetch that claims a session gets a response. -/
theorem claimed_isSome (h : Good k s) {session : Session} (hn : s.objects n = some session) :
    ∃ r, contentDisposition session.fileName = some r :=
  Option.isSome_iff_exists.mp (contentDisposition_isSome (h.known n session hn).2)

theorem gone_uses (m : Nat) : [Effect.respond fetch goneResponse].countP (Effect.isBody m) +
    [Effect.respond fetch goneResponse].countP (Effect.isCancel m) = 0 := rfl

theorem Good.claimSession (h : Good k s) (n fetch : Nat) :
    Good k (respondWith fetch (s.claimSession n)) := by
  unfold State.claimSession
  split
  · exact h.emit gone_uses
  · rename_i session hn
    split
    · exact h.emit gone_uses
    · rename_i hc
      split
      · exact (h.expireSession n _).emit gone_uses
      · rename_i hroom
        obtain ⟨timers, htake, htimers⟩ := take_eq (s := s) (n := n) session
        obtain ⟨r, hr⟩ := claimed_isSome h hn
        rw [htake]
        simp only [hr, Option.map_some, respondWith]
        refine h.taken [.post n (.started session.id), .closePort n,
          .respond fetch (downloadResponse n session r)] hn (Bool.eq_false_iff.mpr hc)
          (length_keys_erase _) rfl ?_ rfl rfl
          (fun id' f => ?_) fun m => ?_
        · have hinsert := length_keys_insert s.activeDownloads session.id ⟨n,
            session.sourceId, none⟩
          have hupdate := length_keys_update (v :=
            (⟨n, session.sourceId, some s.nextTimer⟩ : ActiveEntry))
            (show session.id ∈ s.activeDownloads.insert session.id ⟨n, session.sourceId, none⟩ from
              (AList.mem_insert s.activeDownloads).mpr (.inl rfl))
          exact Nat.le_trans (Nat.le_of_eq hupdate) (Nat.le_trans hinsert (Nat.lt_of_not_le hroom))
        · rw [← htimers]
          exact mem_armed_set.trans (or_iff_right (by simp))
        · by_cases hm : m = n
          · simp [Effect.isBody, Effect.isCancel, downloadResponse, hm]
          · simp [Effect.isBody, Effect.isCancel, downloadResponse, hm, Ne.symm hm]

/-- A waiter leaves together with its timer. -/
theorem Good.wake (h : Good k s) (hw : s.fetchWaiters.lookup id = some fetch)
    (session : Option Nat) :
    Good k (s.wake id fetch session) := by
  refine ⟨h.pending, Nat.le_trans (length_keys_erase _) h.fetches, h.active, h.streams, h.known,
    fun id' f => ?_⟩
  show _ ↔ (s.fetchWaiters.erase id).lookup id' = some f
  refine mem_armed_clear.trans ?_
  rw [h.timers]
  by_cases hid : id' = id
  · subst hid
    rw [AList.lookup_erase, hw]
    simp only [ne_eq, Timer.waiter.injEq, true_and, Option.some.injEq, reduceCtorEq,
      iff_false, not_and]
    exact fun hne heq => hne heq.symm
  · rw [AList.lookup_erase_ne hid]
    simp [hid]

theorem Good.waitForSession (h : Good k s) (id : JsString) (fetch : Nat) :
    Good k (s.waitForSession id fetch) := by
  unfold State.waitForSession
  split
  · exact ⟨h.pending, h.fetches, h.active, h.streams, h.known, h.timers⟩
  · rename_i hroom
    rw [not_or] at hroom
    obtain ⟨hid, hroom⟩ := hroom
    refine ⟨h.pending, Nat.le_trans (length_keys_insert _ _ _) (Nat.lt_of_not_le hroom), h.active,
      h.streams, h.known, fun id' f => ?_⟩
    refine mem_armed_set.trans ?_
    show _ ↔ (s.fetchWaiters.insert id fetch).lookup id' = some f
    rw [h.timers]
    by_cases hid' : id' = id
    · subst hid'
      rw [AList.lookup_insert, AList.lookup_eq_none.mpr hid]
      simp [eq_comm]
    · rw [AList.lookup_insert_ne hid']
      simp [hid']

/-- A session whose timer is set is still not claimed. -/
theorem Good.offerSession (h : Good k s) {session : Session} (hn : s.objects n = some session) :
    Good k (s.offerSession n session).1 := by
  unfold State.offerSession
  split
  · exact h
  · split
    · rename_i hw
      exact h.wake hw _
    · split
      · exact h
      · rename_i hroom
        rw [not_or] at hroom
        have hobjects : ∀ m, ((Function.update s.objects n (some { session with timeout := true }))
          m).all (·.claimed) =
            (s.objects m).all (·.claimed) := by
          intro m
          by_cases hm : m = n
          · rw [hm, Function.update_self, hn]
            rfl
          · rw [Function.update_of_ne hm]
        refine ⟨Nat.le_trans (length_keys_insert _ _ _) (Nat.lt_of_not_le hroom.2), h.fetches,
          h.active, fun m => ?_, fun m x hm => ?_,
          fun id' f => ?_⟩
        · show s.uses m ≤ if m < k ∧
            ((Function.update s.objects n (some { session with timeout := true })) m).all
            (·.claimed) = true
            then 1 else 0
          rw [hobjects]
          exact h.streams m
        · have hm : Function.update s.objects n (some { session with timeout := true }) m =
              some x := hm
          rcases updated_some hm with ⟨rfl, rfl⟩ | hm
          · exact h.known m session hn
          · exact h.known m x hm
        · exact (mem_armed_set.trans (or_iff_right (by simp))).trans (h.timers id' f)

theorem Good.mono (h : Good k s) : Good (k + 1) s := by
  refine ⟨h.pending, h.fetches, h.active, fun m => Nat.le_trans (h.streams m) ?_,
    fun m x hm => ?_, h.timers⟩
  · split
    · rename_i hm
      rw [if_pos ⟨Nat.lt_succ_of_lt hm.1, hm.2⟩]
    · exact Nat.zero_le _
  · exact ⟨Nat.lt_succ_of_lt (h.known m x hm).1, (h.known m x hm).2⟩

/-- A new session is not claimed. -/
theorem Good.setSession (h : Good k s) {session : Session} (hc : session.claimed = false)
    (hname : session.fileName.length ≤ 100) : Good (k + 1) (s.setSession k session) := by
  refine ⟨h.pending, h.fetches, h.active, fun m => ?_, fun m x hm => ?_, h.timers⟩
  · by_cases hm : m = k
    · subst hm
      have := h.streams m
      rw [if_neg fun hlt => Nat.lt_irrefl m hlt.1] at this
      exact Nat.le_trans this (Nat.zero_le _)
    · have := h.mono.streams m
      show s.uses m ≤ if m < k + 1 ∧
        ((Function.update s.objects k (some session)) m).all (·.claimed) = true then 1 else 0
      rw [Function.update_of_ne hm]
      exact this
  · have hm : Function.update s.objects k (some session) m = some x := hm
    rcases updated_some hm with ⟨rfl, rfl⟩ | hm
    · exact ⟨Nat.lt_succ_self m, hname⟩
    · exact h.mono.known m x hm

/-- The stream of a message that is not accepted may be cancelled. -/
theorem Good.refuse (h : Good k s) {es : List Effect}
    (hes : ∀ m, es.countP (Effect.isBody m) + es.countP (Effect.isCancel m) ≤ if m = k then 1
      else 0) :
    Good (k + 1) (s.emit es) := by
  refine ⟨h.pending, h.fetches, h.active, fun m => ?_, h.mono.known, h.timers⟩
  rw [uses_emit]
  have hnew := hes m
  by_cases hm : m = k
  · subst hm
    have hold := h.streams m
    have hnone : s.objects m = none := by
      cases hx : s.objects m with
      | none => rfl
      | some x => exact absurd (h.known m x hx).1 (Nat.lt_irrefl m)
    rw [if_neg fun hlt => Nat.lt_irrefl m hlt.1] at hold
    rw [if_pos rfl] at hnew
    show _ ≤ if m < m + 1 ∧ (s.objects m).all (·.claimed) = true then 1 else 0
    rw [hnone, if_pos ⟨Nat.lt_succ_self m, rfl⟩]
    omega
  · have hold := h.mono.streams m
    rw [if_neg hm] at hnew
    show _ ≤ if m < k + 1 ∧ (s.objects m).all (·.claimed) = true then 1 else 0
    omega

theorem validSession_some {e : MessageEvent} {data : MessageData} {session : Session}
    (h : validSession e data = some session) :
    session.claimed = false ∧ session.fileName.length ≤ 100 := by
  unfold validSession at h
  split at h
  · split at h
    · rename_i hvalid
      cases Option.some.inj h
      exact ⟨rfl, hvalid.2.2.2.1⟩
    · cases h
  · cases h

theorem Good.onStreamDownload (h : Good s.events s) (e : MessageEvent) (data : MessageData) :
    Good (s.events + 1) (s.onStreamDownload e data) := by
  unfold State.onStreamDownload
  split
  · simp only
    split
    · refine Good.emit (h.refuse fun m => ?_) fun _ => rfl
      by_cases hm : m = s.events
      · simp [Effect.isBody, Effect.isCancel, hm]
      · simp [Effect.isBody, Effect.isCancel, hm, Ne.symm hm]
    · exact h.mono.emit fun _ => rfl
  · rename_i session hvalid
    obtain ⟨hc, hname⟩ := validSession_some hvalid
    have hoffer : Good _ ((s.setSession s.events session).offerSession s.events session).1 :=
      (h.setSession hc hname).offerSession (Function.update_self _ _ _)
    simp only
    split
    · exact hoffer
    · exact hoffer.expireSession _ _

theorem Good.cancelPending (h : Good k s) (e : MessageEvent) (id : JsString) :
    Good k (s.cancelPending e id) := by
  have hwake : Good k (cancelPending.wakeGone s id) := by
    unfold cancelPending.wakeGone
    split
    · rename_i hw
      exact h.wake hw _
    · exact h
  unfold State.cancelPending
  split
  · split
    · exact h.expireSession _ _
    · exact hwake
  · exact hwake

theorem Good.onControl (h : Good k s) (e : MessageEvent) (type : ControlType) (id : JsString) :
    Good k (s.onControl e type id) := by
  have hinactive : Good k (onControl.inactive s e id type) := by
    cases type with
    | cancel => exact h.cancelPending e id
    | _ => exact h
  unfold State.onControl
  split
  · rename_i entry hentry
    have hmem : id ∈ s.activeDownloads := AList.lookup_isSome.mp (by rw [hentry]; rfl)
    split
    · cases type with
      | heartbeat => exact h.refreshActiveDownload hmem _
      | complete => exact h.refreshActiveDownload hmem _
      | cancel => exact h.releaseActiveDownload _ _
    · exact hinactive
  · exact hinactive

theorem Good.onMessage (h : Good s.events s) (e : MessageEvent) :
    Good (s.events + 1) (s.onMessage e) := by
  unfold State.onMessage
  split
  · exact h.mono
  · split
    · exact h.mono
    · split
      · split
        · split
          · exact h.mono.onControl _ _ _
          · exact h.mono
        · exact h.mono
      · split
        · exact h.onStreamDownload _ _
        · exact h.mono

theorem Good.onFetch (h : Good k s) (e : FetchEvent) : Good k (s.onFetch e) := by
  unfold State.onFetch
  split
  · exact h
  · split
    · exact h.emit fun _ => rfl
    · split
      · refine Good.claimSession ?_ _ _
        exact h.aside (Nat.le_trans (length_keys_erase _) h.pending) rfl h.active rfl (fun _ => rfl)
          fun _ _ => Iff.rfl
      · exact h.waitForSession _ _

theorem Good.clearTimeout (h : Good k s) (ht : ∀ id fetch, t ≠ .waiter id fetch) :
    Good k (s.clearTimeout t) :=
  h.aside h.pending rfl h.active rfl (fun _ => rfl) fun id fetch =>
    mem_armed_clear.trans (and_iff_right (ht id fetch).symm)

theorem Good.onTimer (h : Good k s) (t : Timer) : Good k (s.onTimer t) := by
  unfold State.onTimer
  split
  · rename_i harmed
    cases t with
    | session n => exact (h.clearTimeout (by simp)).expireSession _ _
    | waiter id fetch =>
      obtain ⟨x, hx, hname⟩ := List.any_eq_true.mp harmed
      have hmem : Timer.waiter id fetch ∈ s.armed :=
        List.mem_map.mpr ⟨x, hx, of_decide_eq_true hname⟩
      exact h.wake ((h.timers id fetch).mp hmem) none
    | active n id session => exact (h.clearTimeout (by simp)).releaseActiveDownload _ _
  · exact h

theorem Good.handle (h : Good s.events s) (e : WorkerEvent) : Good (s.events + 1) (s.handle e) := by
  cases e with
  | message e => exact h.onMessage e
  | fetch e => exact h.mono.onFetch e
  | timer t => exact h.mono.onTimer t

theorem Good.runMicrotask (h : Good k s) (task : Nat × Option Nat) :
    Good k (s.runMicrotask task) := by
  unfold State.runMicrotask
  split
  · exact h.claimSession _ _
  · exact h.emit fun _ => rfl

theorem Good.runMicrotasks (h : Good k s) : Good k s.runMicrotasks := by
  have hfold : ∀ (tasks : List (Nat × Option Nat)) (t : State), Good k t →
      Good k (tasks.foldl State.runMicrotask t) := by
    intro tasks
    induction tasks with
    | nil => exact fun t ht => ht
    | cons task tasks ih => exact fun t ht => ih _ (ht.runMicrotask task)
  exact hfold _ _ ⟨h.pending, h.fetches, h.active, h.streams, h.known, h.timers⟩

/-- No fetch is answered, woken or made to wait. -/
structure Keeps (s t : State) : Prop where
  waiters : t.fetchWaiters = s.fetchWaiters
  microtasks : t.microtasks = s.microtasks
  answers : ∀ fetch, t.answers fetch = s.answers fetch

/-- The fetch is answered. -/
structure Answers (fetch : Nat) (s t : State) : Prop where
  waiters : t.fetchWaiters = s.fetchWaiters
  microtasks : t.microtasks = s.microtasks
  answers : ∀ f, t.answers f = s.answers f + if fetch = f then 1 else 0

theorem Keeps.refl (s : State) : Keeps s s := ⟨rfl, rfl, fun _ => rfl⟩

theorem Keeps.owed {t : State} (h : Keeps s t) (fetch : Nat) : t.owed fetch = s.owed fetch := by
  simp only [State.owed, State.waiting, h.waiters, h.microtasks, h.answers]

theorem Answers.owed {t : State} (h : Answers fetch s t) (f : Nat) :
    t.owed f = s.owed f + if fetch = f then 1 else 0 := by
  simp only [State.owed, State.waiting, h.waiters, h.microtasks, h.answers]
  omega

theorem answers_respond (response : Response) :
    Answers fetch s (s.emit [.respond fetch response]) :=
  ⟨rfl, rfl, fun f => by simp [State.answers, emit, List.countP_cons, Effect.answers]⟩

theorem Keeps.answered {t u : State} (h : Keeps s t) (hu : Answers fetch t u) : Answers fetch s u :=
  ⟨hu.waiters.trans h.waiters, hu.microtasks.trans h.microtasks, fun f => by
    rw [hu.answers, h.answers]⟩

theorem keeps_expireSession (s : State) (n : Nat) (message : String) :
    Keeps s (s.expireSession n message) := by
  unfold State.expireSession
  split
  · rename_i session _
    split
    · exact .refl s
    · obtain ⟨timers, htake, _⟩ := take_eq (s := s) (n := n) session
      rw [htake]
      exact ⟨rfl, rfl, fun _ => rfl⟩
  · exact .refl s

theorem keeps_releaseActiveDownload (s : State) (id : JsString) (session : Nat) :
    Keeps s (s.releaseActiveDownload id session) := by
  unfold State.releaseActiveDownload
  split
  · rename_i entry _
    split
    · obtain ⟨timers, hclear, _⟩ := clearEntry_eq s id entry
      rw [hclear]
      exact ⟨rfl, rfl, fun _ => rfl⟩
    · exact .refl s
  · exact .refl s

theorem keeps_refreshActiveDownload (s : State) (id : JsString) (entry : ActiveEntry)
    (delay : Nat) :
    Keeps s (s.refreshActiveDownload id entry delay) := by
  unfold State.refreshActiveDownload
  obtain ⟨timers, hclear, _⟩ := clearEntry_eq s id entry
  rw [hclear]
  exact ⟨rfl, rfl, fun _ => rfl⟩

/-- Whatever becomes of the session, the fetch is answered. -/
theorem answers_claimSession (h : Good k s) (n fetch : Nat) :
    Answers fetch s (respondWith fetch (s.claimSession n)) := by
  unfold State.claimSession
  split
  · exact answers_respond _
  · rename_i session hn
    split
    · exact answers_respond _
    · split
      · exact (keeps_expireSession s n _).answered (answers_respond _)
      · obtain ⟨r, hr⟩ := claimed_isSome h hn
        obtain ⟨timers, htake, _⟩ := take_eq (s := s) (n := n) session
        simp only [hr, Option.map_some, respondWith]
        refine Keeps.answered (t := _) ?_ (answers_respond _)
        rw [htake]
        exact ⟨rfl, rfl, fun _ => rfl⟩

/-- A fetch that wakes is still to be answered. -/
theorem owed_wake (hw : s.fetchWaiters.lookup id = some fetch) (session : Option Nat) (f : Nat) :
    (s.wake id fetch session).owed f = s.owed f := by
  have hcount : s.waiting f = (s.wake id fetch session).waiting f + if fetch = f then 1 else 0 :=
    count_values_kerase hw f
  have hmicro : ((s.wake id fetch session).microtasks.map (·.1)).count f =
      (s.microtasks.map (·.1)).count f + if fetch = f then 1 else 0 := by
    simp [State.wake, State.resolve, State.clearTimeout, List.count_cons]
  have hanswers : (s.wake id fetch session).answers f = s.answers f := rfl
  simp only [State.owed, hmicro, hanswers]
  omega

theorem owed_waitForSession (s : State) (id : JsString) (fetch f : Nat) :
    (s.waitForSession id fetch).owed f = s.owed f + if fetch = f then 1 else 0 := by
  unfold State.waitForSession
  split
  · have hmicro : ((s.resolve fetch none).microtasks.map (·.1)).count f =
        (s.microtasks.map (·.1)).count f + if fetch = f then 1 else 0 := by
      simp [State.resolve, List.count_cons]
    show s.answers f + s.waiting f + _ = _
    rw [hmicro, State.owed]
    omega
  · rename_i hroom
    rw [not_or] at hroom
    have hcount : ((s.fetchWaiters.insert id fetch).entries.map (·.2)).count f =
        s.waiting f + if fetch = f then 1 else 0 := by
      rw [AList.entries_insert_of_notMem hroom.1, List.map_cons, List.count_cons]
      simp [State.waiting]
    show s.answers f + ((s.fetchWaiters.insert id fetch).entries.map (·.2)).count f +
      (s.microtasks.map (·.1)).count f = _
    rw [hcount, State.owed]
    omega

theorem owed_offerSession (s : State) (n : Nat) (session : Session) (f : Nat) :
    (s.offerSession n session).1.owed f = s.owed f := by
  unfold State.offerSession
  split
  · rfl
  · split
    · rename_i hw
      exact owed_wake hw _ f
    · split <;> rfl

theorem owed_onStreamDownload (s : State) (e : MessageEvent) (data : MessageData) (f : Nat) :
    (s.onStreamDownload e data).owed f = s.owed f := by
  unfold State.onStreamDownload
  split
  · have hcancel : (if data.readable =
      .readable then s.emit [.cancel s.events "Invalid download session."] else s).owed f =
        s.owed f := by
      split
      · exact owed_emit.trans (Nat.zero_add _)
      · rfl
    exact owed_emit.trans ((Nat.zero_add _).trans hcancel)
  · rename_i session _
    have hoffer := owed_offerSession (s.setSession s.events session) s.events session f
    simp only
    split
    · exact hoffer
    · exact ((keeps_expireSession _ _ _).owed f).trans hoffer

theorem owed_onControl (s : State) (e : MessageEvent) (type : ControlType)
    (id : JsString) (f : Nat) :
    (s.onControl e type id).owed f = s.owed f := by
  have hwake : (cancelPending.wakeGone s id).owed f = s.owed f := by
    unfold cancelPending.wakeGone
    split
    · rename_i hw
      exact owed_wake hw _ f
    · rfl
  have hinactive : (onControl.inactive s e id type).owed f = s.owed f := by
    cases type with
    | cancel =>
      show (s.cancelPending e id).owed f = s.owed f
      unfold State.cancelPending
      split
      · split
        · exact (keeps_expireSession _ _ _).owed f
        · exact hwake
      · exact hwake
    | _ => rfl
  unfold State.onControl
  split
  · split
    · cases type with
      | cancel => exact (keeps_releaseActiveDownload _ _ _).owed f
      | _ => exact (keeps_refreshActiveDownload _ _ _ _).owed f
    · exact hinactive
  · exact hinactive

theorem owed_onMessage (s : State) (e : MessageEvent) (f : Nat) :
    (s.onMessage e).owed f = s.owed f := by
  unfold State.onMessage
  split
  · rfl
  · split
    · rfl
    · split
      · split
        · split
          · exact owed_onControl s _ _ _ f
          · rfl
        · rfl
      · split
        · exact owed_onStreamDownload s _ _ f
        · rfl

/-- A fetch for a download is answered or waits. -/
theorem owed_onFetch (h : Good k s) (e : FetchEvent) (f : Nat) :
    (s.onFetch e).owed f = s.owed f + if e.downloadId.isSome = true ∧ s.events = f then 1
      else 0 := by
  unfold State.onFetch
  split
  · rename_i hid
    simp [hid]
  · rename_i id hid
    have hsome : (e.downloadId.isSome = true ∧ s.events = f) ↔ s.events = f := by simp [hid]
    simp only [hsome]
    split
    · exact (answers_respond _).owed f
    · split
      · refine (answers_claimSession (k := k) ?_ _ _).owed f
        exact h.aside (Nat.le_trans (length_keys_erase _) h.pending) rfl h.active rfl (fun _ => rfl)
          fun _ _ => Iff.rfl
      · exact owed_waitForSession s id s.events f

theorem owed_onTimer (h : Good k s) (t : Timer) (f : Nat) : (s.onTimer t).owed f = s.owed f := by
  unfold State.onTimer
  split
  · rename_i harmed
    cases t with
    | session n => exact (keeps_expireSession _ _ _).owed f
    | waiter id fetch =>
      obtain ⟨x, hx, hname⟩ := List.any_eq_true.mp harmed
      have hmem : Timer.waiter id fetch ∈ s.armed :=
        List.mem_map.mpr ⟨x, hx, of_decide_eq_true hname⟩
      exact owed_wake ((h.timers id fetch).mp hmem) none f
    | active n id session => exact (keeps_releaseActiveDownload _ _ _).owed f
  · rfl

theorem owed_handle (h : Good k s) (e : WorkerEvent) (f : Nat) :
    (s.handle e).owed f = s.owed f + if e.answered = true ∧ s.events = f then 1 else 0 := by
  cases e with
  | message e => simpa [State.handle, WorkerEvent.answered] using owed_onMessage s e f
  | fetch e => exact owed_onFetch h e f
  | timer t => simpa [State.handle, WorkerEvent.answered] using owed_onTimer h t f

theorem answers_runMicrotask (h : Good k s) (task : Nat × Option Nat) :
    Answers task.1 s (s.runMicrotask task) := by
  unfold State.runMicrotask
  split
  · exact answers_claimSession h _ _
  · exact answers_respond _

/-- Each microtask answers the fetch that it is for. -/
theorem foldl_runMicrotask (tasks : List (Nat × Option Nat)) (h : Good k s) :
    (tasks.foldl State.runMicrotask s).fetchWaiters = s.fetchWaiters ∧
    (tasks.foldl State.runMicrotask s).microtasks = s.microtasks ∧
    ∀ f, (tasks.foldl State.runMicrotask s).answers f = s.answers f +
      (tasks.map (·.1)).count f := by
  induction tasks generalizing s with
  | nil => exact ⟨rfl, rfl, fun _ => rfl⟩
  | cons task tasks ih =>
    have hone := answers_runMicrotask h task
    obtain ⟨hwaiters, hmicro, hanswers⟩ := ih (h.runMicrotask task)
    refine ⟨hwaiters.trans hone.waiters, hmicro.trans hone.microtasks, fun f => ?_⟩
    rw [List.foldl_cons, hanswers, hone.answers, List.map_cons, List.count_cons]
    simp only [beq_iff_eq]
    omega

/-- After its microtasks every fetch that was owed a response waits or has it. -/
theorem owed_runMicrotasks (h : Good k s) (f : Nat) :
    s.runMicrotasks.microtasks = [] ∧ s.runMicrotasks.fetchWaiters = s.fetchWaiters ∧
    s.runMicrotasks.owed f = s.owed f := by
  have h' : Good k { s with microtasks := [] } :=
    ⟨h.pending, h.fetches, h.active, h.streams, h.known, h.timers⟩
  obtain ⟨hwaiters, hmicro, hanswers⟩ := foldl_runMicrotask s.microtasks h'
  refine ⟨hmicro, hwaiters, ?_⟩
  simp only [State.owed, State.waiting, State.runMicrotasks, hwaiters, hmicro, hanswers,
    List.map_nil, List.count_nil]
  show s.answers f + _ + _ + 0 = _
  omega

/-- What holds after each event: what the worker owes to a fetch is one response, if it is for a
download. -/
structure Sound (evs : List WorkerEvent) (s : State) : Prop where
  events : s.events = evs.length
  good : Good s.events s
  done : s.microtasks = []
  owed : ∀ f, s.owed f = if (evs[f]?).any (·.answered) = true then 1 else 0

theorem Sound.initial : Sound [] State.initial where
  events := rfl
  good :=
    { pending := Nat.zero_le _
      fetches := Nat.zero_le _
      active := Nat.zero_le _
      streams := fun _ => Nat.zero_le _
      known := fun _ _ h => by cases h
      timers := fun _ _ => iff_of_false (by simp [armed, State.initial]) (by simp [State.initial]) }
  done := rfl
  owed := fun _ => rfl

/-- One event makes the worker owe one more response, if it is a fetch for a download. -/
theorem Sound.step {evs : List WorkerEvent} (h : Sound evs s) (e : WorkerEvent) :
    Sound (evs ++ [e]) (s.step e) := by
  have hhandle := h.good.handle e
  have hgood := hhandle.runMicrotasks
  refine ⟨?events, ?good, (owed_runMicrotasks hhandle 0).1, fun f => ?owed⟩
  case events =>
    show s.events + 1 = _
    rw [List.length_append, h.events]
    rfl
  case good =>
    exact ⟨hgood.pending, hgood.fetches, hgood.active, hgood.streams, hgood.known, hgood.timers⟩
  case owed =>
    have howed : (s.step e).owed f = s.owed f + if e.answered = true ∧ s.events = f then 1 else 0 :=
      (owed_runMicrotasks hhandle f).2.2.trans (owed_handle h.good e f)
    rw [howed, h.owed, h.events]
    rcases Nat.lt_trichotomy f evs.length with hf | rfl | hf
    · have hne : ¬ (e.answered = true ∧ evs.length = f) := fun hne => Nat.ne_of_gt hf hne.2
      rw [List.getElem?_append_left hf, if_neg hne, Nat.add_zero]
    · simp
    · have hne : ¬ (e.answered = true ∧ evs.length = f) := fun hne => Nat.ne_of_lt hf hne.2
      have hout : (evs ++ [e])[f]? = none :=
        List.getElem?_eq_none (by rw [List.length_append]; exact hf)
      rw [hout, List.getElem?_eq_none (Nat.le_of_lt hf), if_neg hne, Nat.add_zero]

theorem Sound.steps {evs : List WorkerEvent} (h : Sound evs s) (more : List WorkerEvent) :
    Sound (evs ++ more) (more.foldl State.step s) := by
  induction more generalizing evs s with
  | nil => simpa using h
  | cons e more ih =>
    have happend : evs ++ e :: more = evs ++ [e] ++ more := by simp
    rw [happend]
    exact ih (h.step e)

theorem sound_run (evs : List WorkerEvent) : Sound evs (run evs) := Sound.steps Sound.initial evs

/-- A waiting fetch is answered when its timer runs out. -/
theorem answers_timeout {evs : List WorkerEvent} (hf : (evs[fetch]?).any (·.answered) = true)
    (hw : (run evs).fetchWaiters.lookup id = some fetch) :
    (run (evs ++ [.timer (.waiter id fetch)])).answers fetch = 1 := by
  have h := sound_run evs
  have hnext := sound_run (evs ++ [.timer (.waiter id fetch)])
  have harmed := (h.good.timers id fetch).mpr hw
  obtain ⟨x, hx, hname⟩ := List.mem_map.mp harmed
  have htimer : (run evs).onTimer (.waiter id fetch) = (run evs).wake id fetch none := by
    unfold State.onTimer
    rw [if_pos (List.any_eq_true.mpr ⟨x, hx, decide_eq_true hname⟩)]
    rfl
  have hwaiting : (run (evs ++ [.timer (.waiter id fetch)])).waiting fetch =
      ((run evs).wake id fetch none).waiting fetch := by
    have hgood := h.good.wake hw none
    obtain ⟨-, hwaiters, -⟩ := owed_runMicrotasks hgood 0
    rw [run, List.foldl_append]
    show (((run evs).handle (.timer (.waiter id fetch))).runMicrotasks).waiting fetch = _
    rw [State.handle, htimer, State.waiting, hwaiters]
    rfl
  have hlt : fetch < evs.length := by
    by_contra hout
    rw [List.getElem?_eq_none (Nat.le_of_not_lt hout)] at hf
    cases hf
  have hcount : (run evs).waiting fetch = ((run evs).wake id fetch none).waiting fetch + if fetch =
      fetch then 1 else 0 :=
    count_values_kerase hw fetch
  have hbefore := h.owed fetch
  have hafter := hnext.owed fetch
  rw [if_pos hf] at hbefore
  rw [List.getElem?_append_left hlt, if_pos hf] at hafter
  simp only [State.owed, h.done, hnext.done, List.map_nil, List.count_nil] at hbefore hafter
  rw [if_pos rfl] at hcount
  omega

theorem mem_waiters_of_waiting (h : s.waiting fetch ≠ 0) :
    ∃ id, s.fetchWaiters.lookup id = some fetch := by
  have hmem : fetch ∈ s.fetchWaiters.entries.map (·.2) :=
    List.count_pos_iff.mp (Nat.pos_of_ne_zero h)
  obtain ⟨⟨id, f⟩, hx, rfl⟩ := List.mem_map.mp hmem
  exact ⟨id, AList.mem_lookup_iff.mpr hx⟩

/-- The number of entries of the maps. -/
def WithinCapacity (s : State) : Prop :=
  s.sessions.keys.length ≤ maxPendingSessions ∧ s.fetchWaiters.keys.length ≤ maxPendingFetches ∧
    s.activeDownloads.keys.length ≤ maxActiveDownloads

end State

/-- The fetch has exactly one response, or none yet and a timer that brings it. -/
def AnsweredOnce (evs : List WorkerEvent) (fetch : Nat) : Prop :=
  (State.run evs).answers fetch = 1 ∨ (State.run evs).answers fetch = 0 ∧
    ∃ t ∈ (State.run evs).armed, (State.run (evs ++ [.timer t])).answers fetch = 1

open State in
/-- Whatever events the service worker handles, its maps keep within their capacities, also before
the microtasks of an event; a stream is the body of one response at most or cancelled once at most,
not both; and a fetch for a download gets exactly one response, any other none. -/
theorem streams_used_once (evs : List WorkerEvent) :
    (WithinCapacity (run evs) ∧ ∀ e, WithinCapacity ((run evs).handle e)) ∧
    (∀ n, (run evs).bodies n + (run evs).cancels n ≤ 1) ∧
    ∀ fetch, if (evs[fetch]?).any (·.answered) = true then AnsweredOnce evs fetch
      else (run evs).answers fetch = 0 := by
  have h := sound_run evs
  refine ⟨⟨⟨h.good.pending, h.good.fetches, h.good.active⟩, fun e => ?_⟩, fun n => ?_,
    fun fetch => ?_⟩
  · have hhandle := h.good.handle e
    exact ⟨hhandle.pending, hhandle.fetches, hhandle.active⟩
  · have huses := h.good.streams n
    exact Nat.le_trans huses (by split <;> decide)
  · have howed := h.owed fetch
    simp only [State.owed, h.done, List.map_nil, List.count_nil] at howed
    split
    · rename_i hf
      rw [if_pos hf] at howed
      by_cases hw : (run evs).waiting fetch = 0
      · exact .inl (by omega)
      · obtain ⟨id, hid⟩ := mem_waiters_of_waiting hw
        exact .inr ⟨by omega, .waiter id fetch, (h.good.timers id fetch).mpr hid,
          answers_timeout hf hid⟩
    · rename_i hf
      rw [if_neg hf] at howed
      omega

end DownloadWorker
end Redbox
