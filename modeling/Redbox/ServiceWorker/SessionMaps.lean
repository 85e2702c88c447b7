import Redbox.ServiceWorker.SingleUse
import Mathlib.Data.List.Induction
import Mathlib.Data.Set.Insert

/-! How the maps, the timers and the session objects of the service worker fit together. -/
namespace Redbox
namespace DownloadWorker

/-- The session that a message offers. -/
def MessageEvent.offer (e : MessageEvent) : Option Session :=
  e.data.bind fun data =>
    if data.type = .string (.ascii "REDBOX_STREAM_DOWNLOAD") ∧
      e.hasPort = true then validSession e data else none

namespace State

/-- The promise of the session's lifetime is resolved. -/
def released (s : State) (n : Nat) : Prop := Effect.releaseLifetime n ∈ s.effects

variable {s t : State} {n m k : Nat} {id : JsString} {session : Session} {entry : ActiveEntry}
  {timer : Timer} {lost : Set Nat}

theorem released_emit {es : List Effect} : (s.emit es).released n ↔ .releaseLifetime n ∈ es ∨
    s.released n := by
  simp [released, emit]

theorem mem_armed_clearEntry : timer ∈ (s.clearEntry id entry).armed ↔
    timer ∈ s.armed ∧ ∀ k, entry.timeout = some k → timer ≠ .active k id entry.session := by
  unfold clearEntry
  split
  · rename_i k hk
    rw [mem_armed_clear, and_comm]
    simp [hk]
  · rename_i hk
    simp [hk]

theorem clearEntry_fields (s : State) (id : JsString) (entry : ActiveEntry) :
    (s.clearEntry id entry) = { s with timers := (s.clearEntry id entry).timers } := by
  unfold clearEntry
  split <;> rfl

theorem mem_armed_take : timer ∈ (s.take n session).armed ↔
    timer ∈ s.armed ∧ (session.timeout = true → timer ≠ .session n) := by
  simp only [take]
  split
  · rename_i htimeout
    show timer ∈ ((s.setSession n _).clearTimeout (.session n)).armed ↔ _
    refine mem_armed_clear.trans (and_comm.trans (and_congr_right fun _ => ?_))
    simp [htimeout]
  · rename_i htimeout
    exact (and_iff_left fun h => absurd h htimeout).symm

theorem take_fields (s : State) (n : Nat) (session : Session) : s.take n session = { s with
    sessions := s.sessions.erase session.id
    objects := Function.update s.objects n (some { session with claimed := true })
    timers := (s.take n session).timers } := by
  simp only [take]
  split <;> rfl

/-- A download: the session that is streamed and its entry, which has a timer. -/
structure Streams (s : State) (id : JsString) (entry : ActiveEntry) (session : Session) : Prop where
  object : s.objects entry.session = some session
  named : session.id = id
  claimed : session.claimed = true
  owned : session.sourceId = entry.sourceId
  unreleased : ¬ s.released entry.session
  armed : ∃ k, entry.timeout = some k ∧ .active k id entry.session ∈ s.armed

/-- A session that nobody has claimed: it has not been released, and its timer is set if it has one.
-/
structure Pends (s : State) (n : Nat) (session : Session) : Prop where
  unreleased : ¬ s.released n
  armed : session.timeout = true → .session n ∈ s.armed

/-- The maps, the timers and the objects fit together, and each session that has not been released
and is not lost can be reached by a timer. -/
structure Linked (k : Nat) (lost : Set Nat) (s : State) : Prop where
  fresh : ∀ n, (s.objects n).isSome = true → n < k
  releases : ∀ n, s.released n → ∃ session, s.objects n = some session ∧ session.claimed = true
  sessions : ∀ id n, s.sessions.lookup id = some n → ∃ session, s.objects n = some session ∧
    session.id = id ∧
    session.claimed = false ∧ session.timeout = true
  pending : ∀ n session, s.objects n = some session → session.claimed = false → Pends s n session
  active : ∀ id entry, s.activeDownloads.lookup id = some entry → ∃ session,
    Streams s id entry session
  apart : ∀ id, id ∈ s.fetchWaiters → id ∉ s.sessions
  timed : ∀ n session, s.objects n = some session → session.claimed = false → n ∉ lost →
    session.timeout = true
  reached : ∀ n session, s.objects n = some session → session.claimed = true →
    ¬ s.released n → n ∉ lost →
    ∃ entry, s.activeDownloads.lookup session.id = some entry ∧ entry.session = n

theorem Linked.mono (h : Linked k lost s) {lost' : Set Nat} (hl : lost ⊆ lost') (hk : k ≤ m) :
    Linked m lost' s where
  fresh n hn := Nat.lt_of_lt_of_le (h.fresh n hn) hk
  releases := h.releases
  sessions := h.sessions
  pending := h.pending
  active := h.active
  apart := h.apart
  timed n session hn hc hx := h.timed n session hn hc fun hlost => hx (hl hlost)
  reached n session hn hc hr hx := h.reached n session hn hc hr fun hlost => hx (hl hlost)

/-- A change of the waiters, the effects and the microtasks. -/
theorem Linked.aside (h : Linked k lost s) (hsessions : t.sessions = s.sessions)
    (hwaiters : ∀ id ∈ t.fetchWaiters, id ∉ s.sessions)
    (hactive : t.activeDownloads = s.activeDownloads) (hobjects : t.objects = s.objects)
    (harmed : ∀ timer ∈ s.armed, (∀ id fetch, timer ≠ .waiter id fetch) → timer ∈ t.armed)
    (hreleased : ∀ n, t.released n ↔ s.released n) : Linked k lost t := by
  refine ⟨?_, fun n hn => ?_, ?_, fun n x hn hc => ?_, fun id entry he => ?_, ?_, ?_,
    fun n x hn hc hr => ?_⟩
  · rw [hobjects]
    exact h.fresh
  · rw [hobjects]
    exact h.releases n ((hreleased n).mp hn)
  · rw [hsessions, hobjects]
    exact h.sessions
  · have hp := h.pending n x (hobjects ▸ hn) hc
    exact ⟨fun hx => hp.unreleased ((hreleased n).mp hx),
      fun ht => harmed _ (hp.armed ht) (by simp)⟩
  · obtain ⟨x, hx⟩ := h.active id entry (hactive ▸ he)
    refine ⟨x, hobjects ▸ hx.object, hx.named, hx.claimed, hx.owned,
      fun hr => hx.unreleased ((hreleased _).mp hr), ?_⟩
    exact hx.armed.imp fun i hi => ⟨hi.1, harmed _ hi.2 (by simp)⟩
  · rw [hsessions]
    exact hwaiters
  · rw [hobjects]
    exact h.timed
  · rw [hactive]
    exact h.reached n x (hobjects ▸ hn) hc fun hx => hr ((hreleased n).mpr hx)

theorem Linked.emit (h : Linked k lost s) {es : List Effect}
    (hes : ∀ n, Effect.releaseLifetime n ∉ es) :
    Linked k lost (s.emit es) :=
  h.aside rfl h.apart rfl rfl (fun _ ht _ => ht) fun n => released_emit.trans (or_iff_right (hes n))

/-- Two entries of one session are one. -/
theorem Linked.entry_unique (h : Linked k lost s) {id' : JsString} {entry' : ActiveEntry}
    (he : s.activeDownloads.lookup id = some entry)
    (he' : s.activeDownloads.lookup id' = some entry') (heq : entry.session = entry'.session) :
    id = id' := by
  obtain ⟨session, hs⟩ := h.active id entry he
  obtain ⟨session', hs'⟩ := h.active id' entry' he'
  have : session = session' := Option.some.inj
    (hs.object.symm.trans ((congrArg s.objects heq).trans hs'.object))
  rw [← hs.named, ← hs'.named, this]

theorem Linked.releaseActiveDownload (h : Linked k lost s) (id : JsString) (m : Nat) :
    Linked k lost (s.releaseActiveDownload id m) := by
  unfold State.releaseActiveDownload
  split
  · rename_i entry he
    split
    · rename_i hm
      rw [clearEntry_fields]
      obtain ⟨session, hs⟩ := h.active id entry he
      refine ⟨h.fresh, fun n hn => ?_, h.sessions, fun n x hn hc => ?_, fun id' entry' he' => ?_,
        h.apart, h.timed,
        fun n x hn hc hr hl => ?_⟩
      · rcases released_emit.mp hn with hn | hn
        · cases List.mem_singleton.mp hn
          exact ⟨session, hs.object, hs.claimed⟩
        · exact h.releases n hn
      · have hp := h.pending n x hn hc
        refine ⟨fun hx => ?_, fun ht => mem_armed_clearEntry.mpr ⟨hp.armed ht, by simp⟩⟩
        rcases released_emit.mp hx with hx | hx
        · cases List.mem_singleton.mp hx
          cases hs.object.symm.trans hn
          cases hc.symm.trans hs.claimed
        · exact hp.unreleased hx
      · have hne : id' ≠ id := by
          rintro rfl
          cases (AList.lookup_erase _ _).symm.trans he'
        have he' : s.activeDownloads.lookup id' = some entry' :=
          (AList.lookup_erase_ne hne).symm.trans he'
        have hsession : entry'.session ≠ entry.session := fun heq => hne (h.entry_unique he' he heq)
        obtain ⟨session', hs'⟩ := h.active id' entry' he'
        obtain ⟨k, hk, harmed⟩ := hs'.armed
        refine ⟨session', hs'.object, hs'.named, hs'.claimed, hs'.owned, fun hx => ?_, k, hk, ?_⟩
        · rcases released_emit.mp hx with hx | hx
          · exact hsession (by simpa using hx)
          · exact hs'.unreleased hx
        · exact mem_armed_clearEntry.mpr ⟨harmed, fun _ _ heq => hne (Timer.active.inj heq).2.1⟩
      · have hne : n ≠ entry.session := fun heq => hr (released_emit.mpr (.inl (by simp [heq])))
        obtain ⟨entry', he', hn'⟩ :=
          h.reached n x hn hc (fun hx => hr (released_emit.mpr (.inr hx))) hl
        have hid : x.id ≠ id := fun heq => hne (by
          rw [heq, he] at he'; rw [← hn', Option.some.inj he'])
        exact ⟨entry', (AList.lookup_erase_ne hid).trans he', hn'⟩
    · exact h
  · exact h

theorem mem_armed_refresh {delay : Nat} : timer ∈ (s.refreshActiveDownload id entry delay).armed ↔
    timer = .active s.nextTimer id entry.session ∨ timer ∈ (s.clearEntry id entry).armed := by
  unfold State.refreshActiveDownload
  refine (mem_armed_set (s := s.clearEntry id entry)).trans ?_
  rw [clearEntry_fields]

theorem refresh_fields (s : State) (id : JsString) (entry : ActiveEntry) (delay : Nat) :
    s.refreshActiveDownload id entry delay =
    { s with
      activeDownloads := s.activeDownloads.insert id { entry with timeout := some s.nextTimer }
      nextTimer := s.nextTimer + 1
      timers := (s.refreshActiveDownload id entry delay).timers } := by
  unfold State.refreshActiveDownload
  rw [clearEntry_fields]
  rfl

theorem refresh_microtasks {delay : Nat} :
    (s.refreshActiveDownload id entry delay).microtasks = s.microtasks := by
  rw [refresh_fields]

/-- The entry of a session gets a new timer. -/
theorem Linked.refreshActiveDownload (h : Linked k lost s)
    (he : s.activeDownloads.lookup id = some entry) (delay : Nat) :
    Linked k lost (s.refreshActiveDownload id entry delay) := by
  have harmed : ∀ timer, timer ∈ (s.refreshActiveDownload id entry delay).armed ↔
      timer = .active s.nextTimer id entry.session ∨ timer ∈ (s.clearEntry id entry).armed :=
        fun _ => mem_armed_refresh
  rw [refresh_fields] at harmed ⊢
  refine ⟨h.fresh, h.releases, h.sessions, fun n x hn hc => ?_, fun id' entry' he' => ?_,
    h.apart, h.timed,
    fun n x hn hc hr hl => ?_⟩
  · have hp := h.pending n x hn hc
    exact ⟨hp.unreleased, fun ht =>
      (harmed _).mpr (.inr (mem_armed_clearEntry.mpr ⟨hp.armed ht, by simp⟩))⟩
  · by_cases hid : id' = id
    · subst hid
      obtain ⟨session, hs⟩ := h.active id' entry he
      cases (AList.lookup_insert _).symm.trans he'
      exact ⟨session, hs.object, hs.named, hs.claimed, hs.owned, hs.unreleased, s.nextTimer, rfl,
        (harmed _).mpr (.inl rfl)⟩
    · obtain ⟨session', hs'⟩ := h.active id' entry' ((AList.lookup_insert_ne hid).symm.trans he')
      obtain ⟨k, hk, hx⟩ := hs'.armed
      refine ⟨session', hs'.object, hs'.named, hs'.claimed, hs'.owned, hs'.unreleased, k, hk,
        (harmed _).mpr (.inr ?_)⟩
      exact mem_armed_clearEntry.mpr ⟨hx, fun _ _ heq => hid (Timer.active.inj heq).2.1⟩
  · obtain ⟨entry', he', hn'⟩ := h.reached n x hn hc hr hl
    by_cases hid : x.id = id
    · rw [hid, he] at he'
      refine ⟨{ entry with timeout := some s.nextTimer }, ?_,
        (congrArg ActiveEntry.session (Option.some.inj he')).trans hn'⟩
      rw [hid]
      exact AList.lookup_insert s.activeDownloads
    · exact ⟨entry', (AList.lookup_insert_ne hid).trans he', hn'⟩

theorem Streams.keep (h : Streams s id entry session)
    (hobjects : t.objects entry.session = s.objects entry.session)
    (hreleased : t.released entry.session → s.released entry.session)
    (harmed : ∀ k, Timer.active k id entry.session ∈ s.armed →
      .active k id entry.session ∈ t.armed) : Streams t id entry session :=
  ⟨hobjects.trans h.object, h.named, h.claimed, h.owned, fun hx => h.unreleased (hreleased hx),
    h.armed.imp fun k hk => ⟨hk.1, harmed k hk.2⟩⟩

/-- A session is taken: it is claimed, its timer stops and its id is free. -/
theorem Linked.taken (h : Linked k lost s) (hn : s.objects n = some session)
    (hsessions : t.sessions = s.sessions.erase session.id)
    (hwaiters : t.fetchWaiters = s.fetchWaiters)
    (hobjects : t.objects = Function.update s.objects n (some { session with claimed := true }))
    (harmed : ∀ timer ∈ s.armed, timer ≠ .session n → timer ∈ t.armed)
    (hreleased : ∀ m, t.released m → m = n ∨ s.released m) {lost' : Set Nat}
    (hlost : ∀ m, m ∉ lost' → m ≠ n → m ∉ lost)
    (hactive : ∀ id entry, t.activeDownloads.lookup id = some entry → ∃ x, Streams t id entry x)
    (hreached : ∀ m x, t.objects m = some x → x.claimed = true → ¬ t.released m → m ∉ lost' →
      ∃ entry, t.activeDownloads.lookup x.id = some entry ∧ entry.session = m) :
        Linked k lost' t := by
  have other : ∀ m, m ≠ n → t.objects m = s.objects m := fun m hm => by
    rw [hobjects, Function.update_of_ne hm]
  have own : t.objects n = some { session with claimed := true } := by
    rw [hobjects, Function.update_self]
  have unclaimed : ∀ m x, t.objects m = some x → x.claimed = false → m ≠ n := by
    rintro m x hm hx rfl
    cases own.symm.trans hm
    cases hx
  refine ⟨fun m hm => ?_, fun m hm => ?_, fun id m hm => ?_, fun m x hm hx => ?_, hactive,
    fun id hw hs => ?_,
    fun m x hm hx hl => ?_, hreached⟩
  · by_cases hmn : m = n
    · exact hmn ▸ h.fresh n (by simp [hn])
    · exact h.fresh m (other m hmn ▸ hm)
  · rcases hreleased m hm with rfl | hm
    · exact ⟨_, own, rfl⟩
    · obtain ⟨x, hx, hclaimed⟩ := h.releases m hm
      by_cases hmn : m = n
      · subst hmn
        exact ⟨_, own, rfl⟩
      · exact ⟨x, (other m hmn).trans hx, hclaimed⟩
  · rw [hsessions] at hm
    have hid : id ≠ session.id := by
      rintro rfl
      cases (AList.lookup_erase _ _).symm.trans hm
    obtain ⟨x, hx, hname, hrest⟩ := h.sessions id m ((AList.lookup_erase_ne hid).symm.trans hm)
    have hmn : m ≠ n := by
      rintro rfl
      cases hn.symm.trans hx
      exact hid hname.symm
    exact ⟨x, (other m hmn).trans hx, hname, hrest⟩
  · have hmn := unclaimed m x hm hx
    have hp := h.pending m x ((other m hmn).symm.trans hm) hx
    refine ⟨fun hr => ?_, fun ht => harmed _ (hp.armed ht) (by simpa using hmn)⟩
    exact (hreleased m hr).elim hmn hp.unreleased
  · rw [hwaiters] at hw
    rw [hsessions] at hs
    exact h.apart id hw (AList.mem_erase.mp hs).2
  · have hmn := unclaimed m x hm hx
    exact h.timed m x ((other m hmn).symm.trans hm) hx (hlost m hl hmn)

/-- A session that expires is released, so it is not lost. -/
theorem Linked.expireSession (h : Linked k (insert n lost) s) (hn : s.objects n = some session)
    (hc : session.claimed = false) (message : String) :
    Linked k lost (s.expireSession n message) := by
  unfold State.expireSession
  simp only [hn, hc, Bool.false_eq_true, if_false]
  have harmed : ∀ timer ∈ s.armed, timer ≠ .session n → timer ∈ (s.take n session).armed :=
    fun timer hx hne => mem_armed_take.mpr ⟨hx, fun _ => hne⟩
  have hreleased : ∀ m, ((s.take n session).emit [.post n (.error session.id message), .closePort n,
    .releaseLifetime n,
      .cancel n message]).released m ↔ m = n ∨ s.released m := by
    intro m
    rw [released_emit, take_fields]
    exact or_congr_left (by simp)
  rw [take_fields] at harmed hreleased ⊢
  have hne : ∀ m x, s.objects m = some x → x.claimed = true → m ≠ n := by
    rintro m x hm hx rfl
    cases hn.symm.trans hm
    cases hc.symm.trans hx
  apply h.taken hn
  · rfl
  · rfl
  · rfl
  · exact harmed
  · exact fun m => (hreleased m).mp
  · exact fun m hl hmn hx => hx.elim hmn hl
  · intro id entry he
    obtain ⟨x, hx⟩ := h.active id entry he
    have hne := hne _ x hx.object hx.claimed
    refine ⟨x, hx.keep (Function.update_of_ne hne _ _) (fun hr =>
      ((hreleased _).mp hr).resolve_left hne) fun i hi => ?_⟩
    exact harmed _ hi (by simp)
  · intro m x hm hx hr hl
    have hmn : m ≠ n := fun heq => hr ((hreleased m).mpr (.inl heq))
    have hm : s.objects m = some x := (Function.update_of_ne hmn _ _).symm.trans hm
    exact h.reached m x hm hx (fun hx => hr ((hreleased m).mpr (.inr hx))) fun hx => hx.elim hmn hl

theorem Linked.expire (h : Linked k lost s) (n : Nat) (message : String) :
    Linked k lost (s.expireSession n message) := by
  cases hn : s.objects n with
  | none =>
    unfold State.expireSession
    simpa only [hn] using h
  | some session =>
    cases hc : session.claimed with
    | true =>
      unfold State.expireSession
      simpa only [hn, hc, if_true] using h
    | false => exact (h.mono (Set.subset_insert n lost) (Nat.le_refl k)).expireSession hn hc message

/-- The sessions whose entry makes room for another one under the id. -/
def overwritten (s : State) (id : JsString) : Set Nat :=
  {m | s.activeDownloads.keys.length < maxActiveDownloads ∧ ∃ entry,
    s.activeDownloads.lookup id = some entry ∧ entry.session = m}

/-- The download of a session starts. -/
def start (s : State) (n : Nat) (session : Session) : State :=
  let entry : ActiveEntry := ⟨n, session.sourceId, none⟩
  let s := s.take n session
  ({ s with activeDownloads := s.activeDownloads.insert session.id entry }).refreshActiveDownload
    session.id entry activeSessionTtlMs

theorem claimSession_start (hn : s.objects n = some session) (hc : session.claimed = false)
    (hroom : s.activeDownloads.keys.length < maxActiveDownloads) :
    (s.claimSession n).1 = (s.start n session).emit [.post n (.started session.id),
      .closePort n] := by
  unfold State.claimSession
  simp only [hn, hc, Bool.false_eq_true, if_false, Nat.not_le.mpr hroom]
  rfl

theorem start_fields (s : State) (n : Nat) (session : Session) : s.start n session = { s with
    sessions := s.sessions.erase session.id
    activeDownloads := s.activeDownloads.insert session.id ⟨n, session.sourceId, some s.nextTimer⟩
    objects := Function.update s.objects n (some { session with claimed := true })
    nextTimer := s.nextTimer + 1
    timers := (s.start n session).timers } := by
  unfold start
  rw [refresh_fields, take_fields]
  simp only [AList.insert_insert]

theorem mem_armed_start : timer ∈ (s.start n session).armed ↔
    timer = .active s.nextTimer session.id n ∨ timer ∈ s.armed ∧
    (session.timeout = true → timer ≠ .session n) := by
  rw [← mem_armed_take, start]
  refine mem_armed_refresh.trans ?_
  rw [take_fields]
  rfl

/-- A session that is claimed is not lost, but a download that is active under its id is. -/
theorem Linked.claimSession (h : Linked k (insert n lost) s) (hn : s.objects n = some session)
    (hc : session.claimed = false) :
    Linked k (lost ∪ s.overwritten session.id) (s.claimSession n).1 := by
  by_cases hroom : s.activeDownloads.keys.length < maxActiveDownloads
  · rw [claimSession_start hn hc hroom]
    apply Linked.emit _ (by simp)
    have harmed : ∀ timer, timer ∈ (s.start n session).armed ↔ _ := fun _ => mem_armed_start
    have hreleased : ∀ m, (s.start n session).released m ↔ s.released m := fun m => by
      rw [start_fields]; rfl
    rw [start_fields] at harmed hreleased ⊢
    have hne : ∀ m x, s.objects m = some x → x.claimed = true → m ≠ n := by
      rintro m x hm hx rfl
      cases hn.symm.trans hm
      cases hc.symm.trans hx
    apply h.taken hn
    · rfl
    · rfl
    · rfl
    · exact fun timer hx hne => (harmed timer).mpr (.inr ⟨hx, fun _ => hne⟩)
    · exact fun m hm => .inr ((hreleased m).mp hm)
    · exact fun m hl hmn hx => hx.elim hmn fun hx => hl (.inl hx)
    · intro id entry he
      by_cases hid : id = session.id
      · subst hid
        cases (AList.lookup_insert _).symm.trans he
        refine ⟨{ session with claimed := true }, Function.update_self .., rfl, rfl, rfl,
          fun hr => ?_, s.nextTimer, rfl, ?_⟩
        · exact (h.pending n session hn hc).unreleased ((hreleased n).mp hr)
        · exact (harmed _).mpr (.inl rfl)
      · obtain ⟨x, hx⟩ := h.active id entry ((AList.lookup_insert_ne hid).symm.trans he)
        have hne := hne _ x hx.object hx.claimed
        refine ⟨x, hx.keep (Function.update_of_ne hne _ _) (fun hr => (hreleased _).mp hr)
          fun i hi => ?_⟩
        exact (harmed _).mpr (.inr ⟨hi, by simp⟩)
    · intro m x hm hx hr hl
      rcases updated_some hm with ⟨rfl, rfl⟩ | hm
      · exact ⟨_, AList.lookup_insert _, rfl⟩
      · have hmn := hne m x hm hx
        obtain ⟨entry, he, rfl⟩ := h.reached m x hm hx (fun hx => hr ((hreleased m).mpr hx))
          fun hx => hx.elim hmn fun hx => hl (.inl hx)
        have hid : x.id ≠ session.id := fun heq => hl (.inr ⟨hroom, entry, heq ▸ he, rfl⟩)
        exact ⟨entry, (AList.lookup_insert_ne hid).trans he, rfl⟩
  · unfold State.claimSession
    simp only [hn, hc, Bool.false_eq_true, if_false, if_pos (Nat.not_lt.mp hroom)]
    exact (h.expireSession hn hc _).mono Set.subset_union_left (Nat.le_refl k)

theorem Linked.respondWith {r : State × Option Response} (h : Linked k lost r.1) (fetch : Nat) :
    Linked k lost (State.respondWith fetch r) := by
  unfold State.respondWith
  split
  · exact h.emit (by simp)
  · exact h.emit (by simp)

theorem Linked.wake (h : Linked k lost s) (id : JsString) (fetch : Nat) (session : Option Nat) :
    Linked k lost (s.wake id fetch session) :=
  h.aside rfl (fun _ hw => h.apart _ (AList.mem_erase.mp hw).2) rfl rfl
    (fun _ ht hne => mem_armed_clear.mpr ⟨hne id fetch, ht⟩) fun _ => Iff.rfl

theorem Linked.waitForSession (h : Linked k lost s) (hid : id ∉ s.sessions) (fetch : Nat) :
    Linked k lost (s.waitForSession id fetch) := by
  unfold State.waitForSession
  split
  · exact h.aside rfl h.apart rfl rfl (fun _ ht _ => ht) fun _ => Iff.rfl
  · refine h.aside rfl (fun id' hw => ?_) rfl rfl (fun _ ht _ => mem_armed_set.mpr (.inr ht))
      fun _ => Iff.rfl
    rcases (AList.mem_insert _).mp hw with rfl | hw
    · exact hid
    · exact h.apart id' hw

/-- A new session has no timer yet. -/
theorem Linked.setSession (h : Linked k lost s) (hc : session.claimed = false)
    (ht : session.timeout = false) :
    Linked (k + 1) (insert k lost) (s.setSession k session) := by
  have hnone : s.objects k = none := by
    cases hk : s.objects k with
    | none => rfl
    | some x => exact absurd (h.fresh k (by simp [hk])) (Nat.lt_irrefl k)
  have hold : ∀ n x, s.objects n = some x → (s.setSession k session).objects n = some x := by
    intro n x hn
    have hne : n ≠ k := by
      rintro rfl
      cases hnone.symm.trans hn
    exact (Function.update_of_ne hne _ _).trans hn
  refine ⟨fun n hn => ?_, fun n hn => ?_, fun id n hid => ?_, fun n x hn hx => ?_,
    fun id entry he => ?_, h.apart,
    fun n x hn hx hl => ?_, fun n x hn hx hr hl => ?_⟩
  · obtain ⟨x, hx⟩ := Option.isSome_iff_exists.mp hn
    rcases updated_some hx with ⟨rfl, -⟩ | hx
    · exact Nat.lt_succ_self n
    · exact Nat.lt_succ_of_lt (h.fresh n (by simp [hx]))
  · obtain ⟨x, hx, hclaimed⟩ := h.releases n hn
    exact ⟨x, hold n x hx, hclaimed⟩
  · obtain ⟨x, hx, hrest⟩ := h.sessions id n hid
    exact ⟨x, hold n x hx, hrest⟩
  · rcases updated_some hn with ⟨rfl, rfl⟩ | hn
    · refine ⟨fun hr => ?_, fun hset => ?_⟩
      · obtain ⟨y, hy, -⟩ := h.releases n hr
        cases hnone.symm.trans hy
      · cases ht.symm.trans hset
    · exact ⟨(h.pending n x hn hx).unreleased, (h.pending n x hn hx).armed⟩
  · obtain ⟨x, hx⟩ := h.active id entry he
    exact ⟨x, hold _ x hx.object, hx.named, hx.claimed, hx.owned, hx.unreleased, hx.armed⟩
  · rcases updated_some hn with ⟨rfl, rfl⟩ | hn
    · exact absurd (Set.mem_insert n lost) hl
    · exact h.timed n x hn hx fun hlost => hl (.inr hlost)
  · rcases updated_some hn with ⟨rfl, rfl⟩ | hn
    · exact absurd (Set.mem_insert n lost) hl
    · exact h.reached n x hn hx hr fun hlost => hl (.inr hlost)

/-- The session waits for its fetch. -/
def store (s : State) (n : Nat) (session : Session) : State :=
  let s := (s.setSession n { session with timeout := true }).setTimeout (.session n) sessionTtlMs
  { s with sessions := s.sessions.insert session.id n }

theorem Linked.store (h : Linked k (insert n lost) s) (hn : s.objects n = some session)
    (hc : session.claimed = false) (hwaiter : session.id ∉ s.fetchWaiters) :
    Linked k lost (s.store n session) := by
  have own : (s.store n session).objects n = some { session with timeout := true } :=
    Function.update_self ..
  have other : ∀ m, m ≠ n → (s.store n session).objects m = s.objects m :=
    fun m hm => Function.update_of_ne hm _ _
  have harmed : ∀ timer, timer ∈ (s.store n session).armed ↔ timer = .session n ∨ timer ∈ s.armed :=
    fun _ => mem_armed_set
  have hp := h.pending n session hn hc
  have hclaimed : ∀ m x, s.objects m = some x → x.claimed = true → m ≠ n := by
    rintro m x hm hx rfl
    cases hn.symm.trans hm
    cases hc.symm.trans hx
  refine ⟨fun m hm => ?_, fun m hm => ?_, fun id m hm => ?_, fun m x hm hx => ?_,
    fun id entry he => ?_, fun id hw hs => ?_,
    fun m x hm hx hl => ?_, fun m x hm hx hr hl => ?_⟩
  · by_cases hmn : m = n
    · exact hmn ▸ h.fresh n (by simp [hn])
    · exact h.fresh m (other m hmn ▸ hm)
  · obtain ⟨x, hx, hcx⟩ := h.releases m hm
    exact ⟨x, (other m (hclaimed m x hx hcx)).trans hx, hcx⟩
  · by_cases heq : id = session.id
    · subst heq
      cases (AList.lookup_insert _).symm.trans hm
      exact ⟨_, own, rfl, hc, rfl⟩
    · obtain ⟨x, hx, hname, hrest⟩ := h.sessions id m ((AList.lookup_insert_ne heq).symm.trans hm)
      have hmn : m ≠ n := by
        rintro rfl
        cases hn.symm.trans hx
        exact heq hname.symm
      exact ⟨x, (other m hmn).trans hx, hname, hrest⟩
  · rcases updated_some hm with ⟨rfl, rfl⟩ | hm
    · exact ⟨hp.unreleased, fun _ => (harmed _).mpr (.inl rfl)⟩
    · exact ⟨(h.pending m x hm hx).unreleased,
        fun ht => (harmed _).mpr (.inr ((h.pending m x hm hx).armed ht))⟩
  · obtain ⟨x, hx⟩ := h.active id entry he
    exact ⟨x, hx.keep (other _ (hclaimed _ x hx.object hx.claimed)) (fun hr => hr) fun i hi =>
      (harmed _).mpr (.inr hi)⟩
  · rcases (AList.mem_insert _).mp hs with rfl | hs
    · exact hwaiter hw
    · exact h.apart id hw hs
  · by_cases hmn : m = n
    · subst hmn
      cases own.symm.trans hm
      rfl
    · exact h.timed m x ((other m hmn).symm.trans hm) hx fun hlost => hlost.elim hmn hl
  · rcases updated_some hm with ⟨rfl, rfl⟩ | hm
    · cases hc.symm.trans hx
    · exact h.reached m x hm hx hr fun hlost => hlost.elim (hclaimed m x hm hx) hl

/-- The id under which the event starts a download when there is room for it. -/
def startedBy (s : State) : WorkerEvent → Option JsString
  | .message e => (e.offer.map (·.id)).filter (· ∈ s.fetchWaiters)
  | .fetch e => e.downloadId.filter fun id => e.isGet && !e.hasRange && decide (id ∈ s.sessions)
  | .timer _ => none

/-- The event starts a download under an id that has one already. -/
def startsAgain (s : State) (e : WorkerEvent) : Prop :=
  ∃ id, s.startedBy e = some id ∧ id ∈ s.activeDownloads ∧
    s.activeDownloads.keys.length < maxActiveDownloads

/-- The sessions whose entry is overwritten. -/
def displaced (s : State) (e : WorkerEvent) : Set Nat :=
  {m | ∃ id, s.startedBy e = some id ∧ m ∈ s.overwritten id}

theorem Linked.runMicrotasks_nil (h : Linked k lost s) (htasks : s.microtasks = []) :
    Linked k lost s.runMicrotasks := by
  unfold State.runMicrotasks
  rw [htasks]
  exact h.aside rfl h.apart rfl rfl (fun _ ht _ => ht) fun _ => Iff.rfl

/-- A fetch that is given no session is told that it is gone. -/
theorem Linked.runMicrotasks_gone (h : Linked k lost s) {fetch : Nat}
    (htasks : s.microtasks = [(fetch, none)]) :
    Linked k lost s.runMicrotasks := by
  unfold State.runMicrotasks
  rw [htasks]
  exact (h.aside (t := { s with microtasks := [] }) rfl h.apart rfl rfl (fun _ ht _ => ht) fun _ =>
    Iff.rfl).emit (by simp)

theorem expireSession_microtasks (s : State) (n : Nat) (message : String) :
    (s.expireSession n message).microtasks = s.microtasks := by
  unfold State.expireSession
  split
  · split
    · rfl
    · rw [take_fields]
      rfl
  · rfl

theorem releaseActiveDownload_microtasks (s : State) (id : JsString) (m : Nat) :
    (s.releaseActiveDownload id m).microtasks = s.microtasks := by
  unfold State.releaseActiveDownload
  split
  · split
    · rw [clearEntry_fields]
      rfl
    · rfl
  · rfl

theorem Linked.wakeGone (h : Linked k lost s) (htasks : s.microtasks = []) (id : JsString) :
    Linked k lost (State.cancelPending.wakeGone s id).runMicrotasks := by
  unfold State.cancelPending.wakeGone
  split
  · rename_i fetch _
    have hwoken : (s.wake id fetch none).microtasks = [(fetch, none)] := by
      simp [State.wake, State.resolve, State.clearTimeout, htasks]
    exact (h.wake id fetch none).runMicrotasks_gone hwoken
  · exact h.runMicrotasks_nil htasks

theorem Linked.cancelPending (h : Linked k lost s) (htasks : s.microtasks = []) (e : MessageEvent)
    (id : JsString) :
    Linked k lost (s.cancelPending e id).runMicrotasks := by
  unfold State.cancelPending
  split
  · rename_i n hn
    split
    · exact (h.expire n _).runMicrotasks_nil ((expireSession_microtasks ..).trans htasks)
    · exact h.wakeGone htasks id
  · exact h.wakeGone htasks id

theorem Linked.onControl (h : Linked k lost s) (htasks : s.microtasks = []) (e : MessageEvent)
    (type : ControlType) (id : JsString) :
    Linked k lost (s.onControl e type id).runMicrotasks := by
  have hinactive : Linked k lost (State.onControl.inactive s e id type).runMicrotasks := by
    cases type with
    | heartbeat => exact h.runMicrotasks_nil htasks
    | complete => exact h.runMicrotasks_nil htasks
    | cancel => exact h.cancelPending htasks e id
  unfold State.onControl
  split
  · rename_i entry he
    split
    · cases type with
      | heartbeat =>
        exact (h.refreshActiveDownload he _).runMicrotasks_nil (refresh_microtasks.trans htasks)
      | complete =>
        exact (h.refreshActiveDownload he _).runMicrotasks_nil (refresh_microtasks.trans htasks)
      | cancel =>
        exact (h.releaseActiveDownload id _).runMicrotasks_nil
          ((releaseActiveDownload_microtasks ..).trans htasks)
    · exact hinactive
  · exact hinactive

theorem offer_spec {e : MessageEvent} {data : MessageData} (hdata : e.data = some data)
    (htype : data.type = .string (.ascii "REDBOX_STREAM_DOWNLOAD")) (hport : e.hasPort = true) :
    e.offer = validSession e data := by
  simp [MessageEvent.offer, hdata, htype, hport]

/-- What becomes of a session that is offered. -/
theorem Linked.offered (h : Linked (k + 1) (insert k lost) s) (hn : s.objects k = some session)
    (hc : session.claimed = false) (htasks : s.microtasks = []) :
    Linked (k + 1) (lost ∪ {m | session.id ∈ s.fetchWaiters ∧ m ∈ s.overwritten session.id})
      (if (s.offerSession k session).2 = true then (s.offerSession k session).1
        else (s.offerSession k session).1.expireSession k
          "Too many secure downloads are waiting to start.").runMicrotasks := by
  have hrefused : Linked (k + 1) (lost ∪ {m | session.id ∈ s.fetchWaiters ∧
    m ∈ s.overwritten session.id})
      (s.expireSession k "Too many secure downloads are waiting to start.").runMicrotasks :=
    ((h.expireSession hn hc _).mono Set.subset_union_left (Nat.le_refl _)).runMicrotasks_nil
      ((expireSession_microtasks ..).trans htasks)
  unfold State.offerSession
  split
  · exact hrefused
  · split
    · rename_i fetch hw
      have hmem : session.id ∈ s.fetchWaiters := AList.lookup_isSome.mp (by simp [hw])
      simp only [if_true, State.runMicrotasks, State.wake, State.resolve, State.clearTimeout,
        htasks, List.nil_append, List.foldl_cons, List.foldl_nil]
      have hawake := h.wake session.id fetch (some k)
      have hawake := hawake.aside (t := { s.wake session.id fetch (some k) with microtasks := [] })
        rfl hawake.apart rfl rfl
        (fun _ ht _ => ht) fun _ => Iff.rfl
      refine ((hawake.claimSession hn hc).respondWith fetch).mono
        (Set.union_subset_union_right _ ?_) (Nat.le_refl _)
      exact fun m hm => ⟨hmem, hm⟩
    · rename_i hw
      split
      · exact hrefused
      · exact ((h.store hn hc (AList.lookup_eq_none.mp hw)).mono Set.subset_union_left
          (Nat.le_refl _)).runMicrotasks_nil htasks

theorem validSession_fresh {e : MessageEvent} {data : MessageData}
    (h : validSession e data = some session) :
    session.claimed = false ∧ session.timeout = false ∧ some session.sourceId = e.sourceId := by
  unfold validSession at h
  split at h
  · rename_i hsource
    split at h
    · cases Option.some.inj h
      exact ⟨rfl, rfl, hsource.symm⟩
    · cases h
  · cases h

theorem offer_fresh {e : MessageEvent} (h : e.offer = some session) :
    session.claimed = false ∧ session.timeout = false ∧
    some session.sourceId = e.sourceId := by
  obtain ⟨data, -, hvalid⟩ := Option.bind_eq_some_iff.mp h
  split at hvalid
  · exact validSession_fresh hvalid
  · cases hvalid

theorem Linked.onStreamDownload (h : Linked s.events lost s) (htasks : s.microtasks = [])
    {e : MessageEvent} {data : MessageData} (hoffer : e.offer = validSession e data) :
    Linked (s.events + 1) (lost ∪ s.displaced (.message e))
    (s.onStreamDownload e data).runMicrotasks := by
  unfold State.onStreamDownload
  split
  · have hend : ∀ t : State, Linked s.events lost t → t.microtasks = [] →
        Linked (s.events + 1) (lost ∪ s.displaced (.message e)) t.runMicrotasks := fun t ht hm =>
      (ht.runMicrotasks_nil hm).mono Set.subset_union_left (Nat.le_succ _)
    dsimp only
    split
    · exact hend _ ((h.emit (by simp)).emit (by simp)) htasks
    · exact hend _ (h.emit (by simp)) htasks
  · rename_i session hvalid
    obtain ⟨hc, ht, -⟩ := validSession_fresh hvalid
    refine ((h.setSession hc ht).offered (Function.update_self ..) hc htasks).mono
      (Set.union_subset_union_right _ ?_) (Nat.le_refl _)
    rintro m ⟨hw, hm⟩
    refine ⟨session.id, ?_, hm⟩
    have hw : session.id ∈ s.fetchWaiters := hw
    simp [State.startedBy, hoffer, hvalid, hw]

theorem Linked.onMessage (h : Linked s.events lost s) (htasks : s.microtasks = [])
    (e : MessageEvent) :
    Linked (s.events + 1) (lost ∪ s.displaced (.message e)) (s.onMessage e).runMicrotasks := by
  have hend : ∀ t : State, Linked s.events lost t.runMicrotasks →
      Linked (s.events + 1) (lost ∪ s.displaced (.message e)) t.runMicrotasks := fun t ht =>
    ht.mono Set.subset_union_left (Nat.le_succ _)
  have hsame := hend s (h.runMicrotasks_nil htasks)
  unfold State.onMessage
  split
  · exact hsame
  · rename_i data hdata
    split
    · exact hsame
    · split
      · split
        · split
          · exact hend _ (h.onControl htasks e _ _)
          · exact hsame
        · exact hsame
      · split
        · rename_i hstream
          exact h.onStreamDownload htasks (offer_spec hdata hstream.1 hstream.2)
        · exact hsame

theorem erase_twice {β : Type} (m : AList fun _ : JsString => β) (id : JsString) :
    (m.erase id).erase id = m.erase id := by
  apply AList.ext
  exact List.kerase_of_notMem_keys fun hmem =>
    (AList.mem_erase.mp (show id ∈ m.erase id from hmem)).1 rfl

/-- The listener frees the id before the session is claimed, which frees it again. -/
theorem claimSession_erased (hn : s.objects n = some session) (hc : session.claimed = false) :
    ({ s with sessions := s.sessions.erase session.id } : State).claimSession n =
      s.claimSession n := by
  have htake : ({ s with sessions := s.sessions.erase session.id } : State).take n session =
      s.take n session := by
    simp only [take]
    split
    · simp only [State.setSession, State.clearTimeout, erase_twice]
    · simp only [State.setSession, erase_twice]
  simp only [State.claimSession, hn, hc, Bool.false_eq_true, if_false, State.expireSession, htake]

theorem claimed_microtasks (s : State) (n fetch : Nat) :
    (respondWith fetch (s.claimSession n)).microtasks = s.microtasks := by
  have hrespond : ∀ r : State × Option Response,
      (respondWith fetch r).microtasks = r.1.microtasks := by
    intro r
    unfold respondWith
    split <;> rfl
  rw [hrespond]
  cases hn : s.objects n with
  | none => simp only [State.claimSession, hn]
  | some session =>
    cases hc : session.claimed with
    | true => simp only [State.claimSession, hn, hc, if_true]
    | false =>
      by_cases hroom : s.activeDownloads.keys.length < maxActiveDownloads
      · rw [claimSession_start hn hc hroom, start_fields]
        rfl
      · simp only [State.claimSession, hn, hc, Bool.false_eq_true, if_false,
          if_pos (Nat.not_lt.mp hroom)]
        exact expireSession_microtasks ..

theorem Linked.waiting (h : Linked k lost s) (htasks : s.microtasks = []) (hid : id ∉ s.sessions)
    (fetch : Nat) :
    Linked k lost (s.waitForSession id fetch).runMicrotasks := by
  have hwait := h.waitForSession hid fetch
  unfold State.waitForSession at hwait ⊢
  split at hwait
  · rename_i hfull
    rw [if_pos hfull]
    exact hwait.runMicrotasks_gone (show _ = [(fetch, none)] by simp [State.resolve, htasks])
  · rename_i hfull
    rw [if_neg hfull]
    exact hwait.runMicrotasks_nil htasks

theorem Linked.onFetch (h : Linked s.events lost s) (htasks : s.microtasks = []) (e : FetchEvent) :
    Linked (s.events + 1) (lost ∪ s.displaced (.fetch e)) (s.onFetch e).runMicrotasks := by
  have hend : ∀ t : State, Linked s.events lost t.runMicrotasks →
      Linked (s.events + 1) (lost ∪ s.displaced (.fetch e)) t.runMicrotasks := fun t ht =>
    ht.mono Set.subset_union_left (Nat.le_succ _)
  unfold State.onFetch
  split
  · exact hend s (h.runMicrotasks_nil htasks)
  · rename_i id hid
    split
    · exact hend _ ((h.emit (by simp)).runMicrotasks_nil htasks)
    · rename_i hmethod
      split
      · rename_i n hn
        obtain ⟨session, hs, rfl, hc, -⟩ := h.sessions id n hn
        dsimp only
        rw [claimSession_erased hs hc]
        have hclaimed := (h.mono (Set.subset_insert n lost) (Nat.le_refl _)).claimSession hs hc
        have hclaimed := hclaimed.respondWith s.events
        have htasks := (claimed_microtasks s n s.events).trans htasks
        refine (hclaimed.runMicrotasks_nil htasks).mono (Set.union_subset_union_right _ fun m hm =>
          ?_) (Nat.le_succ _)
        have hmem : session.id ∈ s.sessions := AList.lookup_isSome.mp (by simp [hn])
        exact ⟨session.id, by simpa [State.startedBy, hid, hmem] using hmethod, hm⟩
      · rename_i hnone
        exact hend _ (h.waiting htasks (AList.lookup_eq_none.mp hnone) s.events)

theorem clearTimeout_comm (s : State) (timer timer' : Timer) :
    (s.clearTimeout timer).clearTimeout timer' = (s.clearTimeout timer').clearTimeout timer := by
  simp only [State.clearTimeout, List.filter_filter, Bool.and_comm]

theorem releaseActiveDownload_clear (s : State) (timer : Timer) (id : JsString) (n : Nat) :
    (s.clearTimeout timer).releaseActiveDownload id n =
      (s.releaseActiveDownload id n).clearTimeout timer := by
  have hentry : ∀ entry, (s.clearTimeout timer).clearEntry id entry =
      (s.clearEntry id entry).clearTimeout timer := by
    intro entry
    unfold clearEntry
    split
    · exact clearTimeout_comm ..
    · rfl
  unfold State.releaseActiveDownload
  simp only [hentry, show (s.clearTimeout timer).activeDownloads = s.activeDownloads from rfl]
  split
  · split
    · rfl
    · rfl
  · rfl

theorem expireSession_clear (s : State) (timer : Timer) (n : Nat) (message : String) :
    (s.clearTimeout timer).expireSession n message =
      (s.expireSession n message).clearTimeout timer := by
  have htake : ∀ session, (s.clearTimeout timer).take n session =
      (s.take n session).clearTimeout timer := by
    intro session
    simp only [take]
    split
    · exact congrArg (fun x : State => { x with sessions := x.sessions.erase session.id })
        (clearTimeout_comm (s.setSession n { session with claimed := true }) timer (.session n))
    · rfl
  unfold State.expireSession
  simp only [htake, show (s.clearTimeout timer).objects = s.objects from rfl]
  split
  · split
    · rfl
    · rfl
  · rfl

/-- A timer that nothing needs may go. -/
theorem Linked.clearTimeout (h : Linked k lost s)
    (hsession : ∀ n session, timer = .session n → s.objects n = some session →
      session.claimed = true) (hactive : ∀ i id entry, s.activeDownloads.lookup id = some entry →
      timer ≠ .active i id entry.session) :
    Linked k lost (s.clearTimeout timer) := by
  refine ⟨h.fresh, h.releases, h.sessions, fun n x hn hx => ?_, fun id entry he => ?_, h.apart,
    h.timed, h.reached⟩
  · refine ⟨(h.pending n x hn hx).unreleased,
      fun ht => mem_armed_clear.mpr ⟨?_, (h.pending n x hn hx).armed ht⟩⟩
    rintro rfl
    cases hx.symm.trans (hsession n x rfl hn)
  · obtain ⟨x, hx⟩ := h.active id entry he
    exact ⟨x, hx.keep rfl (fun hr => hr) fun i hi =>
      mem_armed_clear.mpr ⟨(hactive i id entry he).symm, hi⟩⟩

/-- A session that has expired is claimed. -/
theorem expireSession_claims {message : String}
    (hn : (s.expireSession n message).objects n = some session) :
    session.claimed = true := by
  unfold State.expireSession at hn
  split at hn
  · rename_i x hx
    split at hn
    · rename_i hc
      cases hx.symm.trans hn
      exact hc
    · rw [take_fields] at hn
      cases (Function.update_self ..).symm.trans hn
      rfl
  · rename_i hx
    cases hx.symm.trans hn

/-- A download that has been released is not active. -/
theorem releaseActiveDownload_ends (he : (s.releaseActiveDownload id n).activeDownloads.lookup id =
      some entry) :
    entry.session ≠ n := by
  unfold State.releaseActiveDownload at he
  split at he
  · rename_i entry' he'
    split at he
    · rw [clearEntry_fields] at he
      cases (AList.lookup_erase _ _).symm.trans he
    · rename_i hne
      cases he'.symm.trans he
      exact hne
  · rename_i hnone
    cases hnone.symm.trans he

theorem Linked.onTimer (h : Linked s.events lost s) (htasks : s.microtasks = []) (timer : Timer) :
    Linked (s.events + 1) (lost ∪ s.displaced (.timer timer)) (s.onTimer timer).runMicrotasks := by
  have hend : ∀ t : State, Linked s.events lost t.runMicrotasks →
      Linked (s.events + 1) (lost ∪ s.displaced (.timer timer)) t.runMicrotasks := fun t ht =>
    ht.mono Set.subset_union_left (Nat.le_succ _)
  unfold State.onTimer
  split
  · apply hend
    cases timer with
    | session n =>
      show Linked s.events lost ((s.clearTimeout (.session n)).expireSession n _).runMicrotasks
      rw [expireSession_clear]
      have hexpired : ∀ message, Linked s.events lost (s.expireSession n message) :=
        fun message => h.expire n message
      refine ((hexpired _).clearTimeout (fun m session heq hm => ?_) (by simp)).runMicrotasks_nil
        ((expireSession_microtasks ..).trans htasks)
      cases heq
      exact expireSession_claims hm
    | waiter id fetch =>
      exact (h.wake id fetch none).runMicrotasks_gone (show _ = [(fetch, none)] by
        simp [State.wake, State.resolve, State.clearTimeout, htasks])
    | active i id n =>
      show Linked s.events lost ((s.clearTimeout (.active i id n)).releaseActiveDownload id
        n).runMicrotasks
      rw [releaseActiveDownload_clear]
      refine ((h.releaseActiveDownload id n).clearTimeout (by simp) fun i' id' entry he heq =>
        ?_).runMicrotasks_nil
        ((releaseActiveDownload_microtasks s id n).trans htasks)
      obtain ⟨-, rfl, rfl⟩ := Timer.active.inj heq
      exact releaseActiveDownload_ends he rfl
  · exact hend s (h.runMicrotasks_nil htasks)

theorem runMicrotask_microtasks (s : State) (task : Nat × Option Nat) :
    (s.runMicrotask task).microtasks = s.microtasks := by
  unfold runMicrotask
  split
  · exact claimed_microtasks ..
  · rfl

theorem step_microtasks (s : State) (e : WorkerEvent) : (s.step e).microtasks = [] := by
  have hfold : ∀ (tasks : List (Nat × Option Nat)) (t : State),
      (tasks.foldl runMicrotask t).microtasks = t.microtasks := by
    intro tasks
    induction tasks with
    | nil => exact fun t => rfl
    | cons task tasks ih => exact fun t => (ih _).trans (runMicrotask_microtasks t task)
  exact hfold _ _

theorem Linked.handle (h : Linked s.events lost s) (htasks : s.microtasks = []) (e : WorkerEvent) :
    Linked (s.events + 1) (lost ∪ s.displaced e) (s.handle e).runMicrotasks := by
  cases e with
  | message e => exact h.onMessage htasks e
  | fetch e => exact h.onFetch htasks e
  | timer timer => exact h.onTimer htasks timer

theorem Linked.step (h : Linked s.events lost s) (htasks : s.microtasks = []) (e : WorkerEvent) :
    Linked (s.step e).events (lost ∪ s.displaced e) (s.step e) :=
  have hhandle := h.handle htasks e
  hhandle.aside rfl hhandle.apart rfl rfl (fun _ ht _ => ht) fun _ => Iff.rfl

theorem displaced_empty {e : WorkerEvent} (h : ¬ s.startsAgain e) : s.displaced e = ∅ := by
  apply Set.eq_empty_of_forall_notMem
  rintro m ⟨id, hid, hroom, entry, he, -⟩
  exact h ⟨id, hid, AList.lookup_isSome.mp (by simp [he]), hroom⟩

theorem linked_initial : Linked 0 ∅ initial := by
  refine ⟨fun n hn => ?_, fun n hn => ?_, fun id n hn => ?_, fun n x hn => ?_,
    fun id entry he => ?_, fun id hw => ?_,
    fun n x hn => ?_, fun n x hn => ?_⟩
  · cases hn
  · cases hn
  · cases hn
  · cases hn
  · cases he
  · cases hw
  · cases hn
  · cases hn

theorem run_concat (evs : List WorkerEvent) (e : WorkerEvent) :
    run (evs ++ [e]) = (run evs).step e := by
  simp [run]

theorem run_microtasks (evs : List WorkerEvent) : (run evs).microtasks = [] := by
  induction evs using List.reverseRecOn with
  | nil => rfl
  | append_singleton evs e _ => rw [run_concat, step_microtasks]

/-- In every run everything but the lost sessions can be reached. -/
theorem linked_run (evs : List WorkerEvent) : ∃ lost, Linked (run evs).events lost (run evs) := by
  induction evs using List.reverseRecOn with
  | nil => exact ⟨∅, linked_initial⟩
  | append_singleton evs e ih =>
    obtain ⟨lost, h⟩ := ih
    rw [run_concat]
    exact ⟨_, h.step (run_microtasks evs) e⟩

/-- Nothing is lost unless a download is started again. -/
theorem linked_run_empty {evs : List WorkerEvent}
    (h : ∀ evs' e, evs' ++ [e] <+: evs → ¬ (run evs').startsAgain e) :
    Linked (run evs).events ∅ (run evs) := by
  induction evs using List.reverseRecOn with
  | nil => exact linked_initial
  | append_singleton evs e ih =>
    have hlinked := (ih fun evs' e' hpre => h evs' e' (hpre.trans (List.prefix_append ..))).step
      (run_microtasks evs) e
    rw [displaced_empty (h evs e (List.prefix_refl _)), Set.union_empty] at hlinked
    rwa [run_concat]

/-- A download has been started in place of the one that the state before had under the id. -/
structure Started (s t : State) (id : JsString) (n : Nat) : Prop where
  unclaimed : ∀ session, s.objects n = some session → session.claimed = false
  others : ∀ m, m ≠ n → t.objects m = s.objects m
  active : ∃ timeout sourceId, t.activeDownloads = s.activeDownloads.insert id ⟨n,
    sourceId, timeout⟩
  released : ∀ m, t.released m → s.released m

theorem respondWith_released {r : State × Option Response} {fetch : Nat} :
    (respondWith fetch r).released n ↔ r.1.released n := by
  unfold respondWith
  split
  · exact released_emit.trans (or_iff_right (by simp))
  · exact released_emit.trans (or_iff_right (by simp))

theorem respondWith_fields (fetch : Nat) (r : State × Option Response) :
    respondWith fetch r = { r.1 with effects := (respondWith fetch r).effects } := by
  unfold respondWith
  split <;> rfl

theorem Started.claim {r : State} {fetch : Nat} (hn : r.objects n = some session)
    (hc : session.claimed = false) (hroom : r.activeDownloads.keys.length < maxActiveDownloads)
    (hactive : r.activeDownloads = s.activeDownloads)
    (hobjects : ∀ m, m ≠ n → r.objects m = s.objects m)
    (hreleased : ∀ m, r.released m ↔ s.released m) (hold : ∀ session, s.objects n = some session →
      session.claimed = false) :
    Started s (respondWith fetch (r.claimSession n)) session.id n := by
  have hstart := claimSession_start hn hc hroom
  refine ⟨hold, fun m hm => ?_, ⟨some r.nextTimer, session.sourceId, ?_⟩, fun m hr => ?_⟩
  · rw [respondWith_fields, hstart, start_fields]
    exact (Function.update_of_ne hm _ _).trans (hobjects m hm)
  · rw [respondWith_fields, hstart, start_fields]
    exact congrArg (fun x => AList.insert session.id _ x) hactive
  · rw [respondWith_released, hstart, released_emit, start_fields] at hr
    exact (hreleased m).mp (hr.resolve_left (by simp))

theorem Started.congr {r : State} (h : Started s r id n) (hobjects : t.objects = r.objects)
    (hactive : t.activeDownloads = r.activeDownloads)
    (hreleased : ∀ m, t.released m ↔ r.released m) : Started s t id n :=
  ⟨h.unclaimed, fun m hm => (congrFun hobjects m).trans (h.others m hm),
    h.active.imp fun _ hx => hx.imp fun _ hx => hactive.trans hx,
    fun m hr => h.released m ((hreleased m).mp hr)⟩

theorem onMessage_offer {e : MessageEvent} (h : e.offer = some session) : s.onMessage e =
    if ((s.setSession s.events session).offerSession s.events session).2 = true then
      ((s.setSession s.events session).offerSession s.events session).1
    else ((s.setSession s.events session).offerSession s.events session).1.expireSession s.events
      "Too many secure downloads are waiting to start." := by
  obtain ⟨data, hdata, hoffer⟩ := Option.bind_eq_some_iff.mp h
  split at hoffer
  · rename_i hstream
    have hprobe : data.type ≠ .string (.ascii "REDBOX_DOWNLOAD_PROBE") := by
      rw [hstream.1]
      decide
    have hcontrol : controlType data.type = none := by
      rw [hstream.1]
      decide
    simp only [onMessage, hdata]
    rw [if_neg hprobe]
    simp only [hcontrol]
    rw [if_pos hstream]
    simp only [State.onStreamDownload, hoffer]
  · cases hoffer

theorem step_started {e : WorkerEvent} (h : Linked s.events lost s) (htasks : s.microtasks = [])
    (hid : s.startedBy e = some id) (hroom : s.activeDownloads.keys.length < maxActiveDownloads) :
    ∃ n, Started s (s.step e) id n := by
  cases e with
  | message e =>
    obtain ⟨hmap, hw⟩ := Option.filter_eq_some_iff.mp hid
    obtain ⟨session, hoffer, rfl⟩ := Option.map_eq_some_iff.mp hmap
    obtain ⟨fetch, hfetch⟩ := Option.isSome_iff_exists.mp
      (AList.lookup_isSome.mpr (of_decide_eq_true hw))
    have hfresh : ∀ session, s.objects s.events = some session → session.claimed = false :=
      fun x hx =>
      absurd (h.fresh s.events (by simp [hx])) (Nat.lt_irrefl _)
    have hc : session.claimed = false := (offer_fresh hoffer).1
    have hhandle : s.handle (.message e) = (s.setSession s.events session).wake session.id fetch
        (some s.events) := by
      refine (onMessage_offer hoffer).trans ?_
      have haccept : (s.setSession s.events session).offerSession s.events session =
          ((s.setSession s.events session).wake session.id fetch (some s.events), true) := by
        unfold State.offerSession
        have hroom : ¬ maxActiveDownloads ≤
            (s.setSession s.events session).activeDownloads.keys.length := Nat.not_le.mpr hroom
        have hfetch : (s.setSession s.events session).fetchWaiters.lookup session.id = some fetch :=
          hfetch
        rw [if_neg hroom, hfetch]
      rw [haccept, if_pos rfl]
    have hwoken : ((s.setSession s.events session).wake session.id fetch
      (some s.events)).microtasks = [(fetch, some s.events)] := by
      simp [State.wake, State.resolve, State.clearTimeout, State.setSession, htasks]
    refine ⟨s.events, Started.congr (r := (s.handle (.message e)).runMicrotasks) ?_ rfl rfl fun _ =>
      Iff.rfl⟩
    rw [hhandle, State.runMicrotasks, hwoken]
    exact Started.claim (Function.update_self ..) hc hroom rfl (fun m hm =>
      Function.update_of_ne hm _ _) (fun _ => Iff.rfl) hfresh
  | fetch e =>
    obtain ⟨hdownload, hget⟩ := Option.filter_eq_some_iff.mp hid
    simp only [Bool.and_eq_true, Bool.not_eq_true', decide_eq_true_eq] at hget
    obtain ⟨⟨hmethod, hrange⟩, hmem⟩ := hget
    obtain ⟨n, hn⟩ := Option.isSome_iff_exists.mp (AList.lookup_isSome.mpr hmem)
    obtain ⟨session, hs, rfl, hc, -⟩ := h.sessions id n hn
    have hhandle : s.handle (.fetch e) = respondWith s.events (s.claimSession n) := by
      show s.onFetch e = _
      simp only [State.onFetch, hdownload, hmethod, hrange, Bool.true_eq_false, Bool.false_eq_true,
        or_self, if_false, hn,
        claimSession_erased hs hc]
    refine ⟨n, Started.congr (r := (s.handle (.fetch e)).runMicrotasks) ?_ rfl rfl fun _ => Iff.rfl⟩
    rw [hhandle, State.runMicrotasks, claimed_microtasks, htasks]
    refine Started.congr (r := respondWith s.events (s.claimSession n)) ?_ rfl rfl fun _ => Iff.rfl
    refine Started.claim hs hc hroom rfl (fun _ _ => rfl) (fun _ => Iff.rfl) fun x hx => ?_
    cases hs.symm.trans hx
    exact hc
  | timer timer => cases hid

end State

/-- The offer that a page makes for a file. -/
def pageOffer (id : JsString) (sourceId : String) : MessageEvent where
  data := some {
    type := .string (.ascii "REDBOX_STREAM_DOWNLOAD")
    version := .integer protocolVersion
    id := .string id
    fileName := .string (.ascii "report.pdf")
    size := .integer 1000
    readable := .readable }
  hasPort := true
  sourceId := some (.ascii sourceId)

/-- The navigation that downloads the file. -/
def pageFetch (id : JsString) : FetchEvent where
  sameOrigin := true
  pathname := .ascii "/__redbox_download/file/" ++ id
  search := []
  isGet := true
  hasRange := false

/-- An id that a page may choose. -/
def chosenId : JsString := List.replicate 64 97

end DownloadWorker
end Redbox
