import Redbox.ServiceWorker.SessionMaps

/-! The lifetime of each session that the service worker accepts ends, unless another
download starts under its id. -/
namespace Redbox
namespace DownloadWorker

namespace State

variable {s t : State} {n m k : Nat} {id : JsString} {session : Session} {entry : ActiveEntry}
  {timer : Timer} {lost : Set Nat}

/-- Each lifetime that goes on has a timer that ends it when it runs out next. -/
def NoLeak (s : State) : Prop :=
  ∀ n session, s.objects n = some session → ¬ s.released n → ∃ timer ∈ s.armed,
    (s.step (.timer timer)).released n

theorem released_timer_nil (htasks : (s.onTimer timer).microtasks = []) :
    (s.step (.timer timer)).released n ↔ (s.onTimer timer).released n := by
  unfold State.step State.handle State.runMicrotasks
  rw [htasks]
  rfl

theorem onTimer_armed : timer ∈ s.armed ↔ s.timers.any (fun x => decide (x.1 = timer)) = true := by
  simp [armed]

theorem onTimer_session (h : .session n ∈ s.armed) : s.onTimer (.session n) =
    (s.expireSession n "The secure download was not claimed in time.").clearTimeout
      (.session n) := by
  unfold State.onTimer
  rw [if_pos (onTimer_armed.mp h)]
  exact expireSession_clear ..

theorem onTimer_active {i : Nat} (h : .active i id n ∈ s.armed) :
    s.onTimer (.active i id n) = (s.releaseActiveDownload id n).clearTimeout (.active i id n) := by
  unfold State.onTimer
  rw [if_pos (onTimer_armed.mp h)]
  exact releaseActiveDownload_clear ..

/-- The timer of a session that is not claimed ends its lifetime. -/
theorem released_session (htasks : s.microtasks = []) (h : .session n ∈ s.armed) (hn : s.objects n = some session) (hc : session.claimed = false) :
    (s.step (.timer (.session n))).released n := by
  rw [released_timer_nil (by rw [onTimer_session h]; exact (expireSession_microtasks ..).trans htasks), onTimer_session h]
  show State.released (s.expireSession n _) n
  unfold State.expireSession
  simp only [hn, hc, Bool.false_eq_true, if_false]
  exact released_emit.mpr (.inl (by simp))

theorem released_active {i : Nat} (htasks : s.microtasks = []) (h : .active i id n ∈ s.armed) (he :
      s.activeDownloads.lookup id = some entry) (hn : entry.session = n) :
    (s.step (.timer (.active i id n))).released n := by
  rw [released_timer_nil (by rw [onTimer_active h]; exact (releaseActiveDownload_microtasks ..).trans htasks), onTimer_active h]
  show State.released (s.releaseActiveDownload id n) n
  unfold State.releaseActiveDownload
  simp only [he, hn, if_true]
  exact released_emit.mpr (.inl (by simp))

theorem Linked.noLeak (h : Linked k ∅ s) (htasks : s.microtasks = []) : NoLeak s := by
  intro n session hn hr
  cases hc : session.claimed with
  | false =>
    have harmed := (h.pending n session hn hc).armed (h.timed n session hn hc (Set.notMem_empty n))
    exact ⟨_, harmed, released_session htasks harmed hn hc⟩
  | true =>
    obtain ⟨entry, he, rfl⟩ := h.reached n session hn hc hr (Set.notMem_empty n)
    obtain ⟨x, hx⟩ := h.active _ entry he
    obtain ⟨i, -, harmed⟩ := hx.armed
    exact ⟨_, harmed, released_active htasks harmed he rfl⟩

/-- What a timer ends. -/
theorem released_timer (htasks : s.microtasks = []) (h : (s.step (.timer timer)).released n) :
    s.released n ∨
    (∃ session, s.objects n = some session ∧ session.claimed = false) ∨
    ∃ id entry, s.activeDownloads.lookup id = some entry ∧ entry.session = n := by
  by_cases harmed : timer ∈ s.armed
  · cases timer with
    | session m =>
      have hstep := onTimer_session harmed
      rw [released_timer_nil (by rw [hstep]; exact (expireSession_microtasks ..).trans htasks),
        hstep] at h
      have h : State.released (s.expireSession m _) n := h
      unfold State.expireSession at h
      split at h
      · rename_i session hm
        split at h
        · exact .inl h
        · rename_i hc
          rw [take_fields] at h
          rcases released_emit.mp h with hx | hx
          · have hnm : n = m := by simpa using hx
            exact .inr (.inl ⟨session, hnm ▸ hm, Bool.eq_false_iff.mpr hc⟩)
          · exact .inl hx
      · exact .inl h
    | waiter id fetch =>
      have hstep : s.onTimer (.waiter id fetch) = s.wake id fetch none := by
        unfold State.onTimer
        rw [if_pos (onTimer_armed.mp harmed)]
        rfl
      have h : State.released (s.onTimer (.waiter id fetch)).runMicrotasks n := h
      have hwoken : (s.wake id fetch none).microtasks = [(fetch, none)] := by
        simp [State.wake, State.resolve, State.clearTimeout, htasks]
      rw [hstep, State.runMicrotasks, hwoken] at h
      rcases released_emit.mp h with hx | hx
      · simp at hx
      · exact .inl hx
    | active i id m =>
      have hstep := onTimer_active harmed
      rw [released_timer_nil (by
        rw [hstep]; exact (releaseActiveDownload_microtasks ..).trans htasks), hstep] at h
      have h : State.released (s.releaseActiveDownload id m) n := h
      unfold State.releaseActiveDownload at h
      split at h
      · rename_i entry he
        split at h
        · rw [clearEntry_fields] at h
          rcases released_emit.mp h with hx | hx
          · exact .inr (.inr ⟨id, entry, he, by simpa [eq_comm] using hx⟩)
          · exact .inl hx
        · exact .inl h
      · exact .inl h
  · have hstep : s.onTimer timer = s := by
      unfold State.onTimer
      rw [if_neg fun hx => harmed (onTimer_armed.mpr hx)]
    rw [released_timer_nil (by rw [hstep]; exact htasks), hstep] at h
    exact .inl h

/-- The download that was there before goes on for ever. -/
theorem Linked.leaks {e : WorkerEvent} (h : Linked s.events lost s) (htasks : s.microtasks = [])
    (hagain : s.startsAgain e) :
    ¬ NoLeak (s.step e) := by
  obtain ⟨id, hid, hactive, hroom⟩ := hagain
  obtain ⟨n, hstarted⟩ := step_started h htasks hid hroom
  obtain ⟨entry, he⟩ := Option.isSome_iff_exists.mp (AList.lookup_isSome.mpr hactive)
  obtain ⟨x, hx⟩ := h.active id entry he
  have hne : entry.session ≠ n := by
    rintro rfl
    cases hx.claimed.symm.trans (hstarted.unclaimed x hx.object)
  intro hleak
  have hobject := (hstarted.others entry.session hne).trans hx.object
  obtain ⟨timer, -, hreleased⟩ := hleak entry.session x hobject fun hr =>
    hx.unreleased (hstarted.released _ hr)
  rcases released_timer (step_microtasks s e) hreleased with hr | ⟨y, hy, hc⟩ | ⟨id',
    entry', he', heq⟩
  · exact hx.unreleased (hstarted.released _ hr)
  · cases hobject.symm.trans hy
    cases hx.claimed.symm.trans hc
  · obtain ⟨timeout, sourceId, hinsert⟩ := hstarted.active
    obtain ⟨y, hy⟩ := (h.step htasks e).active id' entry' he'
    have hxy : x = y := Option.some.inj (hobject.symm.trans (heq ▸ hy.object))
    have hsame : id' = id := by rw [← hy.named, ← hx.named, hxy]
    rw [hsame, hinsert] at he'
    cases (AList.lookup_insert _).symm.trans he'
    exact hne heq.symm

end State

open State in
/-- No lifetime leaks in a run exactly when no download is started under an id that has one already.
-/
theorem no_lifetime_leaks (evs : List WorkerEvent) : (∀ evs', evs' <+: evs → NoLeak (run evs')) ↔
    ∀ evs' e, evs' ++ [e] <+: evs → ¬ (run evs').startsAgain e := by
  constructor
  · intro h evs' e hpre hagain
    obtain ⟨lost, hlinked⟩ := linked_run evs'
    apply hlinked.leaks (run_microtasks evs') hagain
    rw [← run_concat]
    exact h _ hpre
  · intro h evs' hpre
    exact (linked_run_empty fun evs'' e hpre' => h evs'' e (hpre'.trans hpre)).noLeak
      (run_microtasks evs')

open State in
/-- A page whose download is active offers another file under the same id and fetches it. -/
theorem second_download_leaks : ¬ NoLeak (run [.message (pageOffer chosenId "page"),
      .fetch (pageFetch chosenId),
    .message (pageOffer chosenId "page"), .fetch (pageFetch chosenId)]) := by
  obtain ⟨lost, hlinked⟩ := linked_run [.message (pageOffer chosenId "page"),
    .fetch (pageFetch chosenId),
    .message (pageOffer chosenId "page")]
  apply hlinked.leaks (run_microtasks _)
  refine ⟨chosenId, ?_, ?_, ?_⟩
  · decide +kernel
  · decide +kernel
  · decide +kernel

end DownloadWorker
end Redbox
