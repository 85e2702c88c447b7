import Redbox.Frontend.ApiClient
import Mathlib.Tactic.ByContra

/-! When refreshing the tokens keeps a session that the server has not ended. -/
namespace Redbox.ApiClient

/-- The server accepts a token that has just been issued, and a request that carries it. -/
def reachable (s : State) : Action → Prop
  | .expire => ¬ s.underway
  | _ => True

/-- A refresh call arrives with the current refresh token, and while no request with the tokens
that it replaces is sent again. -/
def refreshesAlone (s : State) (a : Action) : Prop :=
  reachable s a ∧ match a with
    | .refreshArrives tab => (∀ key, s.refreshPromise tab = some (.sent key) → key = s.sessionKey) ∧
        ∀ r ∈ s.requests, State.Request.retrying r = false
    | _ => True

/-- The tokens are stored, and no request was rejected with 401. -/
structure State.Alive (s : State) : Prop where
  accessToken : s.accessToken.isSome = true
  refreshToken : s.refreshToken.isSome = true
  requests : ∀ r ∈ s.requests, r.phase ≠ .rejected

/-- In every run the session is kept. -/
def KeepsSession (allowed : State → Action → Prop) (sessionKey : Key) (accessValid : Bool) : Prop :=
  ∀ as t, State.run allowed (.initial sessionKey accessValid) as t → t.Alive

/-- What a request may be at, where `k` is the key of the stored tokens. -/
def Fits (s : State) (k : Key) (r : Request) : Prop :=
  match r.phase with
  | .sent token => r.retry = true → k = s.sessionKey ∧ token = some k ∧ s.accessValid = true
  | .answered status => r.retry = true → status = .ok
  | .refreshed _ => r.retry = true ∧ k = s.sessionKey ∧ s.accessValid = true
  | .waiting => r.retry = true
  | .resolved => True
  | .rejected => False

/-- The stored tokens are the current ones, or one answer with the current ones is underway. -/
structure Inv (s : State) (k : Key) : Prop where
  accessToken : s.accessToken = some k
  refreshToken : s.refreshToken = some k
  le : k ≤ s.sessionKey
  calls : ∀ tab call, s.refreshPromise tab = some call →
    (∃ key, call = .sent key ∧ key ≤ k) ∨
      (call = .accepted s.sessionKey ∧ k < s.sessionKey ∧ s.accessValid = true)
  once : ∀ tab tab' key key', s.refreshPromise tab = some (.accepted key) →
    s.refreshPromise tab' = some (.accepted key') → tab = tab'
  requests : ∀ r ∈ s.requests, Fits s k r

variable {s s' : State} {k : Key} {i : Nat} {r : Request}

theorem Inv.alive (h : Inv s k) : s.Alive := by
  refine ⟨by rw [h.accessToken]; rfl, by rw [h.refreshToken]; rfl, fun r hr hrejected => ?_⟩
  have hfits := h.requests r hr
  rw [Fits, hrejected] at hfits
  exact hfits

theorem mem_modify {f : Request → Request} {x : Request} (h : x ∈ s.requests.modify i f)
    (hi : s.requests[i]? = some r) :
    x ∈ s.requests ∨ x = f r := by
  obtain ⟨j, hj⟩ := List.mem_iff_getElem?.mp h
  rw [List.getElem?_modify] at hj
  by_cases hij : i = j
  · subst hij
    rw [hi] at hj
    exact .inr (by simpa using hj.symm)
  · exact .inl (List.mem_of_getElem? (by simpa [hij] using hj))

/-- What a request that is not sent again may be at does not depend on the tokens. -/
theorem Fits.quiet (h : Fits s k r) (hquiet : State.Request.retrying r = false) {k' : Key} :
    Fits s' k' r := by
  unfold State.Request.retrying at hquiet
  unfold Fits at h ⊢
  cases hphase : r.phase with
  | sent token =>
    rw [hphase, Bool.and_true] at hquiet
    intro hretry
    rw [hquiet] at hretry
    cases hretry
  | refreshed newToken =>
    rw [hphase] at h hquiet
    rw [h.1] at hquiet
    cases hquiet
  | answered status =>
    rw [hphase] at h
    exact h
  | waiting =>
    rw [hphase] at h
    exact h
  | resolved => trivial
  | rejected =>
    rw [hphase] at h
    exact h

/-- While the current tokens are not stored, no request is sent again. -/
theorem Fits.waits (h : Fits s k r) (hne : k ≠ s.sessionKey) :
    State.Request.retrying r = false := by
  unfold State.Request.retrying
  unfold Fits at h
  cases hphase : r.phase with
  | sent token =>
    rw [hphase] at h
    rw [Bool.and_true]
    exact Bool.eq_false_iff.mpr fun hretry => hne (h hretry).1
  | refreshed newToken =>
    rw [hphase] at h
    exact absurd h.2.1 hne
  | _ => exact Bool.and_false _

/-- A request that goes on to where it may be. -/
theorem Inv.setPhase (h : Inv s k) {phase : Phase} (hi : s.requests[i]? = some r)
    (hfits : Fits s k { r with phase := phase }) :
    Inv (s.setPhase i phase) k := by
  refine ⟨h.accessToken, h.refreshToken, h.le, h.calls, h.once, fun x hx => ?_⟩
  rcases mem_modify hx hi with hx | rfl
  · exact h.requests x hx
  · exact hfits

/-- A 401 for a request that has not been sent again. -/
theorem Inv.onUnauthorized (h : Inv s k) (hr : r.retry = false) : Inv (s.onUnauthorized i r) k := by
  have hwaiting : ∀ x ∈ s.requests.set i ⟨r.tab, true, .waiting⟩, Fits s k x := by
    intro x hx
    rcases List.mem_or_eq_of_mem_set hx with hx | rfl
    · exact h.requests x hx
    · exact rfl
  unfold State.onUnauthorized
  rw [hr, h.refreshToken]
  cases hcall : s.refreshPromise r.tab with
  | some call =>
    exact ⟨h.accessToken, rfl, h.le, h.calls, h.once, hwaiting⟩
  | none =>
    have hother : ∀ tab call, Function.update s.refreshPromise r.tab (some (RefreshCall.sent k))
      tab = some call →
        call = .sent k ∨ s.refreshPromise tab = some call := by
      intro tab call hcall
      by_cases htab : tab = r.tab
      · subst htab
        rw [Function.update_self] at hcall
        exact .inl (Option.some.inj hcall).symm
      · rw [Function.update_of_ne htab] at hcall
        exact .inr hcall
    refine ⟨h.accessToken, rfl, h.le, fun tab call hcall => ?_, fun tab tab' key key' hone htwo =>
      ?_, hwaiting⟩
    · rcases hother tab call hcall with rfl | hcall
      · exact .inl ⟨k, rfl, Nat.le_refl _⟩
      · exact h.calls tab call hcall
    · rcases hother tab _ hone with hone | hone
      · cases hone
      rcases hother tab' _ htwo with htwo | htwo
      · cases htwo
      exact h.once _ _ _ _ hone htwo

/-- With the current token and no request sent again, a refresh call is accepted. -/
theorem Inv.refreshArrives (h : Inv s k) {tab : Nat}
    (hcall : s.refreshPromise tab = some (.sent s.sessionKey))
    (hquiet : ∀ r ∈ s.requests, State.Request.retrying r = false) :
    Inv { s with
      sessionKey := s.sessionKey + 1
      accessValid := true
      refreshPromise := Function.update s.refreshPromise tab (some (.accepted (s.sessionKey + 1))) }
        k := by
  have hk : k = s.sessionKey := by
    rcases h.calls tab _ hcall with ⟨key, heq, hle⟩ | ⟨heq, -⟩
    · cases heq
      exact Nat.le_antisymm h.le hle
    · cases heq
  have hsent : ∀ tab' call, tab' ≠ tab → s.refreshPromise tab' = some call → ∃ key,
      call = .sent key ∧ key ≤ k := by
    intro tab' call _ hcall'
    rcases h.calls tab' call hcall' with hsent | ⟨-, hlt, -⟩
    · exact hsent
    · exact absurd hlt (by rw [hk]; exact Nat.lt_irrefl _)
  refine ⟨h.accessToken, h.refreshToken, Nat.le_succ_of_le h.le, fun tab' call hcall' => ?_,
    fun t t' key key' ht ht' => ?_,
    fun r hr => ?_⟩
  · by_cases htab : tab' = tab
    · subst htab
      have hcall' : Function.update s.refreshPromise tab' (some (.accepted (s.sessionKey + 1)))
          tab' = some call := hcall'
      rw [Function.update_self] at hcall'
      exact .inr ⟨(Option.some.inj hcall').symm, Nat.lt_succ_of_le h.le, rfl⟩
    · have hcall' : Function.update s.refreshPromise tab (some (.accepted (s.sessionKey + 1)))
          tab' = some call := hcall'
      rw [Function.update_of_ne htab] at hcall'
      exact .inl (hsent tab' call htab hcall')
  · have haccepted : ∀ t key, Function.update s.refreshPromise tab
      (some (.accepted (s.sessionKey + 1))) t = some (.accepted key) →
        t = tab := by
      intro t key ht
      by_contra hne
      rw [Function.update_of_ne hne] at ht
      obtain ⟨_, heq, _⟩ := hsent t _ hne ht
      cases heq
    exact (haccepted t key ht).trans (haccepted t' key' ht').symm
  · exact (h.requests r hr).quiet (hquiet r hr)

/-- The answer of the server becomes the stored tokens. -/
theorem Inv.refreshSettles (h : Inv s k) {tab : Nat} {key : Key}
    (hcall : s.refreshPromise tab = some (.accepted key)) :
    Inv ({ s with accessToken := some key, refreshToken := some key }.settle tab (.refreshed key))
      key := by
  obtain ⟨rfl, hlt, hvalid⟩ : key = s.sessionKey ∧ k < s.sessionKey ∧ s.accessValid = true := by
    rcases h.calls tab _ hcall with ⟨_, heq, -⟩ | ⟨heq, hrest⟩
    · cases heq
    · cases heq
      exact ⟨rfl, hrest⟩
  have hother : ∀ tab' call, Function.update s.refreshPromise tab none tab' = some call →
      tab' ≠ tab ∧ s.refreshPromise tab' = some call := by
    intro tab' call hcall'
    by_cases htab : tab' = tab
    · subst htab
      rw [Function.update_self] at hcall'
      cases hcall'
    · rw [Function.update_of_ne htab] at hcall'
      exact ⟨htab, hcall'⟩
  refine ⟨rfl, rfl, Nat.le_refl _, fun tab' call hcall' => ?_, fun t t' a b ht ht' => ?_,
    fun r hr => ?_⟩
  · obtain ⟨hne, hcall'⟩ := hother tab' call hcall'
    rcases h.calls tab' call hcall' with ⟨a, heq, hle⟩ | ⟨heq, -⟩
    · exact .inl ⟨a, heq, Nat.le_trans hle (Nat.le_of_lt hlt)⟩
    · exact absurd (h.once tab' tab _ _ (heq ▸ hcall') hcall) hne
  · exact h.once _ _ _ _ (hother t _ ht).2 (hother t' _ ht').2
  · obtain ⟨r₀, hr₀, rfl⟩ := List.mem_map.mp hr
    have hfits := h.requests r₀ hr₀
    split
    · rename_i hwaiting
      rw [Fits, hwaiting.2] at hfits
      exact ⟨hfits, rfl, hvalid⟩
    · exact hfits.quiet (hfits.waits (Nat.ne_of_lt hlt))

/-- A token that no request waits for or carries may run out. -/
theorem Inv.expire (h : Inv s k) (hidle : ¬ s.underway) :
    Inv { s with accessValid := false } k := by
  have hnone : ∀ r ∈ s.requests, State.Request.retrying r = false := by
    intro r hr
    rw [← Bool.not_eq_true]
    exact fun hretry => hidle (.inr ⟨r, hr, hretry⟩)
  refine ⟨h.accessToken, h.refreshToken, h.le, fun tab call hcall => ?_, h.once, fun r hr => ?_⟩
  · rcases h.calls tab call hcall with hsent | ⟨rfl, -⟩
    · exact .inl hsent
    · exact absurd (.inl ⟨tab, _, hcall⟩) hidle
  · exact (h.requests r hr).quiet (hnone r hr)

/-- The step lemma. -/
theorem Inv.step (h : Inv s k) {a : Action} (ha : refreshesAlone s a) (hs : s.step a = some s') :
    ∃ k', Inv s' k' := by
  cases a with
  | request tab =>
    cases Option.some.inj hs
    refine ⟨k, h.accessToken, h.refreshToken, h.le, h.calls, h.once, fun r hr => ?_⟩
    rcases List.mem_append.mp hr with hr | hr
    · exact h.requests r hr
    · rw [List.mem_singleton.mp hr]
      intro hretry
      cases hretry
  | arrive i =>
    simp only [State.step] at hs
    split at hs
    · rename_i tab retry token hi
      cases Option.some.inj hs
      refine ⟨k, h.setPhase hi fun hretry => ?_⟩
      obtain ⟨hk, htoken, hvalid⟩ := h.requests _ (List.mem_of_getElem? hi) hretry
      exact if_pos ⟨htoken.trans (congrArg some hk), hvalid⟩
    · cases hs
  | respond i =>
    simp only [State.step] at hs
    split at hs
    · rename_i hi
      cases Option.some.inj hs
      exact ⟨k, h.setPhase hi trivial⟩
    · rename_i tab retry hi
      cases Option.some.inj hs
      refine ⟨k, h.onUnauthorized ?_⟩
      have hfits := h.requests _ (List.mem_of_getElem? hi)
      refine Bool.eq_false_iff.mpr fun hretry => ?_
      cases hfits hretry
    · cases hs
  | refreshArrives tab =>
    simp only [State.step] at hs
    split at hs
    · rename_i key hcall
      obtain ⟨-, hcurrent, hquiet⟩ := ha
      obtain rfl := hcurrent key hcall
      rw [State.rotate, if_pos rfl] at hs
      cases Option.some.inj hs
      exact ⟨k, h.refreshArrives hcall hquiet⟩
    · cases hs
  | refreshSettles tab =>
    simp only [State.step] at hs
    split at hs
    · rename_i key hcall
      cases Option.some.inj hs
      exact ⟨key, h.refreshSettles hcall⟩
    · rename_i hcall
      rcases h.calls tab _ hcall with ⟨_, heq, -⟩ | ⟨heq, -⟩
      · cases heq
      · cases heq
    · cases hs
  | resend i =>
    simp only [State.step] at hs
    split at hs
    · rename_i tab retry newToken hi
      cases Option.some.inj hs
      obtain ⟨-, hk, hvalid⟩ := h.requests _ (List.mem_of_getElem? hi)
      refine ⟨k, h.setPhase hi fun _ => ⟨hk, ?_, hvalid⟩⟩
      rw [h.accessToken, Option.some_or]
    · cases hs
  | expire =>
    cases Option.some.inj hs
    exact ⟨k, h.expire ha.1⟩

theorem Inv.run (h : Inv s k) {as : List Action} {t : State}
    (hrun : State.run refreshesAlone s as t) : ∃ k', Inv t k' := by
  induction as generalizing s k with
  | nil =>
    cases hrun
    exact ⟨k, h⟩
  | cons a as ih =>
    obtain ⟨ha, s', hs, hrest⟩ := hrun
    obtain ⟨k', hk'⟩ := h.step ha hs
    exact ih hk' hrest

/-- Refreshing keeps the session where each refresh call arrives with the current token and
while no request is sent again. -/
theorem refresh_keeps_session (sessionKey : Key) (accessValid : Bool) :
    KeepsSession refreshesAlone sessionKey accessValid := by
  intro as t hrun
  have hinv : Inv (.initial sessionKey accessValid) sessionKey :=
    ⟨rfl, rfl, Nat.le_refl _, (fun _ _ hcall => by cases hcall),
      (fun _ _ _ _ hcall _ => by cases hcall), fun r hr => by cases hr⟩
  obtain ⟨k, hk⟩ := hinv.run hrun
  exact hk.alive

/-- Two tabs refresh with one refresh token. -/
def twoTabs : List Action :=
  [.request 0, .request 1, .arrive 0, .arrive 1, .respond 0, .respond 1, .refreshArrives 0,
    .refreshArrives 1,
    .refreshSettles 0, .refreshSettles 1]

/-- The call of the second removes the tokens that the first has stored. -/
theorem second_tab_drops_session : ¬ KeepsSession reachable 0 false := by
  intro h
  have hsteps : ∀ as s t, (∀ a ∈ as, a ≠ Action.expire) → as.foldlM State.step s = some t →
      State.run reachable s as t := by
    intro as
    induction as with
    | nil => exact fun s t _ hst => (Option.some.inj hst).symm
    | cons a as ih =>
      intro s t has hst
      rw [List.forall_mem_cons] at has
      rw [List.foldlM_cons] at hst
      obtain ⟨s', hs, hrest⟩ := Option.bind_eq_some_iff.mp hst
      refine ⟨?_, s', hs, ih s' t has.2 hrest⟩
      cases a with
      | expire => exact absurd rfl has.1
      | _ => trivial
  have key : ((twoTabs.foldlM State.step (.initial 0 false)).any fun s => s.accessToken.isNone) =
      true := by decide +kernel
  obtain ⟨t, ht, hnone⟩ := (Option.any_eq_true _ _).mp key
  have halive := (h twoTabs t (hsteps twoTabs _ _ (by decide) ht)).accessToken
  rw [Option.isNone_iff_eq_none.mp hnone] at halive
  cases halive

end Redbox.ApiClient
