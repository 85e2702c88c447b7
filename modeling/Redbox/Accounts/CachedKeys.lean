import Redbox.Accounts.LoginChecks
import Redbox.Accounts.SessionKeys

/-! Master keys in Redis. Whoever ends the sessions of a user has to remove the key that a
login has cached. -/
namespace Redbox
open Interleaving

namespace Redis
variable {r : Redis} {now later : Time} {key k : RedisKey}

/-- A key that lives has not run out before. -/
theorem live_earlier (hle : now ≤ later) (h : (r.live later key).isSome = true) :
    (r.live now key).isSome = true := by
  obtain ⟨e, he⟩ := Option.isSome_iff_exists.mp h
  obtain ⟨hlook, hlive⟩ := Option.filter_eq_some_iff.mp he
  have hnow : e.expiresAt.all (fun t => decide (now < t)) = true := by
    rw [Option.all_eq_true] at hlive ⊢
    exact fun t ht => decide_eq_true (Nat.lt_of_le_of_lt hle (of_decide_eq_true (hlive t ht)))
  rw [live, hlook, Option.filter_some, if_pos hnow]
  rfl

theorem live_del (h : ((r.write now (.del k)).live now key).isSome = true) :
    (r.live now key).isSome = true := by
  by_cases hk : key = k
  · subst hk
    rw [live, lookup_del] at h
    cases h
  · rw [← live_congr (lookup_write (w := .del k) hk)]
    exact h

/-- Removals leave no key that was not there. -/
theorem live_removes {c : RedisCommand} (hc : c.removes = true)
    (h : ((r.perform now c).1.live now key).isSome = true) :
    (r.live now key).isSome = true := by
  cases c with
  | write w => cases w <;> first | exact live_del h | cases hc
  | compareAndDelete k token =>
    simp only [perform] at h
    split at h
    · split at h
      · exact live_del h
      · exact h
    · exact h
  | multi ws =>
    simp only [perform] at h
    simp only [RedisCommand.removes] at hc
    induction ws generalizing r with
    | nil => exact h
    | cons w ws ih =>
      rw [List.all_cons, Bool.and_eq_true] at hc
      have hrest := ih hc.2 h
      cases w <;> first | exact live_del hrest | cases hc.1
  | setNX _ _ _ => cases hc
  | _ => exact h

/-- Among removals, a key that is removed is gone. -/
theorem live_multi {ws : List RedisWrite} (hc : (RedisCommand.multi ws).removes = true)
    (hk : .del key ∈ ws) :
    (r.writeAll now ws).live now key = none := by
  have gone : (r.writeAll now ws).lookup key = none := by
    simp only [RedisCommand.removes] at hc
    induction ws generalizing r with
    | nil => cases hk
    | cons w ws ih =>
      rw [List.all_cons, Bool.and_eq_true] at hc
      by_cases hrest : .del key ∈ ws
      · exact ih hc.2 hrest
      · rcases List.mem_cons.mp hk with rfl | hk
        · have hgone : ((r.write now (.del key)).writeAll now ws).lookup key = none := by
            refine (lookup_writeAll fun w hw => ?_).trans lookup_del
            rintro rfl
            have := List.all_eq_true.mp hc.2 w hw
            cases w <;> first | exact hrest hw | cases this
          exact hgone
        · exact absurd hk hrest
  rw [live, gone]
  rfl

end Redis

/-- The decrypted master key of the user is in Redis. -/
def keyCached (userId : Id) (s : World) : Bool := (s.redis.live s.clock (.masterKey userId)).isSome

/-- Some token that was issued carries the user's session key. -/
def HasSession (userId : Id) (db : Database) (log : List BackendEvent) : Prop :=
  ∃ u payload, db.findUser userId = some u ∧ minted .user payload log = true ∧
    payload.sub = userId ∧
    payload.sessionKey = u.sessionKey

namespace Request

/-- The user who may be left with a cached key and no session. -/
def exposes : Request → Option Id
  | .statement w => w.rekeys
  | .redis (.write (.set (.masterKey userId) _ _)) => some userId
  | _ => none

/-- A call that concerns sessions or is harmless. -/
def ofSessions : Request → Bool
  | .statement _ | .sign _ _ | .signReactivation _ => true
  | .redis (.write (.set (.masterKey _) _ _)) | .redis (.write (.expire (.masterKey _) _)) => true
  | q => q.harmless

end Request

/-- A session outlasts what leaves the user's key. -/
theorem HasSession.grow {userId : Id} {db db' : Database} {log log' : List BackendEvent}
    (h : HasSession userId db log) (hdb : ∀ u, db.findUser userId = some u →
      ∃ u', db'.findUser userId = some u' ∧ u'.sessionKey = u.sessionKey)
    (hlog : ∀ payload, minted .user payload log = true → minted .user payload log' = true) :
    HasSession userId db' log' := by
  obtain ⟨u, payload, hu, hm, hsub, hkey⟩ := h
  obtain ⟨u', hu', hsame⟩ := hdb u hu
  exact ⟨u', payload, hu', hlog payload hm, hsub, hkey.trans hsame.symm⟩

theorem minted_grow {table : SessionTable} {payload : TokenPayload} {e : BackendEvent}
    {log : List BackendEvent} (h : minted table payload log = true) :
    minted table payload (e :: log) = true := by
  simp only [minted, List.any_cons, Bool.or_eq_true] at h ⊢
  exact .inr h

namespace World
variable {cfg : Config} {s : World} {q : Request} {userId : Id}

/-- A call that does not expose the user leaves his row and key, -/
theorem findUser_deliver_of_unexposed (hq : q.exposes ≠ some userId) {u : User}
    (hu : s.db.findUser userId = some u) :
    ∃ u', (s.deliver cfg q).1.db.findUser userId = some u' ∧ u'.sessionKey = u.sessionKey := by
  obtain hdb | ⟨w, db', a, rfl, hw, hs, -⟩ := s.deliver_db cfg q
  · exact ⟨u, hdb ▸ hu, rfl⟩
  · refine ⟨w.onUser s.nextId u, ?_, ?_⟩
    · rw [hs]
      exact (Database.findUser_perform hw userId).trans (by rw [hu]; rfl)
    · rcases Statement.onUser_sessionKey (w := w) (u := u) with h | ⟨h, -⟩
      · exact h.1
      · rw [Database.findUser_id hu] at h
        exact absurd h hq

/-- and caches no master key for him. -/
theorem keyCached_deliver (hq : q.exposes ≠ some userId) (ho : q.ofSessions = true)
    (h : keyCached userId (s.deliver cfg q).1 = true) : keyCached userId s = true := by
  cases q with
  | redis c =>
    have hclock : (s.deliver cfg (.redis c)).1.clock = s.clock := rfl
    simp only [keyCached, deliver] at h ⊢
    cases c with
    | write w =>
      cases w with
      | set k value seconds =>
        cases k with
        | masterKey v =>
          have hne : RedisKey.masterKey userId ≠ .masterKey v :=
            fun he => hq (congrArg some (RedisKey.masterKey.inj he).symm)
          rw [← Redis.live_congr (Redis.lookup_write (r := s.redis) (w :=
            .set (.masterKey v) value seconds) hne)]
          exact h
        | _ => cases ho
      | expire k seconds =>
        simp only [Redis.perform, Redis.write] at h
        split at h
        · rename_i e he
          by_cases hk : RedisKey.masterKey userId = k
          · rw [hk, he]
            rfl
          · rw [Redis.live, AList.lookup_insert_ne hk] at h
            exact h
        · exact h
      | del k => exact Redis.live_del h
      | _ => cases ho
    | compareAndDelete k token => exact Redis.live_removes (c := .compareAndDelete k token) ho h
    | multi ws => exact Redis.live_removes (c := .multi ws) ho h
    | setNX _ _ _ => cases ho
    | _ => exact h
  | statement w =>
    simp only [deliver] at h
    split at h <;> exact h
  | s3 name q =>
    simp only [deliver] at h
    split at h
    · cases name <;> exact h
    · exact h
  | _ => exact h

end World

namespace CachedKeys

/-- Each user with a cached key has a session, except for the one who is being dealt with. -/
def Covered (x : Option Id) (s : SharedWorld) : Prop :=
  ∀ userId, some userId ≠ x → keyCached userId s.store = true → HasSession userId s.store.db s.log

variable {cfg : Config} {p : Nat} {s : SharedWorld} {v : Id} {x : Option Id}

theorem Covered.weaken (h : Covered none s) : Covered x s :=
  fun userId _ => h userId (fun he => by cases he)

/-- A call exposes at most one user. -/
theorem Covered.after {q : Request} (h : Covered x s) (ho : q.ofSessions = true)
    (hq : q.exposes = none ∨ q.exposes = x) :
    Covered x ((backend cfg).after .delivered p q s) := by
  intro userId hne hcached
  have hunexposed : q.exposes ≠ some userId := by
    rcases hq with hq | hq
    · rw [hq]
      exact fun he => by cases he
    · rw [hq]
      exact fun he => hne he.symm
  exact (h userId hne (World.keyCached_deliver hunexposed ho hcached)).grow
    (fun u hu => World.findUser_deliver_of_unexposed hunexposed hu) fun _ => minted_grow

/-- Without the key, nothing is wrong with the user. -/
theorem Covered.uncached (h : Covered (some v) s) (hv : keyCached v s.store = false) :
    Covered none s := by
  intro userId _ hcached
  by_cases hid : userId = v
  · rw [hid, hv] at hcached
    cases hcached
  · exact h userId (fun he => hid (Option.some.inj he)) hcached

/-- A token with his key does as well. -/
theorem Covered.signed (payload : TokenPayload) {u : User} (h : Covered (some payload.sub) s)
    (hu : s.store.db.findUser payload.sub = some u) (hkey : payload.sessionKey = u.sessionKey) :
    Covered none ((backend cfg).after .delivered p (.sign .user payload) s) := by
  intro userId _ hcached
  by_cases hid : userId = payload.sub
  · subst hid
    exact ⟨u, payload, hu, by simp [minted, System.after], rfl, hkey⟩
  · exact h.after rfl (.inl rfl) userId (fun he => hid (Option.some.inj he)) hcached

theorem keyCached_moved (cfg : Config) {n : Nat}
    (h : keyCached v ((backend cfg).moved n s).store = true) : keyCached v s.store = true :=
  Redis.live_earlier (Nat.le_add_right _ _) h

/-- No two rows of users have one id. -/
def Distinct (s : SharedWorld) : Prop := (s.store.db.users.map (·.id)).Nodup

abbrev outline (p : Nat) : Outline Request Reply World := .solo p Distinct fun _ _ => True

theorem covered_stable {R : BackendRules} : Stable (backend cfg) R (outline p) p (Covered x) :=
  .solo fun _ _ _ h userId hne hcached => h userId hne (keyCached_moved cfg hcached)

/-- A call of the process leaves who was exposed before. -/
def Within (x : Option Id) (q : Request) : Prop :=
  q.ofSessions = true ∧ (q.exposes = none ∨ q.exposes = x)

abbrev Restored {α : Type} (_ : Except Thrown α) (t : SharedWorld) : Prop := Covered none t

theorem covered_meets {α : Type} {y : Routine α} (hy : y.Calls (Within x)) (hs : Covered x s) :
    Meets (backend cfg) allRequests (outline p) p y (fun _ t => Covered x t) s :=
  Meets.frame hy covered_stable (fun t q d hq _ ha ht => by
    obtain rfl : d = .delivered := of_decide_eq_true ha
    exact ⟨⟨rfl, trivial⟩, ht.after hq.1 hq.2⟩) hs

theorem harmless_within {q : Request} (h : q.harmless = true) : Within x q := by
  cases q with
  | redis c =>
    cases c with
    | write w => cases w <;> first | exact ⟨h, .inl rfl⟩ | cases h
    | setNX _ _ _ => cases h
    | _ => exact ⟨h, .inl rfl⟩
  | _ => first | exact ⟨h, .inl rfl⟩ | cases h

section
variable {α : Type}

theorem restored_throw {e : Thrown} (hs : Covered none s) :
    Meets (backend cfg) allRequests (outline p) p (.throw e : Routine α) Restored s :=
  Meets.throw covered_stable hs fun _ h _ => h

theorem restored_ret {a : α} (hs : Covered none s) :
    Meets (backend cfg) allRequests (outline p) p (.ret a) Restored s :=
  Meets.ret covered_stable hs fun _ h _ => h

/-- A call that exposes nobody, in front of the rest. -/
theorem covered_await {q : Request} {f : q.Answer → Routine α} (hq : Within none q)
    (hs : Covered none s) (h : ∀ a t, Covered none t →
      Meets (backend cfg) allRequests (outline p) p (f a) Restored t) :
    Meets (backend cfg) allRequests (outline p) p ((await q).bind f) Restored s := by
  refine Meets.await covered_stable hs fun t ht _ d ha => ?_
  obtain rfl : d = .delivered := of_decide_eq_true ha
  have hafter : Covered _ ((backend cfg).after .delivered p q t) := ht.after hq.1 hq.2
  exact ⟨⟨rfl, trivial⟩, fun a _ => h a _ hafter, fun e _ => restored_throw hafter⟩

/-- A routine that restores what it found and returns with more, in front of the rest. -/
theorem restored_returned {β : Type} {y : Routine β} {f : β → Routine α}
    {F : β → SharedWorld → Prop} (hy : Meets (backend cfg) allRequests (outline p) p y (fun r t =>
      Covered none t ∧ ∀ a, r = .ok a → F a t) s)
    (h : ∀ a t, Covered none t → F a t →
      Meets (backend cfg) allRequests (outline p) p (f a) Restored t) :
    Meets (backend cfg) allRequests (outline p) p (y.bind f) Restored s :=
  hy.next (fun _ _ _ h => h.1) fun a t _ ht => h a t ht.1 (ht.2 a rfl)

/-- A routine that restores what it found, in front of the rest. -/
theorem restored_bind {β : Type} {y : Routine β} {f : β → Routine α}
    (hy : Meets (backend cfg) allRequests (outline p) p y Restored s)
    (h : ∀ a t, Covered none t → Meets (backend cfg) allRequests (outline p) p (f a) Restored t) :
    Meets (backend cfg) allRequests (outline p) p (y.bind f) Restored s :=
  hy.next (fun _ _ _ h => h) fun a t _ ht => h a t ht

/-- The removal of a cached key. -/
theorem forget_meets (hs : Covered (some v) s) :
    Meets (backend cfg) allRequests (outline p) p (await (.redis (.write (.del (.masterKey v)))))
      Restored s := by
  rw [← Prog.bind_ret (await _)]
  refine Meets.await covered_stable hs fun t ht _ d ha => ?_
  obtain rfl : d = .delivered := of_decide_eq_true ha
  refine ⟨⟨rfl, trivial⟩, fun a _ => restored_ret ?_, fun e he => by cases he⟩
  refine (ht.after (p := p) (q := .redis (.write (.del (.masterKey v)))) rfl (.inl rfl)).uncached ?_
  have hgone : ((t.store.redis.write t.store.clock (.del (.masterKey v))).live t.store.clock
    (.masterKey v)) = none := by
    rw [Redis.live, Redis.lookup_del]
    rfl
  exact congrArg Option.isSome hgone

/-- A statement that ends the sessions of a user, in front of the rest. -/
theorem rekey_meets {w : Statement} {f : w.Answer → Routine α} (hw : w.rekeys = some v)
    (hs : Covered none s) (h : ∀ a (t : SharedWorld) (db : Database) now fresh,
      db.perform cfg now fresh w = .ok (t.store.db, a) →
      Covered (some v) t → (t.store.db = db → Covered none t) →
      Meets (backend cfg) allRequests (outline p) p (f a) Restored t) :
    Meets (backend cfg) allRequests (outline p) p ((await (.statement w)).bind f) Restored s := by
  refine Meets.await covered_stable hs fun t ht _ d ha => ?_
  obtain rfl : d = .delivered := of_decide_eq_true ha
  refine ⟨⟨rfl, trivial⟩, fun a hr => h a _ t.store.db t.store.clock t.store.nextId ?_ ?_ fun hdb =>
    ?_,
    fun e he => restored_throw ?_⟩
  · exact World.exec_statement_ok (d := .delivered) hr
  · exact ht.weaken.after rfl (.inr hw)
  · intro userId hne hcached
    have hkept : keyCached userId t.store = true := by
      have hstore : ((backend cfg).after .delivered p (.statement w) t).store =
          (t.store.deliver cfg (.statement w)).1 := rfl
      rw [hstore] at hcached
      simp only [World.deliver] at hcached
      split at hcached <;> exact hcached
    exact (ht userId hne hkept).grow (fun u hu => ⟨u, hdb ▸ hu, rfl⟩) fun _ => minted_grow
  · intro userId hne hcached
    have hsame : ((backend cfg).after .delivered p (.statement w) t).store = t.store :=
      World.deliver_statement_error he
    rw [hsame] at hcached ⊢
    exact (ht userId hne hcached).grow (fun u hu => ⟨u, hu, rfl⟩) fun _ => minted_grow

end

/-- A routine that restores what it found. -/
abbrev RestoresKeys {α : Type} (cfg : Config) (y : Routine α) : Prop :=
  ∀ p s, Covered none s → Meets (backend cfg) allRequests (outline p) p y Restored s

theorem harmless_restores {α : Type} {y : Routine α} (hy : y.Calls fun q => q.harmless = true) :
    RestoresKeys cfg y :=
  fun _ _ hs => covered_meets (hy.mono fun _ => harmless_within) hs

section
variable {userId : Id}

theorem reactivateUser_restores {options : ReactivationOptions} :
    RestoresKeys cfg (UsersService.reactivateUser userId options) := by
  intro p s hs
  refine covered_await (harmless_within rfl) hs fun row t ht => ?_
  cases row with
  | none => exact restored_throw ht
  | some u =>
    refine Meets.throwIf (fun _ => restored_throw ht) fun _ => ?_
    exact rekey_meets rfl ht fun _ t _ _ _ _ ht _ => forget_meets ht

theorem markDeleted_restores {options : DeletionOptions} :
    RestoresKeys cfg (UsersService.deleteUserDataAndMarkDeleted userId options) := by
  intro p s hs
  refine covered_await (harmless_within rfl) hs fun files t ht => ?_
  refine covered_await (harmless_within rfl) ht fun mails t ht => ?_
  refine restored_bind (harmless_restores (removeObjects_calls fun _ hq => hq) p t ht) fun _ t ht =>
    ?_
  refine restored_bind (harmless_restores (removeObjects_calls fun _ hq => hq) p t ht) fun _ t ht =>
    ?_
  exact rekey_meets rfl ht fun _ t _ _ _ _ ht _ => forget_meets ht

theorem finalizePendingDeletion_restores {requestId : Id} :
    RestoresKeys cfg (UsersService.finalizePendingDeletion userId requestId) := by
  intro p s hs
  refine covered_await (harmless_within rfl) hs fun row t ht => ?_
  cases row with
  | none => exact restored_ret ht
  | some u =>
    simp only [Prog.pure_eq]
    split
    · exact restored_ret ht
    · exact markDeleted_restores p t ht

theorem requestAccountDeletion_restores {password : String} :
    RestoresKeys cfg (UsersService.requestAccountDeletion cfg userId password) := by
  intro p s hs
  refine covered_await (harmless_within rfl) hs fun row t ht => ?_
  cases row with
  | none => exact restored_throw ht
  | some u =>
    refine Meets.throwIf (fun _ => restored_throw ht) fun _ => ?_
    refine Meets.throwIf (fun _ => restored_throw ht) fun _ => ?_
    refine covered_await (harmless_within rfl) ht fun request t ht => ?_
    refine Meets.throwIf (fun _ => restored_throw ht) fun _ => ?_
    refine covered_await (harmless_within rfl) ht fun now t ht => ?_
    exact rekey_meets rfl ht fun _ t _ _ _ _ ht _ => restored_bind (forget_meets ht) fun _ t ht =>
      restored_ret ht

theorem preparePendingDeletionLogin_restores :
    RestoresKeys cfg (UsersService.preparePendingDeletionLogin userId) := by
  intro p s hs
  refine covered_await (harmless_within rfl) hs fun row t ht => ?_
  cases row with
  | none => exact restored_ret ht
  | some u =>
    simp only [Prog.pure_eq, Prog.bind_eq]
    split
    · exact restored_ret ht
    refine covered_await (harmless_within rfl) ht fun request t ht => ?_
    cases request with
    | none => exact restored_bind (reactivateUser_restores p t ht) fun _ t ht => restored_ret ht
    | some request =>
      refine covered_await (harmless_within rfl) ht fun now t ht => ?_
      split
      · exact restored_bind (finalizePendingDeletion_restores p t ht) fun _ t ht =>
          restored_throw ht
      · exact restored_ret ht

theorem reactivatePendingAccount_restores {requestId : Id} :
    RestoresKeys cfg (UsersService.reactivatePendingAccount userId requestId) := by
  intro p s hs
  refine covered_await (harmless_within rfl) hs fun row t ht => ?_
  cases row with
  | none => exact restored_throw ht
  | some u =>
    refine Meets.throwIf (fun _ => restored_throw ht) fun _ => ?_
    simp only [Prog.pure_eq, Prog.bind_eq]
    split
    · exact restored_ret ht
    refine Meets.throwIf (fun _ => restored_throw ht) fun _ => ?_
    refine covered_await (harmless_within rfl) ht fun request t ht => ?_
    cases request with
    | none => exact restored_throw ht
    | some request =>
      refine Meets.throwIf (fun _ => restored_throw ht) fun _ => ?_
      refine covered_await (harmless_within rfl) ht fun now t ht => ?_
      split
      · exact restored_bind (finalizePendingDeletion_restores p t ht) fun _ t ht =>
          restored_throw ht
      · exact reactivateUser_restores p t ht

end

theorem assertUserCanLogin_restores {u : User} :
    RestoresKeys cfg (UsersService.assertUserCanLogin cfg u) := by
  intro p s hs
  unfold UsersService.assertUserCanLogin
  split
  · exact restored_ret hs
  · exact restored_throw hs
  · refine restored_bind (preparePendingDeletionLogin_restores p s hs) fun request t ht => ?_
    cases request with
    | none => exact restored_ret ht
    | some request => exact restored_throw ht
  · exact covered_await (harmless_within rfl) hs fun _ t ht => restored_throw ht
  · refine covered_await (harmless_within rfl) hs fun _ t ht => ?_
    refine covered_await (harmless_within rfl) ht fun _ t ht => ?_
    split
    · exact reactivateUser_restores p t ht
    · exact restored_throw ht

/-- The user is being dealt with, and his row is as it was read. -/
def Serving (u : User) (s : SharedWorld) : Prop :=
  Covered (some u.id) s ∧ s.store.db.findUser u.id = some u

theorem serving_stable {R : BackendRules} {u : User} :
    Stable (backend cfg) R (outline p) p (Serving u) :=
  Stable.and covered_stable (.solo fun _ _ _ h => h)

/-- A call to Redis for the user. -/
theorem serving_redis {u : User} {c : RedisCommand} {α : Type} {f : c.Answer → Routine α}
    (hc : Within (some u.id) (.redis c)) (hs : Serving u s)
    (h : ∀ a t, Serving u t → Meets (backend cfg) allRequests (outline p) p (f a) Restored t) :
    Meets (backend cfg) allRequests (outline p) p ((await (.redis c)).bind f) Restored s := by
  refine Meets.await serving_stable hs fun t ht _ d ha => ?_
  obtain rfl : d = .delivered := of_decide_eq_true ha
  exact ⟨⟨rfl, trivial⟩, fun a _ => h a _ ⟨ht.1.after hc.1 hc.2, ht.2⟩, fun e he => by cases he⟩

theorem redis_serves {u : User} {c : RedisCommand} (hc : Within (some u.id) (.redis c))
    (hs : Serving u s) :
    Meets (backend cfg) allRequests (outline p) p (await (.redis c))
    (fun r t => Serving u t ∧ ∃ a, r = .ok a) s := by
  rw [← Prog.bind_ret (await _)]
  refine Meets.await serving_stable hs fun t ht _ d ha => ?_
  obtain rfl : d = .delivered := of_decide_eq_true ha
  have hafter : Serving u ((backend cfg).after .delivered p (.redis c) t) :=
    ⟨ht.1.after hc.1 hc.2, ht.2⟩
  exact ⟨⟨rfl, trivial⟩, fun a _ => Meets.ret serving_stable hafter fun _ h _ => ⟨h, a, rfl⟩,
    fun e he => by cases he⟩

/-- Tokens with the key of the row cover the user again. -/
theorem getTokens_meets {u : User} (hs : Serving u s) :
    Meets (backend cfg) allRequests (outline p) p
      (AuthService.getTokens u.id u.username u.sessionKey) Restored s := by
  refine Meets.await serving_stable hs fun t ht _ d ha => ?_
  obtain rfl : d = .delivered := of_decide_eq_true ha
  refine ⟨⟨rfl, trivial⟩, fun _ _ => restored_ret ?_, fun e he => by cases he⟩
  exact Covered.signed ⟨u.id, u.username, u.sessionKey⟩ ht.1 ht.2 rfl

/-- The end of both logins. -/
theorem cacheKey_meets {u : User} {masterKey : String} {α : Type} {f : Unit → Routine α}
    (hs : Covered none s) (hrow : s.store.db.findUser u.id = some u)
    (h : ∀ a t, Serving u t → Meets (backend cfg) allRequests (outline p) p (f a) Restored t) :
    Meets (backend cfg) allRequests (outline p) p
      ((await (.redis (.write (.set (.masterKey u.id) (.text masterKey) 86400)))).bind f)
        Restored s :=
  serving_redis ⟨rfl, .inr rfl⟩ ⟨hs.weaken, hrow⟩ h

/-- A read of a row in front of the rest. -/
theorem readUser_meets {G : Database → Prop} {select : UserSelect} {α : Type}
    {f : Option User → Routine α} (hs : Covered none s) (hG : G s.store.db)
    (hnone : ∀ t, Covered none t → Meets (backend cfg) allRequests (outline p) p (f none) Restored
      t) (h : ∀ u t, Covered none t → G t.store.db → u.id = v → t.store.db.findUser u.id = some u →
      Meets (backend cfg) allRequests (outline p) p (f (some u)) Restored t) :
    Meets (backend cfg) allRequests (outline p) p ((await (.query (.user select v))).bind f)
      Restored s := by
  refine Meets.await (Stable.and covered_stable (LoginChecks.stable_db (G := G))) ⟨hs,
    hG⟩ fun t ht _ d ha => ?_
  obtain rfl : d = .delivered := of_decide_eq_true ha
  have hafter : Covered _ ((backend cfg).after .delivered p (.query (.user select v)) t) :=
    ht.1.after rfl (.inl rfl)
  refine ⟨⟨rfl, trivial⟩, fun row hr => ?_, fun e he => by cases he⟩
  have hrow : t.store.db.findUser v = row := Except.ok.inj hr
  cases row with
  | none => exact hnone _ hafter
  | some u =>
    have hid := Database.findUser_id hrow
    exact h u _ hafter ht.2 hid (hid ▸ hrow)

/-- A user found by his name is the one of his id. -/
theorem readUsername_meets {username : String} {α : Type} {f : Option User → Routine α}
    (hs : Covered none s) (hnone : ∀ t, Covered none t →
      Meets (backend cfg) allRequests (outline p) p (f none) Restored t)
    (h : ∀ u t, Covered none t → t.store.db.findUser u.id = some u →
      Meets (backend cfg) allRequests (outline p) p (f (some u)) Restored t) :
    Meets (backend cfg) allRequests (outline p) p
      ((await (.query (.userByUsername username))).bind f) Restored s := by
  refine Meets.await covered_stable hs fun t ht hi d ha => ?_
  obtain rfl : d = .delivered := of_decide_eq_true ha
  have hafter : Covered _ ((backend cfg).after .delivered p
    (.query (.userByUsername username)) t) :=
    ht.after rfl (.inl rfl)
  refine ⟨⟨rfl, trivial⟩, fun row hr => ?_, fun e he => by cases he⟩
  have hrow : t.store.db.findUsername cfg.sameName username = row := Except.ok.inj hr
  cases row with
  | none => exact hnone _ hafter
  | some u => exact h u _ hafter (Database.findUser_of_findUsername hi hrow)

/-- The check of a login in front of the rest, which finds the user active. -/
theorem checked_meets {u : User} {α : Type} {f : Unit → Routine α} (hs : Covered none s)
    (hrow : s.store.db.findUser u.id = some u)
    (h : ∀ a t, Covered none t → LoginChecks.HasStatus u.id .active t.store.db →
      Meets (backend cfg) allRequests (outline p) p (f a) Restored t) :
    Meets (backend cfg) allRequests (outline p) p ((UsersService.assertUserCanLogin cfg u).bind f)
      Restored s := by
  have hstatus : LoginChecks.HasStatus u.id u.status s.store.db := by
    intro u' hu
    rw [hrow] at hu
    cases hu
    rfl
  refine restored_returned (F := fun _ t => LoginChecks.HasStatus u.id .active t.store.db)
    ((assertUserCanLogin_restores p s hs).and
      (LoginChecks.assertUserCanLogin_activates (fun _ _ _ => trivial) hstatus)) h

theorem getReactivationToken_calls {userId sessionKey requestId : Id} {username : String} :
    (AuthService.getReactivationToken userId username sessionKey requestId).Calls (Within none) :=
  .bind (.await ⟨rfl, .inl rfl⟩) fun _ => trivial

theorem login_restores {dto : LoginDto} : RestoresKeys cfg (AuthService.login cfg dto) := by
  intro p s hs
  refine covered_await (harmless_within rfl) hs fun row t ht => ?_
  cases row with
  | none => exact restored_throw ht
  | some user =>
    refine Meets.throwIf (fun _ => restored_throw ht) fun _ => ?_
    refine restored_bind (preparePendingDeletionLogin_restores p t ht) fun request t ht => ?_
    cases request with
    | some request =>
      exact restored_bind (covered_meets getReactivationToken_calls ht) fun _ t ht =>
        restored_ret ht
    | none =>
      refine readUser_meets (G := fun _ => True) ht trivial (fun t ht => restored_throw ht)
        fun currentUser t ht _ _ _ => ?_
      refine restored_bind (assertUserCanLogin_restores p t ht) fun _ t ht => ?_
      refine readUser_meets (G := fun _ => True) ht trivial (fun t ht => restored_throw ht)
        fun u t ht _ _ hrow => ?_
      refine Meets.local decryptMasterKey_calls (fun _ => restored_throw ht) fun masterKey => ?_
      refine cacheKey_meets ht hrow fun _ t ht => ?_
      exact restored_bind (getTokens_meets ht) fun _ t ht => restored_ret ht

theorem internalLogin_restores {dto : InternalLoginDto} :
    RestoresKeys cfg (InternalAuthService.login cfg dto) := by
  intro p s hs
  refine readUsername_meets hs (fun t ht => restored_throw ht) fun user t ht hrow => ?_
  refine Meets.throwIf (fun _ => restored_throw ht) fun _ => ?_
  refine checked_meets ht hrow fun _ t ht hactive => ?_
  refine readUser_meets (G := LoginChecks.HasStatus user.id .active) ht hactive (fun t ht =>
    restored_throw ht)
    fun u t ht hactive hid hrow => ?_
  -- The second check finds an active user and does nothing.
  have hstatus : u.status = .active := hactive u (hid ▸ hrow)
  have hcheck : UsersService.assertUserCanLogin cfg u = .ret () := by
    unfold UsersService.assertUserCanLogin
    rw [hstatus]
    rfl
  simp only [Prog.bind_eq, hcheck, Prog.ret_bind]
  refine Meets.local internalDecryptMasterKey_calls (fun _ => restored_throw ht) fun masterKey => ?_
  exact cacheKey_meets ht hrow fun _ t ht => getTokens_meets ht

theorem internalValidate_restores {payload : TokenPayload} :
    RestoresKeys cfg (InternalAuthService.validate cfg payload) := by
  intro p s hs
  refine covered_await (harmless_within rfl) hs fun row t ht => ?_
  cases row with
  | none => exact restored_throw ht
  | some user =>
    refine Meets.throwIf (fun _ => restored_throw ht) fun _ => ?_
    exact restored_bind (assertUserCanLogin_restores p t ht) fun _ t ht => restored_ret ht

/-- A swap that counts no row changes none. -/
theorem db_of_swapSessionKey {db db' : Database} {now : Time} {fresh id key : Id}
    (h : db.perform cfg now fresh (.swapSessionKey .user id key) = .ok (db', (0 : Nat))) :
    db' = db := by
  simp only [Database.perform, Database.swapSessionKey, Except.ok.injEq] at h
  split at h <;> simp_all

theorem refreshToken_restores {userId key : Id} :
    RestoresKeys cfg (AuthService.refreshToken cfg userId key) := by
  intro p s hs
  refine readUser_meets (G := fun _ => True) hs trivial (fun t ht => restored_throw ht)
    fun user t ht _ _ _ => ?_
  refine restored_bind (assertUserCanLogin_restores p t ht) fun _ t ht => ?_
  refine rekey_meets (v := userId) rfl ht fun count t db now fresh hperform ht hsame => ?_
  by_cases hcount : count = (0 : Nat)
  · subst hcount
    exact Meets.throwIf (fun _ => restored_throw (hsame (db_of_swapSessionKey hperform))) fun h =>
      absurd rfl h
  refine Meets.throwIf (fun h => absurd h hcount) fun _ => ?_
  have hexists : (t.store.db.findUser userId).isSome = true := by
    obtain ⟨u, hu, -⟩ := Option.map_eq_some_iff.mp
      (Database.sessionKeyOf_swapSessionKey hperform hcount)
    rw [Database.findUser_perform hperform, hu]
    rfl
  refine Meets.await (F := fun t => Covered (some userId) t ∧
    (t.store.db.findUser userId).isSome = true)
    (Stable.and covered_stable (LoginChecks.stable_db (G :=
      fun db => (db.findUser userId).isSome = true))) ⟨ht, hexists⟩
    fun t ht _ d ha => ?_
  obtain rfl : d = .delivered := of_decide_eq_true ha
  refine ⟨⟨rfl, trivial⟩, fun row hr => ?_, fun e he => by cases he⟩
  have hrow : t.store.db.findUser userId = row := Except.ok.inj hr
  obtain ⟨u, hu⟩ := Option.isSome_iff_exists.mp ht.2
  obtain rfl : row = some u := hrow.symm.trans hu
  have hid : u.id = userId := Database.findUser_id hu
  subst hid
  have hserving : Serving u ((backend cfg).after .delivered p (.query (.user .row u.id)) t) :=
    ⟨ht.1.after rfl (.inl rfl), hu⟩
  exact serving_redis ⟨rfl, .inl rfl⟩ hserving fun _ t ht => getTokens_meets ht

theorem logout_restores {userId : Id} : RestoresKeys cfg (AuthService.logout userId) :=
  fun _ _ hs => rekey_meets rfl hs fun _ _ _ _ _ _ ht _ => forget_meets ht

theorem changePassword_restores {userId : Id} {dto : ChangePasswordDto} :
    RestoresKeys cfg (AuthService.changePassword cfg userId dto) := by
  intro p s hs
  refine covered_await (harmless_within rfl) hs fun row t ht => ?_
  cases row with
  | none => exact restored_throw ht
  | some user =>
    refine Meets.throwIf (fun _ => restored_throw ht) fun _ => ?_
    refine Meets.local decryptMasterKey_calls (fun _ => restored_throw ht) fun rawMasterKey => ?_
    refine restored_bind (harmless_restores (generateMasterKeyStore_calls fun _ hq => hq) p t ht)
      fun store t ht => ?_
    refine restored_bind (harmless_restores (hash_calls fun _ hq => hq) p t ht) fun password t ht =>
      ?_
    exact rekey_meets rfl ht fun _ t _ _ _ _ ht _ => forget_meets ht

theorem reactivateAccount_restores {payload : ReactivationTokenPayload} :
    RestoresKeys cfg (AuthService.reactivateAccount payload) := by
  intro p s hs
  refine covered_await (harmless_within rfl) hs fun row t ht => ?_
  cases row with
  | none => exact restored_throw ht
  | some user =>
    refine Meets.throwIf (fun _ => restored_throw ht) fun _ => ?_
    refine Meets.throwIf (fun _ => restored_throw ht) fun _ => ?_
    simp only [Prog.pure_eq, Prog.bind_eq]
    split
    · exact restored_ret ht
    · exact Meets.throwIf (fun _ => restored_throw ht) fun _ =>
        reactivatePendingAccount_restores p t ht

theorem loop_restores {β : Type} {xs : List β} {f : β → Routine Unit}
    (h : ∀ b ∈ xs, RestoresKeys cfg (f b)) :
    RestoresKeys cfg (Prog.forEach xs f) := by
  intro p s hs
  induction xs generalizing s with
  | nil => exact restored_ret hs
  | cons b xs ih =>
    exact restored_bind (h b (by simp) p s hs) fun _ t ht =>
      ih (fun c hc => h c (by simp [hc])) t ht

theorem processPendingDeletionRequests_restores :
    RestoresKeys cfg UsersService.processPendingDeletionRequests := by
  intro p s hs
  refine covered_await (harmless_within rfl) hs fun requests t ht => ?_
  exact loop_restores (fun request _ => finalizePendingDeletion_restores) p t ht

theorem processExpiredRestrictions_restores :
    RestoresKeys cfg UsersService.processExpiredRestrictions := by
  intro p s hs
  refine covered_await (harmless_within rfl) hs fun bans t ht => ?_
  exact loop_restores (fun ban _ => reactivateUser_restores) p t ht

/-- No master key of the account is cached, or the credentials are rejected. -/
def recoverable (cfg : Config) (w : World) (dto : RecoverPasswordDto) : Bool :=
  match w.db.findUsername cfg.sameName dto.username with
  | none => true
  | some u => !cfg.bcryptCompare (cfg.sha256 dto.recoveryPhrase) u.recoveryPhraseHash ||
    (cfg.decryptMasterKey dto.recoveryPhrase u.recoveryMasterKeyStore).isNone || !keyCached u.id w

theorem uncached_stable : Stable (backend cfg) allRequests (outline p) p fun t =>
      keyCached v t.store = false := by
  refine .solo fun t n _ ht => ?_
  cases hlater : keyCached v ((backend cfg).moved n t).store with
  | false => rfl
  | true =>
    rw [keyCached_moved cfg hlater] at ht
    cases ht

/-- Before the statement of a recovery, nothing caches a key. -/
theorem uncached_bind {α β : Type} {y : Routine β} {f : β → Routine α}
    (hy : y.Calls fun q => q.harmless = true) (hs : Covered none s)
    (hv : keyCached v s.store = false) (h : ∀ a t, Covered none t → keyCached v t.store = false →
      Meets (backend cfg) allRequests (outline p) p (f a) Restored t) :
    Meets (backend cfg) allRequests (outline p) p (y.bind f) Restored s := by
  refine restored_returned (F := fun _ t => keyCached v t.store = false) (Meets.mono (Meets.frame hy
    (Stable.and covered_stable uncached_stable) (fun t q d hq _ ha ht => ?_) ⟨hs, hv⟩)
      fun _ _ _ ht => ⟨ht.1, fun _ _ => ht.2⟩) h
  obtain rfl : d = .delivered := of_decide_eq_true ha
  obtain ⟨hsessions, hexposes⟩ := harmless_within (x := none) hq
  have hnone : q.exposes = none := hexposes.elim id id
  refine ⟨⟨rfl, trivial⟩, ht.1.after hsessions hexposes, ?_⟩
  cases hafter : keyCached v ((backend cfg).after .delivered p q t).store with
  | false => rfl
  | true =>
    have := World.keyCached_deliver (q := q) (fun he => by
      rw [hnone] at he; cases he) hsessions hafter
    rw [ht.2] at this
    cases this

/-- A statement that ends the sessions of a user without a cached key. -/
theorem uncached_rekey {w : Statement} {α : Type} {f : w.Answer → Routine α}
    (hw : w.rekeys = some v) (hs : Covered none s) (hv : keyCached v s.store = false)
    (h : ∀ a t, Covered none t → Meets (backend cfg) allRequests (outline p) p (f a) Restored t) :
    Meets (backend cfg) allRequests (outline p) p ((await (.statement w)).bind f) Restored s := by
  refine Meets.await (Stable.and covered_stable uncached_stable) ⟨hs, hv⟩ fun t ht _ d ha => ?_
  obtain rfl : d = .delivered := of_decide_eq_true ha
  have hkept : keyCached v ((backend cfg).after .delivered p (.statement w) t).store = false := by
    have hstore : ((backend cfg).after .delivered p (.statement w) t).store =
        (t.store.deliver cfg (.statement w)).1 := rfl
    rw [hstore]
    simp only [World.deliver]
    split <;> exact ht.2
  have hafter := (ht.1.weaken.after (p := p) (q := .statement w) rfl (.inr hw)).uncached hkept
  exact ⟨⟨rfl, trivial⟩, fun a _ => h a _ hafter, fun e _ => restored_throw hafter⟩

theorem recoverable_tick {dto : RecoverPasswordDto} {w : World} {n : Nat}
    (h : recoverable cfg w dto = true) :
    recoverable cfg (w.tick n) dto = true := by
  have hdb : (w.tick n).db = w.db := rfl
  simp only [recoverable, hdb] at h ⊢
  split
  · rfl
  · rename_i u hu
    rw [hu] at h
    simp only [Bool.or_eq_true, Bool.not_eq_true'] at h ⊢
    refine h.imp_right fun hcached => ?_
    cases hlater : keyCached u.id (w.tick n) with
    | false => rfl
    | true =>
      have hearlier : keyCached u.id w = true := Redis.live_earlier (Nat.le_add_right _ _) hlater
      rw [hearlier] at hcached
      cases hcached

theorem recoverPassword_restores {dto : RecoverPasswordDto} (hs : Covered none s)
    (hr : recoverable cfg s.store dto = true) :
    Meets (backend cfg) allRequests (outline p) p (AuthService.recoverPassword cfg dto)
      Restored s := by
  have stable : Stable (backend cfg) allRequests (outline p) p fun t =>
      recoverable cfg t.store dto = true :=
    .solo fun _ _ _ => recoverable_tick
  refine Meets.await (Stable.and covered_stable stable) ⟨hs, hr⟩ fun t ht _ d ha => ?_
  obtain rfl : d = .delivered := of_decide_eq_true ha
  have hafter : Covered _ ((backend cfg).after .delivered p (.query (.userByUsername dto.username))
    t) :=
    ht.1.after rfl (.inl rfl)
  refine ⟨⟨rfl, trivial⟩, fun row hrow => ?_, fun e he => by cases he⟩
  have hfound : t.store.db.findUsername cfg.sameName dto.username = row := Except.ok.inj hrow
  have hcan := ht.2
  rw [recoverable, hfound] at hcan
  cases row with
  | none => exact restored_throw hafter
  | some u =>
    simp only [Bool.or_eq_true, Bool.not_eq_true', Option.isNone_iff_eq_none] at hcan
    refine Meets.throwIf (fun _ => restored_throw hafter) fun hphrase => ?_
    cases hkey : cfg.decryptMasterKey dto.recoveryPhrase u.recoveryMasterKeyStore with
    | none =>
      have hthrows : AuthService.decryptMasterKey cfg dto.recoveryPhrase
        (some u.recoveryMasterKeyStore) =
          .throw .typeError := by
        simp only [AuthService.decryptMasterKey, hkey]
        rfl
      simp only [Prog.bind_eq, hthrows, Prog.throw_bind]
      exact restored_throw hafter
    | some rawMasterKey =>
      have hv : keyCached u.id ((backend cfg).after .delivered p
        (.query (.userByUsername dto.username)) t).store = false :=
        (hcan.resolve_left fun h => h.elim hphrase fun h => by rw [hkey] at h; cases h)
      refine Meets.local decryptMasterKey_calls (fun _ => restored_throw hafter) fun rawMasterKey =>
        ?_
      refine uncached_bind (generateMasterKeyStore_calls fun _ hq => hq) hafter hv
        fun store t ht hv => ?_
      refine uncached_bind (hash_calls fun _ hq => hq) ht hv fun password t ht hv => ?_
      exact uncached_rekey rfl ht hv fun _ t ht => restored_ret ht

/-! The services of administrators. -/

section
variable {userId adminUserId : Id} {dto : UpdateAdminUserStatusDto} {previousStatus : UserStatus}

/-- A loop that cannot throw, in front of the rest. -/
theorem exposed_loop {α β : Type} {xs : List β} {f : β → Routine Unit} {g : Unit → Routine α}
    (hcalls : ∀ b, (f b).Calls fun q => q.harmless = true) (hthrow : ∀ b, (f b).NoThrow)
    (hs : Covered x s) (h : ∀ t, Covered x t →
      Meets (backend cfg) allRequests (outline p) p (g ()) Restored t) :
    Meets (backend cfg) allRequests (outline p) p ((Prog.forEach xs f).bind g) Restored s := by
  have hloop : (Prog.forEach xs f).Calls (Within x) :=
    .forEach fun b => (hcalls b).mono fun _ => harmless_within
  refine ((covered_meets hloop hs).noThrow (.forEach hthrow)).next (fun e t _ ht => ?_)
    fun _ t _ ht => h t ht.1
  obtain ⟨_, a, ha⟩ := ht
  cases ha

/-- The data of the user in Redis goes with his key. -/
theorem clearUserRedisData_meets (hs : Covered (some userId) s) :
    Meets (backend cfg) allRequests (outline p) p (AdminUsersService.clearUserRedisData userId)
      Restored s := by
  have read : ∀ {α : Type} {c : RedisCommand} {f : c.Answer → Routine α} {t : SharedWorld},
    c.removes = true →
      Covered (some userId) t →
      (∀ a t, Covered (some userId) t →
        Meets (backend cfg) allRequests (outline p) p (f a) Restored t) →
      Meets (backend cfg) allRequests (outline p) p ((await (.redis c)).bind f) Restored t := by
    intro α c f t hc ht h
    refine Meets.await covered_stable ht fun t ht _ d ha => ?_
    obtain rfl : d = .delivered := of_decide_eq_true ha
    obtain ⟨hsessions, hexposes⟩ := harmless_within (x := some userId) (q := .redis c) hc
    exact ⟨⟨rfl, trivial⟩, fun a _ => h a _ (ht.after hsessions hexposes), fun e he => by cases he⟩
  unfold AdminUsersService.clearUserRedisData
  refine read rfl hs fun uploadIds t ht => ?_
  refine read rfl ht fun scanned t ht => ?_
  refine read rfl ht fun metaValues t ht => ?_
  -- The loop cannot throw, so the key is deleted in the end.
  refine exposed_loop (fun value => ?_) (fun value => ?_) ht fun t ht => ?_
  · split
    · exact .handle (.await rfl) fun _ => trivial
    · trivial
  · split
    · exact .handle fun _ => trivial
    · trivial
  · generalize hws : (RedisKey.masterKey userId :: .uploadActive userId ::
        (uploadIds.map (RedisKey.uploadMeta userId) ++ scanned).dedup).map RedisWrite.del = ws
    have hremoves : (RedisCommand.multi ws).removes = true := by simp [RedisCommand.removes, ← hws]
    have hmem : RedisWrite.del (.masterKey userId) ∈ ws := by simp [← hws]
    rw [← Prog.bind_ret (await _)]
    refine Meets.await covered_stable ht fun t ht _ d ha => ?_
    obtain rfl : d = .delivered := of_decide_eq_true ha
    refine ⟨⟨rfl, trivial⟩, fun a _ => restored_ret ?_, fun e he => by cases he⟩
    refine (ht.after (p := p) (q := .redis (.multi ws)) hremoves (.inl rfl)).uncached ?_
    exact congrArg Option.isSome (Redis.live_multi hremoves hmem)

theorem adminReactivateUser_restores {options : ReactivationOptions} :
    RestoresKeys cfg (AdminUsersService.reactivateUser userId options) := by
  intro p s hs
  refine restored_bind (harmless_restores (findUserOrThrow_calls fun _ hq => hq) p s hs)
    fun user t ht => ?_
  refine Meets.throwIf (fun _ => restored_throw ht) fun _ => ?_
  exact rekey_meets rfl ht fun _ t _ _ _ _ ht _ => forget_meets ht

theorem adminMarkDeleted_restores {options : DeletionOptions} :
    RestoresKeys cfg (AdminUsersService.deleteUserDataAndMarkDeleted userId options) := by
  intro p s hs
  refine covered_await (harmless_within rfl) hs fun files t ht => ?_
  refine covered_await (harmless_within rfl) ht fun mails t ht => ?_
  refine restored_bind (harmless_restores (removeObjects_calls fun _ hq => hq) p t ht) fun _ t ht =>
    ?_
  refine restored_bind (harmless_restores (removeObjects_calls fun _ hq => hq) p t ht) fun _ t ht =>
    ?_
  exact rekey_meets rfl ht fun _ t _ _ _ _ ht _ => clearUserRedisData_meets ht

theorem setLocked_restores : RestoresKeys cfg
      (AdminUsersService.setLocked adminUserId userId dto previousStatus) := by
  intro p s hs
  refine Meets.throwIf (fun _ => restored_throw hs) fun _ => ?_
  exact rekey_meets rfl hs fun _ t _ _ _ _ ht _ => forget_meets ht

theorem setBanned_restores : RestoresKeys cfg
      (AdminUsersService.setBanned adminUserId userId dto previousStatus) := by
  intro p s hs
  refine Meets.throwIf (fun _ => restored_throw hs) fun _ => ?_
  refine Meets.throwIf (fun _ => restored_throw hs) fun _ => ?_
  refine covered_await (harmless_within rfl) hs fun now t ht => ?_
  exact rekey_meets rfl ht fun _ t _ _ _ _ ht _ => forget_meets ht

theorem updateUserStatus_restores :
    RestoresKeys cfg (AdminUsersService.updateUserStatus adminUserId userId dto) := by
  intro p s hs
  refine covered_await (harmless_within rfl) hs fun row t ht => ?_
  cases row with
  | none => exact restored_throw ht
  | some user =>
    refine Meets.throwIf (fun _ => restored_throw ht) fun _ => ?_
    refine restored_bind (?_ : Meets _ _ _ _
      (AdminUsersService.setStatus adminUserId userId dto user.status) _ _)
      fun _ t ht => harmless_restores (findUserOrThrow_calls fun _ hq => hq) p t ht
    unfold AdminUsersService.setStatus
    split
    · exact adminReactivateUser_restores p t ht
    · exact setLocked_restores p t ht
    · exact setBanned_restores p t ht
    · exact Meets.throwIf (fun _ => restored_throw ht) fun _ => adminMarkDeleted_restores p t ht

theorem forceLogoutUser_restores {reason : String} :
    RestoresKeys cfg (AdminUsersService.forceLogoutUser adminUserId userId reason) := by
  intro p s hs
  refine restored_bind (harmless_restores (findUserOrThrow_calls fun _ hq => hq) p s hs)
    fun user t ht => ?_
  refine restored_bind (?_ : Meets _ _ _ _ (AdminUsersService.rotateUserSession userId) _ _)
    fun _ t ht => ?_
  · exact rekey_meets rfl ht fun _ t _ _ _ _ ht _ => forget_meets ht
  · exact covered_await ⟨rfl, .inl rfl⟩ ht fun _ t ht => restored_ret ht

end

/-- The requests that concern sessions. -/
def concernsSessions : Operation → Bool
  | .login _ | .refreshToken _ | .logout _ | .changePassword _ _ | .recoverPassword
      _ | .reactivateAccount _
  | .requestAccountDeletion _ _ | .processPendingDeletionRequests | .processExpiredRestrictions
  | .updateUserStatus _ _ _ | .forceLogoutUser _ _ _ => true
  | _ => false

/-- A recovery comes while no master key of the account is cached, or with credentials that are
rejected. -/
def recoversSafely (cfg : Config) (w : World) : Operation → Bool
  | .recoverPassword dto => recoverable cfg w dto
  | _ => true

theorem guarded_restores {payload : TokenPayload} {body : Id → Routine Outcome}
    (h : ∀ userId, RestoresKeys cfg (body userId)) :
    RestoresKeys cfg (Operation.guarded payload body) := fun p s hs =>
  restored_bind (harmless_restores (jwtValidate_calls fun _ hq => hq) p s hs) fun user t ht =>
    h user.id p t ht

theorem adminGuarded_restores {payload : TokenPayload} {body : Id → Routine Outcome}
    (h : ∀ adminId, RestoresKeys cfg (body adminId)) :
    RestoresKeys cfg (Operation.adminGuarded payload body) := fun p s hs =>
  restored_bind (harmless_restores (adminJwtValidate_calls fun _ hq => hq) p s hs) fun user t ht =>
    h user.id p t ht

theorem mapped_restores {α β : Type} {y : Routine α} {f : α → β}
    (hy : Meets (backend cfg) allRequests (outline p) p y Restored s) :
    Meets (backend cfg) allRequests (outline p) p (y.bind fun a => .ret (f a)) Restored s :=
  restored_bind hy fun _ _ ht => restored_ret ht

theorem program_restores {op : Operation} (hop : concernsSessions op = true) (hs : Covered none s)
    (hr : recoversSafely cfg s.store op = true) :
    Meets (backend cfg) allRequests (outline p) p (op.program cfg) Restored s := by
  cases op with
  | login dto =>
    refine restored_bind (login_restores p s hs) fun result t ht => ?_
    cases result <;> exact restored_ret ht
  | refreshToken payload => exact mapped_restores (refreshToken_restores p s hs)
  | logout payload =>
    unfold Operation.program
    refine guarded_restores (fun userId p t ht => ?_) p s hs
    exact mapped_restores (logout_restores p t ht)
  | changePassword payload dto =>
    unfold Operation.program
    refine guarded_restores (fun userId p t ht => ?_) p s hs
    exact mapped_restores (changePassword_restores p t ht)
  | recoverPassword dto => exact mapped_restores (recoverPassword_restores hs hr)
  | reactivateAccount payload => exact mapped_restores (reactivateAccount_restores p s hs)
  | requestAccountDeletion payload password =>
    unfold Operation.program
    refine guarded_restores (fun userId p t ht => ?_) p s hs
    exact mapped_restores (requestAccountDeletion_restores p t ht)
  | processPendingDeletionRequests =>
    exact mapped_restores (processPendingDeletionRequests_restores p s hs)
  | processExpiredRestrictions => exact mapped_restores (processExpiredRestrictions_restores p s hs)
  | updateUserStatus payload userId dto =>
    unfold Operation.program
    refine adminGuarded_restores (fun adminId p t ht => ?_) p s hs
    exact mapped_restores (updateUserStatus_restores p t ht)
  | forceLogoutUser payload userId reason =>
    unfold Operation.program
    refine adminGuarded_restores (fun adminId p t ht => ?_) p s hs
    exact mapped_restores (forceLogoutUser_restores p t ht)
  | _ => cases hop

/-! The account services. -/

/-- Requests of the claim arrive, and every call is delivered. -/
def sessionRequests : AccountRules where
  starts := fun s op => op.tokenKnown s.log && match op with
    | .base op => concernsSessions op
    | _ => true
  allows := fun _ _ _ d => decide (d = .delivered)
  drifts := fun _ _ => true

def rules (cfg : Config) : AccountRules :=
  { sessionRequests with
    starts := fun s op => sessionRequests.starts s op && match op with
      | .base op => recoversSafely cfg s.store op
      | _ => true }

/-- What the backend sees of the account services. -/
def view (t : SharedAccounts) : SharedWorld := ⟨t.store, baseLog t.log⟩

/-- The ids of users differ and were drawn before. -/
structure UsersDrawn (db : Database) (nextId : Id) : Prop where
  distinct : (db.users.map (·.id)).Nodup
  drawn : ∀ id ∈ db.users.map (·.id), id < nextId

abbrev accountOutline (p : Nat) : Outline AccountRequest AccountReply World :=
  .solo p (fun t => UsersDrawn t.store.db t.store.nextId) fun _ _ => True

/-- The users after a call of the account services. -/
theorem userIds_deliverAccount (w : World) (q : AccountRequest) :
    (w.deliverAccount cfg q).1.db.users.map (·.id) = w.db.users.map (·.id) ∨
      (w.deliverAccount cfg q).1.db.users.map (·.id) = w.nextId :: w.db.users.map (·.id) ∧
        w.nextId < (w.deliverAccount cfg q).1.nextId := by
  by_cases hq : q.isNew = true
  · rcases w.deliverAccount_cases cfg hq with ⟨a, -, -, hs⟩ | ⟨e, -, hs⟩
    · rw [hs]
      cases q with
      | registerUser inviteId new => exact .inr ⟨rfl, Nat.lt_add_of_pos_right (Nat.succ_pos 2)⟩
      | changeUsername userId newUsername entry =>
        exact .inl (Database.userIds_setUser fun _ => rfl)
      | _ => exact .inl rfl
    · rw [hs]
      exact .inl rfl
  · cases q with
    | backend q =>
      obtain hdb | ⟨st, db', a, rfl, hw, hs', -⟩ := w.deliver_db cfg q
      · exact .inl (congrArg (fun db : Database => db.users.map (·.id)) hdb)
      · refine .inl ?_
        have hstore : (w.deliverAccount cfg (.backend (.statement st))).1 =
            (w.deliver cfg (.statement st)).1 := rfl
        rw [hstore, hs']
        exact Database.userIds_perform hw
    | _ => exact absurd rfl hq

theorem usersDrawn_deliverAccount {w : World} {q : AccountRequest} (h : UsersDrawn w.db w.nextId) :
    UsersDrawn (w.deliverAccount cfg q).1.db (w.deliverAccount cfg q).1.nextId := by
  have hn := w.nextId_deliverAccount cfg q
  rcases userIds_deliverAccount w q with hids | ⟨hids, hlt⟩
  · exact ⟨hids ▸ h.distinct, fun id hid => Nat.lt_of_lt_of_le (h.drawn id (hids ▸ hid)) hn⟩
  · refine ⟨?_, fun id hid => ?_⟩
    · rw [hids]
      exact List.nodup_cons.mpr ⟨fun hmem => Nat.lt_irrefl _ (h.drawn _ hmem), h.distinct⟩
    · rw [hids] at hid
      rcases List.mem_cons.mp hid with rfl | hid
      · exact hlt
      · exact Nat.lt_of_lt_of_le (h.drawn id hid) hn

theorem accountOutline_kept : (accountOutline p).Kept (accounts cfg) (rules cfg) := by
  refine Outline.solo_kept (fun t p q d ht ha _ => ?_) fun _ _ ht _ => ht
  obtain rfl : d = .delivered := of_decide_eq_true ha
  rw [accounts_delivered]
  exact usersDrawn_deliverAccount ht

theorem within : (backendWithin cfg).Refines allRequests (rules cfg) p (outline p)
    (accountOutline p) :=
  .solo (fun _ _ _ ha => ha) (fun _ _ _ => rfl) (fun _ ht => ht.distinct) fun _ _ _ _ => trivial

variable {t : SharedAccounts}

abbrev AccountRestored {α : Type} (_ : Except Thrown α) (t : SharedAccounts) : Prop :=
  Covered none (view t)

theorem lift_restores {α : Type} {y : Routine α}
    (hy : Meets (backend cfg) allRequests (outline p) p y Restored (view t)) :
    Meets (accounts cfg) (rules cfg) (accountOutline p) p (lift y) AccountRestored t :=
  Embedding.Refines.meets within hy

theorem account_stable : Stable (accounts cfg) (rules cfg) (accountOutline p) p fun t =>
      Covered x (view t) :=
  .solo fun t _ _ h userId hne hcached => h userId hne (keyCached_moved cfg (s := view t) hcached)

/-- The user whom a new call exposes: the one renamed, or the one to be. -/
def newlyExposed (w : World) : AccountRequest → Option Id
  | .changeUsername userId _ _ => some userId
  | .registerUser _ _ => some w.nextId
  | _ => none

/-- A new call leaves the row of everyone else, and Redis. -/
theorem findUser_deliverAccount {w : World} {q : AccountRequest} (hq : q.isNew = true) {userId : Id}
    (hne : newlyExposed w q ≠ some userId) {u : User} (hu : w.db.findUser userId = some u) :
    ∃ u', (w.deliverAccount cfg q).1.db.findUser userId = some u' ∧
    u'.sessionKey = u.sessionKey := by
  rcases w.deliverAccount_cases cfg hq with ⟨a, -, -, hs⟩ | ⟨e, -, hs⟩
  · rw [hs]
    cases q with
    | registerUser inviteId new =>
      refine ⟨u, ?_, rfl⟩
      have hid : (w.nextId == userId) = false := beq_false_of_ne fun h => hne (congrArg some h)
      simp only [Database.accountResult, Database.findUser, Database.newUser, List.find?_cons, hid]
      exact hu
    | changeUsername v newUsername entry =>
      have hother : u.id ≠ v := fun h =>
        hne (congrArg some (h.symm.trans (Database.findUser_id hu)))
      refine ⟨u, ?_, rfl⟩
      simp only [Database.accountResult, Database.findUser_auditLog]
      rw [Database.findUser_setUser (f :=
        fun u => { u with username := newUsername, sessionKey := w.nextId })
        fun _ => rfl, hu]
      simp only [Option.map_some, if_neg hother]
    | _ => exact ⟨u, hu, rfl⟩
  · rw [hs]
    exact ⟨u, hu, rfl⟩

theorem redis_deliverAccount {w : World} {q : AccountRequest} (hq : q.isNew = true) :
    (w.deliverAccount cfg q).1.redis = w.redis ∧ (w.deliverAccount cfg q).1.clock = w.clock := by
  rcases w.deliverAccount_cases cfg hq with ⟨a, -, -, hs⟩ | ⟨e, -, hs⟩ <;> rw [hs]
    <;> exact ⟨rfl, rfl⟩

theorem Covered.newCall {q : AccountRequest} (h : Covered x (view t)) (hq : q.isNew = true)
    (he : newlyExposed t.store q = none ∨ newlyExposed t.store q = x) :
    Covered x (view ((accounts cfg).after .delivered p q t)) := by
  rw [accounts_delivered]
  intro userId hne hcached
  obtain ⟨hredis, hclock⟩ := redis_deliverAccount (w := t.store) hq
  have hbefore : keyCached userId t.store = true := by
    have hsame : keyCached userId (t.store.deliverAccount cfg q).1 = keyCached userId t.store := by
      rw [keyCached, keyCached, hredis, hclock]
    exact hsame.symm.trans hcached
  refine (h userId hne hbefore).grow (fun u hu => findUser_deliverAccount hq (fun hx => ?_) hu)
    fun payload hm => ?_
  · rcases he with he | he
    · rw [he] at hx
      cases hx
    · exact hne (hx.symm.trans he)
  · cases q with
    | backend q => cases hq
    | _ => exact hm

/-- A new call that fails changes nothing. -/
theorem Covered.newFailure {q : AccountRequest} {e : Thrown} (h : Covered x (view t))
    (hq : q.isNew = true) (he : (accounts cfg).reply .delivered q t = .error e) :
    Covered x (view ((accounts cfg).after .delivered p q t)) := by
  rw [accounts_delivered]
  rw [accounts_reply] at he
  have hsame : (t.store.deliverAccount cfg q).1 = t.store := by
    rcases t.store.deliverAccount_cases cfg hq with ⟨a, ha, -⟩ | ⟨e', -, hs⟩
    · rw [ha] at he
      cases he
    · exact hs
  intro userId hne hcached
  have hbefore : keyCached userId t.store = true := by
    rw [← hsame]
    exact hcached
  refine (h userId hne hbefore).grow (fun u hu => ⟨u, ?_, rfl⟩) fun payload hm => ?_
  · exact (congrArg (fun w : World => w.db.findUser userId) hsame).trans hu
  · cases q with
    | backend q => cases hq
    | _ => exact hm

section
variable {α : Type}

theorem accountRestored_throw {e : Thrown} (ht : Covered none (view t)) :
    Meets (accounts cfg) (rules cfg)
    (accountOutline p) p (.throw e : AccountRoutine α) AccountRestored t :=
  Meets.throw account_stable ht fun _ h _ => h

theorem accountRestored_ret {a : α} (ht : Covered none (view t)) :
    Meets (accounts cfg) (rules cfg) (accountOutline p) p (.ret a) AccountRestored t :=
  Meets.ret account_stable ht fun _ h _ => h

theorem accountRestored_bind {β : Type} {y : AccountRoutine β} {f : β → AccountRoutine α}
    (hy : Meets (accounts cfg) (rules cfg) (accountOutline p) p y AccountRestored t)
    (h : ∀ a t, Covered none (view t) → Meets (accounts cfg) (rules cfg)
      (accountOutline p) p (f a) AccountRestored t) :
    Meets (accounts cfg) (rules cfg) (accountOutline p) p (y.bind f) AccountRestored t :=
  hy.next (fun _ _ _ h => h) fun a t _ ht => h a t ht

end

/-- Calls that expose nobody. -/
def Neutral : AccountRequest → Prop
  | .backend q => Within none q
  | .changeUsername _ _ _ | .registerUser _ _ => False
  | _ => True

theorem neutral_restores {α : Type} {y : AccountRoutine α} (hy : y.Calls Neutral)
    (ht : Covered none (view t)) :
    Meets (accounts cfg) (rules cfg) (accountOutline p) p y AccountRestored t := by
  refine Meets.frame (F := fun t => Covered none (view t)) hy account_stable
    (fun t q d hq _ ha ht => ?_) ht
  obtain rfl : d = .delivered := of_decide_eq_true ha
  refine ⟨⟨rfl, trivial⟩, ?_⟩
  cases q with
  | backend q => exact Covered.after (s := view t) ht hq.1 hq.2
  | changeUsername _ _ _ => exact hq.elim
  | registerUser _ _ => exact hq.elim
  | _ => exact ht.newCall rfl (.inl rfl)

theorem harmless_neutral (q : Request) (h : q.harmless = true) : Neutral (.backend q) :=
  harmless_within h

theorem changeUsername_restores {adminUserId userId : Id} {newUsername reason : String}
    (ht : Covered none (view t)) :
    Meets (accounts cfg) (rules cfg) (accountOutline p) p
      (AdminUsersService.changeUsername adminUserId userId newUsername reason)
        AccountRestored t := by
  refine accountRestored_bind (neutral_restores
    (lift_calls harmless_neutral (findUserOrThrow_calls fun _ hq => hq)) ht) fun user t ht => ?_
  refine Meets.caught (Meets.await account_stable ht fun t ht _ d ha => ?_)
  obtain rfl : d = .delivered := of_decide_eq_true ha
  refine ⟨⟨rfl, trivial⟩, fun renamed _ => ?_, fun e he => ?_⟩
  · -- The sessions of the user have ended, and his key goes next.
    have hexposed : ∀ entry, Covered (some userId)
        (view ((accounts cfg).after .delivered p (.changeUsername userId newUsername entry) t)) :=
      fun _ => ht.weaken.newCall rfl (.inr rfl)
    have hforget : ∀ entry, Meets (accounts cfg) (rules cfg) (accountOutline p) p
        (lift (await (.redis (.write (.del (.masterKey userId)))))) AccountRestored
        ((accounts cfg).after .delivered p (.changeUsername userId newUsername entry) t) :=
      fun entry => lift_restores (forget_meets (hexposed entry))
    exact (hforget _).next (fun e t _ ht => accountRestored_throw ht) fun _ t _ ht =>
      Meets.ret account_stable ht fun _ h _ => h
  · exact Meets.throw account_stable (ht.newFailure rfl he) fun t ht _ => accountRestored_throw ht

/-- What a registration leaves until its tokens are signed. -/
def Registering (r : Except Thrown User) (t : SharedAccounts) : Prop :=
  match r with
  | .ok user => Serving user (view t)
  | .error _ => Covered none (view t)

theorem registering_stable {user : User} :
    Stable (accounts cfg) (rules cfg) (accountOutline p) p fun t => Serving user (view t) :=
  Stable.and account_stable (.solo fun _ _ _ h => h)

theorem storeRegistration_meets {invite : InviteCode} {new : NewUser} {rawMasterKey : String}
    (ht : Covered none (view t)) :
    Meets (accounts cfg) (rules cfg)
    (accountOutline p) p (AuthService.storeRegistration invite new rawMasterKey)
      Registering t := by
  refine Meets.caught (Meets.await account_stable ht fun t ht _ d ha => ?_)
  obtain rfl : d = .delivered := of_decide_eq_true ha
  refine ⟨⟨rfl, trivial⟩, fun user hr => ?_, fun e he => ?_⟩
  · rw [accounts_reply] at hr
    rcases t.store.deliverAccount_cases cfg (q := .registerUser invite.id new) rfl with
      ⟨a, hok, hp, hs⟩ | ⟨e, he, -⟩
    · rw [hr] at hok
      obtain rfl : user = a := Except.ok.inj hok
      obtain ⟨-, -, rfl⟩ := hp
      have hserving : Serving (Database.newUser cfg new t.store.nextId)
          (view ((accounts cfg).after .delivered p (.registerUser invite.id new) t)) := by
        refine ⟨ht.weaken.newCall rfl (.inr rfl), ?_⟩
        rw [accounts_delivered]
        refine (congrArg (fun w : World => w.db.findUser t.store.nextId) hs).trans ?_
        simp [Database.accountResult, Database.findUser, Database.newUser]
      have hcache : Meets (accounts cfg) (rules cfg) (accountOutline p) p
          (lift (await (.redis (.write
            (.set (.masterKey t.store.nextId) (.text rawMasterKey) 86400)))))
          (fun r t' => Serving (Database.newUser cfg new t.store.nextId) (view t') ∧ ∃ a, r = .ok a)
          ((accounts cfg).after .delivered p (.registerUser invite.id new) t) :=
        Embedding.Refines.meets within (s :=
          (accounts cfg).after .delivered p (.registerUser invite.id new) t)
          (redis_serves ⟨rfl, .inr rfl⟩ hserving)
      refine hcache.next (fun e t _ h => ?_) fun _ t _ h =>
        Meets.ret registering_stable h.1 fun _ h _ => h
      obtain ⟨_, a, ha⟩ := h
      cases ha
    · rw [hr] at he
      cases he
  · exact Meets.throw account_stable (ht.newFailure rfl he) fun t ht _ =>
      Meets.throw account_stable ht fun _ h _ => h

theorem register_restores {dto : RegisterUsersDto} (ht : Covered none (view t)) :
    Meets (accounts cfg) (rules cfg)
    (accountOutline p) p (AuthService.register cfg dto) AccountRestored t := by
  have drawn : ∀ {α : Type} {y : Routine α} {t : SharedAccounts},
    y.Calls (fun q => q.harmless = true) →
      Covered none (view t) → Meets (accounts cfg) (rules cfg) (accountOutline p) p (lift y)
        AccountRestored t :=
    fun hy ht => neutral_restores (lift_calls harmless_neutral hy) ht
  refine accountRestored_bind (neutral_restores (.await trivial) ht) fun invite t ht => ?_
  cases invite with
  | none => exact accountRestored_throw ht
  | some invite =>
    refine Meets.throwIf (fun _ => accountRestored_throw ht) fun _ => ?_
    refine accountRestored_bind (drawn (.await rfl) ht) fun bytes t ht => ?_
    refine accountRestored_bind (drawn (generateMasterKeyStore_calls fun _ hq => hq) ht)
      fun mkStore t ht => ?_
    refine accountRestored_bind (drawn (generateMasterKeyStore_calls fun _ hq => hq) ht)
      fun recoveryMkStore t ht => ?_
    refine accountRestored_bind (drawn (hash_calls fun _ hq => hq) ht)
      fun hashedRecoveryPhrase t ht => ?_
    refine accountRestored_bind (drawn (.await rfl) ht) fun keyPair t ht => ?_
    exact (storeRegistration_meets ht).next (fun _ _ _ h => h) fun user t _ h =>
      Embedding.Refines.meets within (getTokens_meets h)

theorem mapped_accountRestores {α β : Type} {y : AccountRoutine α} {f : α → β}
    (hy : Meets (accounts cfg) (rules cfg) (accountOutline p) p y AccountRestored t) :
    Meets (accounts cfg) (rules cfg)
    (accountOutline p) p (y.bind fun a => .ret (f a)) AccountRestored t :=
  accountRestored_bind hy fun _ _ ht => accountRestored_ret ht

theorem body_restores {op : AccountOperation} (hop : ∀ q, op = .base q → concernsSessions q = true)
    (hr : ∀ q, op = .base q → recoversSafely cfg t.store q = true) (ht : Covered none (view t)) :
    Meets (accounts cfg) (rules cfg) (accountOutline p) p (op.body cfg) AccountRestored t := by
  cases op with
  | base op => exact lift_restores (program_restores (hop op rfl) ht (hr op rfl))
  | register dto => exact mapped_accountRestores (register_restores ht)
  | internalLogin dto => exact lift_restores (mapped_restores (internalLogin_restores p _ ht))
  | internalValidate payload =>
    exact lift_restores (mapped_restores (internalValidate_restores p _ ht))
  | changeUsername payload userId newUsername reason =>
    exact accountRestored_bind (neutral_restores
      (lift_calls harmless_neutral (adminJwtValidate_calls fun _ hq => hq)) ht) fun admin t ht =>
        mapped_accountRestores (changeUsername_restores ht)
  | clearUserData payload userId reason =>
    exact neutral_restores (adminGuarded_calls harmless_neutral fun id =>
      clearUserData_calls harmless_neutral id userId reason fun _ => trivial) ht
  | deleteUserFiles payload userId fileIds reason =>
    exact neutral_restores (adminGuarded_calls harmless_neutral fun id =>
      deleteUserFiles_calls harmless_neutral id userId fileIds reason fun _ _ => trivial) ht
  | createAdminInviteCode payload dto =>
    exact neutral_restores (adminGuarded_calls harmless_neutral fun id =>
      createInviteCode_calls harmless_neutral id dto fun _ _ _ => trivial) ht
  | deleteInviteCode payload inviteCodeId =>
    exact neutral_restores (adminGuarded_calls harmless_neutral fun id =>
      deleteInviteCode_calls id inviteCodeId trivial fun _ => trivial) ht
  | updateInviteCodeValidity payload inviteCodeId isValid =>
    exact neutral_restores (adminGuarded_calls harmless_neutral fun id =>
      updateInviteCodeValidity_calls id inviteCodeId isValid trivial fun _ => trivial) ht

/-- What holds between operations. -/
def Settled (t : SharedAccounts) : Prop := UsersDrawn t.store.db t.store.nextId ∧
    Covered none (view t)

theorem program_settles {op : AccountOperation} (ht : Settled t)
    (hst : (rules cfg).starts t op = true) :
    Meets (accounts cfg) (rules cfg) (.alone p) p (op.program cfg) (fun _ t => Settled t) t := by
  simp only [rules, sessionRequests, Bool.and_eq_true] at hst
  obtain ⟨⟨-, hconcerns⟩, hsafe⟩ := hst
  have hop : ∀ q, op = .base q → concernsSessions q = true := fun q hq => by
    subst hq; exact hconcerns
  have hr : ∀ q, op = .base q → recoversSafely cfg t.store q = true := fun q hq => by
    subst hq; exact hsafe
  have stable : Stable (accounts cfg) (rules cfg) (accountOutline p) p fun t =>
      ∀ q, op = .base q → recoversSafely cfg t.store q = true := by
    refine .solo fun t n _ h q hq => ?_
    cases q with
    | recoverPassword dto => exact recoverable_tick (h _ hq)
    | _ => rfl
  refine (Meets.alone_of_solo accountOutline_kept ?_ ht.1)
  refine Meets.call (Stable.and account_stable stable) ⟨ht.2, hr⟩ fun t ht _ d ha => ?_
  obtain rfl : d = .delivered := of_decide_eq_true ha
  exact ⟨⟨rfl, trivial⟩, body_restores hop ht.2 (ht.1.newCall rfl (.inl rfl))⟩

theorem settled_lasts : Lasts (accounts cfg) (rules cfg) Settled := fun t _ _ ht =>
  ⟨ht.1, fun userId hne hcached => ht.2 userId hne (keyCached_moved cfg (s := view t) hcached)⟩

end CachedKeys

/-- Whenever no request is in progress, each user whose master key is in Redis has a token for his
session. -/
def NoOrphanedKey (cfg : Config) (R : AccountRules) (w : World) : Prop :=
  ∀ as s, (accounts cfg).runAlone R (.initial w) as = some s → s.idle = true →
    ∀ userId, keyCached userId s.shared.store = true →
      HasSession userId s.shared.store.db (baseLog s.shared.log)

theorem no_orphaned_key (cfg : Config) (w : World) (hw : CachedKeys.UsersDrawn w.db w.nextId)
    (hr : ∀ userId, keyCached userId w = false) : NoOrphanedKey cfg (CachedKeys.rules cfg) w := by
  intro as s hs hidle userId hcached
  have hinitial : CachedKeys.Settled (.initial w) := ⟨hw, fun v _ h => by
    have hnone : keyCached v w = true := h
    rw [hr v] at hnone
    cases hnone⟩
  have hsteady := Lasts.run CachedKeys.settled_lasts
    (fun t op ht hst p => CachedKeys.program_settles ht hst) hinitial hs
  exact (hsteady.idle hidle).2 userId (fun h => by cases h) hcached

def aliceLogin : List AccountAction :=
  .start (.base (.login ⟨"alice", "secret"⟩)) :: accountCalls 0 7

/-- The user logs in and later recovers the password. -/
def loginRecovery : List AccountAction :=
  aliceLogin ++ .start (.base (.recoverPassword ⟨"alice", "phrase", "Secret123"⟩)) ::
    accountCalls 1 6

/-- A token is signed with this session key. -/
def signsKey (key : Id) : Request → Bool
  | .sign .user payload => decide (payload.sessionKey = key)
  | _ => false

theorem recovery_orphans_key : ¬ NoOrphanedKey demoConfig CachedKeys.sessionRequests demoWorld := by
  intro h
  have key : (((accounts demoConfig).runAlone CachedKeys.sessionRequests (.initial demoWorld)
    loginRecovery).any fun s =>
      s.idle && keyCached 1 s.shared.store &&
        decide (s.shared.store.db.sessionKeyOf .user 1 = some 103) &&
        !(baseLog s.shared.log).any fun e => signsKey 103 e.req) = true := by decide +kernel
  obtain ⟨s, hs, hx⟩ := (Option.any_eq_true _ _).mp key
  simp only [Bool.and_eq_true, decide_eq_true_eq, Bool.not_eq_true'] at hx
  obtain ⟨⟨⟨hidle, hcached⟩, hkey⟩, hnone⟩ := hx
  obtain ⟨u, payload, hu, hm, -, hsame⟩ := h loginRecovery s hs hidle 1 hcached
  simp only [Database.sessionKeyOf, hu, Option.map_some, Option.some.injEq] at hkey
  obtain ⟨e, he, hreq⟩ := List.any_eq_true.mp hm
  have hfalse := List.any_eq_false.mp hnone e he
  split at hreq
  · rename_i t p hq
    simp only [decide_eq_true_eq] at hreq
    obtain ⟨rfl, rfl⟩ := hreq
    rw [hq] at hfalse
    exact hfalse (decide_eq_true (hsame.trans hkey))
  · cases hreq

/-- A recovery without a session, and a login with the new password. -/
def recoveryLogin : List AccountAction :=
  .start (.base (.recoverPassword ⟨"alice", "phrase", "Secret123"⟩)) :: accountCalls 0 6 ++
    .start (.base (.login ⟨"alice", "Secret123"⟩)) :: accountCalls 1 7

theorem no_orphaned_key_demo : ∃ s,
    (accounts demoConfig).runAlone (CachedKeys.rules demoConfig)
    (.initial demoWorld) recoveryLogin = some s ∧
    keyCached 1 s.shared.store = true ∧ HasSession 1 s.shared.store.db (baseLog s.shared.log) := by
  have key : (((accounts demoConfig).runAlone (CachedKeys.rules demoConfig) (.initial demoWorld)
    recoveryLogin).any fun s =>
      s.idle && keyCached 1 s.shared.store) = true := by decide +kernel
  obtain ⟨s, hs, hx⟩ := (Option.any_eq_true _ _).mp key
  rw [Bool.and_eq_true] at hx
  have hw : CachedKeys.UsersDrawn demoWorld.db demoWorld.nextId := by
    constructor <;> decide
  exact ⟨s, hs, hx.2, no_orphaned_key demoConfig demoWorld hw (fun _ => rfl) recoveryLogin s hs
    hx.1 1 hx.2⟩

end Redbox
