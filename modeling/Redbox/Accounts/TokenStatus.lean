import Redbox.Accounts.LoginChecks
import Redbox.Accounts.SessionKeys

/-! Tokens and the status of their owners, while requests are served one at a time. -/
namespace Redbox
open Interleaving

/-- Any request may arrive with a token that was signed, and any call may fail. -/
def unreliable : BackendRules where
  starts := fun s op => op.tokenKnown s.log
  allows := fun _ _ _ _ => true
  drifts := fun _ _ => true

def unreliableAccounts : AccountRules where
  starts := fun s op => op.tokenKnown s.log
  allows := fun _ _ _ _ => true
  drifts := fun _ _ => true

namespace TokenStatus
open LoginChecks

/-- Every token that has the key of its owner belongs to an active one. -/
structure Current (s : SharedWorld) : Prop where
  rows : ∀ v u, s.store.db.findUser v = some u → u.sessionKey < s.store.nextId
  tokens : ∀ payload, minted .user payload s.log = true → s.store.Signable payload

def Signs (s : SharedWorld) (q : Request) : Prop := ∀ payload, q = .sign .user payload →
    s.store.Signable payload

abbrev outline (p : Nat) : Outline Request Reply World := .solo p Current Signs

variable {cfg : Config} {p : Nat} {s : SharedWorld}

theorem signs_unsigned (t : SharedWorld) (q : Request) (hq : Unsigned q) : Signs t q :=
  fun payload h => absurd h (hq payload)

/-- The key of a row that is read while its user is active may be signed. -/
theorem signable_row {u : User} {t : SharedWorld} (hi : Current t) (hstore : s.store = t.store)
    (hactive : HasStatus u.id .active s.store.db) (hrow : s.store.db.findUser u.id = some u) :
    s.store.Signable ⟨u.id, u.username, u.sessionKey⟩ :=
  ⟨by rw [hstore] at hrow ⊢; exact hi.rows _ u hrow, fun u' hu _ => hactive u' hu⟩

theorem stable_signable {payload : TokenPayload} :
    Stable (backend cfg) unreliable (outline p) p fun t => t.store.Signable payload :=
  .solo fun _ _ _ h => ⟨h.drawn, h.active⟩

theorem getTokens_follows {u : User} (hs : s.store.Signable ⟨u.id, u.username, u.sessionKey⟩) :
    Follows (backend cfg) unreliable (outline p) p
      (AuthService.getTokens u.id u.username u.sessionKey) s := by
  refine Follows.await stable_signable hs fun t ht _ d _ => ⟨⟨rfl, ?_⟩, fun _ _ => Follows.ret⟩
  rintro payload hq
  cases hq
  exact ht

/-- A call that signs nothing keeps what may be signed. -/
theorem signable_follows {payload : TokenPayload} {q : Request} (hq : Unsigned q) {α : Type}
    {f : q.Answer → Routine α} (hs : s.store.Signable payload)
    (h : ∀ a t, t.store.Signable payload → Follows (backend cfg) unreliable (outline p) p (f a) t) :
    Follows (backend cfg) unreliable (outline p) p ((await q).bind f) s := by
  refine Follows.await stable_signable hs fun t ht _ d _ => ⟨⟨rfl, fun _ h => absurd h (hq _)⟩,
    fun a _ => h a _ ?_⟩
  exact ht.renews (World.renews_exec cfg t.store d q)

/-- A routine keeps to the outline whatever is done with its result. -/
theorem mapped_follows {α β : Type} {x : Routine α} {f : α → β}
    (hx : Follows (backend cfg) unreliable (outline p) p x s) :
    Follows (backend cfg) unreliable (outline p) p (x.bind fun a => .ret (f a)) s :=
  Meets.returned (F := fun _ _ => True) (hx.mono fun _ _ _ _ _ _ => trivial) (fun _ _ => trivial)
    fun _ _ _ _ => Follows.ret

theorem login_follows {dto : LoginDto} :
    Follows (backend cfg) unreliable (outline p) p (AuthService.login cfg dto) s := by
  unfold AuthService.login
  refine read_meets signs_unsigned (G :=
    fun _ => True) trivial (fun _ _ => trivial) fun row _ t _ _ _ _ => ?_
  cases row with
  | none => exact Follows.throw
  | some user =>
    refine Follows.throwIf fun _ => ?_
    refine Meets.returned (F := fun _ _ => True)
      ((unsigned_follows signs_unsigned ?_).mono fun _ _ _ _ _ _ => trivial)
      (fun _ _ => trivial) fun pending t _ _ => ?_
    · exact (UsersService.preparePendingDeletionLogin_calls
        (by simp : RequestKind.processDeletion ∈ [.processDeletion, .reactivate])
        (by simp)).mono (unsigned_within (by simp))
    cases pending with
    | some request =>
      exact unsigned_follows signs_unsigned
        (.bind (.bind (.await fun _ h => by cases h) fun _ => trivial) fun _ => trivial)
    | none =>
      refine read_meets signs_unsigned (G :=
        fun _ => True) trivial (fun _ _ => trivial) fun row _ t _ _ _ hread => ?_
      have hrow : t.store.db.findUser user.id = row := Except.ok.inj hread
      cases row with
      | none => exact Follows.throw
      | some currentUser =>
        have hid : currentUser.id = user.id := Database.findUser_id hrow
        refine Meets.returned (assertUserCanLogin_activates signs_unsigned ?_) (fun _ _ => trivial)
          fun _ t _ hactive => ?_
        · intro u hu
          rw [hid, hrow] at hu
          cases hu
          rfl
        refine read_meets signs_unsigned (G :=
          HasStatus user.id .active) (hid ▸ hactive) (fun _ _ => trivial)
          fun row _ t hi hstore hactive hread => ?_
        have hrow : t.store.db.findUser user.id = row := Except.ok.inj hread
        cases row with
        | none => exact Follows.throw
        | some u =>
          have hid : u.id = user.id := Database.findUser_id hrow
          refine Meets.local decryptMasterKey_calls (fun _ => Follows.throw) fun masterKey => ?_
          exact signable_follows (fun _ h => by
            cases h) (signable_row hi hstore (hid ▸ hactive) (hid ▸ hrow))
            fun _ t hsign => mapped_follows (getTokens_follows hsign)

/-- What has been drawn stays so in a routine that signs nothing. -/
theorem drawn_meets {α : Type} {x : Routine α} {key : Id} (hx : x.Calls Unsigned)
    (hs : key < s.store.nextId) :
    Meets (backend cfg) unreliable (outline p) p x (fun _ t => key < t.store.nextId) s :=
  Meets.frame (F := fun t => key < t.store.nextId) hx (.solo fun _ _ _ h => h)
    (fun t _ d hq _ _ ht =>
    ⟨⟨rfl, fun payload h => absurd h (hq payload)⟩,
      Nat.lt_of_lt_of_le ht (World.renews_exec cfg t.store d _).nextId⟩) hs

theorem internalLogin_follows {dto : InternalLoginDto} :
    Follows (backend cfg) unreliable (outline p) p (InternalAuthService.login cfg dto) s := by
  unfold InternalAuthService.login
  refine read_meets signs_unsigned (G :=
    fun _ => True) trivial (fun _ _ => trivial) fun row _ t _ _ _ _ => ?_
  cases row with
  | none => exact Follows.throw
  | some user =>
    refine Follows.throwIf fun _ => ?_
    refine Meets.returned (F := fun _ _ => True)
      ((unsigned_follows signs_unsigned ?_).mono fun _ _ _ _ _ _ => trivial)
      (fun _ _ => trivial) fun _ t _ _ => ?_
    · exact (UsersService.assertUserCanLogin_calls
        (by simp : RequestKind.processDeletion ∈ [.processDeletion, .reactivate])
        (by simp)).mono (unsigned_within (by simp))
    refine read_meets signs_unsigned (G :=
      fun _ => True) trivial (fun _ _ => trivial) fun row _ t hi hstore _ hread => ?_
    have hrow : t.store.db.findUser user.id = row := Except.ok.inj hread
    cases row with
    | none => exact Follows.throw
    | some u =>
      have hid : u.id = user.id := Database.findUser_id hrow
      rw [← hid] at hrow
      have hstatus : HasStatus u.id u.status t.store.db := by
        intro u' hu
        rw [hrow] at hu
        cases hu
        rfl
      refine Meets.returned (((assertUserCanLogin_activates signs_unsigned hstatus).and
        (drawn_meets ?_ (by rw [hstore] at hrow ⊢; exact hi.rows _ u hrow))).mono
        fun r t _ h a hr => And.intro (h.1 a hr) h.2) (fun _ _ => trivial) fun _ t _ ht => ?_
      · exact (UsersService.assertUserCanLogin_calls
          (by simp : RequestKind.processDeletion ∈ [.processDeletion, .reactivate])
          (by simp)).mono (unsigned_within (by simp))
      have hsign : t.store.Signable ⟨u.id, u.username, u.sessionKey⟩ :=
        ⟨ht.2, fun u' hu _ => ht.1 u' hu⟩
      refine Meets.local internalDecryptMasterKey_calls (fun _ => Follows.throw) fun masterKey => ?_
      exact signable_follows (fun _ h => by cases h) hsign fun _ t hsign => getTokens_follows hsign

theorem refreshToken_follows {payload : TokenPayload} :
    Follows (backend cfg) unreliable (outline p) p
      (AuthService.refreshToken cfg payload.sub payload.sessionKey) s := by
  unfold AuthService.refreshToken
  refine read_meets signs_unsigned (G :=
    fun _ => True) trivial (fun _ _ => trivial) fun row _ t _ _ _ hread => ?_
  have hrow : t.store.db.findUser payload.sub = row := Except.ok.inj hread
  cases row with
  | none => exact Follows.throw
  | some user =>
    have hid : user.id = payload.sub := Database.findUser_id hrow
    refine Meets.returned (assertUserCanLogin_activates signs_unsigned ?_) (fun _ _ => trivial)
      fun _ t _ hactive => ?_
    · intro u hu
      rw [hid, hrow] at hu
      cases hu
      rfl
    refine statement_meets signs_unsigned (G :=
      HasStatus payload.sub .active) (hid ▸ hactive) (fun _ _ => trivial)
      fun count t db now fresh hactive hperform => ?_
    have hafter : HasStatus payload.sub .active t.store.db := by
      intro u hu
      rw [Database.findUser_perform hperform] at hu
      obtain ⟨u₀, hu₀, rfl⟩ := Option.map_eq_some_iff.mp hu
      rw [Database.onUser_status]
      exact hactive u₀ hu₀
    refine Follows.throwIf fun _ => ?_
    refine read_meets signs_unsigned (G :=
      HasStatus payload.sub .active) hafter (fun _ _ => trivial)
      fun row _ t hi hstore hactive hread => ?_
    have hrow : t.store.db.findUser payload.sub = row := Except.ok.inj hread
    cases row with
    | none =>
      exact unsigned_follows signs_unsigned (.bind (.await fun _ h => by cases h) fun _ => trivial)
    | some u =>
      have hid : u.id = payload.sub := Database.findUser_id hrow
      exact signable_follows (fun _ h => by
        cases h) (signable_row hi hstore (hid ▸ hactive) (hid ▸ hrow))
        fun _ t hsign => getTokens_follows hsign

theorem adminLogin_unsigned {dto : AdminLoginDto} :
    (AdminAuthService.login cfg dto).Calls Unsigned :=
  .bind (.await fun _ h => by cases h) fun
    | none => trivial
    | some _ => .bind .throwIf fun _ => .bind (.await fun _ h => by cases h) fun _ =>
      .bind (.await fun _ h => by cases h) fun _ => trivial

theorem adminRefreshToken_unsigned {adminId key : Id} :
    (AdminAuthService.refreshToken adminId key).Calls Unsigned :=
  .bind (.await fun _ h => by cases h) fun _ => .bind .throwIf fun _ => .bind (.await fun _ h => by
    cases h) fun
    | none => trivial
    | some _ => .bind (.await fun _ h => by cases h) fun _ => trivial

theorem validate_unsigned {payload : TokenPayload} :
    (InternalAuthService.validate cfg payload).Calls Unsigned :=
  .bind (.await fun _ h => by cases h) fun
    | none => trivial
    | some _ => .bind .throwIf fun _ => .bind ((UsersService.assertUserCanLogin_calls
        (by simp : RequestKind.processDeletion ∈ [.processDeletion, .reactivate]) (by simp)).mono
          (unsigned_within (by simp))) fun _ => trivial

/-- The backend keeps to the outline whatever it is asked. -/
theorem program_follows (op : Operation) :
    Follows (backend cfg) unreliable (outline p) p (op.program cfg) s := by
  cases op with
  | login dto =>
    refine Meets.returned (F := fun _ _ => True) (Meets.mono login_follows fun _ _ _ _ _ _ =>
      trivial) (fun _ _ => trivial)
      fun result t _ _ => ?_
    cases result <;> exact Follows.ret
  | refreshToken payload => exact mapped_follows refreshToken_follows
  | adminLogin dto => exact mapped_follows (unsigned_follows signs_unsigned adminLogin_unsigned)
  | adminRefreshToken payload =>
    exact mapped_follows (unsigned_follows signs_unsigned adminRefreshToken_unsigned)
  | _ =>
    exact unsigned_follows signs_unsigned
      ((Operation.program_calls _).mono (unsigned_within (by simp [Operation.footprint])))

/-! A token whose key has been replaced is turned away. -/

/-- The owner of the token, if there is one, has another key. -/
def Rekeyed (payload : TokenPayload) (db : Database) : Prop :=
  ∀ u, db.findUser payload.sub = some u → u.sessionKey ≠ payload.sessionKey

theorem expired_meets {α : Type} {x : Routine α} {payload : TokenPayload} (hx : x.Calls Unsigned)
    (hs : s.store.Expired payload) :
    Meets (backend cfg) unreliable (outline p) p x (fun _ (t : SharedWorld) =>
      t.store.Expired payload) s :=
  Meets.frame (F := fun t : SharedWorld => t.store.Expired payload) hx (.solo fun _ _ _ h =>
    ⟨h.drawn, h.replaced⟩)
    (fun t _ d hq _ _ ht => ⟨⟨rfl, fun payload h => absurd h (hq payload)⟩,
      ht.renews (World.renews_exec cfg t.store d _)⟩) hs

/-- The routine does not return. -/
def Fails {α : Type} (r : Except Thrown α) (_ : SharedWorld) : Prop := ∀ a, r ≠ .ok a

section
variable {α : Type} {payload : TokenPayload}

theorem fails_error (e : Thrown) (t : SharedWorld) : Fails (.error e : Except Thrown α) t :=
  fun _ h => by cases h

theorem throw_fails {e : Thrown} : Meets (backend cfg) unreliable (outline p) p
      (.throw e : Routine α) Fails s :=
  Meets.throw (Stable.const True) trivial fun t _ _ => fails_error e t

theorem jwtValidate_fails (hs : s.store.Expired payload) :
    Meets (backend cfg) unreliable (outline p) p (JwtStrategy.validate payload) Fails s := by
  unfold JwtStrategy.validate
  refine read_meets signs_unsigned (G :=
    Rekeyed payload) hs.replaced fails_error fun row _ t _ _ ht hread => ?_
  cases row with
  | none => exact throw_fails
  | some u =>
    exact Meets.throwIf (fun _ => throw_fails) fun hkey =>
      absurd (not_not.mp hkey) (ht u (Except.ok.inj hread))

theorem internalValidate_fails (hs : s.store.Expired payload) :
    Meets (backend cfg) unreliable (outline p) p (InternalAuthService.validate cfg payload)
      Fails s := by
  unfold InternalAuthService.validate
  refine read_meets signs_unsigned (G :=
    Rekeyed payload) hs.replaced fails_error fun row _ t _ _ ht hread => ?_
  cases row with
  | none => exact throw_fails
  | some u =>
    exact Meets.throwIf (fun _ => throw_fails) fun hsame =>
      absurd (not_not.mp (not_or.mp hsame).2) (ht u (Except.ok.inj hread))

theorem refreshToken_fails (hs : s.store.Expired payload) :
    Meets (backend cfg) unreliable (outline p) p
      (AuthService.refreshToken cfg payload.sub payload.sessionKey) Fails s := by
  unfold AuthService.refreshToken
  refine Meets.await (F := fun t => t.store.Expired payload) (.solo fun _ _ _ h =>
    ⟨h.drawn, h.replaced⟩) hs
    fun t ht _ d _ => ⟨⟨rfl, fun _ h => by cases h⟩, fun row _ => ?_, fun _ _ => throw_fails⟩
  cases row with
  | none => exact throw_fails
  | some user =>
    refine Meets.returned (F := fun _ t => t.store.Expired payload) ((expired_meets ?_
      (ht.renews (World.renews_exec cfg t.store d _))).mono fun _ _ _ h _ _ => h) fails_error
        fun _ t _ ht => ?_
    · exact (UsersService.assertUserCanLogin_calls
        (by simp : RequestKind.processDeletion ∈ [.processDeletion, .reactivate])
        (by simp)).mono (unsigned_within (by simp))
    refine statement_meets signs_unsigned (G :=
      Rekeyed payload) ht.replaced fails_error fun count t db now fresh hreplaced hperform => ?_
    refine Meets.throwIf (fun _ => throw_fails) fun hcount => ?_
    have hkey := Database.sessionKeyOf_swapSessionKey hperform hcount
    obtain ⟨u, hu, hsame⟩ := Option.map_eq_some_iff.mp hkey
    exact absurd hsame (hreplaced u hu)

end

/-! The account services. -/

/-- The user whose session ends where the call answers. -/
def endsSession : AccountRequest → Option Id
  | .backend (.statement (.rotateSessionKey .user id)) => some id
  | .backend (.statement (.updatePassword id _ _)) => some id
  | .backend (.statement w) => w.setsStatus.map (·.1)
  | .changeUsername userId _ _ => some userId
  | _ => none

/-- The token was signed before a session of its owner ended: by a lock, a ban, a request for
deletion, a deletion, a reactivation, a logout, a change or recovery of the password or a rename. -/
def outlived (payload : TokenPayload) : List AccountEvent → Bool
  | [] => false
  | e :: log =>
    (e.resp.isOk && decide (endsSession e.req = some payload.sub) &&
      minted .user payload (baseLog log)) ||
    outlived payload log

structure AccountsCurrent (cfg : Config) (s : SharedAccounts) : Prop where
  current : Current ((backendWithin cfg).project s)
  expired : ∀ payload, outlived payload s.log = true → s.store.Expired payload

def AccountSigns (s : SharedAccounts) (q : AccountRequest) : Prop :=
  ∀ payload, q = .backend (.sign .user payload) → s.store.Signable payload

abbrev accountOutline (cfg : Config) (p : Nat) : Outline AccountRequest AccountReply World :=
  .solo p (AccountsCurrent cfg) AccountSigns

/-- A call that ends a session has drawn a new key for it. -/
theorem rekeyed_execAccount {s : World} {d : Delivery} {q : AccountRequest} {v : Id} {u' : User}
    (hq : endsSession q = some v) (hr : (s.execAccount cfg d q).2.isOk = true)
    (hu : (s.execAccount cfg d q).1.db.findUser v = some u') : s.nextId ≤ u'.sessionKey := by
  cases q with
  | backend q =>
    cases q with
    | statement w =>
      cases ha : (s.exec cfg d (.statement w)).2 with
      | error e =>
        have hr' : (s.exec cfg d (.statement w)).2.isOk = true := hr
        rw [ha] at hr'
        cases hr'
      | ok a =>
        have hu' : (s.exec cfg d (.statement w)).1.db.findUser v = some u' := hu
        rw [Database.findUser_perform (World.exec_statement_ok ha)] at hu'
        obtain ⟨u, hfound, rfl⟩ := Option.map_eq_some_iff.mp hu'
        have hid := Database.findUser_id hfound
        have hkey : (w.onUser s.nextId u).sessionKey = s.nextId := by
          fun_cases Statement.onUser s.nextId w u <;> simp_all [endsSession, Statement.setsStatus]
        exact hkey.ge
    | _ => cases hq
  | changeUsername userId newUsername entry =>
    obtain rfl : userId = v := Option.some.inj hq
    have hdeliver : (s.deliverAccount cfg (.changeUsername userId newUsername entry)).2.isOk =
      true ∧
        (s.execAccount cfg d (.changeUsername userId newUsername entry)).1 =
          (s.deliverAccount cfg (.changeUsername userId newUsername entry)).1 := by
      cases d <;> first | exact ⟨hr, rfl⟩ | cases hr
    rw [hdeliver.2] at hu
    rcases s.deliverAccount_cases cfg (q := .changeUsername userId newUsername entry) rfl with
      ⟨a, -, -, hs⟩ | ⟨e, he, -⟩
    · rw [hs] at hu
      simp only [Database.accountResult, Database.findUser_auditLog] at hu
      rw [Database.findUser_setUser (f :=
        fun u => { u with username := newUsername, sessionKey := s.nextId })
        fun _ => rfl] at hu
      obtain ⟨u, hfound, rfl⟩ := Option.map_eq_some_iff.mp hu
      rw [if_pos (Database.findUser_id hfound)]
    · rw [he] at hdeliver
      cases hdeliver.1
  | _ => cases hq

theorem accountOutline_kept : (accountOutline cfg p).Kept (accounts cfg) unreliableAccounts := by
  refine Outline.solo_kept (fun s p q d hs _ hp => ?_) fun s n hs _ => ⟨?_, fun payload h => ?_⟩
  · have hrenews : World.Renews s.store ((accounts cfg).after d p q s).store :=
      World.renews_execAccount cfg s.store d q
    refine ⟨⟨fun v u' hu => ?_, fun payload hm => ?_⟩, fun payload h => ?_⟩
    · rcases hrenews.rows v u' hu with ⟨u, hu, hkey, -⟩ | ⟨-, hlt⟩
      · rw [hkey]
        exact Nat.lt_of_lt_of_le (hs.current.rows v u hu) hrenews.nextId
      · exact hlt
    · refine World.Signable.renews ?_ hrenews
      cases q with
      | backend q =>
        rcases minted_cons hm with rfl | hm
        · exact hp payload rfl
        · exact hs.current.tokens payload hm
      | _ => exact hs.current.tokens payload hm
    · simp only [System.after, outlived, Bool.or_eq_true, Bool.and_eq_true, decide_eq_true_eq] at h
      rcases h with ⟨⟨hok, hends⟩, hm⟩ | h
      · have hdrawn := (hs.current.tokens payload hm).drawn
        refine ⟨Nat.lt_of_lt_of_le hdrawn hrenews.nextId, fun u hu hkey => ?_⟩
        have hnew := rekeyed_execAccount hends hok hu
        exact absurd (hkey ▸ hnew) (Nat.not_le.mpr hdrawn)
      · exact (hs.expired payload h).renews hrenews
  · exact ⟨hs.current.rows, fun payload hm => ⟨(hs.current.tokens payload hm).drawn,
      (hs.current.tokens payload hm).active⟩⟩
  · exact ⟨(hs.expired payload h).drawn, (hs.expired payload h).replaced⟩

theorem within : (backendWithin cfg).Refines unreliable unreliableAccounts p (outline p)
    (accountOutline cfg p) :=
  .solo (fun _ _ _ _ => rfl) (fun _ _ _ => rfl) (fun _ hs => hs.current) fun _ _ _ hp payload hq =>
    hp payload (AccountRequest.backend.inj hq)

variable {t : SharedAccounts}

theorem lift_follows {α : Type} {x : Routine α}
    (hx : ∀ s, Follows (backend cfg) unreliable (outline p) p x s) :
    Follows (accounts cfg) unreliableAccounts (accountOutline cfg p) p (lift x) t :=
  Embedding.Refines.meets within (hx _)

/-- No token for a user is signed. -/
def AccountUnsigned (q : AccountRequest) : Prop := ∀ payload, q ≠ .backend (.sign .user payload)

theorem accountUnsigned_follows {α : Type} {x : AccountRoutine α} (hx : x.Calls AccountUnsigned) :
    Follows (accounts cfg) unreliableAccounts (accountOutline cfg p) p x t :=
  Meets.frame hx (Stable.const True) (fun _ _ _ hq _ _ _ =>
    ⟨⟨rfl, fun payload h => absurd h (hq payload)⟩, trivial⟩) trivial

theorem lift_unsigned {α : Type} {x : Routine α} (hx : x.Calls Unsigned) :
    (lift x).Calls AccountUnsigned :=
  lift_calls (fun _ hq payload h => hq payload (AccountRequest.backend.inj h)) hx

/-- The row that a registration makes is active. -/
theorem registered_signable {s : World} {d : Delivery} {inviteId : Id} {new : NewUser} {user : User}
    (h : (s.execAccount cfg d (.registerUser inviteId new)).2 = .ok user) :
    World.Signable ⟨user.id, user.username, user.sessionKey⟩
      (s.execAccount cfg d (.registerUser inviteId new)).1 := by
  have hdeliver : (s.deliverAccount cfg (.registerUser inviteId new)).2 = .ok user ∧
      (s.execAccount cfg d (.registerUser inviteId new)).1 =
        (s.deliverAccount cfg (.registerUser inviteId new)).1 := by
    cases d <;> first | exact ⟨h, rfl⟩ | cases h
  rw [hdeliver.2]
  rcases s.deliverAccount_cases cfg (q := .registerUser inviteId new) rfl with ⟨a, ha, hp,
    hs⟩ | ⟨e, he, -⟩
  · rw [hdeliver.1] at ha
    obtain rfl : user = a := Except.ok.inj ha
    obtain ⟨-, -, rfl⟩ := hp
    rw [hs]
    refine ⟨Nat.add_lt_add_left (show 1 < 3 by decide) s.nextId, fun u hu _ => ?_⟩
    simp only [Database.accountResult, Database.findUser, Database.newUser, List.find?_cons,
      BEq.rfl] at hu
    cases hu
    rfl
  · rw [hdeliver.1] at he
    cases he

theorem stable_accountSignable {payload : TokenPayload} :
    Stable (accounts cfg) unreliableAccounts (accountOutline cfg p) p fun t =>
      t.store.Signable payload :=
  .solo fun _ _ _ h => ⟨h.drawn, h.active⟩

theorem signable_frame {payload : TokenPayload} {α : Type} {x : AccountRoutine α}
    (hx : x.Calls AccountUnsigned) (ht : t.store.Signable payload) :
    Meets (accounts cfg) unreliableAccounts (accountOutline cfg p) p x (fun _ t =>
      t.store.Signable payload) t :=
  Meets.frame (F := fun t : SharedAccounts => t.store.Signable payload) hx stable_accountSignable
    (fun t _ d hq _ _ ht =>
    ⟨⟨rfl, fun payload h => absurd h (hq payload)⟩,
      ht.renews (World.renews_execAccount cfg t.store d _)⟩) ht

theorem storeRegistration_meets {invite : InviteCode} {new : NewUser} {rawMasterKey : String} :
    Meets (accounts cfg) unreliableAccounts (accountOutline cfg p) p
      (AuthService.storeRegistration invite new rawMasterKey)
      (fun r t => ∀ user, r = .ok user →
        t.store.Signable ⟨user.id, user.username, user.sessionKey⟩) t := by
  have fails : ∀ (e : Thrown) (t : SharedAccounts),
      Meets (accounts cfg) unreliableAccounts (accountOutline cfg p) p
        (.throw (AuthService.registrationError e))
        (fun r t => ∀ user : User, r = .ok user →
          t.store.Signable ⟨user.id, user.username, user.sessionKey⟩) t :=
    fun e t => Meets.throw (Stable.const True) trivial fun _ _ _ _ h => by cases h
  refine Meets.caught (Meets.await (Stable.const True) trivial fun t _ _ d _ =>
    ⟨⟨rfl, fun _ h => by cases h⟩, fun user hr => ?_, fun e _ =>
      Meets.throw (Stable.const True) trivial fun t _ _ => fails _ t⟩)
  refine Meets.returned (F := fun _ (t : SharedAccounts) =>
    t.store.Signable ⟨user.id, user.username, user.sessionKey⟩)
    ((signable_frame (lift_unsigned (.await fun _ h => by cases h)) (registered_signable hr)).mono
      fun _ _ _ h _ _ => h) fails fun _ t _ ht => ?_
  exact Meets.ret stable_accountSignable ht fun t ht _ user' h => by cases h; exact ht

theorem register_follows {dto : RegisterUsersDto} :
    Follows (accounts cfg) unreliableAccounts (accountOutline cfg p) p
      (AuthService.register cfg dto) t := by
  have drawn : ∀ {α β : Type} {x : Routine α} {f : α → AccountRoutine β} {t : SharedAccounts},
    x.Calls Unsigned →
      (∀ a t, Follows (accounts cfg) unreliableAccounts (accountOutline cfg p) p (f a) t) →
      Follows (accounts cfg) unreliableAccounts (accountOutline cfg p) p ((lift x).bind f) t :=
    fun hx hf => Meets.returned (F :=
      fun _ _ => True) ((accountUnsigned_follows (lift_unsigned hx)).mono
      fun _ _ _ _ _ _ => trivial) (fun _ _ => trivial) fun a t _ _ => hf a t
  refine Follows.await (Stable.const True) trivial fun t _ _ d _ =>
    ⟨⟨rfl, fun _ h => by cases h⟩, fun invite _ => ?_⟩
  cases invite with
  | none => exact Follows.throw
  | some invite =>
    have generate : ∀ secret key, (AuthService.generateMasterKeyStore cfg secret key).Calls
        Unsigned := fun secret key =>
      .bind (.await fun _ h => by cases h) fun _ => .bind (.await fun _ h => by
        cases h) fun _ => trivial
    refine Follows.throwIf fun _ => ?_
    refine drawn (.await fun _ h => by cases h) fun bytes t => ?_
    refine drawn (generate _ _) fun mkStore t => ?_
    refine drawn (generate _ _) fun recoveryMkStore t => ?_
    refine drawn (.bind (.await fun _ h => by cases h) fun _ => trivial)
      fun hashedRecoveryPhrase t => ?_
    refine drawn (.await fun _ h => by cases h) fun keyPair t => ?_
    refine Meets.returned storeRegistration_meets (fun _ _ => trivial) fun user t _ ht => ?_
    exact Embedding.Refines.meets within (getTokens_follows ht)

theorem harmless_unsigned (q : Request) (h : q.harmless = true) : AccountUnsigned (.backend q) := by
  rintro payload hq
  cases hq
  cases h

theorem accountMapped_follows {α β : Type} {x : AccountRoutine α} {f : α → β}
    (hx : Follows (accounts cfg) unreliableAccounts (accountOutline cfg p) p x t) :
    Follows (accounts cfg) unreliableAccounts (accountOutline cfg p) p (x.bind fun a =>
      .ret (f a)) t :=
  Meets.returned (F := fun _ _ => True) (hx.mono fun _ _ _ _ _ _ => trivial) (fun _ _ => trivial)
    fun _ _ _ _ => Follows.ret

theorem body_follows (op : AccountOperation) :
    Follows (accounts cfg) unreliableAccounts (accountOutline cfg p) p (op.body cfg) t := by
  cases op with
  | base op => exact lift_follows fun _ => program_follows op
  | register dto => exact accountMapped_follows register_follows
  | internalLogin dto => exact lift_follows fun _ => mapped_follows internalLogin_follows
  | internalValidate payload =>
    exact lift_follows fun _ => mapped_follows (unsigned_follows signs_unsigned validate_unsigned)
  | changeUsername payload userId newUsername reason =>
    exact accountUnsigned_follows (adminGuarded_calls harmless_unsigned fun id =>
      changeUsername_calls harmless_unsigned id userId newUsername reason fun _ _ h => by cases h)
  | clearUserData payload userId reason =>
    exact accountUnsigned_follows (adminGuarded_calls harmless_unsigned fun id =>
      clearUserData_calls harmless_unsigned id userId reason fun _ _ h => by cases h)
  | deleteUserFiles payload userId fileIds reason =>
    exact accountUnsigned_follows (adminGuarded_calls harmless_unsigned fun id =>
      deleteUserFiles_calls harmless_unsigned id userId fileIds reason fun _ _ _ h => by cases h)
  | createAdminInviteCode payload dto =>
    exact accountUnsigned_follows (adminGuarded_calls harmless_unsigned fun id =>
      createInviteCode_calls harmless_unsigned id dto fun _ _ _ _ h => by cases h)
  | deleteInviteCode payload inviteCodeId =>
    exact accountUnsigned_follows (adminGuarded_calls harmless_unsigned fun id =>
      deleteInviteCode_calls id inviteCodeId (fun _ h => by cases h) fun _ _ h => by cases h)
  | updateInviteCodeValidity payload inviteCodeId isValid =>
    exact accountUnsigned_follows (adminGuarded_calls harmless_unsigned fun id =>
      updateInviteCodeValidity_calls id inviteCodeId isValid (fun _ h => by cases h) fun _ _ h => by
        cases h)

theorem accountProgram_follows (op : AccountOperation) :
    Follows (accounts cfg) unreliableAccounts (accountOutline cfg p) p (op.program cfg) t :=
  Meets.call (Stable.const True) trivial fun _ _ _ _ _ =>
    ⟨⟨rfl, fun _ h => by cases h⟩, body_follows op⟩

theorem accountsCurrent_lasts : Lasts (accounts cfg) unreliableAccounts (AccountsCurrent cfg) :=
  fun _ _ hd hs => (accountOutline_kept (p := 0)).moved hs hd

/-- What fails in the backend fails among the account services. -/
theorem lift_fails {α : Type} {x : Routine α} (ht : AccountsCurrent cfg t)
    (hx : Meets (backend cfg) unreliable (outline p) p x Fails ((backendWithin cfg).project t))
    {r : Except Thrown α} {t' : SharedAccounts}
    (he : Ends (accounts cfg) unreliableAccounts p (lift x) t r t') (a : α) : r ≠ .ok a := by
  have hsolo : Meets (accounts cfg) unreliableAccounts (accountOutline cfg p) p (lift x) (fun r _ =>
    ∀ a, r ≠ .ok a) t :=
    Embedding.Refines.meets within hx
  exact ((hsolo.alone_of_solo accountOutline_kept ht).ends he).2 a

end TokenStatus

/-- None of the three checks of tokens lets the token pass. -/
structure Rejected (cfg : Config) (payload : TokenPayload) (s : SharedAccounts) : Prop where
  jwtStrategy : ∀ p r t, Ends (accounts cfg) unreliableAccounts p
    (lift (JwtStrategy.validate payload)) s r t →
    ∀ a, r ≠ .ok a
  refreshToken : ∀ p r t, Ends (accounts cfg) unreliableAccounts p
    (lift (AuthService.refreshToken cfg payload.sub payload.sessionKey)) s r t → ∀ a, r ≠ .ok a
  internalAuth : ∀ p r t, Ends (accounts cfg) unreliableAccounts p
    (lift (InternalAuthService.validate cfg payload)) s r t →
    ∀ a, r ≠ .ok a

/-- Whoever has a token with his current session key is active, and a token that a session did not
outlive is rejected. -/
def OldTokensDie (cfg : Config) (w : World) : Prop :=
  ∀ as s, (accounts cfg).runAlone unreliableAccounts (.initial w) as = some s → s.idle = true →
    (∀ payload u, minted .user payload (baseLog s.shared.log) = true →
      s.shared.store.db.findUser payload.sub = some u → u.sessionKey = payload.sessionKey →
        u.status = .active) ∧
    ∀ payload, TokenStatus.outlived payload s.shared.log = true → Rejected cfg payload s.shared

/-- The session keys of the world were drawn before. -/
def UserKeysDrawn (w : World) : Prop := ∀ v u, w.db.findUser v = some u → u.sessionKey < w.nextId

/-- The user logs in and out again. -/
def loginLogout : List AccountAction :=
  .start (.base (.login ⟨"alice", "secret"⟩)) :: accountCalls 0 7 ++
    .start (.base (.logout demoToken)) :: accountCalls 1 4

end Redbox
