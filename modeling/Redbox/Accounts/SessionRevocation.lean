import Redbox.Accounts.Composition

/-! Session revocation is final. A refresh swaps the session key and then signs what
a second read of the row shows, so this holds of the runs in which no revocation
falls between the two. -/
namespace Redbox
open Interleaving

/-- The account whose session a logout or a change of password has ended, with its new key. -/
def endedSession : BackendEvent → Option (SessionTable × Id × Id)
  | ⟨_, .statement w, .ok a⟩ => w.newSession a
  | _ => none

def endsSession (table : SessionTable) (id : Id) (e : BackendEvent) : Bool :=
  (endedSession e).any fun x => decide (x.1 = table ∧ x.2.1 = id)

/-- A swap of the session key that found its row. -/
def swapsSession (table : SessionTable) (id : Id) : BackendEvent → Bool
  | ⟨_, .statement (.swapSessionKey t v _), .ok n⟩ => decide (t = table ∧ v = id ∧ (n : Nat) ≠ 0)
  | _ => false

namespace Request

/-- The account whose row a read returns. -/
def readsAccount : Request → Option (SessionTable × Id)
  | .query (.user _ id) => some (.user, id)
  | .query (.adminUser id) => some (.adminUser, id)
  | _ => none

end Request

namespace SessionRevocation

/-- A process that has just swapped a session key reads the row again before
another process ends the session. -/
def rereadBeforeRevocation (s : SharedWorld) (p : Nat) (q : Request) (_ : Delivery) : Bool :=
  match q.readsAccount with
  | some (table, id) => !((lastOwn p s.log).any (swapsSession table id) &&
      occursSince p (swapsSession table id) (endsSession table id) s.log)
  | none => true

def rules : BackendRules := allRequests.also rereadBeforeRevocation

/-- Session keys are drawn in order: a revoked session has an older key than the
row, and no token has a key that is still to be drawn. -/
structure Ordered (s : SharedWorld) : Prop where
  rows : ∀ table, ∀ key ∈ s.store.db.sessionKeys table, key < s.store.nextId
  ended : ∀ e ∈ s.log, ∀ table id key, endedSession e = some (table, id, key) →
    key ≤ s.store.nextId ∧ ∀ k, s.store.db.sessionKeyOf table id = some k → key ≤ k
  tokens : ∀ table payload, minted table payload s.log = true → payload.sessionKey < s.store.nextId

/-- Tokens are signed with keys that have been drawn. -/
def outline : Outline Request Reply World where
  inv := Ordered
  pre := fun s _ q => ∀ table payload, q = .sign table payload → payload.sessionKey < s.store.nextId

variable {cfg : Config} {s : SharedWorld} {p : Nat} {table : SessionTable} {id key : Id}

/-- The key of an ended session is the name drawn when the write commits. -/
theorem endedSession_deliver {s : World} {q : Request}
    (h : endedSession ⟨p, q, (s.deliver cfg q).2⟩ = some (table, id, key)) :
    key = s.nextId ∧ (s.deliver cfg q).1.db.sessionKeyOf table id = some key := by
  cases q with
  | statement w =>
    simp only [World.deliver] at h ⊢
    cases hw : s.db.perform cfg s.clock s.nextId w with
    | error e =>
      rw [hw] at h
      cases h
    | ok r =>
      rw [hw] at h
      obtain ⟨rfl, hk⟩ := Database.sessionKeyOf_endsSession hw h
      exact ⟨rfl, hk⟩
  | _ => simp [endedSession] at h

theorem sessionKeyOf_deliver (cfg : Config) (s : World) (q : Request)
    (table : SessionTable) (id : Id) :
    (s.deliver cfg q).1.db.sessionKeyOf table id = s.db.sessionKeyOf table id ∨
      (s.deliver cfg q).1.db.sessionKeyOf table id = some s.nextId := by
  obtain h | ⟨w, db', a, rfl, hw, hs, _⟩ := s.deliver_db cfg q
  · exact .inl (by rw [h])
  · rw [hs]
    exact Database.sessionKeyOf_perform hw

theorem mem_keys_deliver {s : World} {q : Request}
    (h : key ∈ (s.deliver cfg q).1.db.sessionKeys table) :
    key ∈ s.db.sessionKeys table ∨ key = s.nextId ∧ s.nextId < (s.deliver cfg q).1.nextId := by
  obtain hdb | ⟨w, db', a, rfl, hw, hs, _⟩ := s.deliver_db cfg q
  · exact .inl (hdb ▸ h)
  · rw [hs] at h ⊢
    exact (Database.mem_keys_perform hw h).imp_right fun hk =>
      ⟨hk, Nat.lt_add_of_pos_right Nat.two_pos⟩

theorem outline_kept : outline.Kept (backend cfg) rules where
  after := by
    intro s p q d hs ha hp
    cases delivered_of_allowed ha
    have hn : s.store.nextId ≤ (s.store.deliver cfg q).1.nextId := s.store.nextId_deliver cfg q
    refine ⟨fun table key hk => ?_, fun e he table id key hend => ?_, fun table payload hm => ?_⟩
    · rcases mem_keys_deliver hk with hk | ⟨rfl, hlt⟩
      · exact Nat.lt_of_lt_of_le (hs.rows table key hk) hn
      · exact hlt
    · rcases List.mem_cons.mp he with rfl | he
      · obtain ⟨rfl, hkey⟩ := endedSession_deliver hend
        refine ⟨hn, fun k hk => ?_⟩
        rw [after_delivered, hkey] at hk
        exact (Option.some.inj hk).le
      · obtain ⟨hle, hrow⟩ := hs.ended e he table id key hend
        refine ⟨hle.trans hn, fun k hk => ?_⟩
        rcases sessionKeyOf_deliver cfg s.store q table id with h | h
        · exact hrow k (h ▸ hk)
        · rw [after_delivered, h] at hk
          exact Option.some.inj hk ▸ hle
    · rcases minted_cons hm with hq | hm
      · exact Nat.lt_of_lt_of_le (hp table payload hq) hn
      · exact Nat.lt_of_lt_of_le (hs.tokens table payload hm) hn
  moved := fun hs _ => ⟨hs.rows, hs.ended, hs.tokens⟩

def Drawn (key : Id) (s : SharedWorld) : Prop := key < s.store.nextId

/-! The rows that processes read have keys that were drawn. -/

theorem Ordered.user {u : User} (hs : Ordered s) (h : s.store.db.findUser id = some u) :
    Drawn u.sessionKey s :=
  hs.rows .user _ (List.mem_map_of_mem (List.mem_of_find?_eq_some h))

theorem Ordered.adminUser {u : AdminUser} (hs : Ordered s)
    (h : s.store.db.findAdminUser id = some u) :
    Drawn u.sessionKey s :=
  hs.rows .adminUser _ (List.mem_map_of_mem (List.mem_of_find?_eq_some h))

theorem Ordered.adminUsername {u : AdminUser} {sameName : String → String → Bool}
    {username : String} (hs : Ordered s)
    (h : s.store.db.findAdminUsername sameName username = some u) : Drawn u.sessionKey s :=
  hs.rows .adminUser _ (List.mem_map_of_mem (List.mem_of_find?_eq_some h))

/-- No session of the account was ended after the token was signed. -/
def Older (table : SessionTable) (payload : TokenPayload) (s : SharedWorld) : Prop :=
  ∀ e ∈ s.log, ∀ key, endedSession e = some (table, payload.sub, key) → key ≤ payload.sessionKey

/-- What a refresh returns for a token: each session ended since has a newer key. -/
structure Renewed (table : SessionTable) (payload tokens : TokenPayload) (s : SharedWorld) :
    Prop where
  sub : tokens.sub = payload.sub
  drawn : Drawn tokens.sessionKey s
  newer : ∀ e ∈ s.log, ∀ key, endedSession e = some (table, payload.sub, key) →
    key ≤ payload.sessionKey ∨ tokens.sessionKey < key

/-- Any call keeps what was drawn. -/
theorem drawn_held : Held (backend cfg) rules outline p (fun _ => True) (Drawn key) where
  stable := by
    intro s s' h hs
    cases h with
    | other _ _ ha _ =>
      cases delivered_of_allowed ha
      exact Nat.lt_of_lt_of_le hs (s.store.nextId_deliver cfg _)
    | drift => exact hs
  own := by
    intro s q d _ _ ha _ hs
    cases delivered_of_allowed ha
    exact Nat.lt_of_lt_of_le hs (s.store.nextId_deliver cfg q)

/-- A session that ends now gets a newer key than any that is out. -/
theorem renewed_after {payload tokens : TokenPayload} {q : Request}
    (hs : Renewed table payload tokens s) :
    Renewed table payload tokens ((backend cfg).after .delivered p q s) := by
  refine ⟨hs.sub, Nat.lt_of_lt_of_le hs.drawn (s.store.nextId_deliver cfg q),
    fun e he key hend => ?_⟩
  rcases List.mem_cons.mp he with rfl | he
  · obtain ⟨rfl, -⟩ := endedSession_deliver hend
    exact .inr hs.drawn
  · exact hs.newer e he key hend

theorem renewed_held {payload tokens : TokenPayload} :
    Held (backend cfg) rules outline p (fun _ => True) (Renewed table payload tokens) where
  stable := by
    intro s s' h hs
    cases h with
    | other _ _ ha _ =>
      cases delivered_of_allowed ha
      exact renewed_after hs
    | drift => exact ⟨hs.sub, hs.drawn, hs.newer⟩
  own := by
    intro s q d _ _ ha _ hs
    cases delivered_of_allowed ha
    exact renewed_after hs

theorem older_survives {payload : TokenPayload} :
    Survives (backend cfg) rules outline (endsSession table payload.sub) (Older table payload) where
  after := by
    intro s p q d _ _ _ hs
    cases hend : endsSession table payload.sub ⟨p, q, (backend cfg).reply d q s⟩ with
    | true => exact .inr rfl
    | false =>
      refine .inl fun e he key h => ?_
      rcases List.mem_cons.mp he with rfl | he
      · simp [endsSession, h] at hend
      · exact hs e he key h
  moved := fun _ _ hs => hs

/-- The process has just swapped the key of the token, with nothing revoked before. -/
def Swapped (p : Nat) (table : SessionTable) (payload : TokenPayload) (s : SharedWorld) : Prop :=
  (∃ e, lastOwn p s.log = some e ∧ swapsSession table payload.sub e = true) ∧
  Unless p (swapsSession table payload.sub) (endsSession table payload.sub) (Older table payload) s

theorem swapped_stable {payload : TokenPayload} :
    Stable (backend cfg) rules outline p (Swapped p table payload) :=
  .and (.exists fun e => (Stable.lastOwn (some e)).and (.const _)) (Survives.stable older_survives)

theorem pre_other {q : Request} (hq : ∀ table payload, q ≠ .sign table payload) :
    outline.pre s p q :=
  fun table payload h => absurd h (hq table payload)

def unsigned : List RequestKind :=
  [.swapSession, .endSession, .requestDeletion, .reactivate, .restrict, .markDeleted,
    .processDeletion,
    .createContent, .deleteFile]

theorem quiet_unsigned : Quiet rules outline unsigned := by
  intro s p q d hq _ _
  refine pre_other ?_
  rintro table payload rfl
  simp [Within, Request.kind, unsigned] at hq

section
variable {α : Type} {payload : TokenPayload} {Q : Except Thrown α → SharedWorld → Prop}

theorem plain_meets {q : Request} {f : q.Answer → Routine α} (hq : q.kind = .plain)
    (hQ : ∀ e t, Q (.error e) t) (h : ∀ a t, outline.inv t →
      Meets (backend cfg) rules outline p (f a) Q t) :
    Meets (backend cfg) rules outline p ((await q).bind f) Q s := by
  refine Meets.held (Held.const (P := fun _ => True) True) trivial (fun t d hi _ ha => ?_)
    outline_kept trivial
    (fun e t _ => hQ e t) fun a t hi _ => h a t hi
  exact quiet_unsigned t p q d (.inl hq) hi ha

/-- A swap that counts a row leaves its process ready for the second read. -/
theorem swap_meets {e : Thrown} {f : Unit → Routine α} (hQ : ∀ e t, Q (.error e) t)
    (h : ∀ t, Swapped p table payload t → Meets (backend cfg) rules outline p (f ()) Q t) :
    Meets (backend cfg) rules outline p
      ((await (.statement (.swapSessionKey table payload.sub payload.sessionKey))).bind
        fun (count : Nat) =>
        (Prog.throwIf (count = 0) e).bind f) Q s := by
  refine Meets.await (Stable.const True) trivial fun t _ hi d ha =>
    ⟨pre_other (by simp), fun count hr => ?_,
      fun e _ => Meets.throw (Stable.const True) trivial fun _ _ _ => hQ _ _⟩
  cases delivered_of_allowed ha
  refine Meets.throwIf (fun _ => Meets.throw (Stable.const True) trivial fun _ _ _ => hQ _ _)
    fun hc => ?_
  have hreply : (t.store.deliver cfg
    (.statement (.swapSessionKey table payload.sub payload.sessionKey))).2 =
      .ok count := hr
  obtain ⟨db', hperform⟩ := World.reply_statement hreply
  -- The row had the key of the token, so no session had been ended since that was drawn.
  have hrow := Database.sessionKeyOf_swapSessionKey hperform hc
  refine h _ ⟨⟨_, lastOwn_self rfl, ?_⟩, .inl fun e he key hend => ?_⟩
  · rw [hr]
    simp [swapsSession, hc]
  · rcases List.mem_cons.mp he with rfl | he
    · rw [hr] at hend
      cases hend
    · exact (hi.ended e he table payload.sub key hend).2 _ hrow

/-- The second read comes before any revocation. -/
theorem reread_meets {q : Request} {f : q.Answer → Routine α}
    (hq : q.readsAccount = some (table, payload.sub)) (hs : Swapped p table payload s)
    (hQ : ∀ e t, Q (.error e) t)
    (h : ∀ t, outline.inv t → Older table payload t → ∀ a, (t.store.deliver cfg q).2 = .ok a →
      Meets (backend cfg) rules outline p (f a) Q ((backend cfg).after .delivered p q t)) :
    Meets (backend cfg) rules outline p ((await q).bind f) Q s := by
  refine Meets.await swapped_stable hs fun t ht hi d ha =>
    ⟨pre_other ?_, fun a hr => ?_, fun e _ => ?_⟩
  · rintro table payload rfl
    cases hq
  · obtain ⟨⟨e, hlast, hswap⟩, hold⟩ := ht
    have hcond := cond_of_allowed ha
    cases delivered_of_allowed ha
    simp only [rereadBeforeRevocation, hq, hlast, Option.any_some, hswap, Bool.true_and,
      Bool.not_eq_eq_eq_not, Bool.not_true] at hcond
    exact h t hi (hold.resolve hcond) a hr
  · exact Meets.throw (Stable.const True) trivial fun _ _ _ => hQ _ _

end

/-- The tokens that a refresh returns are renewed ones. -/
def Renews (table : SessionTable) (payload : TokenPayload) : Except Thrown TokenPayload →
    SharedWorld → Prop
  | .ok tokens, s => Renewed table payload tokens s
  | .error _, _ => True

/-- Signing the key that the second read has shown. -/
theorem getTokens_meets {payload tokens : TokenPayload} {k : Unit → Routine TokenPayload}
    (hk : k () = .ret tokens) (hs : Renewed table payload tokens s) :
    Meets (backend cfg) rules outline p ((await (.sign table tokens)).bind k)
    (Renews table payload) s := by
  refine Meets.await (Held.stable renewed_held) hs fun t ht hi d ha => ?_
  have hp : outline.pre t p (.sign table tokens) := by
    rintro table' payload' h
    cases h
    exact ht.drawn
  refine ⟨hp, fun _ _ => ?_, fun e _ => Meets.throw (Stable.const True) trivial fun _ _ _ =>
    trivial⟩
  rw [hk]
  exact Meets.ret (Held.stable renewed_held) (Held.own renewed_held trivial hi ha hp ht)
    fun _ h _ => h

/-- The second read of a row gives renewed tokens. -/
theorem Older.renewed {payload tokens : TokenPayload} (h : Older table payload s)
    (hsub : tokens.sub = payload.sub) (hd : Drawn tokens.sessionKey s) :
    Renewed table payload tokens s :=
  ⟨hsub, hd, fun e he key hend => .inl (h e he key hend)⟩

theorem refreshToken_meets {payload : TokenPayload} :
    Meets (backend cfg) rules outline p
      (AuthService.refreshToken cfg payload.sub payload.sessionKey)
      (Renews .user payload) s := by
  have fails (e : Thrown) (t : SharedWorld) :
      Meets (backend cfg) rules outline p (.throw e : Routine TokenPayload)
        (Renews .user payload) t :=
    Meets.throw (Stable.const True) trivial fun _ _ _ => trivial
  unfold AuthService.refreshToken
  refine plain_meets rfl (fun _ _ => trivial) fun row t hi => ?_
  cases row with
  | none => exact fails _ t
  | some u =>
    refine Meets.heldBind outline_kept hi (Held.const (P := fun _ => True) True)
      (UsersService.assertUserCanLogin_calls (by decide : _ ∈ unsigned) (by decide))
        (fun _ _ => trivial)
      (fun t q d hq hi _ ha => quiet_unsigned t p q d hq hi ha) trivial (fun _ _ _ => trivial)
        fun _ t _ _ => ?_
    refine swap_meets (fun _ _ => trivial) fun t ht => ?_
    refine reread_meets rfl ht (fun _ _ => trivial) fun t hi hold row hr => ?_
    have hrow : t.store.db.findUser payload.sub = row := Except.ok.inj hr
    cases row with
    | none =>
      exact plain_meets rfl (fun _ _ => trivial) fun _ t _ => fails _ t
    | some u =>
      have hnew : Renewed .user payload ⟨u.id, u.username, u.sessionKey⟩ t :=
        hold.renewed (Database.findUser_id hrow) (hi.user hrow)
      exact Meets.held renewed_held trivial (fun _ _ _ _ _ => pre_other (by simp)) outline_kept
        (renewed_after hnew) (fun _ _ _ => trivial) fun _ t _ ht => getTokens_meets rfl ht

theorem adminRefreshToken_meets {payload : TokenPayload} :
    Meets (backend cfg) rules outline p
      (AdminAuthService.refreshToken payload.sub payload.sessionKey)
      (Renews .adminUser payload) s := by
  refine swap_meets (fun _ _ => trivial) fun t ht => ?_
  refine reread_meets rfl ht (fun _ _ => trivial) fun t hi hold row hr => ?_
  have hrow : t.store.db.findAdminUser payload.sub = row := Except.ok.inj hr
  cases row with
  | none => exact Meets.throw (Stable.const True) trivial fun _ _ _ => trivial
  | some u =>
    have hnew : Renewed .adminUser payload ⟨u.id, u.username, u.sessionKey⟩ t :=
      hold.renewed (Database.findAdminUser_id hrow) (hi.adminUser hrow)
    exact getTokens_meets rfl (renewed_after hnew)

/-- Signing with a key that has been drawn. -/
theorem follows_sign {α : Type} {payload : TokenPayload} {f : Unit → Routine α}
    (hs : Drawn payload.sessionKey s) (h : ∀ a, Safe (backend cfg) rules outline (f a)) :
    Follows (backend cfg) rules outline p ((await (.sign table payload)).bind f) s := by
  refine Follows.await (Held.stable drawn_held) hs fun t ht hi d ha => ?_
  have hp : outline.pre t p (.sign table payload) := by
    rintro table' payload' h
    cases h
    exact ht
  exact ⟨hp, fun a _ => h a p _ (Outline.Kept.after outline_kept hi ha hp)⟩

/-- A login signs the key of the row that it read last. -/
theorem login_safe (dto : LoginDto) :
    Safe (backend cfg) rules outline (AuthService.login cfg dto) := by
  unfold AuthService.login
  refine Quiet.plain outline_kept quiet_unsigned rfl fun row => ?_
  cases row with
  | none => exact .throw
  | some u =>
    refine .throwIf (.bind outline_kept (Quiet.safe quiet_unsigned
      (UsersService.preparePendingDeletionLogin_calls (by decide) (by decide))) fun request => ?_)
    cases request with
    | some request =>
      have token : (AuthService.getReactivationToken u.id u.username u.sessionKey request.id).Calls
          fun q => ∀ table payload, q ≠ .sign table payload :=
            .bind (.await (by simp)) fun _ => trivial
      exact .bind outline_kept (Safe.calls token fun _ _ _ _ h _ _ => pre_other h) fun _ => .ret
    | none =>
      refine Quiet.plain outline_kept quiet_unsigned rfl fun row => ?_
      cases row with
      | none => exact .throw
      | some _ =>
        refine .bind outline_kept (Quiet.safe quiet_unsigned
          (UsersService.assertUserCanLogin_calls (by decide) (by decide))) fun _ p s _ => ?_
        refine Follows.await (Stable.const True) trivial fun t _ hi d ha =>
          ⟨pre_other (by simp), fun row hr => ?_⟩
        cases delivered_of_allowed ha
        have hrow : t.store.db.findUser u.id = row := Except.ok.inj hr
        have hi' : outline.inv ((backend cfg).after .delivered p (.query (.user .row u.id)) t) :=
          Outline.Kept.after outline_kept hi ha (pre_other (by simp))
        cases row with
        | none => exact Follows.throw
        | some v =>
          have hd : Drawn v.sessionKey
              ((backend cfg).after .delivered p (.query (.user .row u.id)) t) :=
            hi.user hrow
          refine Meets.heldBind outline_kept hi' drawn_held AuthService.decryptMasterKey_calls
            (fun _ _ => trivial)
            (fun t q d hq hi _ ha => quiet_unsigned t p q d hq hi ha) hd (fun _ _ _ => trivial)
              fun _ t _ ht => ?_
          refine Meets.held drawn_held trivial (fun _ _ _ _ _ => pre_other (by simp))
            outline_kept ht
            (fun _ _ _ => trivial) fun _ t hi ht => ?_
          exact Follows.bind outline_kept hi (F := fun _ => True) (follows_sign ht fun _ => .ret)
            fun _ _ _ _ => Follows.ret

theorem adminLogin_safe (dto : AdminLoginDto) :
    Safe (backend cfg) rules outline (AdminAuthService.login cfg dto) := by
  intro p s _
  refine Follows.await (Stable.const True) trivial fun t _ hi d ha =>
    ⟨pre_other (by simp), fun row hr => ?_⟩
  cases delivered_of_allowed ha
  have hrow : t.store.db.findAdminUsername cfg.sameName dto.username = row := Except.ok.inj hr
  cases row with
  | none => exact Follows.throw
  | some u =>
    have hd : Drawn u.sessionKey t := hi.adminUsername hrow
    refine Follows.throwIf fun _ => ?_
    refine Meets.held drawn_held trivial (fun _ _ _ _ _ => pre_other (by simp)) outline_kept
      (Held.own drawn_held trivial hi ha (pre_other (by simp)) hd) (fun _ _ _ => trivial)
        fun _ t _ ht => ?_
    exact follows_sign ht fun _ => .ret

/-- What is known of each process that has ended. -/
def Post (_ : Nat) (op : Operation) (r : Except Thrown Outcome) (s : SharedWorld) : Prop :=
  match op, r with
  | .refreshToken payload, .ok (.tokens _ tokens) => Renewed .user payload tokens s
  | .adminRefreshToken payload, .ok (.tokens _ tokens) => Renewed .adminUser payload tokens s
  | _, _ => True

/-- Handing on the tokens of a refresh. -/
theorem refreshed_meets {op : Operation} {payload : TokenPayload} {x : Routine TokenPayload}
    (hi : outline.inv s) (hx : Meets (backend cfg) rules outline p x (Renews table payload) s)
    (hok : ∀ tokens t, Renewed table payload tokens t → Post p op (.ok (.tokens table tokens)) t)
    (herr : ∀ e t, Post p op (.error e) t) :
    Meets (backend cfg) rules outline p (x.bind fun tokens => .ret (.tokens table tokens))
    (Post p op) s := by
  refine Meets.bind hi outline_kept (hx.mono fun r t _ ht => ?_)
  cases r with
  | ok tokens => exact Meets.ret (Held.stable renewed_held) ht fun t ht _ => hok tokens t ht
  | error e => exact Meets.throw (Stable.const True) trivial fun t _ _ => herr e t

theorem program_meets (op : Operation) (hi : outline.inv s) :
    Meets (backend cfg) rules outline p (op.program cfg) (Post p op) s := by
  have plain {op : Operation} (h : ∀ k ∈ op.footprint, k ∈ unsigned)
      (hpost : ∀ r t, Post p op r t) :
        Meets (backend cfg) rules outline p (op.program cfg) (Post p op) s :=
    (Quiet.program quiet_unsigned h p s hi).mono fun r t _ _ => hpost r t
  cases op with
  | login dto =>
    exact (loginOutcome_safe outline_kept (login_safe dto) p s hi).mono fun _ _ _ _ => trivial
  | adminLogin dto =>
    have safe : Safe (backend cfg) rules outline (Operation.program cfg (.adminLogin dto)) :=
      .bind outline_kept (adminLogin_safe dto) fun _ => .ret
    exact (safe p s hi).mono fun _ _ _ _ => trivial
  | refreshToken payload =>
    exact refreshed_meets hi refreshToken_meets (fun _ _ h => h) fun _ _ => trivial
  | adminRefreshToken payload =>
    exact refreshed_meets hi adminRefreshToken_meets (fun _ _ h => h) fun _ _ => trivial
  | _ => exact plain (by simp [Operation.footprint, unsigned]) fun _ _ => trivial

def refresh : SessionTable → TokenPayload → Operation
  | .user, payload => .refreshToken payload
  | .adminUser, payload => .adminRefreshToken payload

/-- The guard of the requests of the table lets the tokens in. -/
def accepted (db : Database) : SessionTable → TokenPayload → Bool
  | .user, tokens => JwtStrategy.accepts (db.findUser tokens.sub) tokens
  | .adminUser, tokens => AdminJwtStrategy.accepts (db.findAdminUser tokens.sub) tokens

theorem sessionKeyOf_accepted {db : Database} {tokens : TokenPayload}
    (h : accepted db table tokens = true) :
    db.sessionKeyOf table tokens.sub = some tokens.sessionKey := by
  cases table with
  | user =>
    obtain ⟨u, hu, ha⟩ := (Option.any_eq_true _ _).mp h
    simp only [Bool.and_eq_true, beq_iff_eq] at ha
    simp [Database.sessionKeyOf, hu, ha.1]
  | adminUser =>
    obtain ⟨u, hu, ha⟩ := (Option.any_eq_true _ _).mp h
    simp [Database.sessionKeyOf, hu, beq_iff_eq.mp ha]

theorem post_refresh {payload tokens : TokenPayload}
    (h : Post p (refresh table payload) (.ok (.tokens table tokens)) s) :
    Renewed table payload tokens s := by
  cases table <;> exact h

end SessionRevocation

open SessionRevocation

/-- Once a session is ended, no refresh of a token that was signed before returns
tokens that a guard accepts in any later state. -/
def RevocationIsFinal (cfg : Config) (R : BackendRules) (w : World) : Prop :=
  ∀ as₁ as₂ (s₁ s₂ s₃ : BackendPool) a e table payload (p : Nat) tokens,
    (backend cfg).run R (.initial w) as₁ = some s₁ → (backend cfg).step R s₁ a = some s₂ →
    s₂.shared.log = e :: s₁.shared.log → endsSession table payload.sub e = true →
    minted table payload s₁.shared.log = true → (backend cfg).run R s₂ as₂ = some s₃ →
    s₃.procs[p]? = some (refresh table payload, .ret (.tokens table tokens)) →
    accepted s₃.shared.store.db table tokens = false

/-- Every session key is a name that has been drawn. -/
def KeysDrawn (w : World) : Prop := ∀ table, ∀ key ∈ w.db.sessionKeys table, key < w.nextId

/-- Revocation is final in the runs where a refresh reads its row before the session is ended. -/
theorem revocation_is_final (cfg : Config) (w : World) (hw : KeysDrawn w) :
    RevocationIsFinal cfg SessionRevocation.rules w := by
  intro as₁ as₂ s₁ s₂ s₃ a e table payload p tokens h₁ hstep hlog hend hmint h₂ hp
  have starts (s : SharedWorld) (p : Nat) (op : Operation) (hs : outline.inv s)
      (_ : SessionRevocation.rules.starts s op = true) (_ : ∀ e ∈ s.log, e.pid ≠ p) :
      Meets (backend cfg) SessionRevocation.rules outline p (op.program cfg) (Post p op) s :=
    program_meets op hs
  have hr₁ : s₁.Respects (backend cfg) SessionRevocation.rules outline Post :=
    Pool.Respects.run outline_kept starts
      (.initial ⟨hw, by simp [Shared.initial], by simp [Shared.initial, minted]⟩) h₁
  have hr₂ := hr₁.step outline_kept starts hstep
  have hr₃ := Pool.Respects.run outline_kept starts hr₂ h₂
  obtain ⟨⟨t, v, key⟩, hkey, hx⟩ := (Option.any_eq_true _ _).mp hend
  obtain ⟨rfl, rfl⟩ := of_decide_eq_true hx
  -- The write drew its key after the token was signed.
  have hlt : payload.sessionKey < key := by
    have hsigned := hr₁.inv.tokens t payload hmint
    obtain ⟨op, _, _, rfl⟩ | ⟨p, d, op, q, k, _, hpr, ha, rfl⟩ | ⟨n, _, _, rfl⟩ :=
      System.step_cases hstep
    · simp at hlog
    · obtain ⟨rfl, -⟩ := List.cons.inj hlog
      cases delivered_of_allowed ha
      rw [(endedSession_deliver hkey).1]
      exact hsigned
    · simp [System.moved] at hlog
  have hmem : e ∈ s₃.shared.log := (System.run_log_suffix h₂).subset (hlog ▸ List.mem_cons_self)
  have hnew := post_refresh (hr₃.returned hp)
  by_contra hacc
  have hrow := sessionKeyOf_accepted (Bool.not_eq_false _ ▸ hacc)
  rw [hnew.sub] at hrow
  have hle : key ≤ tokens.sessionKey := (hr₃.inv.ended e hmem t payload.sub key hkey).2 _ hrow
  rcases hnew.newer e hmem key hkey with h | h
  · exact absurd hlt (Nat.not_lt.mpr h)
  · exact absurd hle (Nat.not_le.mpr h)

namespace SessionRevocation

/-- The administrator's request is about to end the session of the user. -/
def logoutAhead (p : Nat) : List BackendAction :=
  .start (.forceLogoutUser demoAdminToken 1 "theft") :: calls p 2

/-- What the event of an action has done to a session. -/
def endsNow (s : BackendPool) : Bool := s.shared.log.head?.any (endsSession .user 1)

/-- The process has returned tokens for which `accepts` gives the verdict. -/
def returns (s : BackendPool) (p : Nat) (verdict : Bool) : Bool :=
  match s.procs[p]? with
  | some (.refreshToken payload, .ret (.tokens .user tokens)) =>
    decide (payload = demoToken) && (accepted s.shared.store.db .user tokens == verdict)
  | _ => false

theorem returns_iff {s : BackendPool} {verdict : Bool} (h : returns s p verdict = true) :
    ∃ tokens, s.procs[p]? = some (refresh .user demoToken, .ret (.tokens .user tokens)) ∧
      accepted s.shared.store.db .user tokens = verdict := by
  unfold returns at h
  split at h
  · rename_i payload tokens hp
    simp only [Bool.and_eq_true, decide_eq_true_eq, beq_iff_eq] at h
    obtain ⟨rfl, hv⟩ := h
    exact ⟨tokens, hp, hv⟩
  · cases h

theorem endsNow_iff {s s' : BackendPool} {R : BackendRules} {p : Nat} {d : Delivery}
    (hstep : (backend demoConfig).step R s (.advance p d) = some s') (h : endsNow s' = true) :
    ∃ e, s'.shared.log = e :: s.shared.log ∧ endsSession .user demoToken.sub e = true := by
  obtain ⟨op, h', _⟩ | ⟨p, d, op, q, k, _, _, _, rfl⟩ | ⟨n, h', _⟩ := System.step_cases hstep
  · cases h'
  · exact ⟨_, rfl, h⟩
  · cases h'

theorem demo_keysDrawn : KeysDrawn demoWorld := by
  intro table
  cases table <;> decide

end SessionRevocation

/-- The refresh has swapped the key when the session is ended, and then signs the new key. -/
theorem revoked_refresh_accepted : ¬ RevocationIsFinal demoConfig allRequests demoWorld := by
  have key : ((demoRun allRequests (.start (.refreshToken demoToken) :: calls 2 2 ++
    logoutAhead 3)).any fun s₁ =>
      minted .user demoToken s₁.shared.log &&
      ((backend demoConfig).step allRequests s₁ (.advance 3 .delivered)).any fun s₂ => endsNow s₂ &&
      ((backend demoConfig).run allRequests s₂ (calls 2 3)).any fun s₃ => returns s₃ 2 true) =
        true := by
    decide +kernel
  intro h
  obtain ⟨s₁, h₁, hs₁⟩ := (Option.any_eq_true _ _).mp key
  obtain ⟨hm, hs₁⟩ := Bool.and_eq_true_iff.mp hs₁
  obtain ⟨s₂, h₂, hs₂⟩ := (Option.any_eq_true _ _).mp hs₁
  obtain ⟨he, hs₂⟩ := Bool.and_eq_true_iff.mp hs₂
  obtain ⟨s₃, h₃, hs₃⟩ := (Option.any_eq_true _ _).mp hs₂
  obtain ⟨e, hlog, hend⟩ := endsNow_iff h₂ he
  obtain ⟨tokens, hp, hacc⟩ := returns_iff hs₃
  have := h _ _ s₁ s₂ s₃ _ e .user demoToken 2 tokens h₁ h₂ hlog hend hm h₃ hp
  rw [hacc] at this
  cases this

/-- A run of the kind the theorem is about: the tokens of a refresh are refused after a logout. -/
theorem revocation_is_final_demo : ∃ s₁ s₂ s₃ tokens,
    demoRun SessionRevocation.rules (.start (.refreshToken demoToken) :: calls 2 5 ++
      logoutAhead 3) = some s₁ ∧
    (backend demoConfig).step SessionRevocation.rules s₁ (.advance 3 .delivered) = some s₂ ∧
    (backend demoConfig).run SessionRevocation.rules s₂ (calls 3 2) = some s₃ ∧
    s₃.procs[2]? = some (refresh .user demoToken, .ret (.tokens .user tokens)) ∧
    accepted s₃.shared.store.db .user tokens = false := by
  have key : ((demoRun SessionRevocation.rules
      (.start (.refreshToken demoToken) :: calls 2 5 ++ logoutAhead 3)).any fun s₁ =>
      minted .user demoToken s₁.shared.log &&
      ((backend demoConfig).step SessionRevocation.rules s₁ (.advance 3 .delivered)).any fun s₂ =>
        endsNow s₂ &&
      ((backend demoConfig).run SessionRevocation.rules s₂ (calls 3 2)).any fun s₃ =>
        returns s₃ 2 false) = true := by
    decide +kernel
  obtain ⟨s₁, h₁, hs₁⟩ := (Option.any_eq_true _ _).mp key
  obtain ⟨hm, hs₁⟩ := Bool.and_eq_true_iff.mp hs₁
  obtain ⟨s₂, h₂, hs₂⟩ := (Option.any_eq_true _ _).mp hs₁
  obtain ⟨he, hs₂⟩ := Bool.and_eq_true_iff.mp hs₂
  obtain ⟨s₃, h₃, hs₃⟩ := (Option.any_eq_true _ _).mp hs₂
  obtain ⟨e, hlog, hend⟩ := endsNow_iff h₂ he
  obtain ⟨tokens, hp, _⟩ := returns_iff hs₃
  exact ⟨s₁, s₂, s₃, tokens, h₁, h₂, h₃, hp,
    revocation_is_final demoConfig demoWorld demo_keysDrawn _ _
    s₁ s₂ s₃ _ e .user demoToken 2 tokens h₁ h₂ hlog hend hm h₃ hp⟩

end Redbox
