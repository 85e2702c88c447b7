import Redbox.Accounts.Composition

/-! Bans and locks stick. The routines that take a restriction away, or write another
status, decide on an earlier read, so this holds of the runs in which no
restriction of the user commits between the two. -/
namespace Redbox
open Interleaving

/-- The status of a user under a restriction of the type. -/
def UserRestrictionType.status : UserRestrictionType → UserStatus
  | .lock => .locked
  | .ban => .banned

namespace Statement

/-- What a committed statement says about the restriction of a user: the one that
an administrator sets, or none where he ends it or the account is deleted. -/
def verdict : (w : Statement) → w.Answer → Option (Id × Option UserRestriction)
  | lock userId _ _ _, r => some (userId, some r)
  | ban userId _ _ _ _ _, r => some (userId, some r)
  | reactivate userId .admin _ _ _ _, _ => some (userId, none)
  | markDeleted userId _ _ _ _ _ _, _ => some (userId, none)
  | _, _ => none

/-- The user whose restriction a statement disregards: a request for deletion, or a
reactivation that is not an administrator's. -/
def disregards : Statement → Option Id
  | requestDeletion userId _ _ => some userId
  | reactivate _ .admin _ _ _ _ => none
  | reactivate userId _ _ _ _ _ => some userId
  | _ => none

end Statement

def Request.disregards : Request → Option Id
  | .statement w => w.disregards
  | _ => none

/-- A read on which a process decides to give the user another status. -/
def Request.decides (userId : Id) : Request → Bool
  | .query (.user .row id) => decide (id = userId)
  | .query (.user .idStatus id) => decide (id = userId)
  | .query (.activeRestriction id .ban) => decide (id = userId)
  | .query .expiredBans => true
  | _ => false

def verdict (userId : Id) : BackendEvent → Option (Option UserRestriction)
  | ⟨_, .statement w, .ok a⟩ => (w.verdict a).bind fun x => if x.1 = userId then some x.2 else none
  | _ => none

/-- The restriction that stands against the user: the last one that an administrator
set, if he has not changed the status since and the account is not deleted. -/
def standing (userId : Id) (log : List BackendEvent) : Option UserRestriction :=
  (log.findSome? (verdict userId)).join

/-- A committed lock or ban of the user. -/
def restricts (userId : Id) (e : BackendEvent) : Bool :=
  (verdict userId e).any fun r => r.isSome

namespace Restrictions

def decides (userId : Id) (e : BackendEvent) : Bool := e.req.decides userId

/-- At each write that disregards restrictions of a user, none has been set since
the process decided on it. -/
def notRestrictedSince (s : SharedWorld) (p : Nat) (q : Request) (_ : Delivery) : Bool :=
  match q.disregards with
  | some userId => !occursSince p (decides userId) (restricts userId) s.log
  | none => true

def rules : BackendRules := allRequests.also notRestrictedSince

/-- The restriction is the only open one of its user, who has its status. -/
structure InForce (db : Database) (userId : Id) (r : UserRestriction) : Prop where
  status : db.statusOf userId = some r.type.status
  mem : r ∈ db.restrictions
  user : r.userId = userId
  open_ : r.isOpen = true
  unique : ∀ r' ∈ db.restrictions, r'.userId = userId → r'.isOpen = true → r' = r

/-- Nothing stands against the user but bans that have run out. -/
def Unrestricted (userId : Id) (s : SharedWorld) : Prop :=
  ∀ r, standing userId s.log = some r → r.isExpiredBan s.store.clock = true

/-- What stands is in force until it runs out, and nobody disregards it before. -/
def outline : Outline Request Reply World where
  inv := fun s => ∀ userId r, standing userId s.log = some r →
    r.isExpiredBan s.store.clock = false →
    InForce s.store.db userId r
  pre := fun s _ q => ∀ userId, q.disregards = some userId → Unrestricted userId s

section
variable {cfg : Config} {db db' : Database} {now : Time} {fresh userId : Id} {w : Statement}
  {a : w.Answer}
  {r : UserRestriction}

theorem mem_resolve {v : Id} : r ∈ (db.resolveOpenRestrictions v now).restrictions ↔
    (r ∈ db.restrictions ∧ (r.userId = v → r.isOpen = false)) ∨
    ∃ r' ∈ db.restrictions, r'.userId = v ∧ r'.isOpen = true ∧
    r = { r' with resolvedAt := some now } := by
  simp only [Database.resolveOpenRestrictions, mem_updateWhere, Bool.and_eq_true, beq_iff_eq,
    Bool.and_eq_false_imp, and_assoc]

/-- After restrictions of a user are resolved, he has no open one. -/
theorem isOpen_resolve (h : r ∈ (db.resolveOpenRestrictions userId now).restrictions)
    (hu : r.userId = userId) : r.isOpen = false := by
  rcases mem_resolve.mp h with ⟨_, ho⟩ | ⟨r', _, _, _, rfl⟩
  · exact ho hu
  · rfl

/-- Those of other users stay as they are. -/
theorem mem_resolve_other {v : Id} (hu : r.userId ≠ v) :
    r ∈ (db.resolveOpenRestrictions v now).restrictions ↔ r ∈ db.restrictions := by
  rw [mem_resolve]
  constructor
  · rintro (⟨hr, _⟩ | ⟨r', _, rfl, _, rfl⟩)
    · exact hr
    · exact absurd rfl hu
  · exact fun hr => .inl ⟨hr, fun h => absurd h hu⟩

theorem mem_restrict_other {v : Id} {new : UserRestriction} (hn : new.userId = v)
    (hu : r.userId ≠ v) :
    r ∈ new :: (db.resolveOpenRestrictions v now).restrictions ↔ r ∈ db.restrictions := by
  rw [List.mem_cons, mem_resolve_other hu]
  refine or_iff_right ?_
  rintro rfl
  exact hu hn

/-- A lock or a ban is the only open restriction of its user. -/
theorem inForce_perform (h : db.perform cfg now fresh w = .ok (db', a))
    (hw : w.verdict a = some (userId, some r)) : InForce db' userId r := by
  have hres := Database.restrictions_perform h
  have fresh_only (hres : db'.restrictions = r ::
    (db.resolveOpenRestrictions userId now).restrictions)
      (r' : UserRestriction) (hr' : r' ∈ db'.restrictions) (hu : r'.userId = userId)
      (ho : r'.isOpen = true) : r' = r := by
    rw [hres] at hr'
    rcases List.mem_cons.mp hr' with rfl | hr'
    · rfl
    · rw [isOpen_resolve hr' hu] at ho
      cases ho
  cases w with
  | lock v adminUserId reason status =>
    cases hw
    obtain ⟨y, hy, heq⟩ := Database.perform_bind h
    cases heq
    exact ⟨Database.statusOf_perform_sets h rfl, by
      rw [hres]; exact List.mem_cons_self, rfl, rfl, fresh_only hres⟩
  | ban v adminUserId reason isPermanent expiresAt status =>
    cases hw
    obtain ⟨y, hy, heq⟩ := Database.perform_bind h
    cases heq
    exact ⟨Database.statusOf_perform_sets h rfl, by
      rw [hres]; exact List.mem_cons_self, rfl, rfl, fresh_only hres⟩
  | reactivate v actorType _ _ _ _ => cases actorType <;> cases hw
  | _ => cases hw

/-- A statement that sets no status of the user leaves his restrictions alone. -/
theorem mem_restrictions_other (h : db.perform cfg now fresh w = .ok (db', a))
    (hw : ∀ status, w.setsStatus ≠ some (userId, status)) (hu : r.userId = userId) :
    r ∈ db'.restrictions ↔ r ∈ db.restrictions := by
  have others {v : Id} {status : UserStatus} (hv : w.setsStatus = some (v, status)) :
      r.userId ≠ v := by
    rintro rfl
    exact hw status (hu ▸ hv)
  rw [Database.restrictions_perform h]
  cases w with
  | reactivate v _ _ _ _ _ => exact mem_resolve_other (others rfl)
  | lock v adminUserId reason status =>
    obtain ⟨y, hy, heq⟩ := Database.perform_bind h
    cases heq
    exact mem_restrict_other rfl (others rfl)
  | ban v adminUserId reason isPermanent expiresAt status =>
    obtain ⟨y, hy, heq⟩ := Database.perform_bind h
    cases heq
    exact mem_restrict_other rfl (others rfl)
  | markDeleted v _ _ _ _ _ _ => exact mem_resolve_other (others rfl)
  | _ => exact Iff.rfl

/-- What is in force stays so under statements that set no status of the user. -/
theorem InForce.perform (hr : InForce db userId r) (h : db.perform cfg now fresh w = .ok (db', a))
    (hw : ∀ status, w.setsStatus ≠ some (userId, status)) : InForce db' userId r where
  status := by rw [Database.statusOf_perform_other h hw, hr.status]
  mem := (mem_restrictions_other h hw hr.user).mpr hr.mem
  user := hr.user
  open_ := hr.open_
  unique := fun r' hr' hu ho => hr.unique r' ((mem_restrictions_other h hw hu).mp hr') hu ho

/-- A verdict comes with a status. -/
theorem setsStatus_of_verdict {o : Option UserRestriction} (h : w.verdict a = some (userId, o)) :
    ∃ status, w.setsStatus = some (userId, status) := by
  cases w with
  | reactivate _ actorType _ _ _ _ =>
    cases actorType with
    | admin => cases h; exact ⟨_, rfl⟩
    | user => cases h
    | system => cases h
  | lock _ _ _ _ => cases h; exact ⟨_, rfl⟩
  | ban _ _ _ _ _ _ => cases h; exact ⟨_, rfl⟩
  | markDeleted _ _ _ _ _ _ _ => cases h; exact ⟨_, rfl⟩
  | _ => cases h

/-- A statement that sets a status says what becomes of the restriction, or disregards it. -/
theorem verdict_of_setsStatus {status : UserStatus} (hw : w.setsStatus = some (userId, status))
    (a : w.Answer) :
    (∃ o, w.verdict a = some (userId, o)) ∨ w.verdict a = none ∧ w.disregards = some userId := by
  cases w with
  | reactivate v actorType _ _ _ _ =>
    cases hw
    cases actorType with
    | admin => exact .inl ⟨none, rfl⟩
    | user => exact .inr ⟨rfl, rfl⟩
    | system => exact .inr ⟨rfl, rfl⟩
  | requestDeletion _ _ _ => cases hw; exact .inr ⟨rfl, rfl⟩
  | lock _ _ _ _ => cases hw; exact .inl ⟨_, rfl⟩
  | ban _ _ _ _ _ _ => cases hw; exact .inl ⟨_, rfl⟩
  | markDeleted _ _ _ _ _ _ _ => cases hw; exact .inl ⟨_, rfl⟩
  | _ => cases hw

end

variable {cfg : Config} {s : SharedWorld} {p : Nat} {userId : Id}

theorem isExpiredBan_mono {r : UserRestriction} {now now' : Time} (h : r.isExpiredBan now = true)
    (hle : now ≤ now') :
    r.isExpiredBan now' = true := by
  simp only [UserRestriction.isExpiredBan, Bool.and_eq_true, Option.any_eq_true,
    decide_eq_true_eq] at h ⊢
  obtain ⟨hb, t, ht, hn⟩ := h
  exact ⟨hb, t, ht, hn.trans hle⟩

theorem clock_deliver (s : World) (q : Request) : (s.deliver cfg q).1.clock = s.clock := by
  cases q with
  | statement w =>
    simp only [World.deliver]
    split <;> rfl
  | s3 name q =>
    simp only [World.deliver]
    split
    · cases name <;> rfl
    · rfl
  | _ => rfl

/-- A call changes nothing and says nothing, or it is a statement that commits with its verdict. -/
theorem deliver_verdict (cfg : Config) (s : World) (q : Request) (p : Nat) (userId : Id) :
    ((s.deliver cfg q).1.db = s.db ∧ verdict userId ⟨p, q, (s.deliver cfg q).2⟩ = none) ∨
    ∃ w db' a, q = .statement w ∧ s.db.perform cfg s.clock s.nextId w = .ok (db', a) ∧
      (s.deliver cfg q).1.db = db' ∧ verdict userId ⟨p, q, (s.deliver cfg q).2⟩ =
        (w.verdict a).bind fun x => if x.1 = userId then some x.2 else none := by
  cases q with
  | statement w =>
    simp only [World.deliver]
    cases hp : s.db.perform cfg s.clock s.nextId w with
    | ok r => exact .inr ⟨w, r.1, r.2, rfl, hp, rfl, rfl⟩
    | error e => exact .inl ⟨rfl, rfl⟩
  | s3 name q =>
    simp only [World.deliver]
    cases (s.bucket name).perform s.nextId q with
    | ok r => cases name <;> exact .inl ⟨rfl, rfl⟩
    | error e => exact .inl ⟨rfl, rfl⟩
  | _ => exact .inl ⟨rfl, rfl⟩

theorem standing_cons {e : BackendEvent} {log : List BackendEvent} :
    standing userId (e :: log) = (verdict userId e).getD (standing userId log) := by
  simp only [standing, List.findSome?_cons]
  cases verdict userId e <;> rfl

/-- An event that sets no restriction of the user leaves what stands or ends it. -/
theorem standing_unrestricted {e : BackendEvent} {log : List BackendEvent} {r : UserRestriction}
    (he : restricts userId e = false) (h : standing userId (e :: log) = some r) :
    standing userId log = some r := by
  rw [standing_cons] at h
  cases hv : verdict userId e with
  | none => simpa [hv] using h
  | some o =>
    rw [hv, Option.getD_some] at h
    simp [restricts, hv, h] at he

theorem outline_kept : outline.Kept (backend cfg) rules where
  after := by
    intro s p q d hs ha hp userId r hst hexp
    cases delivered_of_allowed ha
    rw [after_delivered] at hexp ⊢
    rw [clock_deliver] at hexp
    have hst' : (verdict userId ⟨p, q, (s.store.deliver cfg q).2⟩).getD (standing userId s.log) =
        some r :=
      standing_cons.symm.trans hst
    obtain ⟨hdb, hv⟩ | ⟨w, db', a, rfl, hw, hdb, hv⟩ := deliver_verdict cfg s.store q p userId
    · rw [hv, Option.getD_none] at hst'
      rw [hdb]
      exact hs userId r hst' hexp
    rw [hdb]
    by_cases hset : ∃ status, w.setsStatus = some (userId, status)
    · obtain ⟨status, hset⟩ := hset
      rcases verdict_of_setsStatus hset a with ⟨o, ho⟩ | ⟨hno, hdis⟩
      · have hvo : verdict userId ⟨p, .statement w, (s.store.deliver cfg (.statement w)).2⟩ =
            some o := by
          simp [hv, ho]
        rw [hvo, Option.getD_some] at hst'
        exact inForce_perform hw (ho.trans (by rw [hst']))
      -- What stands has not run out, so the outline forbids to disregard it.
      · rw [hv, hno, Option.bind_none, Option.getD_none] at hst'
        have := hp userId hdis r hst'
        rw [hexp] at this
        cases this
    · have hother : ∀ status, w.setsStatus ≠ some (userId, status) :=
        fun status h => hset ⟨status, h⟩
      have hnone : verdict userId ⟨p, .statement w, (s.store.deliver cfg (.statement w)).2⟩ =
          none := by
        rw [hv, Option.bind_eq_none_iff]
        rintro ⟨v, o⟩ hx
        refine if_neg ?_
        rintro rfl
        exact absurd (setsStatus_of_verdict hx) (by simpa using hother)
      rw [hnone, Option.getD_none] at hst'
      exact (hs userId r hst' hexp).perform hw hother
  moved := by
    intro s n hs _ userId r hst hexp
    refine hs userId r hst ?_
    by_contra h
    have hlate := isExpiredBan_mono (Bool.not_eq_false _ ▸ h) (Nat.le_add_right s.store.clock n)
    exact absurd (hlate.symm.trans hexp) (by simp)

/-- Nothing has been set against the user since the process decided. -/
abbrev UnrestrictedSince (p : Nat) (userId : Id) (s : SharedWorld) : Prop :=
  Unless p (decides userId) (restricts userId) (Unrestricted userId) s

/-- Nothing stands against the user but bans that have run out, and `r₀`. -/
def NothingBut (r₀ : UserRestriction) (userId : Id) (s : SharedWorld) : Prop :=
  ∀ r, standing userId s.log = some r → r.isExpiredBan s.store.clock = true ∨ r = r₀

/-- What is known of all standing restrictions holds until another one is set. -/
theorem standing_survives {A : SharedWorld → UserRestriction → Prop}
    (after : ∀ s p q r, A s r → A ((backend cfg).after .delivered p q s) r)
    (moved : ∀ s n r, A s r → A ((backend cfg).moved n s) r) :
    Survives (backend cfg) rules outline (restricts userId)
      fun s => ∀ r, standing userId s.log = some r → A s r where
  after := by
    intro s p q d _ ha _ hs
    cases delivered_of_allowed ha
    cases he : restricts userId ⟨p, q, (backend cfg).reply .delivered q s⟩ with
    | true => exact .inr rfl
    | false => exact .inl fun r hr => after s p q r (hs r (standing_unrestricted he hr))
  moved := fun _ _ hs r hr => moved _ _ r (hs r hr)

theorem unrestricted_survives :
    Survives (backend cfg) rules outline (restricts userId) (Unrestricted userId) :=
  standing_survives (fun s p q r h => by rw [after_delivered, clock_deliver]; exact h)
    fun s n r h => isExpiredBan_mono h (Nat.le_add_right _ n)

theorem nothingBut_survives {r₀ : UserRestriction} :
    Survives (backend cfg) rules outline (restricts userId) (NothingBut r₀ userId) :=
  standing_survives (fun s p q r h => by rw [after_delivered, clock_deliver]; exact h)
    fun s n r h => h.imp_left fun h => isExpiredBan_mono h (Nat.le_add_right _ n)

/-- Calls on which no process decides. -/
def Aside (q : Request) : Prop := ∀ userId, q.decides userId = false

theorem unrestricted_held : Held (backend cfg) rules outline p Aside (UnrestrictedSince p userId) :=
  Survives.held unrestricted_survives fun _ _ hq => hq userId

theorem pre_other {q : Request} (hq : q.disregards = none) : outline.pre s p q := by
  intro userId h
  rw [hq] at h
  cases h

/-- The write that the process has decided on. -/
theorem write_allowed {w : Statement} {d : Delivery} (hw : ∀ v, w.disregards = some v → v = userId)
    (ha : rules.allows s p (.statement w) d = true) (hs : UnrestrictedSince p userId s) :
    outline.pre s p (.statement w) := by
  intro v hv
  have hdis : w.disregards = some v := hv
  cases hw v hdis
  have hcond := cond_of_allowed ha
  simp only [notRestrictedSince, Request.disregards, hdis, Bool.not_eq_eq_eq_not,
    Bool.not_true] at hcond
  exact hs.resolve hcond

def others : List RequestKind :=
  [.swapSession, .endSession, .restrict, .markDeleted, .processDeletion, .createContent,
    .deleteFile, .sign]

theorem quiet_others : Quiet rules outline others := by
  intro s p q d hq _ _
  refine pre_other ?_
  cases q with
  | statement w =>
    cases w <;> simp_all [Within, Request.kind, others, Request.disregards, Statement.disregards]
  | _ => rfl

/-- A user with neither status has no restriction in force. -/
theorem unrestricted_of_status {u : User} (hi : outline.inv s)
    (hu : s.store.db.findUser userId = some u) (hst : u.status ≠ .locked ∧ u.status ≠ .banned) :
    Unrestricted userId s := by
  intro r hr
  by_contra hexp
  have hforce := (hi userId r hr (Bool.not_eq_true _ ▸ hexp)).status
  rw [Database.statusOf, hu] at hforce
  have hus : u.status = r.type.status := Option.some.inj hforce
  cases ht : r.type with
  | lock => exact hst.1 (hus.trans (by rw [ht]; rfl))
  | ban => exact hst.2 (hus.trans (by rw [ht]; rfl))

section
variable {α : Type} {sel : UserSelect}

/-- A read of the row tells whether a restriction is in force. -/
theorem follows_read {f : Option User → Routine α}
    (h : ∀ row t, outline.inv t → (∀ u, row = some u → u.id = userId) →
      (∀ u, row = some u → u.status ≠ .locked ∧ u.status ≠ .banned → UnrestrictedSince p userId t) →
      Follows (backend cfg) rules outline p (f row) t) :
    Follows (backend cfg) rules outline p ((await (.query (.user sel userId))).bind f) s := by
  refine Follows.await (Stable.const True) trivial fun t _ hi d ha =>
    ⟨pre_other rfl, fun row hr => ?_⟩
  cases delivered_of_allowed ha
  have hrow : t.store.db.findUser userId = row := Except.ok.inj hr
  have hi' : outline.inv ((backend cfg).after .delivered p (.query (.user sel userId)) t) :=
    Outline.Kept.after outline_kept hi ha (pre_other rfl)
  refine h row _ hi' (fun u hu => Database.findUser_id (hrow.trans hu)) fun u hu hst => .inl ?_
  exact unrestricted_of_status hi' (hrow.trans hu) hst

/-- A call on which nothing is decided keeps what the process knows. -/
theorem follows_aside {q : Request} {f : q.Answer → Routine α} (hq : q.disregards = none)
    (hd : Aside q) (hs : UnrestrictedSince p userId s)
    (h : ∀ a t, outline.inv t → UnrestrictedSince p userId t →
      Follows (backend cfg) rules outline p (f a) t) :
    Follows (backend cfg) rules outline p ((await q).bind f) s :=
  Meets.held unrestricted_held hd (fun _ _ _ _ _ => pre_other hq) outline_kept hs
    (fun _ _ _ => trivial) h

end

/-- A reactivation that was decided on, which keeps what else the process knows. -/
theorem reactivateUser_meets {options : ReactivationOptions} {G : SharedWorld → Prop}
    (hG : Held (backend cfg) rules outline p Aside G) (hu : UnrestrictedSince p userId s)
    (hs : G s) :
    Meets (backend cfg) rules outline p (UsersService.reactivateUser userId options)
    (fun _ t => G t) s := by
  have hF : Held (backend cfg) rules outline p Aside fun s => UnrestrictedSince p userId s ∧ G s :=
    Held.and unrestricted_held hG
  refine Meets.held hF (fun _ => rfl) (fun _ _ _ _ _ => pre_other rfl) outline_kept ⟨hu,
    hs⟩ (fun _ _ h => h.2)
    fun row t _ ht => ?_
  cases row with
  | none => exact Meets.throw hG.stable ht.2 fun _ h _ => h
  | some u =>
    refine Meets.throwIf (fun _ => Meets.throw hG.stable ht.2 fun _ h _ => h) fun _ => ?_
    refine Meets.held hF (fun _ => rfl) (fun t d _ ht ha => write_allowed (fun v hv => ?_) ha ht.1)
      outline_kept ht
      (fun _ _ h => h.2) fun _ t _ ht => ?_
    · cases hact : options.actorType <;> simp_all [Statement.disregards]
    · have masterKey : (await (.redis (.write (.del (.masterKey userId))))).Calls
          fun q => Aside q ∧ q.disregards = none := .await ⟨fun _ => rfl, rfl⟩
      exact Meets.heldCalls hG masterKey (fun _ h => h.1) (fun t q _ h _ _ _ => pre_other h.2) ht.2

theorem reactivateUser_follows {options : ReactivationOptions} (hu : UnrestrictedSince p userId s) :
    Follows (backend cfg) rules outline p (UsersService.reactivateUser userId options) s :=
  reactivateUser_meets (Held.const True) hu trivial

theorem requestAccountDeletion_follows {password : String} (hu : UnrestrictedSince p userId s) :
    Follows (backend cfg) rules outline p (UsersService.requestAccountDeletion cfg userId password)
      s := by
  refine follows_aside rfl (fun _ => rfl) hu fun row t _ ht => ?_
  cases row with
  | none => exact Follows.throw
  | some u =>
    refine Follows.throwIf fun _ => Follows.throwIf fun _ => ?_
    refine follows_aside rfl (fun _ => rfl) ht fun _ t _ ht => Follows.throwIf fun _ => ?_
    refine follows_aside rfl (fun _ => rfl) ht fun now t _ ht => ?_
    refine Meets.held unrestricted_held (fun _ => rfl) (fun t d _ ht ha => write_allowed ?_ ha ht)
      outline_kept ht
      (fun _ _ _ => trivial) fun _ t hi _ => ?_
    · intro v hv
      exact (Option.some.inj hv).symm
    · exact Quiet.follows quiet_others (.bind (await_plain rfl) fun _ => trivial) hi

/-- The guard lets a request in for an active user. -/
theorem guarded_requestAccountDeletion_safe {payload : TokenPayload} {password : String} :
    Safe (backend cfg) rules outline
      (Operation.program cfg (.requestAccountDeletion payload password)) := by
  intro p s _
  simp only [Operation.program, Operation.guarded, JwtStrategy.validate, Prog.bind_eq, Prog.pure_eq,
    Prog.bind_assoc]
  refine follows_read fun row t hi hid ht => ?_
  cases row with
  | none => exact Follows.throw
  | some u =>
    simp only [Prog.bind_assoc, Prog.ret_bind]
    refine Follows.throwIf fun _ => Follows.throwIf fun hactive => ?_
    have hst : u.status = .active := by simpa using hactive
    have hu : UnrestrictedSince p u.id t := hid u rfl ▸ ht u rfl (by simp [hst])
    exact Follows.bind outline_kept hi (F := fun _ => True) (requestAccountDeletion_follows hu)
      fun _ _ _ _ => Follows.ret

theorem preparePendingDeletionLogin_safe (userId : Id) :
    Safe (backend cfg) rules outline (UsersService.preparePendingDeletionLogin userId) := by
  intro p s _
  refine follows_read fun row t hi hid ht => ?_
  cases row with
  | none => exact Follows.ret
  | some u =>
    refine Follows.ite (fun _ => Follows.ret) fun hp => ?_
    have hst : u.status = .pending := by simpa using hp
    refine follows_aside rfl (fun _ => rfl) (ht u rfl (by simp [hst])) fun request t hi ht => ?_
    cases request with
    | some request =>
      exact Quiet.follows quiet_others (.bind (await_plain rfl) fun _ =>
        .ite (.bind (UsersService.finalizePendingDeletion_calls (by decide)) fun _ =>
          trivial) trivial) hi
    | none =>
      exact Follows.bind outline_kept hi (F := fun _ => True)
        (reactivateUser_follows ((hid u rfl).symm ▸ ht)) fun _ _ _ _ => Follows.ret

theorem reactivatePendingAccount_safe (userId requestId : Id) :
    Safe (backend cfg) rules outline (UsersService.reactivatePendingAccount userId requestId) := by
  intro p s _
  refine follows_read fun row t _ _ ht => ?_
  cases row with
  | none => exact Follows.throw
  | some u =>
    refine Follows.throwIf fun _ => Follows.ite (fun _ => Follows.ret) fun _ =>
      Follows.throwIf fun hp => ?_
    have hst : u.status = .pending := by simpa using hp
    refine follows_aside rfl (fun _ => rfl) (ht u rfl (by simp [hst])) fun request t _ ht => ?_
    cases request with
    | none => exact Follows.throw
    | some request =>
      refine Follows.throwIf fun _ => follows_aside rfl (fun _ => rfl) ht fun now t hi ht => ?_
      refine Follows.ite (fun _ => ?_) fun _ => reactivateUser_follows ht
      exact Quiet.follows quiet_others
        (.bind (UsersService.finalizePendingDeletion_calls (by decide)) fun _ => trivial) hi

/-- Only an open restriction can be in force. -/
theorem nothingBut_of_mem {r₀ : UserRestriction} (hi : outline.inv s)
    (hmem : r₀ ∈ s.store.db.restrictions) (hu : r₀.userId = userId) (ho : r₀.isOpen = true) :
    NothingBut r₀ userId s := by
  intro r hst
  by_cases hexp : r.isExpiredBan s.store.clock = true
  · exact .inl hexp
  · exact .inr ((hi userId r hst (Bool.not_eq_true _ ▸ hexp)).unique r₀ hmem hu ho).symm

theorem NothingBut.unrestricted {r₀ : UserRestriction} (h : NothingBut r₀ userId s)
    (hexp : r₀.isExpiredBan s.store.clock = true) : Unrestricted userId s := by
  intro r hr
  rcases h r hr with h | rfl
  · exact h
  · exact hexp

/-- The ban that is read is the only one that can be in force, and it has run out. -/
theorem assertBanExpired_safe (userId : Id) :
    Safe (backend cfg) rules outline (UsersService.assertBanExpired cfg userId) := by
  intro p s _
  refine Follows.await (Stable.const True) trivial fun t _ hi d ha =>
    ⟨pre_other rfl, fun r₀ hr => ?_⟩
  cases delivered_of_allowed ha
  have hread : t.store.db.activeRestriction userId .ban = r₀ := Except.ok.inj hr
  have hi' : outline.inv ((backend cfg).after .delivered p (.query (.activeRestriction userId .ban))
    t) :=
    Outline.Kept.after outline_kept hi ha (pre_other rfl)
  cases r₀ with
  | none =>
    refine Follows.await (Stable.const True) trivial fun t _ _ d _ => ⟨pre_other rfl, fun _ _ => ?_⟩
    exact Follows.throw
  | some r₀ =>
    obtain ⟨hmem, hu, _, ho⟩ := Database.activeRestriction_some hread
    have hbut : Unless p (decides userId) (restricts userId) (NothingBut r₀ userId)
        ((backend cfg).after .delivered p (.query (.activeRestriction userId .ban)) t) :=
      .inl (nothingBut_of_mem hi' hmem hu ho)
    refine Follows.await (Survives.stable nothingBut_survives) hbut fun t ht hi d ha =>
      ⟨pre_other rfl, fun now hr => ?_⟩
    have ht' : Unless p (decides userId) (restricts userId) (NothingBut r₀ userId)
        ((backend cfg).after d p .now t) :=
      Survives.own nothingBut_survives hi ha (pre_other rfl) rfl ht
    cases delivered_of_allowed ha
    have hnow : t.store.clock = now := Except.ok.inj hr
    refine Follows.ite (fun hexp =>
      reactivateUser_follows (ht'.imp_left fun h => h.unrestricted ?_))
      fun _ => Follows.throw
    rw [after_delivered, clock_deliver, hnow]
    simpa using hexp

/-- Every ban of the job's list had run out when the job began. -/
theorem processExpiredRestrictions_safe :
    Safe (backend cfg) rules outline UsersService.processExpiredRestrictions := by
  intro p s _
  refine Follows.await (Stable.const True) trivial fun t _ hi d ha =>
    ⟨pre_other rfl, fun bans hr => ?_⟩
  cases delivered_of_allowed ha
  have hread : t.store.db.expiredBans t.store.clock = bans := Except.ok.inj hr
  have hi' : outline.inv ((backend cfg).after .delivered p (.query .expiredBans) t) :=
    Outline.Kept.after outline_kept hi ha (pre_other rfl)
  have hF : Held (backend cfg) rules outline p Aside fun s =>
      ∀ r : { r : UserRestriction // r ∈ bans }, UnrestrictedSince p r.1.userId s :=
    Held.all fun _ => unrestricted_held
  refine Meets.mono (Meets.forEach outline_kept hF.stable (fun r hr s hs _ => ?_) hi' fun r =>
    .inl ?_)
    fun _ _ _ _ => trivial
  · exact reactivateUser_meets hF (hs ⟨r, hr⟩) hs
  · have hmem : r.1 ∈ t.store.db.expiredBans t.store.clock := hread ▸ r.2
    simp only [Database.expiredBans, List.mem_filter, Bool.and_eq_true] at hmem
    obtain ⟨hmem, ho, hexp⟩ := hmem
    exact (nothingBut_of_mem hi' hmem rfl ho).unrestricted hexp

/-- An administrator's reactivation disregards nobody's restriction. -/
theorem setActive_calls {adminId userId : Id} {dto : UpdateAdminUserStatusDto} :
    (AdminUsersService.setActive adminId userId dto).Calls fun q => q.disregards = none :=
  .bind (.bind (.await rfl) fun
    | none => trivial
    | some _ => trivial) fun _ => .bind .throwIf fun _ => .bind (.await rfl) fun _ => .await rfl

theorem updateUserStatus_safe {adminId userId : Id} {dto : UpdateAdminUserStatusDto} :
    Safe (backend cfg) rules outline (AdminUsersService.updateUserStatus adminId userId dto) := by
  refine Quiet.plain outline_kept quiet_others rfl fun row => ?_
  cases row with
  | none => exact .throw
  | some u =>
    refine .throwIf (.bind outline_kept ?_ fun _ =>
      Quiet.safe quiet_others AdminUsersService.findUserOrThrow_calls)
    unfold AdminUsersService.setStatus
    cases dto.status with
    | active => exact Safe.calls setActive_calls fun _ _ _ _ h _ _ => pre_other h
    | locked =>
      exact Quiet.safe quiet_others (.bind .throwIf fun _ =>
        .bind (await_kind .restrict rfl (by decide)) fun _ =>
        await_plain rfl)
    | banned =>
      exact Quiet.safe quiet_others (.bind .throwIf fun _ => .bind .throwIf fun _ =>
        .bind (await_plain rfl) fun _ =>
        .bind (await_kind .restrict rfl (by decide)) fun _ => await_plain rfl)
    | deleted => exact Quiet.safe quiet_others (AdminUsersService.setDeleted_calls (by decide))

theorem program_safe (op : Operation) : Safe (backend cfg) rules outline (op.program cfg) := by
  have check (user : User) : Safe (backend cfg) rules outline
      (UsersService.assertUserCanLogin cfg user) :=
    assertUserCanLogin_safe outline_kept quiet_others preparePendingDeletionLogin_safe
      assertBanExpired_safe user
  cases op with
  | login dto =>
    exact loginOutcome_safe outline_kept (login_safe outline_kept quiet_others (by decide)
      preparePendingDeletionLogin_safe check dto)
  | refreshToken payload =>
    exact .bind outline_kept (refreshToken_safe outline_kept quiet_others (by decide)
      (by decide) check _ _)
      fun _ => .ret
  | reactivateAccount payload =>
    exact .bind outline_kept (reactivateAccount_safe outline_kept quiet_others
      reactivatePendingAccount_safe payload) fun _ => .ret
  | requestAccountDeletion payload password => exact guarded_requestAccountDeletion_safe
  | processExpiredRestrictions =>
    exact .bind outline_kept processExpiredRestrictions_safe fun _ => .ret
  | updateUserStatus payload userId dto =>
    simp only [Operation.program, Prog.bind_eq, Prog.pure_eq]
    exact adminGuarded_safe outline_kept quiet_others fun _ =>
      .bind outline_kept updateUserStatus_safe fun _ => .ret
  | _ => exact Quiet.program quiet_others (by simp [Operation.footprint, others])

end Restrictions

open Restrictions

/-- In every state, the restriction that stands against a user is unresolved and
gives him his status, until it is a ban that has run out. -/
def RestrictionsStick (cfg : Config) (R : BackendRules) (w : World) : Prop :=
  ∀ as s userId r, (backend cfg).run R (.initial w) as = some s →
    standing userId s.shared.log = some r → r.isExpiredBan s.shared.store.clock = false →
    s.shared.store.db.statusOf userId = some r.type.status ∧
    r ∈ s.shared.store.db.restrictions ∧ r.resolvedAt = none

/-- Restrictions stick in the runs where none is set between a decision to disregard it and the
write. -/
theorem restrictions_stick (cfg : Config) (w : World) :
    RestrictionsStick cfg Restrictions.rules w := by
  intro as s userId r h hst hexp
  have hr : s.Respects (backend cfg) Restrictions.rules outline fun _ _ _ _ => True :=
    Safe.run outline_kept program_safe (by intro userId r h; simp [standing, Shared.initial] at h) h
  have hforce := hr.inv userId r hst hexp
  exact ⟨hforce.status, hforce.mem, by simpa [UserRestriction.isOpen] using hforce.open_⟩

namespace Restrictions

def permanentBan : UpdateAdminUserStatusDto := ⟨"abuse", .banned, some true, none⟩
def dayBan : UpdateAdminUserStatusDto := ⟨"abuse", .banned, none, some 1⟩

/-- The user's request for deletion has passed its checks when an administrator bans him. -/
def banBetween : List BackendAction :=
  .start (.requestAccountDeletion demoToken "secret") :: calls 2 4 ++
  .start (.updateUserStatus demoAdminToken 1 permanentBan) :: calls 3 4 ++ calls 2 1

/-- A ban for a day, and an attempt to log in. -/
def bannedLogin : List BackendAction :=
  .start (.updateUserStatus demoAdminToken 1 dayBan) :: calls 2 4 ++
  .start (.login ⟨"alice", "secret"⟩) :: calls 3 5

/-- An unexpired restriction stands while the user has the given status. -/
def stands (s : BackendPool) (status : UserStatus) : Bool :=
  (standing 1 s.shared.log).any fun r => !r.isExpiredBan s.shared.store.clock &&
    decide (s.shared.store.db.statusOf 1 = some status)

end Restrictions

/-- The request for deletion lifts the ban. -/
theorem request_lifts_ban : ¬ RestrictionsStick demoConfig allRequests demoWorld := by
  have key : ((demoRun allRequests banBetween).any fun s => stands s .pending) = true := by
    decide +kernel
  intro h
  obtain ⟨s, hs, hst⟩ := (Option.any_eq_true _ _).mp key
  obtain ⟨r, hr, hx⟩ := (Option.any_eq_true _ _).mp hst
  simp only [Bool.and_eq_true, Bool.not_eq_true', decide_eq_true_eq] at hx
  have := (h _ s 1 r hs hr hx.1).1
  rw [hx.2] at this
  cases ht : r.type <;> simp [ht, UserRestrictionType.status] at this

/-- A run of the kind the theorem is about: the ban of a day stands while the user tries to log in.
-/
theorem restrictions_stick_demo : ∃ s r, demoRun Restrictions.rules bannedLogin = some s ∧
    standing 1 s.shared.log = some r ∧ s.shared.store.db.statusOf 1 = some r.type.status ∧
    r.resolvedAt = none := by
  have key : ((demoRun Restrictions.rules bannedLogin).any fun s => stands s .banned) = true := by
    decide +kernel
  obtain ⟨s, hs, hst⟩ := (Option.any_eq_true _ _).mp key
  obtain ⟨r, hr, hx⟩ := (Option.any_eq_true _ _).mp hst
  simp only [Bool.and_eq_true, Bool.not_eq_true'] at hx
  obtain ⟨hstatus, _, hopen⟩ := restrictions_stick demoConfig demoWorld _ s 1 r hs hr hx.1
  exact ⟨s, r, hs, hr, hstatus, hopen⟩

end Redbox
