import Redbox.Accounts.AccountFootprints

/-! Registrations that overlap with one another and with the invalidation of their code. -/
namespace Redbox
open Interleaving

namespace Statement

/-- What a statement makes of the row of a code. -/
def onCode (w : Statement) (c : InviteCode) : InviteCode :=
  match w with
  | .reactivate userId _ _ _ _ _ =>
    if c.userId = some userId ∧ 0 < c.usage then { c with isValid := true } else c
  | .lock userId _ _ _ | .ban userId _ _ _ _ _ =>
    if c.userId = some userId ∧ 0 < c.usage then { c with isValid := false } else c
  | _ => c

end Statement

namespace AccountRequest

def onCode (q : AccountRequest) (c : InviteCode) : InviteCode :=
  match q with
  | .backend (.statement w) => w.onCode c
  | .registerUser inviteId _ => if c.id = inviteId then { c with usage := c.usage - 1 } else c
  | .setInviteCodeValidity invite isValid _ =>
    if c.id = invite.id then { c with isValid := isValid } else c
  | _ => c

end AccountRequest

namespace AccountEvent

/-- The code that a registration has read. -/
def readCode (e : AccountEvent) : Option InviteCode :=
  match e with
  | ⟨_, .inviteCode _, .ok c⟩ => c
  | _ => none

/-- A registration with the code has been committed. -/
def registers (inviteId : Id) (e : AccountEvent) : Bool :=
  match e with
  | ⟨_, .registerUser id _, .ok _⟩ => id == inviteId
  | _ => false

/-- The validity that a code with uses left has been given. -/
def validates (c : InviteCode) (e : AccountEvent) : Option Bool :=
  match e with
  | ⟨_, .setInviteCodeValidity invite isValid _, .ok _⟩ =>
    if c.id = invite.id then some isValid else none
  | ⟨_, .backend (.statement (.reactivate userId _ _ _ _ _)), .ok _⟩ =>
    if c.userId = some userId then some true else none
  | ⟨_, .backend (.statement (.lock userId _ _ _)), .ok _⟩ =>
    if c.userId = some userId then some false else none
  | ⟨_, .backend (.statement (.ban userId _ _ _ _ _)), .ok _⟩ =>
    if c.userId = some userId then some false else none
  | _ => none

/-- The code that has been created. -/
def createdCode (e : AccountEvent) : Option InviteCode :=
  match e with
  | ⟨_, .createAdminInviteCode _ _ _ _, .ok c⟩ => some c
  | ⟨_, .backend (.statement (.createInviteCode _ _)), .ok c⟩ => some c
  | _ => none

end AccountEvent

open AccountEvent

def accountsWith (inviteId : Id) (log : List AccountEvent) : Nat := log.countP (registers inviteId)

/-- The validity of the code after the events, where it has uses left. -/
def validAfter (c : InviteCode) (log : List AccountEvent) : Bool :=
  (log.findSome? (validates c)).getD c.isValid

/-- The last code that the process read, and what has happened since. -/
def lastRead (p : Nat) (log : List AccountEvent) : Option InviteCode :=
  log.findSome? fun e => if e.pid = p then readCode e else none

def sinceRead (p : Nat) (log : List AccountEvent) : List AccountEvent :=
  sinceOwn p (fun e => (readCode e).isSome) log

namespace InviteCodes

/-- A registration commits only if, since it read its code, fewer registrations with the code have
been committed than it then had uses, and the code has not been invalidated for good. -/
def gapClosed (s : SharedAccounts) (p : Nat) (q : AccountRequest) : Bool :=
  match q, lastRead p s.log with
  | .registerUser _ _, some c =>
    decide ((accountsWith c.id (sinceRead p s.log) : Int) < c.usage) &&
      validAfter c (sinceRead p s.log)
  | _, _ => true

def rules : AccountRules := accountRules.also fun s p q _ => gapClosed s p q

end InviteCodes

/-- The code was created with so many uses. -/
def CreatedWith (w : World) (log : List AccountEvent) (inviteId : Id) (usage : Int) : Prop :=
  (∃ c ∈ w.db.inviteCodes, c.id = inviteId ∧ c.usage = usage) ∨
  ∃ e ∈ log, ∃ c, createdCode e = some c ∧ c.id = inviteId ∧ c.usage = usage

/-- The codes of the world have names that were drawn before, different ones, and no negative usage.
-/
structure CodesDrawn (w : World) : Prop where
  drawn : ∀ c ∈ w.db.inviteCodes, c.id < w.nextId
  unique : ∀ c ∈ w.db.inviteCodes, ∀ d ∈ w.db.inviteCodes, c.id = d.id → c = d
  nonneg : ∀ c ∈ w.db.inviteCodes, 0 ≤ c.usage

/-- In every run no usage is negative, no code makes more accounts than the usage it was created
with, and no registration is committed while its code is invalid. -/
def NotOverspent (cfg : Config) (R : AccountRules) (w : World) : Prop :=
  ∀ as s, (accounts cfg).run R (.initial w) as = some s →
    (∀ c ∈ s.shared.store.db.inviteCodes, 0 ≤ c.usage) ∧
    (∀ inviteId usage, CreatedWith w s.shared.log inviteId usage →
      (accountsWith inviteId s.shared.log : Int) ≤ usage) ∧
    ∀ a s' e, (accounts cfg).step R s a = some s' → s'.shared.log = e :: s.shared.log →
      ∀ c ∈ s.shared.store.db.inviteCodes, registers c.id e = true → c.isValid = true


namespace AccountEvent

/-- What an event makes of the row of a code. -/
def onCode (e : AccountEvent) (c : InviteCode) : InviteCode :=
  if e.resp.isOk then e.req.onCode c else c

variable (e : AccountEvent) (c : InviteCode)

theorem onCode_id : (e.onCode c).id = c.id := by
  unfold onCode AccountRequest.onCode Statement.onCode
  repeat' split
  all_goals rfl

theorem onCode_userId : (e.onCode c).userId = c.userId := by
  unfold onCode AccountRequest.onCode Statement.onCode
  repeat' split
  all_goals rfl

theorem onCode_error {p : Nat} {q : AccountRequest} {f : Thrown} :
    onCode ⟨p, q, .error f⟩ c = c := rfl

theorem onCode_ok {p : Nat} {q : AccountRequest} {a : q.Answer} :
    onCode ⟨p, q, .ok a⟩ c = q.onCode c := rfl

theorem statement_usage (w : Statement) : (w.onCode c).usage = c.usage := by
  unfold Statement.onCode
  repeat' split
  all_goals rfl

/-- Only registrations spend uses. -/
theorem onCode_usage : (e.onCode c).usage + (if registers c.id e then 1 else 0) = c.usage := by
  obtain ⟨p, q, r⟩ := e
  cases r with
  | error f =>
    rw [onCode_error]
    cases q <;> simp [registers]
  | ok a =>
    rw [onCode_ok]
    cases q with
    | registerUser inviteId new =>
      by_cases h : c.id = inviteId
      · simp [AccountRequest.onCode, registers, h]
      · have h' : inviteId ≠ c.id := fun he => h he.symm
        simp [AccountRequest.onCode, registers, h, h']
    | setInviteCodeValidity invite isValid adminUserId =>
      simp only [AccountRequest.onCode, registers]
      split <;> simp
    | backend q =>
      have hregisters : registers c.id ⟨p, .backend q, .ok a⟩ = false := rfl
      simp only [hregisters, Bool.false_eq_true, reduceIte, Int.add_zero]
      cases q with
      | statement w => exact statement_usage c w
      | _ => rfl
    | _ => simp [AccountRequest.onCode, registers]

/-- The validity of a code that has uses left. -/
theorem onCode_isValid (h : 0 < (e.onCode c).usage) :
    (e.onCode c).isValid = (validates c e).getD c.isValid := by
  obtain ⟨p, q, r⟩ := e
  cases r with
  | error f =>
    rw [onCode_error]
    cases q with
    | backend q =>
      cases q with
      | statement w => cases w <;> rfl
      | _ => rfl
    | _ => rfl
  | ok a =>
    rw [onCode_ok] at h ⊢
    cases q with
    | registerUser inviteId new =>
      simp only [AccountRequest.onCode, validates]
      split <;> rfl
    | setInviteCodeValidity invite isValid adminUserId =>
      simp only [AccountRequest.onCode, validates]
      split <;> rfl
    | backend q =>
      cases q with
      | statement w =>
        change 0 < (w.onCode c).usage at h
        rw [statement_usage] at h
        change (w.onCode c).isValid = _
        -- a status change spares codes without uses
        cases w with
        | lock userId adminUserId reason status =>
          simp only [Statement.onCode, validates, h, and_true]
          split <;> rfl
        | ban userId adminUserId reason isPermanent expiresAt status =>
          simp only [Statement.onCode, validates, h, and_true]
          split <;> rfl
        | reactivate userId actorType adminUserId action reason status =>
          simp only [Statement.onCode, validates, h, and_true]
          split <;> rfl
        | _ => rfl
      | _ => rfl
    | _ => rfl

end AccountEvent

namespace Database
variable {cfg : Config} {db db' : Database} {now : Time} {fresh : Id} {w : Statement} {a : w.Answer}

theorem mem_setInviteCodesValidity {userId : Id} {isValid : Bool} {c' : InviteCode}
    (hc : c' ∈ (db.setInviteCodesValidity userId isValid).inviteCodes) :
    ∃ c ∈ db.inviteCodes, c' = if c.userId = some userId ∧ 0 < c.usage then { c with isValid :=
      isValid } else c := by
  obtain ⟨c, hmem, rfl⟩ := List.mem_map.mp hc
  refine ⟨c, hmem, ?_⟩
  simp only [Bool.and_eq_true, beq_iff_eq, decide_eq_true_eq]

/-- Each code after a statement was there before it, or is the one that it created. -/
theorem mem_inviteCodes_perform (h : db.perform cfg now fresh w = .ok (db', a)) {c' : InviteCode}
    (hc : c' ∈ db'.inviteCodes) :
    (∃ c ∈ db.inviteCodes, c' = w.onCode c) ∨
    ∃ userId code, w = .createInviteCode userId code ∧
    c' = ⟨fresh, code, 1, true, some userId, none, false⟩ := by
  have hdb := perform_result h
  subst hdb
  cases w with
  | reactivate userId actorType adminUserId action reason status =>
    exact .inl (mem_setInviteCodesValidity hc)
  | lock userId adminUserId reason status => exact .inl (mem_setInviteCodesValidity hc)
  | ban userId adminUserId reason isPermanent expiresAt status =>
    exact .inl (mem_setInviteCodesValidity hc)
  | markDeleted userId actorType adminUserId action reason status requestId =>
    exact .inl ⟨c', List.mem_of_mem_filter hc, rfl⟩
  | createInviteCode userId code =>
    obtain ⟨_, _, ha⟩ := perform_bind h
    rcases List.mem_cons.mp hc with rfl | hc
    · exact .inr ⟨userId, code, rfl, congrArg Prod.snd ha⟩
    · exact .inl ⟨c', hc, rfl⟩
  | swapSessionKey table id key =>
    refine .inl ⟨c', ?_, rfl⟩
    change c' ∈ (db.swapSessionKey table id key fresh).1.inviteCodes at hc
    rw [swapSessionKey] at hc
    split at hc
    · cases table <;> exact hc
    · exact hc
  | rotateSessionKey table id => cases table <;> exact .inl ⟨c', hc, rfl⟩
  | upsertBlockedSender userId email =>
    refine .inl ⟨c', ?_, rfl⟩
    rw [result] at hc
    split at hc <;> exact hc
  | _ => exact .inl ⟨c', hc, rfl⟩

end Database

namespace World
variable {cfg : Config} {s : World} {p : Nat} {c : InviteCode}

theorem mem_inviteCodes_backend {q : Request} {c' : InviteCode}
    (hc : c' ∈ (s.deliver cfg q).1.db.inviteCodes) :
    (∃ c ∈ s.db.inviteCodes, c' = AccountEvent.onCode ⟨p, .backend q, (s.deliver cfg q).2⟩ c) ∨
    createdCode ⟨p, .backend q, (s.deliver cfg q).2⟩ = some c' := by
  cases q with
  | statement w =>
    simp only [deliver] at hc ⊢
    cases h : s.db.perform cfg s.clock s.nextId w with
    | ok r =>
      rw [h] at hc
      rcases Database.mem_inviteCodes_perform h hc with ⟨c, hmem, rfl⟩ | ⟨userId, code, rfl, rfl⟩
      · exact .inl ⟨c, hmem, rfl⟩
      · obtain ⟨_, _, ha⟩ := Database.perform_bind h
        exact .inr (congrArg some (congrArg Prod.snd ha))
    | error e =>
      rw [h] at hc
      exact .inl ⟨c', hc, rfl⟩
  | s3 name q =>
    refine .inl ⟨c', ?_, ?_⟩
    · simp only [deliver] at hc
      split at hc
      · cases name <;> exact hc
      · exact hc
    · cases (s.deliver cfg (.s3 name q)).2 <;> rfl
  | _ => exact .inl ⟨c', hc, by cases (s.deliver cfg _).2 <;> rfl⟩

/-- Each code after a call was there before it, or is the one that the call created. -/
theorem mem_inviteCodes_deliver {q : AccountRequest} {c' : InviteCode}
    (hc : c' ∈ (s.deliverAccount cfg q).1.db.inviteCodes) :
    (∃ c ∈ s.db.inviteCodes, c' = AccountEvent.onCode ⟨p, q, (s.deliverAccount cfg q).2⟩ c) ∨
    createdCode ⟨p, q, (s.deliverAccount cfg q).2⟩ = some c' := by
  by_cases hq : q.isNew = true
  · rcases s.deliverAccount_cases cfg hq with ⟨a, ha, hp, h⟩ | ⟨e, he, h⟩
    · rw [h] at hc
      rw [ha]
      cases q with
      | registerUser inviteId new =>
        obtain ⟨c, hmem, rfl⟩ := List.mem_map.mp hc
        exact .inl ⟨c, hmem, by simp only [beq_iff_eq]; rfl⟩
      | setInviteCodeValidity invite isValid adminUserId =>
        obtain ⟨c, hmem, rfl⟩ := List.mem_map.mp hc
        exact .inl ⟨c, hmem, by simp only [beq_iff_eq]; rfl⟩
      | createAdminInviteCode code usage isValid adminUserId =>
        rcases List.mem_cons.mp hc with rfl | hc
        · exact .inr (congrArg some hp)
        · exact .inl ⟨c', hc, rfl⟩
      | deleteInviteCode invite adminUserId => exact .inl ⟨c', List.mem_of_mem_filter hc, rfl⟩
      | backend q => cases hq
      | _ => exact .inl ⟨c', hc, rfl⟩
    · rw [h] at hc
      exact .inl ⟨c', hc, by rw [he]; rfl⟩
  · cases q with
    | backend q => exact mem_inviteCodes_backend hc
    | _ => exact absurd rfl hq

theorem createdCode_deliver {q : AccountRequest}
    (h : createdCode ⟨p, q, (s.deliverAccount cfg q).2⟩ = some c) :
    c.id = s.nextId ∧ 0 ≤ c.usage ∧ s.nextId < (s.deliverAccount cfg q).1.nextId := by
  cases q with
  | backend q =>
    cases q with
    | statement w =>
      change createdCode ⟨p, .backend (.statement w), (s.deliver cfg (.statement w)).2⟩ =
        some c at h
      change _ ∧ _ ∧ s.nextId < (s.deliver cfg (.statement w)).1.nextId
      simp only [deliver] at h ⊢
      cases hw : s.db.perform cfg s.clock s.nextId w with
      | ok r =>
        rw [hw] at h
        cases w with
        | createInviteCode userId code =>
          obtain ⟨_, _, ha⟩ := Database.perform_bind hw
          obtain rfl := Option.some.inj h
          rw [congrArg Prod.snd ha]
          exact ⟨rfl, Int.one_nonneg, by simp⟩
        | _ => cases h
      | error e =>
        rw [hw] at h
        cases w <;> cases h
    | _ => cases h
  | createAdminInviteCode code usage isValid adminUserId =>
    rcases s.deliverAccount_cases cfg (q :=
      .createAdminInviteCode code usage isValid adminUserId) rfl with
      ⟨a, ha, hp, hs⟩ | ⟨e, he, hs⟩
    · rw [ha] at h
      obtain rfl := Option.some.inj h
      rw [hs]
      obtain rfl := hp
      exact ⟨rfl, Int.natCast_nonneg _, Nat.lt_add_of_pos_right (Nat.succ_pos 2)⟩
    · rw [he] at h
      cases h
  | _ => cases h

theorem registers_deliver {q : AccountRequest} {inviteId : Id}
    (h : registers inviteId ⟨p, q, (s.deliverAccount cfg q).2⟩ = true) :
    (∃ new, q = .registerUser inviteId new) ∧ ∃ c ∈ s.db.inviteCodes, c.id = inviteId := by
  cases q with
  | registerUser id new =>
    rcases s.deliverAccount_cases cfg (q := .registerUser id new) rfl with ⟨a, ha, hp,
      hs⟩ | ⟨e, he, hs⟩
    · rw [ha] at h
      obtain rfl : id = inviteId := beq_iff_eq.mp h
      exact ⟨⟨new, rfl⟩, hp.2.1⟩
    · rw [he] at h
      cases h
  | _ => cases h

theorem readCode_deliver {q : AccountRequest}
    (h : readCode ⟨p, q, (s.deliverAccount cfg q).2⟩ = some c) :
    c ∈ s.db.inviteCodes ∧ (s.deliverAccount cfg q).1 = s := by
  cases q with
  | inviteCode code => exact ⟨List.mem_of_find?_eq_some h, rfl⟩
  | _ => cases h

end World
namespace InviteCodes

theorem accountsWith_cons (inviteId : Id) (e : AccountEvent) (log : List AccountEvent) :
    accountsWith inviteId (e :: log) = accountsWith inviteId log + if registers inviteId e then 1
      else 0 :=
  List.countP_cons

theorem validAfter_cons (c : InviteCode) (e : AccountEvent) (log : List AccountEvent) :
    validAfter c (e :: log) = (validates c e).getD (validAfter c log) := by
  rw [validAfter, List.findSome?_cons]
  cases validates c e <;> rfl

/-- Which code a validity is given to depends on its names alone. -/
theorem validates_congr {c d : InviteCode} (hid : d.id = c.id) (huser : d.userId = c.userId)
    (e : AccountEvent) :
    validates d e = validates c e := by
  unfold validates
  simp only [hid, huser]

theorem sinceRead_read {p : Nat} {e : AccountEvent} {log : List AccountEvent} (hp : e.pid = p)
    (h : (readCode e).isSome = true) : sinceRead p (e :: log) = [] := by
  rw [sinceRead, sinceOwn, List.takeWhile_cons, if_neg]
  rw [hp, beq_self_eq_true, h]
  decide

theorem sinceRead_other {p : Nat} {e : AccountEvent} {log : List AccountEvent}
    (h : ¬ (e.pid = p ∧ (readCode e).isSome = true)) :
    sinceRead p (e :: log) = e :: sinceRead p log := by
  rw [sinceRead, sinceOwn, List.takeWhile_cons, if_pos]
  · rfl
  · rw [Bool.not_eq_true', Bool.eq_false_iff, ne_eq, Bool.and_eq_true, beq_iff_eq]
    exact h

theorem lastRead_cons {p : Nat} {e : AccountEvent} {log : List AccountEvent} :
    lastRead p (e :: log) = (if e.pid = p then readCode e else none).or (lastRead p log) := by
  rw [lastRead, List.findSome?_cons]
  cases (if e.pid = p then readCode e else none) <;> rfl

/-- What a process knows of the code that it read: how often it has been spent since, and its
validity. -/
structure Tracked (c : InviteCode) (log : List AccountEvent) (d : InviteCode) : Prop where
  user : d.userId = c.userId
  usage : d.usage + accountsWith c.id log = c.usage
  valid : 0 < d.usage → d.isValid = validAfter c log

theorem Tracked.step {c d : InviteCode} {log : List AccountEvent} (h : Tracked c log d)
    (hid : d.id = c.id) (e : AccountEvent) : Tracked c (e :: log) (e.onCode d) := by
  have husage := e.onCode_usage d
  rw [hid] at husage
  refine ⟨(e.onCode_userId d).trans h.user, ?_, fun hpos => ?_⟩
  · rw [accountsWith_cons, ← h.usage, ← husage]
    split
    · omega
    · omega
  · rw [e.onCode_isValid d hpos, validAfter_cons, validates_congr hid h.user,
      h.valid (by split at husage <;> omega)]

/-- The invariant of all runs from `w`. -/
structure Inv (w : World) (s : SharedAccounts) : Prop where
  drawn : ∀ c ∈ s.store.db.inviteCodes, c.id < s.store.nextId
  unique : ∀ c ∈ s.store.db.inviteCodes, ∀ d ∈ s.store.db.inviteCodes, c.id = d.id → c = d
  nonneg : ∀ c ∈ s.store.db.inviteCodes, 0 ≤ c.usage
  unused : ∀ inviteId, s.store.nextId ≤ inviteId → accountsWith inviteId s.log = 0
  created : ∀ inviteId usage, CreatedWith w s.log inviteId usage → inviteId < s.store.nextId ∧
    (accountsWith inviteId s.log : Int) ≤ usage ∧
    ∀ c ∈ s.store.db.inviteCodes, c.id = inviteId → c.usage + accountsWith inviteId s.log = usage
  read : ∀ p c, lastRead p s.log = some c → c.id < s.store.nextId ∧
    ∀ d ∈ s.store.db.inviteCodes, d.id = c.id → Tracked c (sinceRead p s.log) d

/-- A registration has read its code, valid and with uses left. -/
def Registered (s : SharedAccounts) (p : Nat) : AccountRequest → Prop
  | .registerUser inviteId _ => ∃ c, lastRead p s.log = some c ∧ c.id = inviteId
  | _ => True

def outline (w : World) : Outline AccountRequest AccountReply World := ⟨Inv w, Registered⟩

section
variable {cfg : Config} {w : World} {s : SharedAccounts} {p : Nat} {q : AccountRequest}

/-- The code that a registration commits with is valid and has uses left. -/
theorem Inv.commits (hi : Inv w s) (hp : Registered s p q) (hgap : gapClosed s p q = true)
    {c : InviteCode} (hc : c ∈ s.store.db.inviteCodes)
    (hreg : registers c.id ⟨p, q, (s.store.deliverAccount cfg q).2⟩ = true) :
    0 < c.usage ∧ c.isValid = true := by
  obtain ⟨⟨new, rfl⟩, -⟩ := World.registers_deliver hreg
  obtain ⟨d, hread, hid⟩ := hp
  simp only [gapClosed, hread, Bool.and_eq_true, decide_eq_true_eq] at hgap
  have hcid : c.id = d.id := by
    obtain ⟨⟨new', hq⟩, -⟩ := World.registers_deliver hreg
    cases hq
    exact hid.symm
  have htracked := (hi.read p d hread).2 c hc hcid
  have hpos : 0 < c.usage := by
    have := htracked.usage
    omega
  exact ⟨hpos, (htracked.valid hpos).trans hgap.2⟩

/-- All that a call can do to the codes. -/
structure Change (s : SharedAccounts) (e : AccountEvent) (t : World) : Prop where
  next : s.store.nextId ≤ t.nextId
  codes : ∀ c' ∈ t.db.inviteCodes, (∃ c ∈ s.store.db.inviteCodes, c' = e.onCode c) ∨
    createdCode e = some c'
  created : ∀ c, createdCode e = some c → c.id = s.store.nextId ∧ 0 ≤ c.usage ∧
    s.store.nextId < t.nextId
  registers : ∀ inviteId, registers inviteId e = true → ∃ c ∈ s.store.db.inviteCodes,
    c.id = inviteId
  commits : ∀ c ∈ s.store.db.inviteCodes, AccountEvent.registers c.id e = true → 0 < c.usage
  read : ∀ c, readCode e = some c → c ∈ s.store.db.inviteCodes ∧ t = s.store

theorem Inv.change (hi : Inv w s) (hp : Registered s p q) (hgap : gapClosed s p q = true) :
    Change s ⟨p, q, (s.store.deliverAccount cfg q).2⟩ (s.store.deliverAccount cfg q).1 where
  next := World.nextId_deliverAccount cfg s.store q
  codes := fun _ hc => World.mem_inviteCodes_deliver hc
  created := fun _ hc => World.createdCode_deliver hc
  registers := fun _ h => (World.registers_deliver h).2
  commits := fun _ hc h => (hi.commits hp hgap hc h).1
  read := fun _ h => World.readCode_deliver h

namespace Change
variable {e : AccountEvent} {t : World} (h : Change s e t) (hi : Inv w s)
include h hi

/-- A created code has a new name. -/
theorem not_created {c c' : InviteCode} (hc : c ∈ s.store.db.inviteCodes)
    (hc' : createdCode e = some c') : c.id ≠ c'.id := by
  intro hid
  rw [(h.created c' hc').1] at hid
  exact absurd (hi.drawn c hc) (Nat.not_lt.mpr (Nat.le_of_eq hid.symm))

theorem drawn : ∀ c' ∈ t.db.inviteCodes, c'.id < t.nextId := by
  intro c' hc'
  rcases h.codes c' hc' with ⟨c, hc, rfl⟩ | hc
  · rw [e.onCode_id]
    exact Nat.lt_of_lt_of_le (hi.drawn c hc) h.next
  · rw [(h.created c' hc).1]
    exact (h.created c' hc).2.2

theorem unique : ∀ c' ∈ t.db.inviteCodes, ∀ d' ∈ t.db.inviteCodes, c'.id = d'.id → c' = d' := by
  intro c' hc' d' hd' hid
  rcases h.codes c' hc' with ⟨c, hc, rfl⟩ | hc <;> rcases h.codes d' hd' with ⟨d, hd, rfl⟩ | hd
  · rw [e.onCode_id, e.onCode_id] at hid
    rw [hi.unique c hc d hd hid]
  · rw [e.onCode_id] at hid
    exact absurd hid (h.not_created hi hc hd)
  · rw [e.onCode_id] at hid
    exact absurd hid.symm (h.not_created hi hd hc)
  · exact Option.some.inj (hc.symm.trans hd)

theorem nonneg : ∀ c' ∈ t.db.inviteCodes, 0 ≤ c'.usage := by
  intro c' hc'
  rcases h.codes c' hc' with ⟨c, hc, rfl⟩ | hc
  · have husage := e.onCode_usage c
    have hnonneg := hi.nonneg c hc
    split at husage
    · have := h.commits c hc ‹_›
      omega
    · omega
  · exact (h.created c' hc).2.1

/-- No account is made with a code that does not exist yet. -/
theorem unused : ∀ inviteId, s.store.nextId ≤ inviteId →
    accountsWith inviteId (e :: s.log) = 0 := by
  intro inviteId hle
  rw [accountsWith_cons, hi.unused inviteId hle, Nat.zero_add, if_neg]
  intro hreg
  obtain ⟨c, hc, rfl⟩ := h.registers inviteId hreg
  exact absurd (hi.drawn c hc) (Nat.not_lt.mpr hle)

theorem counted : ∀ inviteId usage, CreatedWith w (e :: s.log) inviteId usage →
    inviteId < t.nextId ∧
    (accountsWith inviteId (e :: s.log) : Int) ≤ usage ∧
    ∀ c ∈ t.db.inviteCodes, c.id = inviteId →
    c.usage + accountsWith inviteId (e :: s.log) = usage := by
  intro inviteId usage hw
  have hcases : CreatedWith w s.log inviteId usage ∨ ∃ c, createdCode e = some c ∧ c.id = inviteId ∧
      c.usage = usage := by
    rcases hw with hw | ⟨e', he', hw⟩
    · exact .inl (.inl hw)
    · rcases List.mem_cons.mp he' with rfl | he'
      · exact .inr hw
      · exact .inl (.inr ⟨e', he', hw⟩)
  rcases hcases with hold | ⟨c, hc, rfl, rfl⟩
  · obtain ⟨hlt, hle, hrows⟩ := hi.created inviteId usage hold
    refine ⟨Nat.lt_of_lt_of_le hlt h.next, ?_, fun c' hc' hid => ?_⟩
    · rw [accountsWith_cons]
      split
      · obtain ⟨c, hc, rfl⟩ := h.registers inviteId ‹_›
        have hpos := h.commits c hc ‹_›
        have hsum := hrows c hc rfl
        omega
      · exact hle
    · rcases h.codes c' hc' with ⟨c, hc, rfl⟩ | hc
      · rw [e.onCode_id] at hid
        have husage := e.onCode_usage c
        have hsum := hrows c hc hid
        rw [hid] at husage
        rw [accountsWith_cons]
        split at husage <;> simp only [*, reduceIte, Bool.false_eq_true] <;> omega
      · rw [← hid, (h.created c' hc).1] at hlt
        exact absurd hlt (Nat.lt_irrefl _)
  · obtain ⟨hid, hnonneg, hlt⟩ := h.created c hc
    have hzero := h.unused hi c.id (Nat.le_of_eq hid.symm)
    refine ⟨hid ▸ hlt, by rw [hzero]; exact hnonneg, fun c' hc' hid' => ?_⟩
    rcases h.codes c' hc' with ⟨d, hd, rfl⟩ | hd
    · rw [e.onCode_id] at hid'
      exact absurd hid' (h.not_created hi hd hc)
    · rw [Option.some.inj (hd.symm.trans hc), hzero]
      exact Int.add_zero _

theorem tracked : ∀ p c, lastRead p (e :: s.log) = some c → c.id < t.nextId ∧
    ∀ d ∈ t.db.inviteCodes, d.id = c.id → Tracked c (sinceRead p (e :: s.log)) d := by
  intro p c hlast
  rw [lastRead_cons] at hlast
  by_cases hmark : e.pid = p ∧ (readCode e).isSome = true
  · obtain ⟨hpid, hsome⟩ := hmark
    obtain ⟨c', hc'⟩ := Option.isSome_iff_exists.mp hsome
    rw [if_pos hpid, hc'] at hlast
    obtain rfl : c' = c := Option.some.inj hlast
    obtain ⟨hmem, rfl⟩ := h.read c' hc'
    refine ⟨hi.drawn c' hmem, fun d hd hid => ?_⟩
    obtain rfl := hi.unique d hd c' hmem hid
    rw [sinceRead_read hpid hsome]
    exact ⟨rfl, Int.add_zero _, fun _ => rfl⟩
  · have hold : lastRead p s.log = some c := by
      by_cases hpid : e.pid = p
      · have hnone : readCode e = none :=
          Option.not_isSome_iff_eq_none.mp fun hs => hmark ⟨hpid, hs⟩
        rwa [if_pos hpid, hnone, Option.none_or] at hlast
      · rwa [if_neg hpid, Option.none_or] at hlast
    obtain ⟨hlt, hrows⟩ := hi.read p c hold
    refine ⟨Nat.lt_of_lt_of_le hlt h.next, fun d' hd' hid => ?_⟩
    rw [sinceRead_other hmark]
    rcases h.codes d' hd' with ⟨d, hd, rfl⟩ | hd
    · rw [e.onCode_id] at hid
      exact (hrows d hd hid).step hid e
    · rw [← hid, (h.created d' hd).1] at hlt
      exact absurd hlt (Nat.lt_irrefl _)

theorem inv : Inv w ⟨t, e :: s.log⟩ :=
  ⟨h.drawn hi, h.unique hi, h.nonneg hi, fun id hle => h.unused hi id (Nat.le_trans h.next hle),
    h.counted hi, h.tracked hi⟩

end Change

theorem kept : (outline w).Kept (accounts cfg) rules := by
  refine ⟨fun {s p q d} hi ha hp => ?_,
    fun {s n} hi _ => ⟨hi.drawn, hi.unique, hi.nonneg, hi.unused, hi.created, hi.read⟩⟩
  simp only [rules, Rules.also, accountRules, Bool.and_eq_true, decide_eq_true_eq] at ha
  obtain ⟨rfl, hgap⟩ := ha
  rw [accounts_delivered]
  exact (hi.change hp hgap).inv hi

/-- Calls other than registrations may be made at any time. -/
def Free (q : AccountRequest) : Prop := ∀ s p, Registered s p q

theorem lift_free {α : Type} (x : Routine α) : (lift x).Calls Free := by
  refine lift_calls (P := fun _ => True) (fun q _ _ _ => trivial) ?_
  induction x with
  | ret a => trivial
  | throw e => trivial
  | call q k ih => exact ⟨trivial, fun r => ih r⟩

theorem free_safe {α : Type} {x : AccountRoutine α} (hx : x.Calls Free) :
    Safe (accounts cfg) rules (outline w) x :=
  .calls hx fun s p _ _ hq _ _ => hq s p

/-- The code that a process read is its own business. -/
theorem lastRead_stable {c : InviteCode} :
    Stable (accounts cfg) rules (outline w) p fun t => lastRead p t.log = some c := by
  intro t t' h ht
  cases h with
  | other ne =>
    rw [System.after, lastRead_cons, if_neg ne, Option.none_or]
    exact ht
  | drift => exact ht

/-- The process keeps it in mind over other calls. -/
theorem lastRead_lift {c : InviteCode} {α : Type} (x : Routine α) (h : lastRead p s.log = some c) :
    Meets (accounts cfg) rules (outline w) p (lift x) (fun _ t => lastRead p t.log = some c) s := by
  have hcalls : (lift x).Calls fun q => ∃ q', q = .backend q' := by
    induction x with
    | ret a => trivial
    | throw e => trivial
    | call q k ih => exact ⟨⟨q, rfl⟩, fun r => ih r⟩
  refine Meets.frame hcalls lastRead_stable (fun t q d hq _ _ ht => ?_) h
  obtain ⟨q', rfl⟩ := hq
  refine ⟨trivial, ?_⟩
  rw [System.after, lastRead_cons, if_pos rfl]
  exact ht

theorem storeRegistration_follows {c : InviteCode} {new : NewUser} {key : String} (hi : Inv w s)
    (h : lastRead p s.log = some c) :
    Follows (accounts cfg) rules (outline w) p (AuthService.storeRegistration c new key) s := by
  refine Meets.handle hi kept (Meets.mono (Q := fun _ _ => True) ?_ fun r t _ _ => ?_)
  · refine Follows.await lastRead_stable h fun t ht hi d ha => ⟨⟨c, ht, rfl⟩, fun a _ => ?_⟩
    have hpre : (outline w).pre t p (.registerUser c.id new) := ⟨c, ht, rfl⟩
    have hrest : (Prog.bind (lift (await
      (.redis (.write (.set (.masterKey a.id) (.text key) 86400))))) fun _ =>
        (.ret a : AccountRoutine User)).Calls Free := .bind (lift_free _) fun _ => trivial
    exact free_safe hrest p _ (Outline.Kept.after kept hi ha hpre)
  · cases r with
    | ok a => exact Follows.ret
    | error e => exact Follows.throw

/-- What is left of a registration once the code is read. -/
theorem registered_follows {c : InviteCode} {α β : Type} {x : Routine α} {f : α → AccountRoutine β}
    (hi : Inv w s) (h : lastRead p s.log = some c)
    (hf : ∀ a t, Inv w t → lastRead p t.log = some c →
      Follows (accounts cfg) rules (outline w) p (f a) t) :
    Follows (accounts cfg) rules (outline w) p ((lift x).bind f) s :=
  Follows.bind kept hi (lastRead_lift x h) hf

theorem register_safe (dto : RegisterUsersDto) :
    Safe (accounts cfg) rules (outline w) (AuthService.register cfg dto) := by
  intro p s hi
  refine Follows.await (Stable.const True) trivial fun t _ hi d ha => ⟨trivial, fun c hc => ?_⟩
  have hinv : Inv w ((accounts cfg).after d p (.inviteCode dto.inviteCode) t) :=
    Outline.Kept.after kept hi ha trivial
  cases c with
  | none => exact Follows.throw
  | some c =>
    have hread : lastRead p ((accounts cfg).after d p (.inviteCode dto.inviteCode) t).log =
        some c := by
      rw [System.after, lastRead_cons, if_pos rfl, hc]
      rfl
    refine Follows.throwIf fun _ => ?_
    refine registered_follows hinv hread fun bytes t hi h => ?_
    refine registered_follows hi h fun mkStore t hi h => ?_
    refine registered_follows hi h fun recoveryMkStore t hi h => ?_
    refine registered_follows hi h fun hashedRecoveryPhrase t hi h => ?_
    refine registered_follows hi h fun keyPair t hi h => ?_
    exact Follows.bind (F := fun _ => True) kept hi (storeRegistration_follows hi h)
      fun result t hi _ =>
      free_safe (lift_free _) p t hi

theorem harmless_free (q : Request) (_ : q.harmless = true) : Free (.backend q) :=
  fun _ _ => trivial

theorem body_safe (op : AccountOperation) :
    Safe (accounts cfg) rules (outline w) (op.body cfg) := by
  cases op with
  | base op => exact free_safe (lift_free _)
  | register dto => exact .bind kept (register_safe dto) fun _ => .ret
  | internalLogin dto => exact free_safe (lift_free _)
  | internalValidate payload => exact free_safe (lift_free _)
  | changeUsername payload userId newUsername reason =>
    exact free_safe (adminGuarded_calls harmless_free fun id =>
      changeUsername_calls harmless_free id userId newUsername reason fun _ _ _ => trivial)
  | clearUserData payload userId reason =>
    exact free_safe (adminGuarded_calls harmless_free fun id =>
      clearUserData_calls harmless_free id userId reason fun _ _ _ => trivial)
  | deleteUserFiles payload userId fileIds reason =>
    exact free_safe (adminGuarded_calls harmless_free fun id =>
      deleteUserFiles_calls harmless_free id userId fileIds reason fun _ _ _ _ => trivial)
  | createAdminInviteCode payload dto =>
    exact free_safe (adminGuarded_calls harmless_free fun id =>
      createInviteCode_calls harmless_free id dto fun _ _ _ _ _ => trivial)
  | deleteInviteCode payload inviteCodeId =>
    exact free_safe (adminGuarded_calls harmless_free fun id =>
      deleteInviteCode_calls id inviteCodeId (fun _ _ => trivial) fun _ _ _ => trivial)
  | updateInviteCodeValidity payload inviteCodeId isValid =>
    exact free_safe (adminGuarded_calls harmless_free fun id =>
      updateInviteCodeValidity_calls id inviteCodeId isValid (fun _ _ => trivial) fun _ _ _ =>
        trivial)

/-- Every operation respects the outline. -/
theorem program_safe (op : AccountOperation) :
    Safe (accounts cfg) rules (outline w) (op.program cfg) := by
  have hreceive : (Prog.call (.receive op) .ret : AccountRoutine _).Calls Free :=
    ⟨fun _ _ => trivial, fun _ => trivial⟩
  exact Safe.bind kept (free_safe hreceive) fun _ => body_safe op

theorem initial_inv (hw : CodesDrawn w) : Inv w (.initial w) where
  drawn := hw.drawn
  unique := hw.unique
  nonneg := hw.nonneg
  unused := fun _ _ => rfl
  created := by
    rintro inviteId usage (⟨c, hc, rfl, rfl⟩ | ⟨e, he, _⟩)
    · exact ⟨hw.drawn c hc, hw.nonneg c hc, fun d hd hid => by
        rw [hw.unique d hd c hc hid]; exact Int.add_zero _⟩
    · cases he
  read := fun p c h => by cases h

end
end InviteCodes

/-- An administrator has created a code for one account. -/
def inviteWorld : World :=
  { demoWorld with db := { demoWorld.db with inviteCodes :=
    [⟨3, "RB-1", 1, true, none, some 2, true⟩] } }

def registerBob : AccountOperation := .register ⟨"bobby", "Secret123", "RB-1", "words"⟩
def registerCarol : AccountOperation := .register ⟨"carol", "Secret123", "RB-1", "words"⟩

/-- Both registrations read the code before either is committed. -/
def overspending : List AccountAction :=
  [.start registerBob, .start registerCarol] ++ accountCalls 0 9 ++ accountCalls 1 9 ++
    accountCalls 0 1 ++ accountCalls 1 1

theorem inviteWorld_drawn : CodesDrawn inviteWorld := by
  constructor <;> simp [inviteWorld, demoWorld]

end Redbox
