import Redbox.Accounts.AccountServices

/-! What each call of the account services can do. -/
namespace Redbox
open Interleaving

namespace Database
variable {cfg : Config} {db db' : Database} {fresh : Id}

theorem updateInviteCode_ok {id : Id} {f : InviteCode → InviteCode}
    (h : db.updateInviteCode id f = .ok db') :
    (∃ c ∈ db.inviteCodes, c.id = id) ∧
      db' = { db with inviteCodes := updateWhere (fun c => c.id == id) f db.inviteCodes } := by
  rw [updateInviteCode] at h
  split at h
  · rename_i hfound
    cases h
    obtain ⟨c, hc⟩ := Option.isSome_iff_exists.mp hfound
    exact ⟨⟨c, List.mem_of_find?_eq_some hc, by simpa using List.find?_some hc⟩, rfl⟩
  · cases h

/-- What has to hold of a call that answers. -/
def Permits (cfg : Config) (db : Database) (fresh : Id) : (q : AccountRequest) → q.Answer → Prop
  | .inviteCode code, c => c = db.inviteCodes.find? fun c => cfg.sameName c.code code
  | .registerUser inviteId new, user => db.findUsername cfg.sameName new.username = none ∧
      (∃ c ∈ db.inviteCodes, c.id = inviteId) ∧ user = newUser cfg new fresh
  | .changeUsername userId _ _, _ => (db.findUser userId).isSome = true
  | .createAdminInviteCode code usage isValid adminUserId, c =>
    c = ⟨fresh, code, usage, isValid, none, some adminUserId, true⟩
  | _, _ => True

/-- The database that a call leaves behind when it answers. -/
def accountResult (cfg : Config) (db : Database) (fresh : Id) : AccountRequest → Database
  | .registerUser inviteId new => { db with
    users := newUser cfg new fresh :: db.users
    inviteCodes := updateWhere (fun c => c.id == inviteId) (fun c => { c with usage :=
      c.usage - 1 }) db.inviteCodes }
  | .changeUsername userId newUsername entry =>
    (db.setUser userId fun u => { u with username := newUsername, sessionKey :=
      fresh }).createAuditLog entry
  | .clearUserContent userId entry => db.clearUserContent userId entry
  | .deleteFiles userId fileIds entry => db.deleteFiles userId fileIds entry
  | .createAdminInviteCode code usage isValid adminUserId => { db with
    inviteCodes := ⟨fresh, code, usage, isValid, none, some adminUserId, true⟩ ::
      db.inviteCodes }.createAuditLog
      (inviteAudit adminUserId "admin_invite_code_created"
        s!"Invite code \"{code}\" created with {usage} uses")
  | .deleteInviteCode invite adminUserId => { db with
    inviteCodes := db.inviteCodes.filter fun c => c.id != invite.id }.createAuditLog
      (inviteAudit adminUserId "admin_invite_code_deleted"
        s!"Invite code \"{invite.code}\" deleted/revoked")
  | .setInviteCodeValidity invite isValid adminUserId => { db with
    inviteCodes := updateWhere (fun c => c.id == invite.id) (fun c => { c with isValid := isValid })
      db.inviteCodes }.createAuditLog
      (inviteAudit adminUserId (if isValid then "admin_invite_code_enabled"
        else "admin_invite_code_disabled")
        (s!"Invite code \"{invite.code}\" " ++ if isValid then "enabled" else "disabled"))
  | .backend _ | .receive _ | .inviteCode _ | .adminInviteCode _ _ => db

end Database

namespace AccountRequest

/-- How many names a call draws. -/
def draws : AccountRequest → Nat
  | .receive _ | .inviteCode _ | .adminInviteCode _ _ => 0
  | _ => 3

/-- Not a call of the backend as it was. -/
def isNew : AccountRequest → Bool
  | .backend _ => false
  | _ => true

end AccountRequest

namespace World
variable {cfg : Config} {s : World}

/-- A call of these services commits with its answer or leaves everything as it is. -/
theorem deliverAccount_cases (cfg : Config) (s : World) {q : AccountRequest} (hq : q.isNew = true) :
    (∃ a, (s.deliverAccount cfg q).2 = .ok a ∧ s.db.Permits cfg s.nextId q a ∧
      (s.deliverAccount cfg q).1 = { s with db := s.db.accountResult cfg s.nextId q, nextId :=
        s.nextId + q.draws }) ∨
    ∃ e, (s.deliverAccount cfg q).2 = .error e ∧ (s.deliverAccount cfg q).1 = s := by
  have committed : ∀ {α : Type} (r : Except Thrown (Database × α)) {x : World × Except Thrown α},
    x = s.commit r →
      (∃ db a, r = .ok (db, a) ∧ x = ({ s with db := db, nextId := s.nextId + 3 }, .ok a)) ∨
      ∃ e, x = (s, .error e) := by
    rintro α r x rfl
    cases r with
    | ok x => exact .inl ⟨x.1, x.2, rfl, rfl⟩
    | error e => exact .inr ⟨e, rfl⟩
  cases q with
  | backend q => cases hq
  | receive op => exact .inl ⟨(), rfl, trivial, rfl⟩
  | inviteCode code => exact .inl ⟨_, rfl, rfl, rfl⟩
  | adminInviteCode id adminUserId => exact .inl ⟨_, rfl, trivial, rfl⟩
  | clearUserContent userId entry => exact .inl ⟨(), rfl, trivial, rfl⟩
  | deleteFiles userId fileIds entry => exact .inl ⟨(), rfl, trivial, rfl⟩
  | registerUser inviteId new =>
    rcases committed _ (rfl : s.deliverAccount cfg (.registerUser inviteId new) = s.commit _) with
      ⟨db, a, h, hcommit⟩ | ⟨e, hcommit⟩
    · obtain ⟨db, hdb, h⟩ := exceptBind_ok.mp h
      cases h
      simp only [Database.registerUser] at hdb
      split at hdb
      · cases hdb
      · rename_i hnone
        obtain ⟨hc, rfl⟩ := Database.updateInviteCode_ok hdb
        exact .inl ⟨_, congrArg Prod.snd hcommit, ⟨Option.not_isSome_iff_eq_none.mp hnone, hc, rfl⟩,
          congrArg Prod.fst hcommit⟩
    · exact .inr ⟨e, congrArg Prod.snd hcommit, congrArg Prod.fst hcommit⟩
  | changeUsername userId newUsername entry =>
    rcases committed _ (rfl : s.deliverAccount cfg (.changeUsername userId newUsername entry) =
      s.commit _) with
      ⟨db, a, h, hcommit⟩ | ⟨e, hcommit⟩
    · obtain ⟨db, hdb, h⟩ := exceptBind_ok.mp h
      split at h
      · cases h
        simp only [Database.changeUsername] at hdb
        split at hdb
        · cases hdb
        · obtain ⟨db₁, h₁, hdb⟩ := exceptBind_ok.mp hdb
          obtain ⟨rfl, hu⟩ := Database.updateUser_ok h₁
          cases hdb
          exact .inl ⟨_, congrArg Prod.snd hcommit, hu, congrArg Prod.fst hcommit⟩
      · cases h
    · exact .inr ⟨e, congrArg Prod.snd hcommit, congrArg Prod.fst hcommit⟩
  | createAdminInviteCode code usage isValid adminUserId =>
    rcases committed _ (rfl : s.deliverAccount cfg
      (.createAdminInviteCode code usage isValid adminUserId) = s.commit _) with
      ⟨db, a, h, hcommit⟩ | ⟨e, hcommit⟩
    · simp only [Database.createAdminInviteCode] at h
      split at h
      · cases h
      · cases h
        exact .inl ⟨_, congrArg Prod.snd hcommit, rfl, congrArg Prod.fst hcommit⟩
    · exact .inr ⟨e, congrArg Prod.snd hcommit, congrArg Prod.fst hcommit⟩
  | deleteInviteCode invite adminUserId =>
    rcases committed _ (rfl : s.deliverAccount cfg (.deleteInviteCode invite adminUserId) =
      s.commit _) with
      ⟨db, a, h, hcommit⟩ | ⟨e, hcommit⟩
    · obtain ⟨db, hdb, h⟩ := exceptBind_ok.mp h
      cases h
      simp only [Database.deleteInviteCode] at hdb
      split at hdb
      · cases hdb
        exact .inl ⟨(), congrArg Prod.snd hcommit, trivial, congrArg Prod.fst hcommit⟩
      · cases hdb
    · exact .inr ⟨e, congrArg Prod.snd hcommit, congrArg Prod.fst hcommit⟩
  | setInviteCodeValidity invite isValid adminUserId =>
    rcases committed _ (rfl : s.deliverAccount cfg
      (.setInviteCodeValidity invite isValid adminUserId) = s.commit _) with
      ⟨db, a, h, hcommit⟩ | ⟨e, hcommit⟩
    · obtain ⟨db, hdb, h⟩ := exceptBind_ok.mp h
      cases h
      obtain ⟨db₁, h₁, hdb⟩ := exceptBind_ok.mp hdb
      obtain ⟨-, rfl⟩ := Database.updateInviteCode_ok h₁
      cases hdb
      exact .inl ⟨_, congrArg Prod.snd hcommit, trivial, congrArg Prod.fst hcommit⟩
    · exact .inr ⟨e, congrArg Prod.snd hcommit, congrArg Prod.fst hcommit⟩

theorem nextId_deliverAccount (cfg : Config) (s : World) (q : AccountRequest) :
    s.nextId ≤ (s.deliverAccount cfg q).1.nextId := by
  by_cases hq : q.isNew = true
  · rcases s.deliverAccount_cases cfg hq with ⟨a, -, -, h⟩ | ⟨e, -, h⟩ <;> rw [h]
    exact Nat.le_add_right _ _
  · cases q with
    | backend q => exact nextId_deliver cfg s q
    | _ => exact absurd rfl hq

end World

/-- The calls of a routine of the backend. -/
theorem lift_calls {P : Request → Prop} {P' : AccountRequest → Prop}
    (h : ∀ q, P q → P' (.backend q)) {α : Type} {x : Routine α} (hx : x.Calls P) :
    (lift x).Calls P' := by
  induction x with
  | ret a => trivial
  | throw e => trivial
  | call q k ih => exact ⟨h q hx.1, fun r => ih r (hx.2 r)⟩

theorem accounts_delivered (cfg : Config) (s : SharedAccounts) (p : Nat) (q : AccountRequest) :
    (accounts cfg).after .delivered p q s =
      ⟨(s.store.deliverAccount cfg q).1, ⟨p, q, (s.store.deliverAccount cfg q).2⟩ :: s.log⟩ := by
  cases q <;> rfl

theorem accounts_reply (cfg : Config) (s : SharedAccounts) (q : AccountRequest) :
    (accounts cfg).reply .delivered q s = (s.store.deliverAccount cfg q).2 := by
  cases q <;> rfl

end Redbox
