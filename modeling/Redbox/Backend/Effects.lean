import Redbox.Backend.World
import Mathlib.Data.List.Nodup

/-! What each write leaves behind, read off once for all later modules. -/
namespace Redbox

namespace Statement

/-- The account whose session a logout or a change of password ends, with its new key. -/
def newSession : (w : Statement) → w.Answer → Option (SessionTable × Id × Id)
  | rotateSessionKey table id, key => some (table, id, key)
  | updatePassword id _ _, key => some (.user, id, key)
  | updateAdminPassword id _, key => some (.adminUser, id, key)
  | _, _ => none

/-- The status that a committed statement gives to a user. -/
def setsStatus : Statement → Option (Id × UserStatus)
  | requestDeletion userId _ _ => some (userId, .pending)
  | reactivate userId _ _ _ _ _ => some (userId, .active)
  | lock userId _ _ _ => some (userId, .locked)
  | ban userId _ _ _ _ _ => some (userId, .banned)
  | markDeleted userId _ _ _ _ _ _ => some (userId, .deleted)
  | _ => none

/-- The user for whom a statement creates content. -/
def creates : Statement → Option Id
  | createInviteCode userId _ => some userId
  | createFile userId _ _ _ _ _ => some userId
  | createMail mail => some mail.userId
  | createBin bin => some bin.userId
  | createLink userId _ _ => some userId
  | upsertBlockedSender userId _ => some userId
  | _ => none

/-- What a committed statement makes of the row of each user. -/
def onUser (fresh : Id) : Statement → User → User
  | swapSessionKey .user id key, u =>
    if u.id = id ∧ u.sessionKey = key then { u with sessionKey := fresh } else u
  | rotateSessionKey .user id, u => if u.id = id then { u with sessionKey := fresh } else u
  | updatePassword id password store, u =>
    if u.id = id then { u with password := password, sessionKey := fresh, masterKeyStore := some store }
    else u
  | requestDeletion userId _ _, u =>
    if u.id = userId then { u with status := .pending, sessionKey := fresh } else u
  | reactivate userId _ _ _ _ _, u =>
    if u.id = userId then { u with status := .active, sessionKey := fresh } else u
  | lock userId _ _ _, u =>
    if u.id = userId then { u with status := .locked, sessionKey := fresh } else u
  | ban userId _ _ _ _ _, u =>
    if u.id = userId then { u with status := .banned, sessionKey := fresh } else u
  | markDeleted userId _ _ _ _ _ _, u =>
    if u.id = userId then { u with status := .deleted, issuedCodes := 0, sessionKey :=
      fresh } else u
  | createInviteCode userId _, u =>
    if u.id = userId then { u with issuedCodes := u.issuedCodes + 1 } else u
  | _, u => u

end Statement

theorem exceptBind_ok {ε α β : Type} {x : Except ε α} {f : α → Except ε β} {b : β} :
    (x >>= f) = .ok b ↔ ∃ a, x = .ok a ∧ f a = .ok b := by
  cases x with
  | error e => simp [bind, Except.bind]
  | ok a => simp [bind, Except.bind]

section
variable {α : Type} {p : α → Bool} {f : α → α} {rows : List α} {x : α}

theorem mem_updateWhere : x ∈ updateWhere p f rows ↔
    (x ∈ rows ∧ p x = false) ∨ ∃ y ∈ rows, p y = true ∧ x = f y := by
  simp only [updateWhere, List.mem_map]
  constructor
  · rintro ⟨y, hy, rfl⟩
    by_cases hp : p y = true
    · exact .inr ⟨y, hy, hp, by simp [hp]⟩
    · exact .inl (by simp_all)
  · rintro (⟨hx, hp⟩ | ⟨y, hy, hp, rfl⟩)
    · exact ⟨x, hx, by simp [hp]⟩
    · exact ⟨y, hy, by simp [hp]⟩

/-- A lookup that the update cannot change finds the updated row. -/
theorem find?_updateWhere {q : α → Bool} (hf : ∀ x, q (f x) = q x) :
    (updateWhere p f rows).find? q = (rows.find? q).map fun x => if p x then f x else x := by
  induction rows with
  | nil => rfl
  | cons x rows ih =>
    have hq : q (if p x then f x else x) = q x := by split <;> simp [hf]
    simp only [updateWhere, List.map_cons] at ih ⊢
    cases hx : q x with
    | true => rw [List.find?_cons_of_pos (hq.trans hx), List.find?_cons_of_pos hx]; rfl
    | false =>
      rw [List.find?_cons_of_neg (by simp [hq, hx]), List.find?_cons_of_neg (by simp [hx])]
      exact ih

end

namespace Database
variable {cfg : Config} {db db' : Database} {id userId v fresh key : Id} {now : Time}

theorem findUser_id {u : User} (h : db.findUser id = some u) : u.id = id := by
  simpa using List.find?_some h

theorem findAdminUser_id {u : AdminUser} (h : db.findAdminUser id = some u) : u.id = id := by
  simpa using List.find?_some h

section
variable {f : User → User} {g : AdminUser → AdminUser}

/-- An update of the rows with one id, seen as an update of all rows. -/
theorem findUser_setUser (hf : ∀ u, (f u).id = u.id) :
    (db.setUser id f).findUser v = (db.findUser v).map fun u => if u.id = id then f u else u := by
  simp only [findUser, setUser]
  rw [find?_updateWhere (by simp [hf])]
  simp

theorem findAdminUser_setAdminUser (hg : ∀ u, (g u).id = u.id) :
    (db.setAdminUser id g).findAdminUser v =
      (db.findAdminUser v).map fun u => if u.id = id then g u else u := by
  simp only [findAdminUser, setAdminUser]
  rw [find?_updateWhere (by simp [hg])]
  simp

theorem updateUser_ok (h : db.updateUser id f = .ok db') :
    db' = db.setUser id f ∧ (db.findUser id).isSome = true := by
  simp only [updateUser] at h
  split at h
  · cases h; exact ⟨rfl, ‹_›⟩
  · cases h

theorem updateAdminUser_ok (h : db.updateAdminUser id g = .ok db') :
    db' = db.setAdminUser id g ∧ (db.findAdminUser id).isSome = true := by
  simp only [updateAdminUser] at h
  split at h
  · cases h; exact ⟨rfl, ‹_›⟩
  · cases h

end

/-! The tables that the row operations leave alone. -/

@[simp] theorem findUser_setAdminUser {g} : (db.setAdminUser id g).findUser v = db.findUser v := rfl
@[simp] theorem findAdminUser_setUser {f} :
    (db.setUser id f).findAdminUser v = db.findAdminUser v := rfl
@[simp] theorem findUser_resolve : (db.resolveOpenRestrictions id now).findUser v = db.findUser v :=
  rfl
@[simp] theorem findUser_cancel : (db.cancelActiveDeletionRequests id now).findUser v =
      db.findUser v := rfl
@[simp] theorem findUser_validity {b} :
    (db.setInviteCodesValidity id b).findUser v = db.findUser v := rfl
@[simp] theorem findUser_auditLog {e} : (db.createAuditLog e).findUser v = db.findUser v := rfl
@[simp] theorem findUser_clear : (db.clearUserContentRecords id).findUser v = db.findUser v := rfl

theorem owned_ok {f : Database → Database} (h : db.owned userId f = .ok db') :
    db' = f db ∧ (db.findUser userId).isSome = true := by
  simp only [owned] at h
  split at h
  · cases h; exact ⟨rfl, ‹_›⟩
  · cases h

theorem markDeletionProcessed_ok {requestId : Id}
    (h : db.markDeletionProcessed requestId now = .ok db') :
    db' = { db with
      deletionRequests := updateWhere (fun r => r.id == requestId)
        (fun r => { r with processedAt := some now }) db.deletionRequests } := by
  simp only [markDeletionProcessed] at h
  split at h <;> cases h
  rfl

theorem requestDeletion_ok {deleteAfterAt : Time} {status : UserStatus}
    (h : db.requestDeletion userId deleteAfterAt status now fresh = .ok db') :
    (db.findUser userId).isSome = true ∧
    db' = ({ db.setUser userId fun u => { u with status := .pending, sessionKey := fresh } with
      deletionRequests :=
        ⟨fresh + 1, userId, now, deleteAfterAt, none, none⟩ :: db.deletionRequests } :
          Database).createAuditLog
      ⟨.user, none, some userId, "user_delete_requested", some status, some .pending, none⟩ := by
  obtain ⟨db₁, h₁, h⟩ := exceptBind_ok.mp h
  obtain ⟨rfl, hu⟩ := updateUser_ok h₁
  cases h
  exact ⟨hu, rfl⟩

theorem reactivate_ok {actorType : AuditActorType} {adminUserId : Option Id} {action : String}
    {reason : Option String} {status : UserStatus}
    (h : db.reactivate userId actorType adminUserId action reason status now fresh = .ok db') :
    (db.findUser userId).isSome = true ∧
    db' = ((((db.resolveOpenRestrictions userId now).cancelActiveDeletionRequests userId
      now).setUser userId
      fun u => { u with status := .active, sessionKey := fresh }).setInviteCodesValidity userId
        true).createAuditLog
      ⟨actorType, adminUserId, some userId, action, some status, some .active, reason⟩ := by
  obtain ⟨db₁, h₁, h⟩ := exceptBind_ok.mp h
  obtain ⟨rfl, hu⟩ := updateUser_ok h₁
  cases h
  exact ⟨hu, rfl⟩

/-- The database after a lock or a ban. -/
def restrictedBy (db : Database) (userId : Id) (status : UserStatus) (restriction : UserRestriction)
    (previousStatus : UserStatus) (now : Time) (fresh : Id) : Database :=
  (({ ((db.cancelActiveDeletionRequests userId now).resolveOpenRestrictions userId now).setUser
      userId fun u => { u with status := status, sessionKey := fresh } with
    restrictions := restriction :: (db.resolveOpenRestrictions userId now).restrictions } :
      Database).setInviteCodesValidity userId false).createAuditLog
    ⟨.admin, restriction.createdByAdminUserId, some userId, "user_status_changed",
      some previousStatus,
      some status, some restriction.reason⟩

theorem restrict_ok {status previousStatus : UserStatus} {restriction : UserRestriction}
    (h : db.restrict userId status restriction previousStatus now fresh = .ok db') :
    (db.findUser userId).isSome = true ∧
    db' = db.restrictedBy userId status restriction previousStatus now fresh := by
  obtain ⟨db₁, h₁, h⟩ := exceptBind_ok.mp h
  obtain ⟨rfl, hu⟩ := updateUser_ok h₁
  cases h
  exact ⟨hu, rfl⟩

/-- What a deletion does to the deletion requests: its own is processed, or all open ones are
cancelled. -/
def closedRequests (db : Database) (userId : Id) (deletionRequestId : Option Id) (now : Time) :
    List UserDeletionRequest :=
  match deletionRequestId with
  | some requestId => updateWhere (fun r => r.id == requestId)
      (fun r => { r with processedAt := some now }) db.deletionRequests
  | none => (db.cancelActiveDeletionRequests userId now).deletionRequests

theorem markDeleted_ok {actorType : AuditActorType} {adminUserId deletionRequestId : Option Id}
    {action : String} {reason : Option String} {status : UserStatus}
    (h : db.markDeleted userId actorType adminUserId action reason status
      deletionRequestId now fresh =
      .ok db') :
    (db.findUser userId).isSome = true ∧
    db' = ({ ((db.clearUserContentRecords userId).resolveOpenRestrictions userId now).setUser userId
        fun u => { u with status := .deleted, issuedCodes := 0, sessionKey := fresh } with
      deletionRequests := db.closedRequests userId deletionRequestId now } :
        Database).createAuditLog
      ⟨actorType, adminUserId, some userId, action, some status, some .deleted, reason⟩ := by
  cases deletionRequestId with
  | none =>
    obtain ⟨db₁, h₁, h⟩ := exceptBind_ok.mp h
    cases h₁
    obtain ⟨db₂, h₂, h⟩ := exceptBind_ok.mp h
    obtain ⟨rfl, hu⟩ := updateUser_ok h₂
    cases h
    exact ⟨hu, rfl⟩
  | some requestId =>
    obtain ⟨db₁, h₁, h⟩ := exceptBind_ok.mp h
    obtain ⟨db₂, h₂, h⟩ := exceptBind_ok.mp h
    obtain ⟨rfl, hu⟩ := updateUser_ok h₂
    have hdb := markDeletionProcessed_ok h₁
    subst hdb
    cases h
    exact ⟨hu, rfl⟩

theorem createInviteCode_ok {code : String} (h : db.createInviteCode userId code fresh = .ok db') :
    (db.findUser userId).isSome = true ∧
    db' = ({ db with inviteCodes :=
      ⟨fresh, code, 1, true, some userId, none, false⟩ :: db.inviteCodes } :
      Database).setUser userId fun u => { u with issuedCodes := u.issuedCodes + 1 } := by
  simp only [createInviteCode] at h
  split at h
  · cases h
  obtain ⟨db₁, h₁, h⟩ := exceptBind_ok.mp h
  obtain ⟨rfl, _⟩ := owned_ok h₁
  obtain ⟨rfl, hu⟩ := updateUser_ok h
  exact ⟨hu, rfl⟩

theorem createLink_ok {url code : String} {link : Link}
    (h : db.createLink cfg userId url code fresh = .ok (db', link)) :
    db' = { db with links := link :: db.links } ∧ link = ⟨fresh, url, code, userId⟩ ∧
    (db.findUser userId).isSome = true := by
  simp only [createLink] at h
  split at h
  · cases h
  · obtain ⟨db₁, h₁, h⟩ := exceptBind_ok.mp h
    obtain ⟨rfl, hu⟩ := owned_ok h₁
    cases h
    exact ⟨rfl, rfl, hu⟩

theorem createFile_ok {originalName mimetype key : String} {uploadMeta : UploadMeta} {iv : Id}
    {file : File}
    (h : db.createFile cfg userId originalName mimetype uploadMeta key iv now fresh =
      .ok (db', file)) :
    file.storageName = uploadMeta.storageKey ∧ file.size = uploadMeta.fileSize ∧
    file.userId = userId ∧
    (∀ f ∈ db.files, f.storageName ≠ uploadMeta.storageKey) ∧
    (db.findUser userId).isSome = true ∧ db' = { db with files := file :: db.files } := by
  simp only [createFile] at h
  obtain ⟨_, hc, h⟩ := exceptBind_ok.mp h
  have hu : (db.findUser userId).isSome = true := by
    simp only [checkUploadAllowance] at hc
    split at hc <;> simp_all
  split at h
  · cases h
  · rename_i hn
    cases h
    exact ⟨rfl, rfl, rfl, by simpa using hn, hu, rfl⟩

theorem perform_bind {α β : Type} {x : Except Thrown α} {f : α → Database × β} {a : β}
    (h : (x >>= fun y => pure (f y)) = .ok (db', a)) : ∃ y, x = .ok y ∧ (db', a) = f y := by
  obtain ⟨y, hx, hy⟩ := exceptBind_ok.mp h
  exact ⟨y, hx, (Except.ok.inj hy).symm⟩

theorem findUser_setSessionKey {table : SessionTable} :
    (db.setSessionKey fresh table id).findUser v = (db.findUser v).map fun u =>
      if table = .user ∧ u.id = id then { u with sessionKey := fresh } else u := by
  cases table with
  | adminUser => simp [setSessionKey]
  | user =>
    simp only [setSessionKey, findUser_setUser (f := fun u => { u with sessionKey := fresh }) fun _ => rfl]
    simp

theorem findUser_swapSessionKey {table : SessionTable} :
    (db.swapSessionKey table id key fresh).1.findUser v =
      (db.findUser v).map ((Statement.swapSessionKey table id key).onUser fresh) := by
  simp only [swapSessionKey]
  cases hv : db.findUser v with
  | none => split <;> simp [findUser_setSessionKey, hv]
  | some u =>
    have hid := findUser_id hv
    cases table with
    | adminUser => split <;> simp [findUser_setSessionKey, hv, Statement.onUser]
    | user =>
      by_cases hk : u.id = id ∧ u.sessionKey = key
      · obtain ⟨rfl, rfl⟩ := hk
        simp [sessionKeyOf, hid, hv, findUser_setSessionKey, Statement.onUser]
      · split
        · rename_i hs
          have hne : u.id ≠ id := by
            rintro rfl
            simp_all [sessionKeyOf]
          simp [findUser_setSessionKey, hv, Statement.onUser, hne]
        · simp [hv, Statement.onUser, hk]

/-- The database that a statement leaves behind when it commits. -/
def result (cfg : Config) (now : Time) (fresh : Id) (db : Database) : (w : Statement) →
    w.Answer → Database
  | .swapSessionKey table id key, _ => (db.swapSessionKey table id key fresh).1
  | .rotateSessionKey table id, _ => db.setSessionKey fresh table id
  | .updatePassword id password store, _ => db.setUser id fun u =>
    { u with password := password, sessionKey := fresh, masterKeyStore := some store }
  | .updateAdminPassword id passwordHash, _ => db.setAdminUser id fun u =>
    { u with passwordHash := passwordHash, sessionKey := fresh }
  | .requestDeletion userId deleteAfterAt status, _ =>
    ({ db.setUser userId fun u => { u with status := .pending, sessionKey := fresh } with
      deletionRequests :=
        ⟨fresh + 1, userId, now, deleteAfterAt, none, none⟩ :: db.deletionRequests } :
          Database).createAuditLog
      ⟨.user, none, some userId, "user_delete_requested", some status, some .pending, none⟩
  | .reactivate userId actorType adminUserId action reason status, _ =>
    ((((db.resolveOpenRestrictions userId now).cancelActiveDeletionRequests userId now).setUser
      userId
      fun u => { u with status := .active, sessionKey := fresh }).setInviteCodesValidity userId
        true).createAuditLog
      ⟨actorType, adminUserId, some userId, action, some status, some .active, reason⟩
  | .lock userId _ _ status, restriction =>
    db.restrictedBy userId .locked restriction status now fresh
  | .ban userId _ _ _ _ status, restriction =>
    db.restrictedBy userId .banned restriction status now fresh
  | .markDeleted userId actorType adminUserId action reason status deletionRequestId, _ =>
    ({ ((db.clearUserContentRecords userId).resolveOpenRestrictions userId now).setUser userId
        fun u => { u with status := .deleted, issuedCodes := 0, sessionKey := fresh } with
      deletionRequests := db.closedRequests userId deletionRequestId now } :
        Database).createAuditLog
      ⟨actorType, adminUserId, some userId, action, some status, some .deleted, reason⟩
  | .auditLog entry, _ => db.createAuditLog entry
  | .createInviteCode userId _, code =>
    ({ db with inviteCodes := code :: db.inviteCodes } : Database).setUser userId
      fun u => { u with issuedCodes := u.issuedCodes + 1 }
  | .createFile _ _ _ _ _ _, file => { db with files := file :: db.files }
  | .deleteFile id, _ => { db with files := db.files.filter fun f => f.id != id }
  | .createMail mail, id => { db with mails := { mail with id := id } :: db.mails }
  | .createBin bin, id => { db with bins := { bin with id := id } :: db.bins }
  | .createLink _ _ _, link => { db with links := link :: db.links }
  | .upsertBlockedSender userId email, _ =>
    if db.blockedSenders.any (fun b => b.userId == userId && cfg.sameName b.email email) then db
    else { db with blockedSenders := ⟨email, userId⟩ :: db.blockedSenders }

theorem perform_result {w : Statement} {a : w.Answer}
    (h : db.perform cfg now fresh w = .ok (db', a)) :
    db' = db.result cfg now fresh w a := by
  cases w with
  | swapSessionKey table id key =>
    simp only [perform, Except.ok.injEq] at h
    rw [result, h]
  | rotateSessionKey table id =>
    obtain ⟨y, hy, h⟩ := perform_bind h
    simp only [rotateSessionKey] at hy
    split at hy <;> cases hy
    cases h
    rfl
  | updatePassword id password store =>
    obtain ⟨y, hy, h⟩ := perform_bind h
    obtain ⟨rfl, _⟩ := updateUser_ok hy
    cases h
    rfl
  | updateAdminPassword id passwordHash =>
    obtain ⟨y, hy, h⟩ := perform_bind h
    obtain ⟨rfl, _⟩ := updateAdminUser_ok hy
    cases h
    rfl
  | requestDeletion userId deleteAfterAt status =>
    obtain ⟨y, hy, h⟩ := perform_bind h
    obtain ⟨_, rfl⟩ := requestDeletion_ok hy
    cases h
    rfl
  | reactivate userId actorType adminUserId action reason status =>
    obtain ⟨y, hy, h⟩ := perform_bind h
    obtain ⟨_, rfl⟩ := reactivate_ok hy
    cases h
    rfl
  | lock userId adminUserId reason status =>
    obtain ⟨y, hy, h⟩ := perform_bind h
    obtain ⟨_, rfl⟩ := restrict_ok hy
    cases h
    rfl
  | ban userId adminUserId reason isPermanent expiresAt status =>
    obtain ⟨y, hy, h⟩ := perform_bind h
    obtain ⟨_, rfl⟩ := restrict_ok hy
    cases h
    rfl
  | markDeleted userId actorType adminUserId action reason status requestId =>
    obtain ⟨y, hy, h⟩ := perform_bind h
    obtain ⟨_, rfl⟩ := markDeleted_ok hy
    cases h
    rfl
  | auditLog entry => cases h; rfl
  | createInviteCode userId code =>
    obtain ⟨y, hy, h⟩ := perform_bind h
    obtain ⟨_, rfl⟩ := createInviteCode_ok hy
    cases h
    rfl
  | createFile userId name mimetype uploadMeta fileKey iv =>
    obtain ⟨_, _, _, _, _, rfl⟩ := createFile_ok h
    rfl
  | deleteFile id =>
    obtain ⟨y, hy, h⟩ := perform_bind h
    simp only [deleteFile] at hy
    split at hy <;> cases hy
    cases h
    rfl
  | createMail mail =>
    obtain ⟨y, hy, h⟩ := perform_bind h
    obtain ⟨rfl, _⟩ := owned_ok hy
    cases h
    rfl
  | createBin bin =>
    obtain ⟨y, hy, h⟩ := perform_bind h
    obtain ⟨rfl, _⟩ := owned_ok hy
    cases h
    rfl
  | createLink userId url code =>
    obtain ⟨rfl, rfl, _⟩ := createLink_ok h
    rfl
  | upsertBlockedSender userId email =>
    obtain ⟨y, hy, h⟩ := perform_bind h
    simp only [upsertBlockedSender] at hy
    simp only [result]
    split at hy
    · rename_i hb
      cases hy; cases h
      rw [if_pos hb]
    · rename_i hb
      obtain ⟨rfl, _⟩ := owned_ok hy
      cases h
      rw [if_neg hb]

/-- Each statement acts on the rows of users one by one. -/
theorem findUser_perform {w : Statement} {a : w.Answer} (h : db.perform cfg now fresh w = .ok (db', a)) (v : Id) : db'.findUser v = (db.findUser v).map (w.onUser fresh) := by
  rw [perform_result h]
  cases w with
  | swapSessionKey table id key => exact findUser_swapSessionKey
  | rotateSessionKey table id =>
    rw [result, findUser_setSessionKey]
    cases table <;> exact Option.map_congr fun u _ => by simp [Statement.onUser]
  | updatePassword _ _ _ => exact findUser_setUser fun _ => rfl
  | requestDeletion _ _ _ => exact findUser_setUser fun _ => rfl
  | reactivate _ _ _ _ _ _ => exact findUser_setUser fun _ => rfl
  | lock _ _ _ _ => exact findUser_setUser fun _ => rfl
  | ban _ _ _ _ _ _ => exact findUser_setUser fun _ => rfl
  | markDeleted _ _ _ _ _ _ _ => exact findUser_setUser fun _ => rfl
  | createInviteCode _ _ => exact findUser_setUser fun _ => rfl
  | upsertBlockedSender userId email =>
    simp only [result]
    split <;> exact Option.map_id'.symm
  | _ => exact Option.map_id'.symm

theorem onUser_id {w : Statement} {u : User} : (w.onUser fresh u).id = u.id := by
  fun_cases Statement.onUser fresh w u <;> simp_all

theorem onUser_status {w : Statement} {u : User} : (w.onUser fresh u).status =
    match w.setsStatus with
    | some (v, status) => if u.id = v then status else u.status
    | none => u.status := by
  fun_cases Statement.onUser fresh w u <;> simp_all [Statement.setsStatus]

/-- A status can only be set while the user's row exists. -/
theorem findUser_of_setsStatus {w : Statement} {a : w.Answer} {status : UserStatus}
    (h : db.perform cfg now fresh w = .ok (db', a)) (hw : w.setsStatus = some (userId, status)) :
    (db.findUser userId).isSome = true := by
  cases w with
  | requestDeletion _ _ _ =>
    obtain ⟨y, hy, -⟩ := perform_bind h
    cases hw
    exact (requestDeletion_ok hy).1
  | reactivate _ _ _ _ _ _ =>
    obtain ⟨y, hy, -⟩ := perform_bind h
    cases hw
    exact (reactivate_ok hy).1
  | lock _ _ _ _ =>
    obtain ⟨y, hy, -⟩ := perform_bind h
    cases hw
    exact (restrict_ok hy).1
  | ban _ _ _ _ _ _ =>
    obtain ⟨y, hy, -⟩ := perform_bind h
    cases hw
    exact (restrict_ok hy).1
  | markDeleted _ _ _ _ _ _ _ =>
    obtain ⟨y, hy, -⟩ := perform_bind h
    cases hw
    exact (markDeleted_ok hy).1
  | _ => cases hw

/-- A statement gives the status that it sets. -/
theorem statusOf_perform_sets {w : Statement} {a : w.Answer} {status : UserStatus}
    (h : db.perform cfg now fresh w = .ok (db', a)) (hw : w.setsStatus = some (userId, status)) :
    db'.statusOf userId = some status := by
  obtain ⟨u, hu⟩ := Option.isSome_iff_exists.mp (findUser_of_setsStatus h hw)
  simp [statusOf, findUser_perform h, hu, onUser_status, hw, findUser_id hu]

/-- It leaves the status of all others. -/
theorem statusOf_perform_other {w : Statement} {a : w.Answer}
    (h : db.perform cfg now fresh w = .ok (db', a))
    (hw : ∀ status, w.setsStatus ≠ some (v, status)) :
    db'.statusOf v = db.statusOf v := by
  simp only [statusOf, findUser_perform h, Option.map_map]
  refine Option.map_congr fun u hu => ?_
  simp only [Function.comp_apply, onUser_status, findUser_id hu]
  split
  · rename_i x status hx
    split
    · rename_i hv
      exact absurd (hv ▸ hx) (hw status)
    · rfl
  · rfl

/-- A statement changes the status of a user only where it sets it. -/
theorem statusOf_perform {w : Statement} {a : w.Answer}
    (h : db.perform cfg now fresh w = .ok (db', a)) (v : Id) : db'.statusOf v = db.statusOf v ∨
      ∃ status, w.setsStatus = some (v, status) ∧ db'.statusOf v = some status := by
  by_cases hw : ∃ status, w.setsStatus = some (v, status)
  · obtain ⟨status, hw⟩ := hw
    exact .inr ⟨status, hw, statusOf_perform_sets h hw⟩
  · exact .inl (statusOf_perform_other h fun status hs => hw ⟨status, hs⟩)

theorem userIds_setUser {f : User → User} (hf : ∀ u, (f u).id = u.id) :
    (db.setUser id f).users.map (·.id) = db.users.map (·.id) := by
  simp only [setUser, updateWhere, List.map_map]
  refine List.map_congr_left fun u _ => ?_
  simp only [Function.comp_apply]
  split <;> simp [hf]

theorem userIds_setSessionKey {table : SessionTable} :
    (db.setSessionKey fresh table id).users.map (·.id) = db.users.map (·.id) := by
  cases table with
  | user => exact userIds_setUser fun _ => rfl
  | adminUser => rfl

/-- No statement creates, deletes or renames users. -/
theorem userIds_perform {w : Statement} {a : w.Answer}
    (h : db.perform cfg now fresh w = .ok (db', a)) :
    db'.users.map (·.id) = db.users.map (·.id) := by
  rw [perform_result h]
  cases w with
  | swapSessionKey table id key =>
    simp only [result, swapSessionKey]
    split
    · exact userIds_setSessionKey
    · rfl
  | rotateSessionKey table id => exact userIds_setSessionKey
  | updatePassword _ _ _ => exact userIds_setUser fun _ => rfl
  | requestDeletion _ _ _ => exact userIds_setUser fun _ => rfl
  | reactivate _ _ _ _ _ _ => exact userIds_setUser fun _ => rfl
  | lock _ _ _ _ => exact userIds_setUser fun _ => rfl
  | ban _ _ _ _ _ _ => exact userIds_setUser fun _ => rfl
  | markDeleted _ _ _ _ _ _ _ => exact userIds_setUser fun _ => rfl
  | createInviteCode _ _ => exact userIds_setUser fun _ => rfl
  | upsertBlockedSender userId email =>
    simp only [result]
    split <;> rfl
  | _ => rfl

/-- With distinct ids, a row found by its username is the row of its id. -/
theorem findUser_of_findUsername {sameName : String → String → Bool} {username : String} {u : User}
    (hids : (db.users.map (·.id)).Nodup) (h : db.findUsername sameName username = some u) :
    db.findUser u.id = some u := by
  have hmem : u ∈ db.users := List.mem_of_find?_eq_some h
  cases hu : db.findUser u.id with
  | none =>
    have := List.find?_eq_none.mp hu u hmem
    simp at this
  | some v =>
    have hid : v.id = u.id := findUser_id hu
    rw [List.inj_on_of_nodup_map hids (List.mem_of_find?_eq_some hu) hmem hid]

/-- What a committed statement makes of the deletion requests. -/
def requestsAfter (db : Database) (now : Time) (fresh : Id) : Statement → List UserDeletionRequest
  | .requestDeletion userId deleteAfterAt _ =>
    ⟨fresh + 1, userId, now, deleteAfterAt, none, none⟩ :: db.deletionRequests
  | .reactivate userId _ _ _ _ _ => (db.cancelActiveDeletionRequests userId now).deletionRequests
  | .lock userId _ _ _ => (db.cancelActiveDeletionRequests userId now).deletionRequests
  | .ban userId _ _ _ _ _ => (db.cancelActiveDeletionRequests userId now).deletionRequests
  | .markDeleted userId _ _ _ _ _ deletionRequestId =>
    db.closedRequests userId deletionRequestId now
  | _ => db.deletionRequests

theorem deletionRequests_perform {w : Statement} {a : w.Answer}
    (h : db.perform cfg now fresh w = .ok (db', a)) :
    db'.deletionRequests = db.requestsAfter now fresh w := by
  rw [perform_result h]
  cases w with
  | swapSessionKey table id key =>
    simp only [result, swapSessionKey]
    cases table <;> split <;> rfl
  | rotateSessionKey table id => cases table <;> rfl
  | upsertBlockedSender userId email =>
    simp only [result]
    split <;> rfl
  | _ => rfl

/-- What a committed statement makes of the restrictions. -/
def restrictionsAfter (db : Database) (now : Time) : (w : Statement) → w.Answer →
    List UserRestriction
  | .reactivate userId _ _ _ _ _, _ => (db.resolveOpenRestrictions userId now).restrictions
  | .lock userId _ _ _, r => r :: (db.resolveOpenRestrictions userId now).restrictions
  | .ban userId _ _ _ _ _, r => r :: (db.resolveOpenRestrictions userId now).restrictions
  | .markDeleted userId _ _ _ _ _ _, _ => (db.resolveOpenRestrictions userId now).restrictions
  | _, _ => db.restrictions

theorem restrictions_perform {w : Statement} {a : w.Answer}
    (h : db.perform cfg now fresh w = .ok (db', a)) :
    db'.restrictions = db.restrictionsAfter now w a := by
  rw [perform_result h]
  cases w with
  | swapSessionKey table id key =>
    simp only [result, swapSessionKey]
    cases table <;> split <;> rfl
  | rotateSessionKey table id => cases table <;> rfl
  | upsertBlockedSender userId email =>
    simp only [result]
    split <;> rfl
  | _ => rfl

/-- The session keys of the rows of a table. -/
def sessionKeys (db : Database) : SessionTable → List Id
  | .user => db.users.map (·.sessionKey)
  | .adminUser => db.adminUsers.map (·.sessionKey)

/-- An update that draws its keys puts no other key into a table. -/
theorem mem_keys_updateWhere {α : Type} {p : α → Bool} {f : α → α} {rows : List α} {g : α → Id}
    (hf : ∀ x, g (f x) = g x ∨ g (f x) = fresh) (h : key ∈ (updateWhere p f rows).map g) :
    key ∈ rows.map g ∨ key = fresh := by
  obtain ⟨x, hx, rfl⟩ := List.mem_map.mp h
  rcases mem_updateWhere.mp hx with ⟨hx, -⟩ | ⟨y, hy, -, rfl⟩
  · exact .inl (List.mem_map_of_mem hx)
  · rcases hf y with hg | hg
    · exact .inl (hg ▸ List.mem_map_of_mem hy)
    · exact .inr hg

theorem mem_keys_setUser {f : User → User} {table : SessionTable}
    (hf : ∀ u, (f u).sessionKey = u.sessionKey ∨ (f u).sessionKey = fresh)
    (h : key ∈ (db.setUser id f).sessionKeys table) : key ∈ db.sessionKeys table ∨ key = fresh := by
  cases table with
  | user => exact mem_keys_updateWhere hf h
  | adminUser => exact .inl h

theorem mem_keys_setAdminUser {f : AdminUser → AdminUser} {table : SessionTable}
    (hf : ∀ u, (f u).sessionKey = u.sessionKey ∨ (f u).sessionKey = fresh)
    (h : key ∈ (db.setAdminUser id f).sessionKeys table) :
    key ∈ db.sessionKeys table ∨ key = fresh := by
  cases table with
  | user => exact .inl h
  | adminUser => exact mem_keys_updateWhere hf h

theorem mem_keys_setSessionKey {t table : SessionTable}
    (h : key ∈ (db.setSessionKey fresh t id).sessionKeys table) :
    key ∈ db.sessionKeys table ∨ key = fresh := by
  cases t with
  | user => exact mem_keys_setUser (fun _ => .inr rfl) h
  | adminUser => exact mem_keys_setAdminUser (fun _ => .inr rfl) h

/-- A statement gives no row a session key but the fresh one. -/
theorem mem_keys_perform {w : Statement} {a : w.Answer} {table : SessionTable}
    (h : db.perform cfg now fresh w = .ok (db', a)) (hk : key ∈ db'.sessionKeys table) :
    key ∈ db.sessionKeys table ∨ key = fresh := by
  rw [perform_result h] at hk
  cases w with
  | swapSessionKey t id old =>
    simp only [result, swapSessionKey] at hk
    split at hk
    · exact mem_keys_setSessionKey hk
    · exact .inl hk
  | rotateSessionKey t id => exact mem_keys_setSessionKey hk
  | updatePassword _ _ _ => exact mem_keys_setUser (fun _ => .inr rfl) hk
  | updateAdminPassword _ _ => exact mem_keys_setAdminUser (fun _ => .inr rfl) hk
  | requestDeletion _ _ _ => exact mem_keys_setUser (fun _ => .inr rfl) hk
  | reactivate _ _ _ _ _ _ => exact mem_keys_setUser (fun _ => .inr rfl) hk
  | lock _ _ _ _ => exact mem_keys_setUser (fun _ => .inr rfl) hk
  | ban _ _ _ _ _ _ => exact mem_keys_setUser (fun _ => .inr rfl) hk
  | markDeleted _ _ _ _ _ _ _ => exact mem_keys_setUser (fun _ => .inr rfl) hk
  | createInviteCode _ _ =>
    exact mem_keys_setUser (f := fun u => { u with issuedCodes := u.issuedCodes + 1 }) (fun _ =>
      .inl rfl) hk
  | upsertBlockedSender userId email =>
    simp only [result] at hk
    split at hk <;> exact .inl hk
  | _ => exact .inl hk

theorem sessionKeyOf_setUser {f : User → User} {table : SessionTable} (hid : ∀ u, (f u).id = u.id)
    (hf : ∀ u, (f u).sessionKey = u.sessionKey ∨ (f u).sessionKey = fresh) :
    (db.setUser id f).sessionKeyOf table v = db.sessionKeyOf table v ∨
      (db.setUser id f).sessionKeyOf table v = some fresh := by
  cases table with
  | adminUser => exact .inl rfl
  | user =>
    simp only [sessionKeyOf, findUser_setUser hid]
    cases db.findUser v with
    | none => exact .inl rfl
    | some u =>
      simp only [Option.map_some, Option.some.injEq]
      split
      · exact hf u
      · exact .inl rfl

theorem sessionKeyOf_setAdminUser {f : AdminUser → AdminUser} {table : SessionTable}
    (hid : ∀ u, (f u).id = u.id) (hf : ∀ u, (f u).sessionKey = fresh) :
    (db.setAdminUser id f).sessionKeyOf table v = db.sessionKeyOf table v ∨
      (db.setAdminUser id f).sessionKeyOf table v = some fresh := by
  cases table with
  | user => exact .inl rfl
  | adminUser =>
    simp only [sessionKeyOf, findAdminUser_setAdminUser hid]
    cases db.findAdminUser v with
    | none => exact .inl rfl
    | some u =>
      simp only [Option.map_some, Option.some.injEq]
      split
      · exact .inr (hf u)
      · exact .inl rfl

theorem sessionKeyOf_setSessionKey {t table : SessionTable} :
    (db.setSessionKey fresh t id).sessionKeyOf table v = db.sessionKeyOf table v ∨
      (db.setSessionKey fresh t id).sessionKeyOf table v = some fresh := by
  cases t with
  | user => exact sessionKeyOf_setUser (fun _ => rfl) fun _ => .inr rfl
  | adminUser => exact sessionKeyOf_setAdminUser (fun _ => rfl) fun _ => rfl

/-- A statement keeps the session key of an account or makes it the fresh one. -/
theorem sessionKeyOf_perform {w : Statement} {a : w.Answer} {table : SessionTable}
    (h : db.perform cfg now fresh w = .ok (db', a)) :
    db'.sessionKeyOf table v = db.sessionKeyOf table v ∨ db'.sessionKeyOf table v = some fresh := by
  rw [perform_result h]
  cases w with
  | swapSessionKey t id old =>
    simp only [result, swapSessionKey]
    split
    · exact sessionKeyOf_setSessionKey
    · exact .inl rfl
  | rotateSessionKey t id => exact sessionKeyOf_setSessionKey
  | updatePassword _ _ _ => exact sessionKeyOf_setUser (fun _ => rfl) fun _ => .inr rfl
  | updateAdminPassword _ _ => exact sessionKeyOf_setAdminUser (fun _ => rfl) fun _ => rfl
  | requestDeletion _ _ _ => exact sessionKeyOf_setUser (fun _ => rfl) fun _ => .inr rfl
  | reactivate _ _ _ _ _ _ => exact sessionKeyOf_setUser (fun _ => rfl) fun _ => .inr rfl
  | lock _ _ _ _ => exact sessionKeyOf_setUser (fun _ => rfl) fun _ => .inr rfl
  | ban _ _ _ _ _ _ => exact sessionKeyOf_setUser (fun _ => rfl) fun _ => .inr rfl
  | markDeleted _ _ _ _ _ _ _ => exact sessionKeyOf_setUser (fun _ => rfl) fun _ => .inr rfl
  | createInviteCode _ _ => exact sessionKeyOf_setUser (fun _ => rfl) fun _ => .inl rfl
  | upsertBlockedSender userId email =>
    simp only [result]
    split <;> exact .inl rfl
  | _ => exact .inl rfl

/-- The account whose session a write ends has the fresh key, which is the answer. -/
theorem sessionKeyOf_endsSession {w : Statement} {a : w.Answer} {table : SessionTable}
    (h : db.perform cfg now fresh w = .ok (db', a)) (hw : w.newSession a = some (table, v, key)) :
    key = fresh ∧ db'.sessionKeyOf table v = some fresh := by
  cases w with
  | rotateSessionKey t id =>
    obtain ⟨y, hy, h⟩ := perform_bind h
    cases h; cases hw
    simp only [rotateSessionKey] at hy
    split at hy <;> cases hy
    rename_i hu
    refine ⟨rfl, ?_⟩
    cases table with
    | user =>
      obtain ⟨u, hf⟩ := Option.isSome_iff_exists.mp (by simpa [sessionKeyOf] using hu)
      simp [sessionKeyOf, findUser_setSessionKey, hf, findUser_id hf]
    | adminUser =>
      obtain ⟨u, hf⟩ := Option.isSome_iff_exists.mp (by simpa [sessionKeyOf] using hu)
      simp [sessionKeyOf, setSessionKey, findAdminUser_setAdminUser, hf, findAdminUser_id hf]
  | updatePassword id password store =>
    obtain ⟨y, hy, h⟩ := perform_bind h
    cases h; cases hw
    obtain ⟨rfl, hu⟩ := updateUser_ok hy
    obtain ⟨u, hf⟩ := Option.isSome_iff_exists.mp hu
    exact ⟨rfl, by simp [sessionKeyOf, findUser_setUser, hf, findUser_id hf]⟩
  | updateAdminPassword id passwordHash =>
    obtain ⟨y, hy, h⟩ := perform_bind h
    cases h; cases hw
    obtain ⟨rfl, hu⟩ := updateAdminUser_ok hy
    obtain ⟨u, hf⟩ := Option.isSome_iff_exists.mp hu
    exact ⟨rfl, by simp [sessionKeyOf, findAdminUser_setAdminUser, hf, findAdminUser_id hf]⟩
  | _ => cases hw

/-- A swap that counts a row found the given key in it. -/
theorem sessionKeyOf_swapSessionKey {table : SessionTable} {n : Nat}
    (h : db.perform cfg now fresh (.swapSessionKey table id key) = .ok (db', n)) (hn : n ≠ 0) :
    db.sessionKeyOf table id = some key := by
  simp only [perform, swapSessionKey, Except.ok.injEq] at h
  split at h
  · assumption
  · simp_all

end Database
end Redbox
