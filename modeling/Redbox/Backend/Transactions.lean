import Redbox.Backend.Database

/-! The writes of the services. Each is one statement or one transaction: it
commits as a whole or throws and leaves the database as it was. -/
namespace Redbox

inductive HttpStatus where
  | badRequest | unauthorized | forbidden | notFound | conflict | internalServerError
  deriving DecidableEq

structure HttpException where
  status : HttpStatus
  message : String
  deriving DecidableEq

/-- Errors of Prisma, Redis and S3 clients. -/
inductive Fault where
  | unavailable
  | recordNotFound
  | uniqueConflict
  | foreignKey
  | noSuchKey
  | noSuchUpload
  | invalidPart
  deriving DecidableEq

/-- What a routine throws. -/
inductive Thrown where
  | http (e : HttpException)
  | fault (f : Fault)
  | typeError
  deriving DecidableEq

/-- `updateMany` on one table. -/
def updateWhere {α : Type} (p : α → Bool) (f : α → α) (rows : List α) : List α :=
  rows.map fun r => if p r then f r else r

/-- The two tables that keep session keys. -/
inductive SessionTable where
  | user | adminUser
  deriving DecidableEq

namespace Database

def setUser (db : Database) (id : Id) (f : User → User) : Database :=
  { db with users := updateWhere (fun u => u.id == id) f db.users }

def setAdminUser (db : Database) (id : Id) (f : AdminUser → AdminUser) : Database :=
  { db with adminUsers := updateWhere (fun u => u.id == id) f db.adminUsers }

/-- `prisma.user.update` -/
def updateUser (db : Database) (id : Id) (f : User → User) : Except Thrown Database :=
  if (db.findUser id).isSome then .ok (db.setUser id f) else .error (.fault .recordNotFound)

def updateAdminUser (db : Database) (id : Id) (f : AdminUser → AdminUser) :
    Except Thrown Database :=
  if (db.findAdminUser id).isSome then .ok (db.setAdminUser id f)
    else .error (.fault .recordNotFound)

def sessionKeyOf (db : Database) : SessionTable → Id → Option Id
  | .user, id => (db.findUser id).map (·.sessionKey)
  | .adminUser, id => (db.findAdminUser id).map (·.sessionKey)

def setSessionKey (db : Database) (key : Id) : SessionTable → Id → Database
  | .user, id => db.setUser id fun u => { u with sessionKey := key }
  | .adminUser, id => db.setAdminUser id fun u => { u with sessionKey := key }

/-- `updateMany` where the session key is still the given one, with its row count. -/
def swapSessionKey (db : Database) (table : SessionTable) (id key fresh : Id) : Database × Nat :=
  if db.sessionKeyOf table id = some key then (db.setSessionKey fresh table id, 1) else (db, 0)

def rotateSessionKey (db : Database) (table : SessionTable)
    (id fresh : Id) : Except Thrown Database :=
  if (db.sessionKeyOf table id).isSome then .ok (db.setSessionKey fresh table id)
  else .error (.fault .recordNotFound)

def updatePassword (db : Database) (id : Id) (password : String) (store : MasterKeyStore)
    (fresh : Id) :
    Except Thrown Database :=
  db.updateUser id fun u => 
    { u with password := password, sessionKey := fresh, masterKeyStore := some store }

def updateAdminPassword (db : Database) (id : Id) (passwordHash : String) (fresh : Id) :
    Except Thrown Database :=
  db.updateAdminUser id fun u => { u with passwordHash := passwordHash, sessionKey := fresh }

/-- `setInviteCodesValidity` -/
def setInviteCodesValidity (db : Database) (userId : Id) (isValid : Bool) : Database :=
  { db with
    inviteCodes := updateWhere (fun c => c.userId == some userId && decide (0 < c.usage))
      (fun c => { c with isValid := isValid }) db.inviteCodes }

/-- `resolveOpenRestrictions` -/
def resolveOpenRestrictions (db : Database) (userId : Id) (now : Time) : Database :=
  { db with
    restrictions := updateWhere (fun r => r.userId == userId && r.isOpen)
      (fun r => { r with resolvedAt := some now }) db.restrictions }

/-- `cancelActiveDeletionRequests` -/
def cancelActiveDeletionRequests (db : Database) (userId : Id) (now : Time) : Database :=
  { db with
    deletionRequests := updateWhere (fun r => r.userId == userId && r.isOpen)
      (fun r => { r with cancelledAt := some now }) db.deletionRequests }

/-- `prisma.userDeletionRequest.update` -/
def markDeletionProcessed (db : Database) (requestId : Id) (now : Time) : Except Thrown Database :=
  if db.deletionRequests.any (·.id == requestId) then
    .ok { db with
      deletionRequests := updateWhere (fun r => r.id == requestId)
        (fun r => { r with processedAt := some now }) db.deletionRequests }
  else .error (.fault .recordNotFound)

/-- `createAuditLog` -/
def createAuditLog (db : Database) (entry : AuditLog) : Database :=
  { db with auditLogs := entry :: db.auditLogs }

/-- The content a deleted account leaves: the `deleteMany` calls of both services. -/
def clearUserContentRecords (db : Database) (userId : Id) : Database :=
  { db with
    blockedSenders := db.blockedSenders.filter fun b => b.userId != userId
    links := db.links.filter fun l => l.userId != userId
    bins := db.bins.filter fun b => b.userId != userId
    mails := db.mails.filter fun m => m.userId != userId
    files := db.files.filter fun f => f.userId != userId
    inviteCodes := db.inviteCodes.filter fun c => c.userId != some userId }

/-- The transaction of `requestAccountDeletion`. -/
def requestDeletion (db : Database) (userId : Id) (deleteAfterAt : Time)
    (previousStatus : UserStatus) (now : Time) (fresh : Id) : Except Thrown Database := do
  let db ← db.updateUser userId fun u => { u with status := .pending, sessionKey := fresh }
  let db := { db with deletionRequests :=
    ⟨fresh + 1, userId, now, deleteAfterAt, none, none⟩ :: db.deletionRequests }
  return db.createAuditLog ⟨.user, none, some userId, "user_delete_requested", some previousStatus,
    some .pending, none⟩

/-- The transaction of both `reactivateUser`. -/
def reactivate (db : Database) (userId : Id) (actorType : AuditActorType) (adminUserId : Option Id)
    (action : String) (reason : Option String) (previousStatus : UserStatus) (now : Time)
    (fresh : Id) :
    Except Thrown Database := do
  let db := db.resolveOpenRestrictions userId now
  let db := db.cancelActiveDeletionRequests userId now
  let db ← db.updateUser userId fun u => { u with status := .active, sessionKey := fresh }
  let db := db.setInviteCodesValidity userId true
  return db.createAuditLog ⟨actorType, adminUserId, some userId, action, some previousStatus,
    some .active, reason⟩

/-- The transactions of `updateUserStatus` that lock or ban. -/
def restrict (db : Database) (userId : Id) (status : UserStatus) (restriction : UserRestriction)
    (previousStatus : UserStatus) (now : Time) (fresh : Id) : Except Thrown Database := do
  let db := db.cancelActiveDeletionRequests userId now
  let db := db.resolveOpenRestrictions userId now
  let db ← db.updateUser userId fun u => { u with status := status, sessionKey := fresh }
  let db := { db with restrictions := restriction :: db.restrictions }
  let db := db.setInviteCodesValidity userId false
  return db.createAuditLog ⟨.admin, restriction.createdByAdminUserId, some userId,
    "user_status_changed",
    some previousStatus, some status, some restriction.reason⟩

/-- The transaction of both `deleteUserDataAndMarkDeleted`. -/
def markDeleted (db : Database) (userId : Id) (actorType : AuditActorType) (adminUserId : Option Id)
    (action : String) (reason : Option String) (previousStatus : UserStatus)
    (deletionRequestId : Option Id) (now : Time) (fresh : Id) : Except Thrown Database := do
  let db := db.clearUserContentRecords userId
  let db := db.resolveOpenRestrictions userId now
  let db ← match deletionRequestId with
    | some requestId => db.markDeletionProcessed requestId now
    | none => pure (db.cancelActiveDeletionRequests userId now)
  let db ← db.updateUser userId fun u =>
    { u with status := .deleted, issuedCodes := 0, sessionKey := fresh }
  return db.createAuditLog ⟨actorType, adminUserId, some userId, action, some previousStatus,
    some .deleted, reason⟩

/-- Rows that refer to a user can only be created while that user's row exists. -/
def owned (db : Database) (userId : Id) (f : Database → Database) : Except Thrown Database :=
  if (db.findUser userId).isSome then .ok (f db) else .error (.fault .foreignKey)

/-- The transaction of `generateInviteCode`. -/
def createInviteCode (db : Database) (userId : Id) (code : String) (fresh : Id) :
    Except Thrown Database := do
  if db.inviteCodes.any (·.code == code) then .error (.fault .uniqueConflict)
  let db ← db.owned userId fun db =>
    { db with inviteCodes := ⟨fresh, code, 1, true, some userId, none, false⟩ :: db.inviteCodes }
  db.updateUser userId fun u => { u with issuedCodes := u.issuedCodes + 1 }

end Database
end Redbox
