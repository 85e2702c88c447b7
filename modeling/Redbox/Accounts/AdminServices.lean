import Redbox.Accounts.UsersService

/-! The routines of `admin-auth.service.ts` and of `admin-users.service.ts` that
change the sessions or the status of an account. -/
namespace Redbox
open Interleaving

namespace AdminJwtStrategy

/-- The verdict of `validate` on the row it read. -/
def accepts (adminUser : Option AdminUser) (payload : TokenPayload) : Bool :=
  adminUser.any fun u => u.sessionKey == payload.sessionKey

def validate (payload : TokenPayload) : Routine AdminUser := do
  let some adminUser ← await (.query (.adminUser payload.sub))
    | throw (unauthorized "Access Denied (Session Expired)")
  Prog.throwIf (adminUser.sessionKey ≠ payload.sessionKey)
    (unauthorized "Access Denied (Session Expired)")
  return adminUser

end AdminJwtStrategy

structure AdminLoginDto where
  username : String
  password : String

structure AdminChangePasswordDto where
  oldPassword : String
  newPassword : String

namespace AdminAuthService

def getTokens (adminId : Id) (username : String) (sessionKey : Id) : Routine TokenPayload := do
  let payload := ⟨adminId, username, sessionKey⟩
  await (.sign .adminUser payload)
  return payload

def login (cfg : Config) (dto : AdminLoginDto) : Routine TokenPayload := do
  let some adminUser ← await (.query (.adminUserByUsername dto.username))
    | throw (unauthorized "Invalid username or password")
  Prog.throwIf (cfg.bcryptCompare dto.password adminUser.passwordHash = false)
    (unauthorized "Invalid username or password")
  await (.statement (.auditLog
    ⟨.admin, some adminUser.id, none, "admin_login", none, none, some "Admin logged in"⟩))
  getTokens adminUser.id adminUser.username adminUser.sessionKey

def refreshToken (adminId keyFromToken : Id) : Routine TokenPayload := do
  let count ← await (.statement (.swapSessionKey .adminUser adminId keyFromToken))
  Prog.throwIf (count = 0) (forbidden "Access Denied (Session invalid)")
  let some updatedAdmin ← await (.query (.adminUser adminId))
    | throw (forbidden "Access Denied (Admin not found)")
  getTokens updatedAdmin.id updatedAdmin.username updatedAdmin.sessionKey

def logout (adminId : Id) : Routine Unit := do
  let _ ← await (.statement (.rotateSessionKey .adminUser adminId))

def changePassword (cfg : Config) (adminId : Id) (dto : AdminChangePasswordDto) : Routine Unit := do
  let some adminUser ← await (.query (.adminUser adminId)) | throw (forbidden "Admin not found")
  Prog.throwIf (cfg.bcryptCompare dto.oldPassword adminUser.passwordHash = false)
    (unauthorized "Old password incorrect")
  let passwordHash := cfg.bcryptHash dto.newPassword (← await .random)
  let _ ← await (.statement (.updateAdminPassword adminId passwordHash))

end AdminAuthService

inductive PublicStatus where
  | active | locked | banned | deleted
  deriving DecidableEq

structure UpdateAdminUserStatusDto where
  reason : String
  status : PublicStatus
  permanent : Option Bool
  durationDays : Option Nat

namespace AdminUsersService

def findUserOrThrow (userId : Id) : Routine User := do
  let some user ← await (.query (.user .minimal userId)) | throw (notFound "User not found")
  return user

def getUserById (userId : Id) : Routine User := findUserOrThrow userId

def reactivateUser (userId : Id) (options : ReactivationOptions) : Routine Unit := do
  let user ← findUserOrThrow userId
  Prog.throwIf (user.status = .deleted) (badRequest "Deleted users cannot be reactivated")
  await (.statement (.reactivate userId options.actorType options.adminUserId options.action
    options.reason user.status))
  await (.redis (.write (.del (.masterKey userId))))

def rotateUserSession (userId : Id) : Routine Unit := do
  let _ ← await (.statement (.rotateSessionKey .user userId))
  await (.redis (.write (.del (.masterKey userId))))

/-- `clearUserRedisData`: an upload that cannot be aborted is logged and skipped. -/
def clearUserRedisData (userId : Id) : Routine Unit := do
  let uploadIds ← await (.redis (.smembers (.uploadActive userId)))
  let scanned ← await (.redis (.scanUploadMeta userId))
  let metaKeys := (uploadIds.map (RedisKey.uploadMeta userId) ++ scanned).dedup
  let metaValues ← await (.redis (.mget metaKeys))
  Prog.forEach metaValues fun
    | some (.upload state) => do
      try await (.s3 .files (.abortMultipartUpload state.storageKey state.s3UploadId)) catch _ =>
        pure ()
    | _ => pure ()
  await (.redis (.multi ((.masterKey userId :: .uploadActive userId :: metaKeys).map .del)))

def deleteUserDataAndMarkDeleted (userId : Id) (options : DeletionOptions) : Routine Unit := do
  let files ← await (.query (.filesOf userId))
  let mails ← await (.query (.mailsOf userId))
  deleteS3Objects .files (files.map (·.storageName))
  deleteS3Objects .mails (mailStorageKeys mails)
  await (.statement (.markDeleted userId options.actorType options.adminUserId options.action
    options.reason options.previousStatus options.deletionRequestId))
  clearUserRedisData userId

def setActive (adminUserId userId : Id) (dto : UpdateAdminUserStatusDto) : Routine Unit :=
  reactivateUser userId
    ⟨.admin, "user_status_changed",
      some (if dto.reason = "" then "Status set to active" else dto.reason),
      some adminUserId⟩

def setLocked (adminUserId userId : Id) (dto : UpdateAdminUserStatusDto)
    (previousStatus : UserStatus) :
    Routine Unit := do
  Prog.throwIf (dto.reason = "") (badRequest "Reason is required when locking a user")
  let _ ← await (.statement (.lock userId adminUserId dto.reason previousStatus))
  await (.redis (.write (.del (.masterKey userId))))

/-- No duration and a duration of zero days are the same to the source. -/
def setBanned (adminUserId userId : Id) (dto : UpdateAdminUserStatusDto)
    (previousStatus : UserStatus) :
    Routine Unit := do
  let permanent := dto.permanent.getD false
  let durationDays := dto.durationDays.getD 0
  Prog.throwIf (dto.reason = "") (badRequest "Reason is required when banning a user")
  Prog.throwIf (permanent = false ∧ durationDays = 0)
    (badRequest "Duration days are required for temporary bans")
  let now ← await .now
  let expiresAt := if permanent = true ∨ durationDays = 0 then none
    else some (addDays now durationDays)
  let _ ← await (.statement (.ban userId adminUserId dto.reason permanent expiresAt previousStatus))
  await (.redis (.write (.del (.masterKey userId))))

def setDeleted (adminUserId userId : Id) (dto : UpdateAdminUserStatusDto)
    (previousStatus : UserStatus) :
    Routine Unit := do
  Prog.throwIf (dto.reason = "") (badRequest "Reason is required when deleting a user")
  deleteUserDataAndMarkDeleted userId
    ⟨.admin, "user_status_changed", some dto.reason, previousStatus, some adminUserId, none⟩

/-- The chain of branches of `updateUserStatus`, each under its own name. -/
def setStatus (adminUserId userId : Id) (dto : UpdateAdminUserStatusDto)
    (previousStatus : UserStatus) :
    Routine Unit :=
  match dto.status with
  | .active => setActive adminUserId userId dto
  | .locked => setLocked adminUserId userId dto previousStatus
  | .banned => setBanned adminUserId userId dto previousStatus
  | .deleted => setDeleted adminUserId userId dto previousStatus

def updateUserStatus (adminUserId userId : Id) (dto : UpdateAdminUserStatusDto) : Routine User := do
  let some user ← await (.query (.user .minimal userId)) | throw (notFound "User not found")
  Prog.throwIf (user.status = .deleted ∧ dto.status ≠ .deleted)
    (badRequest "Deleted users cannot be reactivated")
  setStatus adminUserId userId dto user.status
  getUserById userId

def forceLogoutUser (adminUserId userId : Id) (reason : String) : Routine User := do
  let user ← findUserOrThrow userId
  rotateUserSession userId
  await (.statement (.auditLog ⟨.admin, some adminUserId, some userId, "user_force_logout",
    some user.status, some user.status, some reason⟩))
  return user

end AdminUsersService
end Redbox
