import Redbox.Backend.World

/-! The routines of `users.service.ts`: requests and cancellations of account
deletion, the login-time checks of an account, and the two hourly jobs. -/
namespace Redbox
open Interleaving

/-- `deleteS3Objects`: a failed deletion is logged and ignored. -/
def deleteS3Objects (bucket : BucketName) (keys : List Id) : Routine Unit :=
  Prog.forEach keys fun key => do
    try await (.s3 bucket (.deleteObject key)) catch _ => pure ()

def mailStorageKeys (mails : List Mail) : List Id :=
  mails.flatMap fun mail => mail.storageKey :: mail.attachments.map (·.storageKey)

structure ReactivationOptions where
  actorType : AuditActorType
  action : String
  reason : Option String
  adminUserId : Option Id

structure DeletionOptions where
  actorType : AuditActorType
  action : String
  reason : Option String
  previousStatus : UserStatus
  adminUserId : Option Id
  deletionRequestId : Option Id

namespace UsersService

def getActiveDeletionRequest (userId : Id) : Routine (Option UserDeletionRequest) :=
  await (.query (.activeDeletionRequest userId))

def getActiveRestriction (userId : Id) (type : UserRestrictionType) :
    Routine (Option UserRestriction) :=
  await (.query (.activeRestriction userId type))

def reactivateUser (userId : Id) (options : ReactivationOptions) : Routine Unit := do
  let some user ← await (.query (.user .status userId)) | throw (notFound "User not found")
  Prog.throwIf (user.status = .deleted) (badRequest "Deleted users cannot be reactivated")
  await (.statement (.reactivate userId options.actorType options.adminUserId options.action
    options.reason user.status))
  await (.redis (.write (.del (.masterKey userId))))

def deleteUserDataAndMarkDeleted (userId : Id) (options : DeletionOptions) : Routine Unit := do
  let files ← await (.query (.filesOf userId))
  let mails ← await (.query (.mailsOf userId))
  deleteS3Objects .files (files.map (·.storageName))
  deleteS3Objects .mails (mailStorageKeys mails)
  await (.statement (.markDeleted userId options.actorType options.adminUserId options.action
    options.reason options.previousStatus options.deletionRequestId))
  await (.redis (.write (.del (.masterKey userId))))

def finalizePendingDeletion (userId deletionRequestId : Id) : Routine Unit := do
  let some user ← await (.query (.user .status userId)) | return ()
  if user.status = .deleted then return ()
  deleteUserDataAndMarkDeleted userId
    ⟨.system, "user_deletion_processed", none, user.status, none, some deletionRequestId⟩

def requestAccountDeletion (cfg : Config) (userId : Id) (password : String) : Routine Time := do
  let some user ← await (.query (.user .idPasswordStatus userId)) | throw (notFound
    "User not found")
  Prog.throwIf (cfg.bcryptCompare password user.password = false) (unauthorized "Invalid password")
  Prog.throwIf (user.status = .deleted) (badRequest "This account has already been deleted")
  let activeRequest ← getActiveDeletionRequest userId
  Prog.throwIf (activeRequest.isSome = true)
    (badRequest "Account deletion has already been requested")
  let now ← await .now
  let deleteAfterAt := addDays now 7
  await (.statement (.requestDeletion userId deleteAfterAt user.status))
  await (.redis (.write (.del (.masterKey userId))))
  return deleteAfterAt

def preparePendingDeletionLogin (userId : Id) : Routine (Option UserDeletionRequest) := do
  let some user ← await (.query (.user .idStatus userId)) | return none
  if user.status ≠ .pending then return none
  match ← getActiveDeletionRequest userId with
  | some activeRequest =>
    if activeRequest.deleteAfterAt ≤ (← await .now) then
      finalizePendingDeletion userId activeRequest.id
      throw (forbidden "This account has been deleted.")
    return some activeRequest
  | none =>
    reactivateUser user.id ⟨.system, "user_status_normalized",
      some "Pending deletion request missing during login check", none⟩
    return none

def reactivatePendingAccount (userId deletionRequestId : Id) : Routine Unit := do
  let some user ← await (.query (.user .idStatus userId)) | throw (notFound "User not found")
  Prog.throwIf (user.status = .deleted) (badRequest "This account has already been deleted")
  if user.status = .active then return ()
  Prog.throwIf (user.status ≠ .pending) (badRequest "No active deletion request found")
  let some activeRequest ← getActiveDeletionRequest userId
    | throw (badRequest "No active deletion request found")
  Prog.throwIf (activeRequest.id ≠ deletionRequestId)
    (badRequest "No active deletion request found")
  if activeRequest.deleteAfterAt ≤ (← await .now) then
    finalizePendingDeletion userId activeRequest.id
    throw (forbidden "This account has been deleted.")
  reactivateUser userId ⟨.user, "user_delete_cancelled", none, none⟩

/-- The reason that the message of a restricted account gives. -/
def restrictionReason (restriction : Option UserRestriction) : String :=
  (restriction.map (·.reason)).getD "administrative action"

def banMessage (cfg : Config) (restriction : Option UserRestriction) : String :=
  let reason := restrictionReason restriction
  if restriction.any (·.isPermanent) then s!"This user has been permanently banned due to {reason}."
  else match restriction.bind (·.expiresAt) with
    | some expiresAt =>
      s!"This user has been banned until {cfg.toISOString expiresAt} due to {reason}."
    | none => s!"This user has been banned due to {reason}."

/-- The branch of `assertUserCanLogin` for banned accounts. -/
def assertBanExpired (cfg : Config) (userId : Id) : Routine Unit := do
  let restriction ← getActiveRestriction userId .ban
  let now ← await .now
  if restriction.any (·.isExpiredBan now) then
    reactivateUser userId ⟨.system, "user_status_auto_reactivated",
      some "Temporary ban expired", none⟩
  else throw (forbidden (banMessage cfg restriction))

def assertUserCanLogin (cfg : Config) (user : User) : Routine Unit := do
  match user.status with
  | .active => return ()
  | .deleted => throw (forbidden "This account has been deleted.")
  | .pending =>
    let some pendingRequest ← preparePendingDeletionLogin user.id | return ()
    throw (forbidden
      s!"This account is pending deletion and will be deleted on {cfg.toISOString pendingRequest.deleteAfterAt}.")
  | .locked =>
    let restriction ← getActiveRestriction user.id .lock
    throw (forbidden s!"This user has been locked due to {restrictionReason restriction}.")
  | .banned => assertBanExpired cfg user.id

def processPendingDeletionRequests : Routine Unit := do
  let requests ← await (.query .dueDeletionRequests)
  Prog.forEach requests fun request => finalizePendingDeletion request.userId request.id

def processExpiredRestrictions : Routine Unit := do
  let expiredBans ← await (.query .expiredBans)
  Prog.forEach expiredBans fun restriction =>
    reactivateUser restriction.userId
      ⟨.system, "user_status_auto_reactivated", some "Temporary ban expired", none⟩

def generateInviteCode (cfg : Config) (userId : Id) : Routine InviteCode := do
  let some user ← await (.query (.user .idIssuedStatus userId)) | throw (forbidden "User not found")
  Prog.throwIf (user.status ≠ .active) (forbidden "Only active users can generate invite codes")
  Prog.throwIf (2 ≤ user.issuedCodes) (badRequest "Invite-Limit reached")
  let bytes ← await .random
  await (.statement (.createInviteCode userId (cfg.inviteCodeOf bytes)))

end UsersService
end Redbox
