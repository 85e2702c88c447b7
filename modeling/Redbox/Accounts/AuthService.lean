import Redbox.Accounts.UsersService

/-! The routines of `auth.service.ts`, with the strategy behind the guard of user
requests. -/
namespace Redbox
open Interleaving

namespace JwtStrategy

/-- The verdict of `validate` on the row it read. -/
def accepts (user : Option User) (payload : TokenPayload) : Bool :=
  user.any fun u => u.sessionKey == payload.sessionKey && u.status == .active

def validate (payload : TokenPayload) : Routine User := do
  let some user ← await (.query (.user .row payload.sub))
    | throw (unauthorized "Access Denied (Session Expired)")
  Prog.throwIf (user.sessionKey ≠ payload.sessionKey)
    (unauthorized "Access Denied (Session Expired)")
  Prog.throwIf (user.status ≠ .active) (unauthorized "Access Denied (Account inactive)")
  return user

end JwtStrategy

structure LoginDto where
  username : String
  password : String

structure ChangePasswordDto where
  oldPassword : String
  newPassword : String

structure RecoverPasswordDto where
  username : String
  recoveryPhrase : String
  newPassword : String

inductive LoginResult where
  | tokens (payload : TokenPayload)
  | pendingDeletion (deleteAfterAt : Time) (reactivationToken : ReactivationTokenPayload)

namespace AuthService

/-- Both tokens carry one payload. -/
def getTokens (userId : Id) (username : String) (sessionKey : Id) : Routine TokenPayload := do
  let payload := ⟨userId, username, sessionKey⟩
  await (.sign .user payload)
  return payload

def getReactivationToken (userId : Id) (username : String) (sessionKey deletionRequestId : Id) :
    Routine ReactivationTokenPayload := do
  let payload := ⟨userId, username, sessionKey, deletionRequestId⟩
  await (.signReactivation payload)
  return payload

/-- A row without a master key makes `Buffer.from` throw, wrong padding the decipher. -/
def decryptMasterKey (cfg : Config) (password : String) (store : Option MasterKeyStore) :
    Routine String := do
  let some store := store | throw .typeError
  let some masterKey := cfg.decryptMasterKey password store | throw .typeError
  return masterKey

def generateMasterKeyStore (cfg : Config) (secret rawMasterKey : String) :
    Routine MasterKeyStore := do
  let iv ← await .random
  let salt ← await .random
  return cfg.encryptMasterKey secret rawMasterKey iv salt

def hash (cfg : Config) (secret : String) : Routine String := do
  return cfg.bcryptHash secret (← await .random)

def login (cfg : Config) (dto : LoginDto) : Routine LoginResult := do
  let some user ← await (.query (.userByUsername dto.username))
    | throw (unauthorized "Invalid username or password")
  Prog.throwIf (cfg.bcryptCompare dto.password user.password = false)
    (unauthorized "Invalid username or password")
  match ← UsersService.preparePendingDeletionLogin user.id with
  | some pendingDeletionRequest =>
    let token ← getReactivationToken user.id user.username user.sessionKey pendingDeletionRequest.id
    return .pendingDeletion pendingDeletionRequest.deleteAfterAt token
  | none =>
    let some currentUser ← await (.query (.user .row user.id))
      | throw (unauthorized "Invalid username or password")
    UsersService.assertUserCanLogin cfg currentUser
    let some authenticatedUser ← await (.query (.user .row user.id))
      | throw (unauthorized "Invalid username or password")
    let masterKey ← decryptMasterKey cfg dto.password authenticatedUser.masterKeyStore
    await (.redis (.write (.set (.masterKey authenticatedUser.id) (.text masterKey) 86400)))
    return .tokens
      (← getTokens authenticatedUser.id authenticatedUser.username authenticatedUser.sessionKey)

def refreshToken (cfg : Config) (userId keyFromToken : Id) : Routine TokenPayload := do
  let some user ← await (.query (.user .row userId)) | throw (forbidden
    "Access Denied (User not found)")
  UsersService.assertUserCanLogin cfg user
  let count ← await (.statement (.swapSessionKey .user userId keyFromToken))
  Prog.throwIf (count = 0) (forbidden "Access Denied (Session invalid)")
  let updatedUser ← await (.query (.user .row userId))
  await (.redis (.write (.expire (.masterKey userId) 86400)))
  let some updatedUser := updatedUser | throw .typeError
  getTokens updatedUser.id updatedUser.username updatedUser.sessionKey

def logout (userId : Id) : Routine Unit := do
  let _ ← await (.statement (.rotateSessionKey .user userId))
  await (.redis (.write (.del (.masterKey userId))))

def changePassword (cfg : Config) (userId : Id) (dto : ChangePasswordDto) : Routine Unit := do
  let some user ← await (.query (.user .row userId)) | throw (forbidden "User not found")
  Prog.throwIf (cfg.bcryptCompare dto.oldPassword user.password = false)
    (unauthorized "Old password incorrect")
  let rawMasterKey ← decryptMasterKey cfg dto.oldPassword user.masterKeyStore
  let newMkStore ← generateMasterKeyStore cfg dto.newPassword rawMasterKey
  let password ← hash cfg dto.newPassword
  let _ ← await (.statement (.updatePassword userId password newMkStore))
  await (.redis (.write (.del (.masterKey userId))))

def recoverPassword (cfg : Config) (dto : RecoverPasswordDto) : Routine Unit := do
  let some user ← await (.query (.userByUsername dto.username)) | throw (unauthorized
    "Invalid credentials")
  Prog.throwIf (cfg.bcryptCompare (cfg.sha256 dto.recoveryPhrase) user.recoveryPhraseHash = false)
    (unauthorized "Invalid credentials")
  let rawMasterKey ← decryptMasterKey cfg dto.recoveryPhrase (some user.recoveryMasterKeyStore)
  let newMkStore ← generateMasterKeyStore cfg dto.newPassword rawMasterKey
  let password ← hash cfg dto.newPassword
  let _ ← await (.statement (.updatePassword user.id password newMkStore))

/-- The signature, the expiry and the purpose of the token have been checked. -/
def reactivateAccount (payload : ReactivationTokenPayload) : Routine Unit := do
  let some user ← await (.query (.user .idUsernameSessionStatus payload.sub))
    | throw (unauthorized "Invalid or expired reactivation token")
  Prog.throwIf (user.username ≠ payload.username ∨ user.sessionKey ≠ payload.sessionKey)
    (unauthorized "Invalid or expired reactivation token")
  Prog.throwIf (user.status = .deleted) (forbidden "This account has already been deleted.")
  if user.status = .active then return ()
  Prog.throwIf (user.status ≠ .pending) (badRequest "This account is not pending deletion.")
  UsersService.reactivatePendingAccount user.id payload.deletionRequestId

end AuthService
end Redbox
