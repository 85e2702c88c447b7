import Redbox.Backend.Commits
import Redbox.Interleaving.Expansion
import Redbox.Text.JsString

/-! Registration, the logins of internal clients, invite codes of administrators and the
rest of their work on accounts, beside the requests that the backend already serves. -/
namespace Redbox
open Interleaving

structure RegisterUsersDto where
  username : String
  password : String
  inviteCode : String
  recoveryPhrase : String

structure InternalLoginDto where
  username : String
  password : String

structure CreateAdminInviteCodeDto where
  code : Option String
  usage : Nat
  isValid : Option Bool

/-- A request to any service, with what the caller sends; a token stands for its verified payload.
-/
inductive AccountOperation where
  | base (op : Operation)
  | register (dto : RegisterUsersDto)
  | internalLogin (dto : InternalLoginDto)
  | internalValidate (payload : TokenPayload)
  | changeUsername (payload : TokenPayload) (userId : Id) (newUsername reason : String)
  | clearUserData (payload : TokenPayload) (userId : Id) (reason : String)
  | deleteUserFiles (payload : TokenPayload) (userId : Id) (fileIds : List Id) (reason : String)
  | createAdminInviteCode (payload : TokenPayload) (dto : CreateAdminInviteCodeDto)
  | deleteInviteCode (payload : TokenPayload) (inviteCodeId : Id)
  | updateInviteCodeValidity (payload : TokenPayload) (inviteCodeId : Id) (isValid : Bool)

/-- The data of the row that `register` creates. The password is hashed within the transaction. -/
structure NewUser where
  username : String
  password : String
  masterKeyStore : MasterKeyStore
  recoveryPhraseHash : String
  recoveryMasterKeyStore : MasterKeyStore
  publicKey : String

/-- The transactions of these services, the reads that no other service makes, and the arrival of a
request. -/
inductive AccountRequest where
  | backend (q : Request)
  | receive (op : AccountOperation)
  | inviteCode (code : String)
  | adminInviteCode (id adminUserId : Id)
  | registerUser (inviteId : Id) (new : NewUser)
  | changeUsername (userId : Id) (newUsername : String) (entry : AuditLog)
  | clearUserContent (userId : Id) (entry : AuditLog)
  | deleteFiles (userId : Id) (fileIds : List Id) (entry : AuditLog)
  | createAdminInviteCode (code : String) (usage : Nat) (isValid : Bool) (adminUserId : Id)
  | deleteInviteCode (invite : InviteCode) (adminUserId : Id)
  | setInviteCodeValidity (invite : InviteCode) (isValid : Bool) (adminUserId : Id)

namespace AccountRequest

abbrev Answer : AccountRequest → Type
  | backend q => q.Answer
  | receive _ => Unit
  | inviteCode _ => Option InviteCode
  | adminInviteCode _ _ => Option InviteCode
  | registerUser _ _ => User
  | changeUsername _ _ _ => User
  | clearUserContent _ _ => Unit
  | deleteFiles _ _ _ => Unit
  | createAdminInviteCode _ _ _ _ => InviteCode
  | deleteInviteCode _ _ => Unit
  | setInviteCodeValidity _ _ _ => InviteCode

end AccountRequest

abbrev AccountReply (q : AccountRequest) : Type := Except Thrown q.Answer
abbrev AccountRoutine (α : Type) := Prog AccountRequest AccountReply Thrown α

namespace Database

def findInviteCode (db : Database) (id : Id) : Option InviteCode :=
  db.inviteCodes.find? fun c => c.id == id

/-- `prisma.inviteCode.update` -/
def updateInviteCode (db : Database) (id : Id) (f : InviteCode → InviteCode) :
    Except Thrown Database :=
  if (db.findInviteCode id).isSome then
    .ok { db with inviteCodes := updateWhere (fun c => c.id == id) f db.inviteCodes }
  else .error (.fault .recordNotFound)

/-- The row that `register` creates, with its names drawn from `fresh` on. -/
def newUser (cfg : Config) (new : NewUser) (fresh : Id) : User where
  id := fresh
  username := new.username
  password := cfg.bcryptHash new.password (fresh + 2)
  status := .active
  sessionKey := fresh + 1
  issuedCodes := 0
  masterKeyStore := some new.masterKeyStore
  recoveryPhraseHash := new.recoveryPhraseHash
  recoveryMasterKeyStore := new.recoveryMasterKeyStore
  publicKey := new.publicKey

/-- The transaction of `register`. -/
def registerUser (cfg : Config) (db : Database) (inviteId : Id) (new : NewUser)
    (fresh : Id) : Except Thrown Database := do
  if (db.findUsername cfg.sameName new.username).isSome then .error (.fault .uniqueConflict)
  let db := { db with users := newUser cfg new fresh :: db.users }
  db.updateInviteCode inviteId fun c => { c with usage := c.usage - 1 }

/-- The transaction of `changeUsername`. Another row with the name is a conflict. -/
def changeUsername (cfg : Config) (db : Database) (userId : Id) (newUsername : String)
    (entry : AuditLog) (fresh : Id) :
    Except Thrown Database := do
  if db.users.any fun u => u.id != userId &&
    cfg.sameName u.username newUsername then .error (.fault .uniqueConflict)
  let db ← db.updateUser userId fun u => { u with username := newUsername, sessionKey := fresh }
  return db.createAuditLog entry

/-- The transaction of `clearUserData`, whose records are those of the administrators' service. -/
def clearUserContent (db : Database) (userId : Id) (entry : AuditLog) : Database :=
  { db with
    links := db.links.filter fun l => l.userId != userId
    bins := db.bins.filter fun b => b.userId != userId
    mails := db.mails.filter fun m => m.userId != userId
    files := db.files.filter fun f => f.userId != userId
    auditLogs := entry :: db.auditLogs }

def deleteFiles (db : Database) (userId : Id) (fileIds : List Id) (entry : AuditLog) : Database :=
  { db with
    files := db.files.filter fun f => !(f.userId == userId && fileIds.contains f.id)
    auditLogs := entry :: db.auditLogs }

def inviteAudit (adminUserId : Id) (action reason : String) : AuditLog :=
  ⟨.admin, some adminUserId, none, action, none, none, some reason⟩

/-- The transaction of the administrators' `createInviteCode`. -/
def createAdminInviteCode (cfg : Config) (db : Database) (code : String) (usage : Nat)
    (isValid : Bool) (adminUserId fresh : Id) : Except Thrown (Database × InviteCode) := do
  if db.inviteCodes.any fun c => cfg.sameName c.code code then .error (.fault .uniqueConflict)
  let invite : InviteCode := ⟨fresh, code, usage, isValid, none, some adminUserId, true⟩
  return ({ db with inviteCodes := invite :: db.inviteCodes }.createAuditLog
    (inviteAudit adminUserId "admin_invite_code_created"
      s!"Invite code \"{code}\" created with {usage} uses"), invite)

def deleteInviteCode (db : Database) (invite : InviteCode) (adminUserId : Id) :
    Except Thrown Database :=
  if (db.findInviteCode invite.id).isSome then
    .ok ({ db with inviteCodes := db.inviteCodes.filter fun c => c.id != invite.id }.createAuditLog
      (inviteAudit adminUserId "admin_invite_code_deleted"
        s!"Invite code \"{invite.code}\" deleted/revoked"))
  else .error (.fault .recordNotFound)

def setInviteCodeValidity (db : Database) (invite : InviteCode) (isValid : Bool)
    (adminUserId : Id) :
    Except Thrown Database := do
  let db ← db.updateInviteCode invite.id fun c => { c with isValid := isValid }
  return db.createAuditLog (inviteAudit adminUserId
    (if isValid then "admin_invite_code_enabled" else "admin_invite_code_disabled")
    (s!"Invite code \"{invite.code}\" " ++ if isValid then "enabled" else "disabled"))

end Database

namespace World

/-- The effect of a transaction that draws at most three names. -/
def commit {α : Type} (s : World) (r : Except Thrown (Database × α)) : World × Except Thrown α :=
  match r with
  | .ok (db, a) => ({ s with db := db, nextId := s.nextId + 3 }, .ok a)
  | .error e => (s, .error e)

/-- A call that arrives and whose reply arrives. -/
def deliverAccount (cfg : Config) (s : World) : (q : AccountRequest) → World × AccountReply q
  | .backend q => s.deliver cfg q
  | .receive _ => (s, .ok ())
  | .inviteCode code => (s, .ok (s.db.inviteCodes.find? fun c => cfg.sameName c.code code))
  | .adminInviteCode id adminUserId => (s, .ok (s.db.inviteCodes.find? fun c =>
      c.id == id && c.isAdminCreated && c.createdByAdminUserId == some adminUserId))
  | .registerUser inviteId new => s.commit do
    return (← s.db.registerUser cfg inviteId new s.nextId, Database.newUser cfg new s.nextId)
  | .changeUsername userId newUsername entry => s.commit do
    let db ← s.db.changeUsername cfg userId newUsername entry s.nextId
    let some user := db.findUser userId | .error (.fault .recordNotFound)
    return (db, user)
  | .clearUserContent userId entry => s.commit (.ok (s.db.clearUserContent userId entry, ()))
  | .deleteFiles userId fileIds entry => s.commit (.ok (s.db.deleteFiles userId fileIds entry, ()))
  | .createAdminInviteCode code usage isValid adminUserId =>
    s.commit (s.db.createAdminInviteCode cfg code usage isValid adminUserId s.nextId)
  | .deleteInviteCode invite adminUserId =>
    s.commit do return (← s.db.deleteInviteCode invite adminUserId, ())
  | .setInviteCodeValidity invite isValid adminUserId => s.commit do
    return (← s.db.setInviteCodeValidity invite isValid adminUserId,
      { invite with isValid := isValid })

/-- The arrival of a request is no call that could fail. -/
def execAccount (cfg : Config) (d : Delivery) (q : AccountRequest)
    (s : World) : World × AccountReply q :=
  match q, d with
  | .backend q, d => s.exec cfg d q
  | .receive op, _ => s.deliverAccount cfg (.receive op)
  | _, .failed => (s, .error (.fault .unavailable))
  | q, .lost => ((s.deliverAccount cfg q).1, .error (.fault .unavailable))
  | q, _ => s.deliverAccount cfg q

end World

/-- A routine of the backend as it is. -/
def lift {α : Type} (x : Routine α) : AccountRoutine α := x.expand fun q => .call (.backend q) .ret

def awaitAccount (q : AccountRequest) : AccountRoutine q.Answer := Prog.await id q

/-- The hex digits of drawn bytes. -/
def hexOf (bytes : Id) : String := toString bytes

namespace AuthService

/-- The `catch` block of `register`. -/
def registrationError (e : Thrown) : Thrown :=
  if e = .fault .uniqueConflict then conflict "Username already taken"
    else badRequest "Registration failed"

def storeRegistration (invite : InviteCode) (new : NewUser) (rawMasterKey : String) :
    AccountRoutine User := do
  try
    let result ← awaitAccount (.registerUser invite.id new)
    lift (await (.redis (.write (.set (.masterKey result.id) (.text rawMasterKey) 86400))))
    pure result
  catch e => throw (registrationError e)

def register (cfg : Config) (dto : RegisterUsersDto) : AccountRoutine TokenPayload := do
  let some invite ← awaitAccount (.inviteCode dto.inviteCode)
    | throw (unauthorized "Invalid or expired invite code")
  Prog.throwIf (invite.isValid = false ∨
    invite.usage ≤ 0) (unauthorized "Invalid or expired invite code")
  let bytes ← lift (await .random)
  let mkStore ← lift (generateMasterKeyStore cfg dto.password (hexOf bytes))
  let recoveryMkStore ← lift (generateMasterKeyStore cfg dto.recoveryPhrase (hexOf bytes))
  let hashedRecoveryPhrase ← lift (hash cfg (cfg.sha256 dto.recoveryPhrase))
  let keyPair ← lift (await .random)
  let result ← storeRegistration invite
    ⟨dto.username, dto.password, mkStore, hashedRecoveryPhrase, recoveryMkStore,
      hexOf keyPair⟩ (hexOf bytes)
  lift (getTokens result.id result.username result.sessionKey)

end AuthService

namespace InternalAuthService

def decryptMasterKey (cfg : Config) (password : String) (store : Option MasterKeyStore) :
    Routine String := do
  let some store := store | throw (forbidden "User master key unavailable")
  let some masterKey := cfg.decryptMasterKey password store | throw .typeError
  return masterKey

def login (cfg : Config) (dto : InternalLoginDto) : Routine TokenPayload := do
  let some user ← await (.query (.userByUsername dto.username)) | throw (unauthorized
    "Invalid username or password")
  Prog.throwIf (cfg.bcryptCompare dto.password user.password =
    false) (unauthorized "Invalid username or password")
  UsersService.assertUserCanLogin cfg user
  let some authenticatedUser ← await
    (.query (.user .row user.id)) | throw (unauthorized "Invalid username or password")
  UsersService.assertUserCanLogin cfg authenticatedUser
  let masterKey ← decryptMasterKey cfg dto.password authenticatedUser.masterKeyStore
  await (.redis (.write (.set (.masterKey authenticatedUser.id) (.text masterKey) 86400)))
  AuthService.getTokens authenticatedUser.id authenticatedUser.username authenticatedUser.sessionKey

/-- The signature and the expiry of the token have been checked. -/
def validate (cfg : Config) (payload : TokenPayload) : Routine User := do
  let some user ← await (.query (.user .row payload.sub)) | throw (unauthorized
    "Invalid or expired token")
  Prog.throwIf (user.username ≠ payload.username ∨ user.sessionKey ≠ payload.sessionKey)
    (unauthorized "Invalid or expired token")
  UsersService.assertUserCanLogin cfg user
  return user

end InternalAuthService

namespace AdminUsersService

def changeUsername (adminUserId userId : Id) (newUsername reason : String) :
    AccountRoutine User := do
  let user ← lift (findUserOrThrow userId)
  try
    let updatedUser ← awaitAccount (.changeUsername userId newUsername
      ⟨.admin, some adminUserId, some userId, "user_username_changed", some user.status,
        some user.status, some reason⟩)
    lift (await (.redis (.write (.del (.masterKey userId)))))
    pure updatedUser
  catch e => throw (if e = .fault .uniqueConflict then conflict "Username already taken" else e)

def deleteUserFiles (adminUserId userId : Id) (fileIds : List Id) (reason : String) :
    AccountRoutine Unit := do
  let _ ← lift (findUserOrThrow userId)
  let owned ← lift (await (.query (.filesOf userId)))
  let files := owned.filter fun f => fileIds.contains f.id
  if files = [] then return ()
  lift (deleteS3Objects .files (files.map (·.storageName)))
  awaitAccount (.deleteFiles userId (files.map (·.id))
    ⟨.admin, some adminUserId, some userId, "user_files_deleted", none, none, some reason⟩)

def clearUserData (adminUserId userId : Id) (reason : String) : AccountRoutine Unit := do
  let _ ← lift (findUserOrThrow userId)
  let files ← lift (await (.query (.filesOf userId)))
  let mails ← lift (await (.query (.mailsOf userId)))
  lift (deleteS3Objects .files (files.map (·.storageName)))
  lift (deleteS3Objects .mails (mailStorageKeys mails))
  awaitAccount (.clearUserContent userId
    ⟨.admin, some adminUserId, some userId, "user_data_cleared", none, none, some reason⟩)
  lift (clearUserRedisData userId)

end AdminUsersService

namespace AdminInvitesService

def normalizeOrCreateCode (cfg : Config) (code : Option String) : AccountRoutine String := do
  let normalizedCode := (code.map Text.trim).getD ""
  if normalizedCode = "" then return cfg.inviteCodeOf (← lift (await .random))
  Prog.throwIf (50 < Text.utf16Length normalizedCode)
    (badRequest "Invite code can't be longer than 50 characters")
  return normalizedCode

def createInviteCode (cfg : Config) (adminUserId : Id) (dto : CreateAdminInviteCodeDto) :
    AccountRoutine InviteCode := do
  let code ← normalizeOrCreateCode cfg dto.code
  try awaitAccount (.createAdminInviteCode code dto.usage (dto.isValid.getD true) adminUserId)
  catch e => throw (if e = .fault .uniqueConflict then conflict "Invite code already exists" else e)

def deleteInviteCode (adminUserId inviteCodeId : Id) : AccountRoutine Unit := do
  let some inviteCode ← awaitAccount (.adminInviteCode inviteCodeId adminUserId)
    | throw (notFound "Admin invite code not found")
  awaitAccount (.deleteInviteCode inviteCode adminUserId)

def updateInviteCodeValidity (adminUserId inviteCodeId : Id) (isValid : Bool) :
    AccountRoutine InviteCode := do
  let some inviteCode ← awaitAccount (.adminInviteCode inviteCodeId adminUserId)
    | throw (notFound "Admin invite code not found")
  awaitAccount (.setInviteCodeValidity inviteCode isValid adminUserId)

end AdminInvitesService

namespace AccountOperation

/-- A request behind the guard for administrators. -/
def adminGuarded (payload : TokenPayload) (body : Id → AccountRoutine Outcome) :
    AccountRoutine Outcome := do
  let adminUser ← lift (AdminJwtStrategy.validate payload)
  body adminUser.id

def body (cfg : Config) : AccountOperation → AccountRoutine Outcome
  | .base op => lift (op.program cfg)
  | .register dto => do return .tokens .user (← AuthService.register cfg dto)
  | .internalLogin dto => lift do return .tokens .user (← InternalAuthService.login cfg dto)
  | .internalValidate payload => lift do return .user (← InternalAuthService.validate cfg payload)
  | .changeUsername payload userId newUsername reason => adminGuarded payload fun adminUserId => do
    return .user (← AdminUsersService.changeUsername adminUserId userId newUsername reason)
  | .clearUserData payload userId reason => adminGuarded payload fun adminUserId => do
    AdminUsersService.clearUserData adminUserId userId reason
    return .done
  | .deleteUserFiles payload userId fileIds reason => adminGuarded payload fun adminUserId => do
    AdminUsersService.deleteUserFiles adminUserId userId fileIds reason
    return .done
  | .createAdminInviteCode payload dto => adminGuarded payload fun adminUserId => do
    return .inviteCode (← AdminInvitesService.createInviteCode cfg adminUserId dto)
  | .deleteInviteCode payload inviteCodeId => adminGuarded payload fun adminUserId => do
    AdminInvitesService.deleteInviteCode adminUserId inviteCodeId
    return .done
  | .updateInviteCodeValidity payload inviteCodeId isValid =>
    adminGuarded payload fun adminUserId => do
    return .inviteCode (← AdminInvitesService.updateInviteCodeValidity adminUserId
      inviteCodeId isValid)

def program (cfg : Config) (op : AccountOperation) : AccountRoutine Outcome :=
  .call (.receive op) fun _ => op.body cfg

end AccountOperation

/-- The backend with all its account services. -/
def accounts (cfg : Config) : System AccountRequest AccountReply Thrown Outcome World
      AccountOperation Delivery Nat where
  exec := World.execAccount cfg
  drift := World.tick
  program := AccountOperation.program cfg

abbrev SharedAccounts := Shared AccountRequest AccountReply World
abbrev AccountRules := Rules AccountRequest AccountReply World AccountOperation Delivery Nat
abbrev AccountEvent := Event AccountRequest AccountReply

/-- The call of the backend that an event is about. -/
def AccountEvent.backend (e : AccountEvent) : Option BackendEvent :=
  match e with
  | ⟨p, .backend q, r⟩ => some ⟨p, q, r⟩
  | _ => none

/-- The backend is a part of this system. -/
def backendWithin (cfg : Config) : Embedding (backend cfg) (accounts cfg) where
  up := .backend
  answer := fun _ r => r
  store := id
  view := AccountEvent.backend
  view_up := fun _ _ _ => rfl
  exec := fun _ _ _ => ⟨rfl, rfl⟩
  drift := fun _ _ => rfl

def baseLog (log : List AccountEvent) : List BackendEvent := log.filterMap AccountEvent.backend

namespace AccountOperation

/-- A caller can only present tokens that the server has signed. -/
def tokenKnown (log : List AccountEvent) : AccountOperation → Bool
  | .base op => op.tokenKnown (baseLog log)
  | .register _ | .internalLogin _ => true
  | .internalValidate payload => minted .user payload (baseLog log)
  | .changeUsername payload _ _ _ | .clearUserData payload _ _ | .deleteUserFiles payload _ _ _
  | .createAdminInviteCode payload _ | .deleteInviteCode payload _ | .updateInviteCodeValidity
      payload _ _ =>
    minted .adminUser payload (baseLog log)

end AccountOperation

/-- Any request may arrive with a token that was signed; every call is delivered. -/
def accountRules : AccountRules where
  starts := fun s op => op.tokenKnown s.log
  allows := fun _ _ _ d => decide (d = .delivered)
  drifts := fun _ _ => true

abbrev AccountAction := Action AccountOperation Delivery Nat

/-- Process `p` makes its next `n` calls. -/
def accountCalls (p n : Nat) : List AccountAction := List.replicate n (.advance p .delivered)

end Redbox
