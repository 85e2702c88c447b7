import Redbox.Accounts.AuthService
import Redbox.Accounts.AdminServices
import Redbox.Content.ContentServices
import Redbox.Interleaving.Outline

/-! The requests and jobs that the backend runs concurrently, as one system. -/
namespace Redbox
open Interleaving

/-- A request with what the caller sends, after the checks of the validation
pipe; a token stands for its verified payload. -/
inductive Operation where
  | login (dto : LoginDto)
  | refreshToken (payload : TokenPayload)
  | logout (payload : TokenPayload)
  | changePassword (payload : TokenPayload) (dto : ChangePasswordDto)
  | recoverPassword (dto : RecoverPasswordDto)
  | reactivateAccount (payload : ReactivationTokenPayload)
  | requestAccountDeletion (payload : TokenPayload) (password : String)
  | processPendingDeletionRequests
  | processExpiredRestrictions
  | adminLogin (dto : AdminLoginDto)
  | adminRefreshToken (payload : TokenPayload)
  | adminLogout (payload : TokenPayload)
  | adminChangePassword (payload : TokenPayload) (dto : AdminChangePasswordDto)
  | updateUserStatus (payload : TokenPayload) (userId : Id) (dto : UpdateAdminUserStatusDto)
  | forceLogoutUser (payload : TokenPayload) (userId : Id) (reason : String)
  | generateInviteCode (payload : TokenPayload)
  | createBin (payload : TokenPayload) (dto : CreateBinDto)
  | createLink (payload : TokenPayload) (url : String)
  | blockSender (payload : TokenPayload) (email : String)
  | processIncomingMail (mail : IncomingMail)
  | initializeUpload (payload : TokenPayload) (dto : InitUploadDto)
  | uploadChunk (payload : TokenPayload) (uploadId : Id) (file : Blob) (chunkIndex : Nat)
  | releaseUploadLock (userId uploadId token : Id)
  | completeUpload (payload : TokenPayload) (uploadId : Id) (dto : CompleteUploadDto)
  | cancelUpload (payload : TokenPayload) (uploadId : Id)
  | deleteFile (payload : TokenPayload) (fileId : Id)
  | downloadFile (fileId token : Id)
  | handleCleanup

/-- What a caller gets back, as far as another request or a later state can depend on it. -/
inductive Outcome where
  | done
  | tokens (table : SessionTable) (payload : TokenPayload)
  | pendingDeletion (deleteAfterAt : Time) (reactivationToken : ReactivationTokenPayload)
  | deletionRequested (deleteAfterAt : Time)
  | user (row : User)
  | created (id : Id)
  | inviteCode (code : InviteCode)
  | link (link : Link)
  | email (email : String)
  | ignored (reason : String)
  | file (file : File)

namespace Operation

/-- A request behind the guard for users runs for the user of its token. -/
def guarded (payload : TokenPayload) (body : Id → Routine Outcome) : Routine Outcome := do
  let user ← JwtStrategy.validate payload
  body user.id

/-- A request behind the guard for administrators. -/
def adminGuarded (payload : TokenPayload) (body : Id → Routine Outcome) : Routine Outcome := do
  let adminUser ← AdminJwtStrategy.validate payload
  body adminUser.id

def program (cfg : Config) : Operation → Routine Outcome
  | .login dto => do
    match ← AuthService.login cfg dto with
    | .tokens payload => return .tokens .user payload
    | .pendingDeletion deleteAfterAt token => return .pendingDeletion deleteAfterAt token
  | .refreshToken payload => do
    return .tokens .user (← AuthService.refreshToken cfg payload.sub payload.sessionKey)
  | .logout payload => guarded payload fun userId => do
    AuthService.logout userId
    return .done
  | .changePassword payload dto => guarded payload fun userId => do
    AuthService.changePassword cfg userId dto
    return .done
  | .recoverPassword dto => do
    AuthService.recoverPassword cfg dto
    return .done
  | .reactivateAccount payload => do
    AuthService.reactivateAccount payload
    return .done
  | .requestAccountDeletion payload password => guarded payload fun userId => do
    return .deletionRequested (← UsersService.requestAccountDeletion cfg userId password)
  | .processPendingDeletionRequests => do
    UsersService.processPendingDeletionRequests
    return .done
  | .processExpiredRestrictions => do
    UsersService.processExpiredRestrictions
    return .done
  | .adminLogin dto => do return .tokens .adminUser (← AdminAuthService.login cfg dto)
  | .adminRefreshToken payload => do
    return .tokens .adminUser (← AdminAuthService.refreshToken payload.sub payload.sessionKey)
  | .adminLogout payload => adminGuarded payload fun adminId => do
    AdminAuthService.logout adminId
    return .done
  | .adminChangePassword payload dto => adminGuarded payload fun adminId => do
    AdminAuthService.changePassword cfg adminId dto
    return .done
  | .updateUserStatus payload userId dto => adminGuarded payload fun adminId => do
    return .user (← AdminUsersService.updateUserStatus adminId userId dto)
  | .forceLogoutUser payload userId reason => adminGuarded payload fun adminId => do
    return .user (← AdminUsersService.forceLogoutUser adminId userId reason)
  | .generateInviteCode payload => guarded payload fun userId => do
    return .inviteCode (← UsersService.generateInviteCode cfg userId)
  | .createBin payload dto => guarded payload fun userId => do
    return .created (← BinsService.createBin cfg userId dto)
  | .createLink payload url => guarded payload fun userId => do
    return .link (← LinksService.create cfg userId url)
  | .blockSender payload email => guarded payload fun userId => do
    return .email (← MailService.blockSender cfg userId email)
  | .processIncomingMail mail => do
    match ← MailService.processIncomingMail cfg mail with
    | .ignored reason => return .ignored reason
    | .success mailId => return .created mailId
  | .initializeUpload payload dto => guarded payload fun userId => do
    return .created (← FilesService.initializeUpload cfg userId dto)
  | .uploadChunk payload uploadId file chunkIndex => guarded payload fun userId => do
    let _ ← UploadChunkConcurrencyGuard.canActivate userId uploadId
    Prog.throwIf (UploadChunkDto.valid chunkIndex = false) (badRequest "Validation failed")
    FilesService.handleChunk userId uploadId file chunkIndex
    return .done
  | .releaseUploadLock userId uploadId token => do
    UploadChunkConcurrencyGuard.release userId uploadId token
    return .done
  | .completeUpload payload uploadId dto => guarded payload fun userId => do
    return .file (← FilesService.finalizeUpload cfg userId uploadId dto)
  | .cancelUpload payload uploadId => guarded payload fun userId => do
    FilesService.cancelUpload userId uploadId
    return .done
  | .deleteFile payload fileId => guarded payload fun userId => do
    FilesService.deleteFile userId fileId
    return .done
  | .downloadFile fileId token => do
    return .file (← FilesService.getDownloadableFile fileId token)
  | .handleCleanup => do
    FilesService.handleCleanup
    return .done

end Operation

/-- The backend: processes are requests and jobs, and time may pass between calls. -/
def backend (cfg : Config) : System Request Reply Thrown Outcome World Operation Delivery Nat where
  exec := World.exec cfg
  drift := World.tick
  program := Operation.program cfg

abbrev SharedWorld := Shared Request Reply World
abbrev BackendRules := Rules Request Reply World Operation Delivery Nat
abbrev BackendPool := Pool Request Reply Thrown Outcome World Operation
abbrev BackendEvent := Event Request Reply

/-- The payload has been signed for the table. -/
def minted (table : SessionTable) (payload : TokenPayload) (log : List BackendEvent) : Bool :=
  log.any fun e => match e.req with
    | .sign t p => decide (t = table ∧ p = payload)
    | _ => false

def mintedReactivation (payload : ReactivationTokenPayload) (log : List BackendEvent) : Bool :=
  log.any fun e => match e.req with
    | .signReactivation p => decide (p = payload)
    | _ => false

namespace Operation

/-- A caller can only present tokens that the server has signed. -/
def tokenKnown (log : List BackendEvent) : Operation → Bool
  | .refreshToken p | .logout p | .changePassword p _ | .requestAccountDeletion p _
  | .generateInviteCode p | .createBin p _ | .createLink p _ | .blockSender p _
  | .initializeUpload p _ | .uploadChunk p _ _ _ | .completeUpload p _ _ | .cancelUpload p _
  | .deleteFile p _ => minted .user p log
  | .adminRefreshToken p | .adminLogout p | .adminChangePassword p _ | .updateUserStatus p _ _
  | .forceLogoutUser p _ _ => minted .adminUser p log
  | .reactivateAccount p => mintedReactivation p log
  | _ => true

end Operation

/-- Any request may arrive with a token that was signed; every call is delivered. -/
def allRequests : BackendRules where
  starts := fun s op => op.tokenKnown s.log
  allows := fun _ _ _ d => decide (d = .delivered)
  drifts := fun _ _ => true

/-- A server to run examples on, with one user, one administrator and no secrets. -/
def demoConfig : Config where
  sameName := fun a b => decide (a = b)
  bcryptCompare := fun secret hash => decide (secret = hash)
  bcryptHash := fun secret _ => secret
  sha256 := id
  encryptMasterKey := fun _ masterKey _ _ => ⟨masterKey, "", ""⟩
  decryptMasterKey := fun _ store => some store.encrypted
  encryptKey := fun _ key _ => key
  publicEncrypt := fun key _ => key
  toISOString := fun _ => "1970-01-01T00:00:00.000Z"
  normalizeEmail := id
  inviteCodeOf := fun _ => "RB-0123456789ABCDEF"
  shortCodeOf := fun _ => "abcdef"
  adminForwardUsername := none
  binLimit := 100
  linkLimit := 25

def demoUser : User :=
  ⟨1, "alice", "secret", .active, 10, 0, some ⟨"master", "", ""⟩, "phrase",
    ⟨"master", "", ""⟩, "public"⟩

def demoWorld : World where
  db :=
    { users := [demoUser], adminUsers := [⟨2, "root", "toor", 11⟩], restrictions := []
      deletionRequests := [], inviteCodes := [], files := [], links := [], bins := [], mails := []
      blockedSenders := [], internalMailAttachments := [], auditLogs := [] }
  redis := ∅
  filesBucket := ⟨∅, ∅⟩
  mailsBucket := ⟨∅, ∅⟩
  clock := 0
  nextId := 100

def demoToken : TokenPayload := ⟨1, "alice", 10⟩
def demoAdminToken : TokenPayload := ⟨2, "root", 11⟩

abbrev BackendAction := Action Operation Delivery Nat

/-- Process `p` makes its next `n` calls. -/
def calls (p n : Nat) : List BackendAction := List.replicate n (.advance p .delivered)

/-- The user logs in as process 0 and the administrator as process 1. -/
def demoLogins : List BackendAction :=
  .start (.login ⟨"alice", "secret"⟩) :: calls 0 6 ++ .start (.adminLogin ⟨"root", "toor"⟩) ::
    calls 1 3

def demoRun (R : BackendRules) (as : List BackendAction) : Option BackendPool :=
  (backend demoConfig).run R (.initial demoWorld) (demoLogins ++ as)

end Redbox
