import Redbox.Backend.Stores
import Redbox.Interleaving.Pool

/-! The calls that the services make on MariaDB, Redis and S3, and what each does. -/
namespace Redbox
open Interleaving

def defaultMaxFileSizeBytes : Nat := 2 * 1024 * 1024 * 1024 - 1
def adminMaxFileSizeBytes : Nat := 50 * 1024 * 1024 * 1024
def defaultFileQuotaBytes : Nat := 2 * 1024 * 1024 * 1024
def adminFileQuotaBytes : Nat := 50 * 1024 * 1024 * 1024

/-- The environment of the server and the functions of libraries that it calls. -/
structure Config where
  /-- Equality of usernames under the collation of the column. -/
  sameName : String → String → Bool
  bcryptCompare : String → String → Bool
  /-- `bcrypt.hash` under a salt. -/
  bcryptHash : String → Id → String
  sha256 : String → String
  /-- scrypt and AES-256-CBC under a secret, an IV and a salt. -/
  encryptMasterKey : String → String → Id → Id → MasterKeyStore
  /-- Nothing where the padding is wrong. -/
  decryptMasterKey : String → MasterKeyStore → Option String
  /-- AES-256-CBC of a content key under the master key and an IV. -/
  encryptKey : String → String → Id → String
  publicEncrypt : String → Id → String
  toISOString : Time → String
  /-- `email.toLowerCase().trim()` -/
  normalizeEmail : String → String
  /-- The code that random bytes make. -/
  inviteCodeOf : Id → String
  shortCodeOf : Id → String
  adminForwardUsername : Option String
  binLimit : Nat
  linkLimit : Nat

structure FileLimits where
  maxFileSize : Nat
  quotaLimit : Nat

namespace Config

def isAdminForward (cfg : Config) (username : String) : Bool :=
  cfg.adminForwardUsername.any fun name => decide (name ≠ "") && decide (username = name)

def getFileLimitsForUsername (cfg : Config) (username : String) : FileLimits :=
  if cfg.isAdminForward username then ⟨adminMaxFileSizeBytes, adminFileQuotaBytes⟩
  else ⟨defaultMaxFileSizeBytes, defaultFileQuotaBytes⟩

end Config

/-- The claims of an access or refresh token. Signatures cannot be forged, so a token is its claims.
-/
structure TokenPayload where
  sub : Id
  username : String
  sessionKey : Id
  deriving DecidableEq

structure ReactivationTokenPayload where
  sub : Id
  username : String
  sessionKey : Id
  deletionRequestId : Id
  deriving DecidableEq

/-- The columns that a read of one user selects. -/
inductive UserSelect where
  | row | idStatus | status | idPasswordStatus | minimal | idUsernameSessionStatus | idIssuedStatus | username
  deriving DecidableEq

inductive Query where
  | user (select : UserSelect) (id : Id)
  | userByUsername (username : String)
  | adminUser (id : Id)
  | adminUserByUsername (username : String)
  | activeDeletionRequest (userId : Id)
  | dueDeletionRequests
  | activeRestriction (userId : Id) (type : UserRestrictionType)
  | expiredBans
  | file (id : Id)
  | filesOf (userId : Id)
  | mailsOf (userId : Id)
  | expiredFiles
  | uploadAllowance (userId : Id) (fileSize : Nat)
  | binCount (userId : Id)
  | linkCount (userId : Id)
  | blockedSender (userId : Id) (emails : List String)
  | mailStorageUsed (userId : Id)

namespace Query

abbrev Answer : Query → Type
  | user _ _ => Option User
  | userByUsername _ => Option User
  | adminUser _ => Option AdminUser
  | adminUserByUsername _ => Option AdminUser
  | activeDeletionRequest _ => Option UserDeletionRequest
  | dueDeletionRequests => List UserDeletionRequest
  | activeRestriction _ _ => Option UserRestriction
  | expiredBans => List UserRestriction
  | file _ => Option File
  | filesOf _ => List File
  | mailsOf _ => List Mail
  | expiredFiles => List File
  | uploadAllowance _ _ => Unit
  | binCount _ => Nat
  | linkCount _ => Nat
  | blockedSender _ _ => Option BlockedSender
  | mailStorageUsed _ => Nat

end Query

namespace Database

/-- The checks that `initializeUpload` and `finalizeUpload` make in their transactions. -/
def checkUploadAllowance (cfg : Config) (db : Database) (userId : Id) (fileSize : Nat) :
    Except Thrown Unit := do
  let some user := db.findUser userId | .error (.http ⟨.unauthorized, "User not found"⟩)
  let limits := cfg.getFileLimitsForUsername user.username
  if limits.maxFileSize < fileSize then .error (.http ⟨.badRequest, "File too large"⟩)
  if limits.quotaLimit < db.fileUsage userId + fileSize then
    .error (.http ⟨.badRequest, "Quota exceeded"⟩)

def read (cfg : Config) (now : Time) (db : Database) : (q : Query) → Except Thrown q.Answer
  | .user _ id => .ok (db.findUser id)
  | .userByUsername username => .ok (db.findUsername cfg.sameName username)
  | .adminUser id => .ok (db.findAdminUser id)
  | .adminUserByUsername username => .ok (db.findAdminUsername cfg.sameName username)
  | .activeDeletionRequest userId => .ok (db.activeDeletionRequest userId)
  | .dueDeletionRequests => .ok (db.dueDeletionRequests now)
  | .activeRestriction userId type => .ok (db.activeRestriction userId type)
  | .expiredBans => .ok (db.expiredBans now)
  | .file id => .ok (db.findFile id)
  | .filesOf userId => .ok (db.filesOf userId)
  | .mailsOf userId => .ok (db.mailsOf userId)
  | .expiredFiles => .ok (db.expiredFiles now)
  | .uploadAllowance userId fileSize => db.checkUploadAllowance cfg userId fileSize
  | .binCount userId => .ok (db.binCount userId)
  | .linkCount userId => .ok (db.linkCount userId)
  | .blockedSender userId emails =>
    .ok (db.blockedSenders.find? fun b => b.userId == userId && emails.any (cfg.sameName b.email))
  | .mailStorageUsed userId => .ok (db.mailStorageUsed userId)

end Database

/-- Statements and transactions that write. Each draws the new names it needs when it commits. -/
inductive Statement where
  | swapSessionKey (table : SessionTable) (id key : Id)
  | rotateSessionKey (table : SessionTable) (id : Id)
  | updatePassword (id : Id) (password : String) (store : MasterKeyStore)
  | updateAdminPassword (id : Id) (passwordHash : String)
  | requestDeletion (userId : Id) (deleteAfterAt : Time) (previousStatus : UserStatus)
  | reactivate (userId : Id) (actorType : AuditActorType) (adminUserId : Option Id)
      (action : String)
      (reason : Option String) (previousStatus : UserStatus)
  | lock (userId adminUserId : Id) (reason : String) (previousStatus : UserStatus)
  | ban (userId adminUserId : Id) (reason : String) (isPermanent : Bool) (expiresAt : Option Time)
      (previousStatus : UserStatus)
  | markDeleted (userId : Id) (actorType : AuditActorType) (adminUserId : Option Id)
      (action : String)
      (reason : Option String) (previousStatus : UserStatus) (deletionRequestId : Option Id)
  | auditLog (entry : AuditLog)
  | createInviteCode (userId : Id) (code : String)
  | createFile (userId : Id) (originalName mimetype : String) (uploadMeta : UploadMeta)
      (encryptedFileKey : String) (fileKeyIv : Id)
  | deleteFile (id : Id)
  | createMail (mail : Mail)
  | createBin (bin : Bin)
  | createLink (userId : Id) (originalUrl shortCode : String)
  | upsertBlockedSender (userId : Id) (email : String)

namespace Statement

/-- The rows or counts that the callers look at. -/
abbrev Answer : Statement → Type
  | swapSessionKey _ _ _ => Nat
  | rotateSessionKey _ _ => Id
  | updatePassword _ _ _ => Id
  | updateAdminPassword _ _ => Id
  | lock _ _ _ _ => UserRestriction
  | ban _ _ _ _ _ _ => UserRestriction
  | createInviteCode _ _ => InviteCode
  | createFile _ _ _ _ _ _ => File
  | createMail _ => Id
  | createBin _ => Id
  | createLink _ _ _ => Link
  | _ => Unit

end Statement

/-- `calculateExpiration` of the files service. -/
def calculateExpiration (now : Time) (expiresIn : String) : Time :=
  if expiresIn = "1h" then addHours now 1
  else if expiresIn = "24h" then addHours now 24
  else if expiresIn = "7d" then addDays now 7
  else addDays now 30

namespace Database

/-- The transaction of `finalizeUpload`. -/
def createFile (cfg : Config) (db : Database) (userId : Id) (originalName mimetype : String)
    (uploadMeta : UploadMeta) (encryptedFileKey : String) (fileKeyIv : Id) (now : Time)
    (fresh : Id) :
    Except Thrown (Database × File) := do
  db.checkUploadAllowance cfg userId uploadMeta.fileSize
  if db.files.any (·.storageName == uploadMeta.storageKey) then .error (.fault .uniqueConflict)
  let file : File :=
    { id := fresh, originalName := originalName, storageName := uploadMeta.storageKey
      size := uploadMeta.fileSize, mimetype := mimetype, userId := userId
      expiresAt := calculateExpiration now uploadMeta.expiresIn, shareToken := fresh + 1
      passwordHash := uploadMeta.passwordHash, encryptedFileKey := encryptedFileKey
      fileKeyIv := fileKeyIv }
  return ({ db with files := file :: db.files }, file)

def deleteFile (db : Database) (id : Id) : Except Thrown Database :=
  if (db.findFile id).isSome then .ok { db with files := db.files.filter fun f => f.id != id }
  else .error (.fault .recordNotFound)

def createLink (cfg : Config) (db : Database) (userId : Id) (originalUrl shortCode : String)
    (fresh : Id) :
    Except Thrown (Database × Link) := do
  if db.links.any (fun l => cfg.sameName l.shortCode shortCode) then .error (.fault .uniqueConflict)
  let link : Link := ⟨fresh, originalUrl, shortCode, userId⟩
  let db ← db.owned userId fun db => { db with links := link :: db.links }
  return (db, link)

def upsertBlockedSender (cfg : Config) (db : Database) (userId : Id) (email : String) :
    Except Thrown Database :=
  if db.blockedSenders.any (fun b => b.userId == userId && cfg.sameName b.email email) then .ok db
  else db.owned userId fun db => { db with blockedSenders := ⟨email, userId⟩ :: db.blockedSenders }

/-- What a statement commits, or why it does not. -/
def perform (cfg : Config) (now : Time) (fresh : Id) (db : Database) :
    (w : Statement) → Except Thrown (Database × w.Answer)
  | .swapSessionKey table id key => .ok (db.swapSessionKey table id key fresh)
  | .rotateSessionKey table id => do return (← db.rotateSessionKey table id fresh, fresh)
  | .updatePassword id password store =>
    do return (← db.updatePassword id password store fresh, fresh)
  | .updateAdminPassword id passwordHash => do
    return (← db.updateAdminPassword id passwordHash fresh, fresh)
  | .requestDeletion userId deleteAfterAt previousStatus => do
    return (← db.requestDeletion userId deleteAfterAt previousStatus now fresh, ())
  | .reactivate userId actorType adminUserId action reason previousStatus => do
    return (← db.reactivate userId actorType adminUserId action reason previousStatus now fresh, ())
  | .lock userId adminUserId reason previousStatus => do
    let restriction := ⟨fresh + 1, userId, .lock, reason, false, none, some adminUserId, now, none⟩
    return (← db.restrict userId .locked restriction previousStatus now fresh, restriction)
  | .ban userId adminUserId reason isPermanent expiresAt previousStatus => do
    let restriction :=
      ⟨fresh + 1, userId, .ban, reason, isPermanent, expiresAt, some adminUserId, now, none⟩
    return (← db.restrict userId .banned restriction previousStatus now fresh, restriction)
  | .markDeleted userId actorType adminUserId action reason previousStatus deletionRequestId => do
    return (← db.markDeleted userId actorType adminUserId action reason previousStatus
      deletionRequestId now fresh, ())
  | .auditLog entry => .ok (db.createAuditLog entry, ())
  | .createInviteCode userId code => do
    return (← db.createInviteCode userId code fresh,
      ⟨fresh, code, 1, true, some userId, none, false⟩)
  | .createFile userId originalName mimetype uploadMeta encryptedFileKey fileKeyIv =>
    db.createFile cfg userId originalName mimetype uploadMeta encryptedFileKey fileKeyIv now fresh
  | .deleteFile id => do return (← db.deleteFile id, ())
  | .createMail mail => do
    return (← db.owned mail.userId fun db => { db with mails :=
      { mail with id := fresh } :: db.mails }, fresh)
  | .createBin bin => do
    return (← db.owned bin.userId fun db => { db with bins := { bin with id := fresh } :: db.bins },
      fresh)
  | .createLink userId originalUrl shortCode => db.createLink cfg userId originalUrl shortCode fresh
  | .upsertBlockedSender userId email => do return (← db.upsertBlockedSender cfg userId email, ())

end Database

inductive RedisCommand where
  | get (key : RedisKey)
  | mget (keys : List RedisKey)
  | exists (key : RedisKey)
  | smembers (key : RedisKey)
  | scanUploadMeta (userId : Id)
  | setNX (key : RedisKey) (value : RedisValue) (seconds : Nat)
  | compareAndDelete (key : RedisKey) (token : Id)
  | write (w : RedisWrite)
  | multi (ws : List RedisWrite)

namespace RedisCommand

abbrev Answer : RedisCommand → Type
  | get _ => Option RedisValue
  | mget _ => List (Option RedisValue)
  | .exists _ => Bool
  | smembers _ => List Id
  | scanUploadMeta _ => List RedisKey
  | setNX _ _ _ => Bool
  | _ => Unit

end RedisCommand

namespace Redis

def perform (r : Redis) (now : Time) : (c : RedisCommand) → Redis × c.Answer
  | .get key => (r, r.get now key)
  | .mget keys => (r, keys.map (r.get now))
  | .exists key => (r, (r.live now key).isSome)
  | .smembers key => (r, r.smembers now key)
  | .scanUploadMeta userId => (r, r.keys.filter fun
      | .uploadMeta u _ => u == userId
      | _ => false)
  | .setNX key value seconds =>
    if (r.live now key).isSome then (r, false)
    else (r.write now (.set key value seconds), true)
  | .compareAndDelete key token => match r.get now key with
    | some (.token t) => if t = token then (r.write now (.del key), ()) else (r, ())
    | _ => (r, ())
  | .write w => (r.write now w, ())
  | .multi ws => (r.writeAll now ws, ())

end Redis

namespace S3Request

abbrev Answer : S3Request → Type
  | createMultipartUpload _ => Id
  | uploadPart _ _ _ _ => Id
  | headObject _ => Nat
  | _ => Unit

end S3Request

namespace Bucket

def perform (b : Bucket) (fresh : Id) : (q : S3Request) → Except Thrown (Bucket × q.Answer)
  | .createMultipartUpload key =>
    .ok ({ b with uploads := b.uploads.insert fresh ⟨key, []⟩ }, fresh)
  | .uploadPart key s3UploadId partNumber body => do
    return (← b.uploadPart key s3UploadId partNumber body, body.digest)
  | .completeMultipartUpload key s3UploadId parts =>
    do return (← b.complete key s3UploadId parts, ())
  | .abortMultipartUpload key s3UploadId => do return (← b.abort key s3UploadId, ())
  | .headObject key => match b.objects.lookup key with
    | some size => .ok (b, size)
    | none => .error (.fault .noSuchKey)
  | .putObject key size => .ok ({ b with objects := b.objects.insert key size }, ())
  | .deleteObject key => .ok ({ b with objects := b.objects.erase key }, ())

end Bucket

inductive BucketName where
  | files | mails
  deriving DecidableEq

inductive Request where
  | query (q : Query)
  | statement (w : Statement)
  | redis (c : RedisCommand)
  | s3 (bucket : BucketName) (q : S3Request)
  | now
  | random
  | sign (table : SessionTable) (payload : TokenPayload)
  | signReactivation (payload : ReactivationTokenPayload)

namespace Request

abbrev Answer : Request → Type
  | query q => q.Answer
  | statement w => w.Answer
  | redis c => c.Answer
  | s3 _ q => q.Answer
  | now => Time
  | random => Id
  | sign _ _ => Unit
  | signReactivation _ => Unit

end Request

abbrev Reply (q : Request) : Type := Except Thrown q.Answer

structure World where
  db : Database
  redis : Redis
  filesBucket : Bucket
  mailsBucket : Bucket
  clock : Time
  nextId : Id

namespace World

def bucket (s : World) : BucketName → Bucket
  | .files => s.filesBucket
  | .mails => s.mailsBucket

def setBucket (s : World) (b : Bucket) : BucketName → World
  | .files => { s with filesBucket := b }
  | .mails => { s with mailsBucket := b }

/-- A call that arrives and whose reply arrives. Writes draw at most two names. -/
def deliver (cfg : Config) (s : World) : (q : Request) → World × Reply q
  | .query q => (s, s.db.read cfg s.clock q)
  | .statement w => match s.db.perform cfg s.clock s.nextId w with
    | .ok (db, a) => ({ s with db := db, nextId := s.nextId + 2 }, .ok a)
    | .error e => (s, .error e)
  | .redis c =>
    ({ s with redis := (s.redis.perform s.clock c).1 }, .ok (s.redis.perform s.clock c).2)
  | .s3 name q => match (s.bucket name).perform s.nextId q with
    | .ok (b, a) => ({ s.setBucket b name with nextId := s.nextId + 1 }, .ok a)
    | .error e => (s, .error e)
  | .now => (s, .ok s.clock)
  | .random => ({ s with nextId := s.nextId + 1 }, .ok s.nextId)
  | .sign _ _ => (s, .ok ())
  | .signReactivation _ => (s, .ok ())

end World

/-- What becomes of a call: it fails before or after it took effect, or an
`UploadPart` that was under way when its upload was aborted is stored late. -/
inductive Delivery where
  | delivered | failed | lost | late
  deriving DecidableEq

namespace World

def exec (cfg : Config) (d : Delivery) (q : Request) (s : World) : World × Reply q :=
  match d with
  | .delivered => s.deliver cfg q
  | .failed => (s, .error (.fault .unavailable))
  | .lost => ((s.deliver cfg q).1, .error (.fault .unavailable))
  | .late => match q with
    | .s3 name (.uploadPart key s3UploadId partNumber body) =>
      (s.setBucket ((s.bucket name).uploadLatePart key s3UploadId partNumber body) name,
        .ok body.digest)
    | q => s.deliver cfg q

/-- Time passes. -/
def tick (n : Nat) (s : World) : World := { s with clock := s.clock + n }

end World

/-- A routine of the backend. -/
abbrev Routine (α : Type) := Prog Request Reply Thrown α

def await (q : Request) : Routine q.Answer := Prog.await id q

def badRequest (message : String) : Thrown := .http ⟨.badRequest, message⟩
def unauthorized (message : String) : Thrown := .http ⟨.unauthorized, message⟩
def forbidden (message : String) : Thrown := .http ⟨.forbidden, message⟩
def notFound (message : String) : Thrown := .http ⟨.notFound, message⟩
def conflict (message : String) : Thrown := .http ⟨.conflict, message⟩
def internalServerError (message : String) : Thrown := .http ⟨.internalServerError, message⟩

end Redbox
