import Mathlib.Algebra.Ring.Nat
import Mathlib.Data.List.Basic

/-! The tables of the Prisma schema that the modelled services read and write,
with the reads of rows that the services make. -/
namespace Redbox

/-- A UUID or another random name. All names are drawn from one counter. -/
abbrev Id := Nat

/-- Milliseconds since the epoch. -/
abbrev Time := Nat

/-- `addDays`, on a server whose days all have 24 hours. -/
def addDays (t : Time) (n : Nat) : Time := t + n * 86400000

def addHours (t : Time) (n : Nat) : Time := t + n * 3600000

inductive UserStatus where
  | active | banned | locked | pending | deleted
  deriving DecidableEq

inductive UserRestrictionType where
  | lock | ban
  deriving DecidableEq

inductive AuditActorType where
  | admin | user | system
  deriving DecidableEq

/-- A master key under a secret: ciphertext, IV and salt in hex. -/
structure MasterKeyStore where
  encrypted : String
  iv : String
  salt : String
  deriving DecidableEq

/-- The three nullable columns of the password's master key are one optional store. -/
structure User where
  id : Id
  username : String
  password : String
  status : UserStatus
  sessionKey : Id
  issuedCodes : Nat
  masterKeyStore : Option MasterKeyStore
  recoveryPhraseHash : String
  recoveryMasterKeyStore : MasterKeyStore
  publicKey : String

structure AdminUser where
  id : Id
  username : String
  passwordHash : String
  sessionKey : Id

structure UserRestriction where
  id : Id
  userId : Id
  type : UserRestrictionType
  reason : String
  isPermanent : Bool
  expiresAt : Option Time
  createdByAdminUserId : Option Id
  createdAt : Time
  resolvedAt : Option Time
  deriving DecidableEq

structure UserDeletionRequest where
  id : Id
  userId : Id
  requestedAt : Time
  deleteAfterAt : Time
  cancelledAt : Option Time
  processedAt : Option Time
  deriving DecidableEq

structure InviteCode where
  id : Id
  code : String
  usage : Int
  isValid : Bool
  userId : Option Id
  createdByAdminUserId : Option Id
  isAdminCreated : Bool

structure File where
  id : Id
  originalName : String
  storageName : Id
  size : Nat
  mimetype : String
  userId : Id
  expiresAt : Time
  shareToken : Id
  passwordHash : Option String
  encryptedFileKey : String
  fileKeyIv : Id

structure Link where
  id : Id
  originalUrl : String
  shortCode : String
  userId : Id

structure Bin where
  id : Id
  title : String
  content : String
  size : Nat
  userId : Id
  expiresAt : Option Time
  passwordHash : Option String
  encryptedBinKey : String
  binKeyIv : Id

structure MailAttachment where
  filename : String
  mimetype : String
  size : Nat
  storageKey : Id

structure Mail where
  id : Id
  sender : String
  recipient : String
  subject : String
  storageKey : Id
  contentSize : Nat
  userId : Id
  encryptedMailKey : String
  mailKeyIv : Id
  attachments : List MailAttachment

structure BlockedSender where
  email : String
  userId : Id

/-- A stored attachment of an internal mail that is still delivered to a user. -/
structure InternalMailAttachment where
  userId : Id
  size : Nat

/-- A row of the audit log without its JSON details. -/
structure AuditLog where
  actorType : AuditActorType
  adminUserId : Option Id
  targetUserId : Option Id
  action : String
  previousStatus : Option UserStatus
  newStatus : Option UserStatus
  reason : Option String

structure Database where
  users : List User
  adminUsers : List AdminUser
  restrictions : List UserRestriction
  deletionRequests : List UserDeletionRequest
  inviteCodes : List InviteCode
  files : List File
  links : List Link
  bins : List Bin
  mails : List Mail
  blockedSenders : List BlockedSender
  internalMailAttachments : List InternalMailAttachment
  auditLogs : List AuditLog

namespace UserRestriction

def isOpen (r : UserRestriction) : Bool := r.resolvedAt.isNone

/-- A temporary ban that has run out. -/
def isExpiredBan (r : UserRestriction) (now : Time) : Bool :=
  r.type == .ban && !r.isPermanent && r.expiresAt.any fun t => decide (t ≤ now)

end UserRestriction

namespace UserDeletionRequest

/-- Neither cancelled nor processed. -/
def isOpen (r : UserDeletionRequest) : Bool := r.cancelledAt.isNone && r.processedAt.isNone

end UserDeletionRequest

/-- The first of the latest rows, as `findFirst` ordered by a date gives it, newest first. -/
def latestBy {α : Type} (date : α → Time) : List α → Option α
  | [] => none
  | r :: rows => match latestBy date rows with
    | none => some r
    | some b => if date r < date b then some b else some r

namespace Database

def findUser (db : Database) (id : Id) : Option User := db.users.find? fun u => u.id == id

/-- MariaDB compares usernames with a collation. -/
def findUsername (db : Database) (sameName : String → String → Bool) (username : String) :
    Option User :=
  db.users.find? fun u => sameName u.username username

def findAdminUser (db : Database) (id : Id) : Option AdminUser :=
  db.adminUsers.find? fun u => u.id == id

def findAdminUsername (db : Database) (sameName : String → String → Bool) (username : String) :
    Option AdminUser :=
  db.adminUsers.find? fun u => sameName u.username username

def findFile (db : Database) (id : Id) : Option File := db.files.find? fun f => f.id == id

def statusOf (db : Database) (userId : Id) : Option UserStatus :=
  (db.findUser userId).map (·.status)

def activeDeletionRequest (db : Database) (userId : Id) : Option UserDeletionRequest :=
  latestBy (·.requestedAt) (db.deletionRequests.filter fun r => r.userId == userId && r.isOpen)

def dueDeletionRequests (db : Database) (now : Time) : List UserDeletionRequest :=
  db.deletionRequests.filter fun r => r.isOpen && decide (r.deleteAfterAt ≤ now)

def activeRestriction (db : Database) (userId : Id) (type : UserRestrictionType) :
    Option UserRestriction :=
  latestBy (·.createdAt)
    (db.restrictions.filter fun r => r.userId == userId && r.type == type && r.isOpen)

def expiredBans (db : Database) (now : Time) : List UserRestriction :=
  db.restrictions.filter fun r => r.isOpen && r.isExpiredBan now

def expiredFiles (db : Database) (now : Time) : List File :=
  db.files.filter fun f => decide (f.expiresAt < now)

def filesOf (db : Database) (userId : Id) : List File := db.files.filter fun f => f.userId == userId
def mailsOf (db : Database) (userId : Id) : List Mail := db.mails.filter fun m => m.userId == userId
def binCount (db : Database) (userId : Id) : Nat :=
  (db.bins.filter fun b => b.userId == userId).length
def linkCount (db : Database) (userId : Id) : Nat :=
  (db.links.filter fun l => l.userId == userId).length

def fileUsage (db : Database) (userId : Id) : Nat := ((db.filesOf userId).map (·.size)).sum

/-- Mail bodies, their attachments and the shared attachments of internal mails. -/
def mailStorageUsed (db : Database) (userId : Id) : Nat :=
  ((db.mailsOf userId).map (·.contentSize)).sum +
  ((db.mailsOf userId).flatMap fun m => m.attachments.map (·.size)).sum +
  ((db.internalMailAttachments.filter fun a => a.userId == userId).map (·.size)).sum

/-- The user has no file, mail, bin, link, invite code or blocked sender. -/
def ownsNothing (db : Database) (userId : Id) : Bool :=
  db.files.all (·.userId != userId) && db.mails.all (·.userId != userId) &&
  db.bins.all (·.userId != userId) && db.links.all (·.userId != userId) &&
  db.inviteCodes.all (·.userId != some userId) && db.blockedSenders.all (·.userId != userId)

end Database

section
variable {α : Type} {date : α → Time} {rows : List α} {x : α}

theorem latestBy_mem (h : latestBy date rows = some x) : x ∈ rows := by
  induction rows generalizing x with
  | nil => cases h
  | cons r rows ih =>
    simp only [latestBy] at h
    split at h
    · simp_all
    · rename_i b hb
      have hmem : b ∈ rows := ih hb
      split at h <;> simp_all

end

namespace Database
variable {db : Database} {userId : Id} {now : Time}

theorem activeDeletionRequest_some {r : UserDeletionRequest}
    (h : db.activeDeletionRequest userId = some r) :
    r ∈ db.deletionRequests ∧ r.userId = userId ∧ r.isOpen = true := by
  simpa using latestBy_mem h

theorem activeRestriction_some {type : UserRestrictionType} {r : UserRestriction}
    (h : db.activeRestriction userId type = some r) :
    r ∈ db.restrictions ∧ r.userId = userId ∧ r.type = type ∧ r.isOpen = true := by
  simpa [and_assoc] using latestBy_mem h

end Database
end Redbox
