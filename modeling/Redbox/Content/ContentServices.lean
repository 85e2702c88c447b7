import Redbox.Files.FilesService

/-! The routines of the bins, links and mail services that create content for a user. -/
namespace Redbox
open Interleaving

structure CreateBinDto where
  title : String
  content : String
  size : Nat
  binKey : String
  password : Option String
  expiresIn : Option String

namespace BinsService

def calculateExpiration (now : Time) (expiresIn : Option String) : Option Time :=
  if expiresIn = some "never" then none
  else if expiresIn = some "1h" then some (addHours now 1)
  else if expiresIn = some "24h" then some (addHours now 24)
  else if expiresIn = some "7d" then some (addDays now 7)
  else some (addDays now 30)

def createBin (cfg : Config) (userId : Id) (dto : CreateBinDto) : Routine Id := do
  let masterKey ← FilesService.getMasterKeyForUser userId
  let currentBinCount ← await (.query (.binCount userId))
  Prog.throwIf (cfg.binLimit ≤ currentBinCount)
    (badRequest ("You have reached your limit of " ++ toString cfg.binLimit ++ " bins."))
  let binKeyIv ← await .random
  let salt ← await .random
  let now ← await .now
  await (.statement (.createBin
    { id := 0, title := if dto.title = "" then "Untitled Bin" else dto.title, content := dto.content
      size := dto.size, userId := userId, expiresAt := calculateExpiration now dto.expiresIn
      passwordHash := (dto.password.filter (· ≠ "")).map fun p => cfg.bcryptHash p salt
      encryptedBinKey := cfg.encryptKey masterKey dto.binKey binKeyIv, binKeyIv := binKeyIv }))

end BinsService

namespace LinksService

def maxShortCodeAttempts : Nat := 8

/-- The attempts that are left: only a short code that is taken leads to the next one. -/
def createWithin (cfg : Config) (userId : Id) (url : String) : Nat → Routine Link
  | 0 => throw (badRequest "Could not generate a unique short code")
  | attempts + 1 => do
    let bytes ← await .random
    try await (.statement (.createLink userId url (cfg.shortCodeOf bytes)))
    catch e => if e = .fault .uniqueConflict then createWithin cfg userId url attempts else throw e

def create (cfg : Config) (userId : Id) (url : String) : Routine Link := do
  let count ← await (.query (.linkCount userId))
  Prog.throwIf (cfg.linkLimit ≤ count)
    (badRequest ("You have reached the limit of " ++ toString cfg.linkLimit ++ " links."))
  createWithin cfg userId url maxShortCodeAttempts

end LinksService

/-- What `processIncomingMail` has worked out of a message before its first call. -/
structure IncomingMail where
  displayFrom : String
  cleanEmail : String
  username : String
  senderEmails : List String
  subject : String
  content : String
  contentSize : Nat
  attachments : List (String × String × Nat)

inductive IncomingMailResult where
  | ignored (reason : String)
  | success (mailId : Id)

namespace MailService

def defaultMailQuotaBytes : Nat := 500 * 1024 * 1024
def adminForwardMailQuotaBytes : Nat := 50 * 1024 * 1024 * 1024

def getMailQuotaLimitForUsername (cfg : Config) (username : String) : Nat :=
  if cfg.isAdminForward username then adminForwardMailQuotaBytes else defaultMailQuotaBytes

def blockSender (cfg : Config) (userId : Id) (emailToBlock : String) : Routine String := do
  let email := cfg.normalizeEmail emailToBlock
  await (.statement (.upsertBlockedSender userId email))
  return email

/-- The length of an AES-256-CBC ciphertext. -/
def cbcLength (size : Nat) : Nat := (size / 16 + 1) * 16

/-- Stores the attachments one by one and collects their rows. -/
def storeAttachments : List (String × String × Nat) → Routine (List MailAttachment)
  | [] => return []
  | (filename, mimetype, size) :: rest => do
    let storageKey ← await .random
    await (.s3 .mails (.putObject storageKey (cbcLength size)))
    return ⟨filename, mimetype, size, storageKey⟩ :: (← storeAttachments rest)

def storeMailboxMailForUser (cfg : Config) (user : User) (mail : IncomingMail) : Routine Id := do
  let storageKey ← await .random
  let mailKey ← await .random
  let mailIv ← await .random
  await (.s3 .mails (.putObject storageKey (cbcLength mail.contentSize)))
  let attachments ← storeAttachments mail.attachments
  await (.statement (.createMail
    { id := 0, sender := mail.displayFrom, recipient := mail.cleanEmail, subject := mail.subject
      storageKey := storageKey, contentSize := mail.contentSize, userId := user.id
      encryptedMailKey := cfg.publicEncrypt user.publicKey mailKey, mailKeyIv := mailIv
      attachments := attachments }))

def processIncomingMail (cfg : Config) (mail : IncomingMail) : Routine IncomingMailResult := do
  if mail.username.toList.contains '*' then
    return .ignored "Broadcast delivery is only supported for internal admin mail"
  let some user ← await (.query (.userByUsername mail.username)) | return .ignored "User not found"
  if user.status ≠ .active then return .ignored "User account is not active"
  let isBlocked ← await (.query (.blockedSender user.id mail.senderEmails))
  if isBlocked.isSome then return .ignored "Sender is blocked"
  let incomingMailSize := mail.contentSize + (mail.attachments.map (·.2.2)).sum
  let currentUsage ← await (.query (.mailStorageUsed user.id))
  if getMailQuotaLimitForUsername cfg user.username < currentUsage + incomingMailSize then
    return .ignored "Mailbox quota exceeded"
  return .success (← storeMailboxMailForUser cfg user mail)

end MailService
end Redbox
