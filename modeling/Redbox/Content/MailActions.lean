import Redbox.Backend.World
import Redbox.Interleaving.Callers
import Redbox.Interleaving.Safety

/-! What users do with the mails of their mailboxes while mail arrives: reading, moving,
archiving and deleting, one by one or in bulk. -/
namespace Redbox.MailActions
open Interleaving

structure MailRow where
  id : Id
  userId : Id
  subject : String
  sender : String
  storageKey : Id
  attachments : List Id
  isRead : Bool
  isArchived : Bool
  isSpam : Bool
  createdAt : Time

def MailRow.storageKeys (mail : MailRow) : List Id := mail.storageKey :: mail.attachments

/-- The columns that an update sets. -/
structure MailUpdate where
  isRead : Option Bool
  isArchived : Option Bool
  isSpam : Option Bool

def MailUpdate.apply (data : MailUpdate) (mail : MailRow) : MailRow :=
  { mail with
    isRead := data.isRead.getD mail.isRead
    isArchived := data.isArchived.getD mail.isArchived
    isSpam := data.isSpam.getD mail.isSpam }

inductive Folder where
  | inbox | archive | spam
  deriving DecidableEq

/-- One call at a time; `receive` is the request that the guard lets in for a user, or the mail
whose recipient he is. -/
inductive MailCall where
  | receive (userId : Id)
  | uuidv4
  | putObject (key : Id)
  | deleteObject (key : Id)
  | create (userId : Id) (subject sender : String) (storageKey : Id) (attachments : List Id)
  | findFirst (userId mailId : Id)
  | findUnique (mailId : Id)
  | findMany (userId : Id) (mailIds : List Id)
  | update (mailId : Id) (data : MailUpdate)
  | updateMany (userId : Id) (mailIds : List Id) (data : MailUpdate)
  | delete (mailId : Id)
  | deleteMany (userId : Id) (mailIds : List Id)

@[reducible] def MailCall.Answer : MailCall → Type
  | uuidv4 => Id
  | create _ _ _ _ _ => MailRow
  | findFirst _ _ | findUnique _ => Option MailRow
  | findMany _ _ => List MailRow
  | updateMany _ _ _ | deleteMany _ _ => Nat
  | _ => Unit

abbrev MailReply (q : MailCall) : Type := Except Thrown q.Answer
abbrev MailRoutine (α : Type) := Prog MailCall MailReply Thrown α
abbrev MailEvent := Event MailCall MailReply

/-- The table of mails and the names of the objects in the bucket. Ids and names are drawn from one
counter. -/
structure Mailroom where
  mails : List MailRow
  bucket : List Id
  nextId : Id
  clock : Time

abbrev SharedMail := Shared MailCall MailReply Mailroom

namespace Mailroom

def isAmong (userId : Id) (mailIds : List Id) (mail : MailRow) : Bool :=
  mailIds.contains mail.id && mail.userId == userId

def perform (s : Mailroom) : (q : MailCall) → Mailroom × MailReply q
  | .receive _ => (s, .ok ())
  | .uuidv4 => ({ s with nextId := s.nextId + 1 }, .ok s.nextId)
  | .putObject key => ({ s with bucket := key :: s.bucket }, .ok ())
  | .deleteObject key => ({ s with bucket := s.bucket.filter (· != key) }, .ok ())
  | .create userId subject sender storageKey attachments =>
    let mail := ⟨s.nextId, userId, subject, sender, storageKey, attachments, false, false, false,
      s.clock⟩
    ({ s with mails := s.mails ++ [mail], nextId := s.nextId + 1 }, .ok mail)
  | .findFirst userId mailId =>
    (s, .ok (s.mails.find? fun m => m.id == mailId && m.userId == userId))
  | .findUnique mailId => (s, .ok (s.mails.find? (·.id == mailId)))
  | .findMany userId mailIds => (s, .ok (s.mails.filter (isAmong userId mailIds)))
  | .update mailId data =>
    if s.mails.any (·.id == mailId) then
      ({ s with mails := updateWhere (·.id == mailId) data.apply s.mails }, .ok ())
    else (s, .error (.fault .recordNotFound))
  | .updateMany userId mailIds data =>
    ({ s with mails := updateWhere (isAmong userId mailIds) data.apply s.mails },
      .ok (s.mails.countP (isAmong userId mailIds)))
  | .delete mailId =>
    if s.mails.any (·.id == mailId) then
      ({ s with mails := s.mails.filter (·.id != mailId) }, .ok ())
    else (s, .error (.fault .recordNotFound))
  | .deleteMany userId mailIds =>
    ({ s with mails := s.mails.filter fun m => !isAmong userId mailIds m },
      .ok (s.mails.countP (isAmong userId mailIds)))

/-- A call fails before or after it took effect, or is answered. -/
def exec (d : Delivery) (q : MailCall) (s : Mailroom) : Mailroom × MailReply q :=
  match d with
  | .failed => (s, .error (.fault .unavailable))
  | .lost => ((s.perform q).1, .error (.fault .unavailable))
  | _ => s.perform q

end Mailroom

def await (q : MailCall) : MailRoutine q.Answer := Prog.await id q

namespace MailService

/-- An object that cannot be deleted is logged and left. -/
def deleteObjects (keys : List Id) : MailRoutine Unit :=
  Prog.forEach keys fun key => (await (.deleteObject key)).handle fun _ => .ret ()

def storeAttachments : Nat → MailRoutine (List Id)
  | 0 => return []
  | n + 1 => do
    let key ← await .uuidv4
    await (.putObject key)
    return key :: (← storeAttachments n)

def storeMailboxMailForUser (userId : Id) (subject sender : String) (attachments : Nat) :
    MailRoutine MailRow := do
  let storageKey ← await .uuidv4
  await (.putObject storageKey)
  let keys ← storeAttachments attachments
  await (.create userId subject sender storageKey keys)

/-- What it does to the table; the mail is decrypted in between. -/
def getSingleMail (userId mailId : Id) : MailRoutine Unit := do
  match ← await (.findUnique mailId) with
  | none => throw (notFound "Mail not found")
  | some mail =>
    Prog.throwIf (mail.userId ≠ userId) (notFound "Mail not found")
    if mail.isRead then return () else await (.update mailId ⟨some true, none, none⟩)

def deleteMailRecordById (mailId : Id) : MailRoutine Unit := do
  match ← await (.findUnique mailId) with
  | none => throw (notFound "Mail not found")
  | some mail =>
    deleteObjects mail.storageKeys
    await (.delete mailId)

def deleteMail (userId mailId : Id) : MailRoutine Unit := do
  match ← await (.findFirst userId mailId) with
  | none => throw (notFound "Mail not found")
  | some mail => deleteMailRecordById mail.id

def folderData (folder : Folder) : MailUpdate :=
  ⟨none, some (decide (folder = .archive)), some (decide (folder = .spam))⟩

def updateMail (userId mailId : Id) (data : MailUpdate) : MailRoutine Unit := do
  match ← await (.findFirst userId mailId) with
  | none => throw (notFound "Mail not found")
  | some _ => await (.update mailId data)

def moveMail (userId mailId : Id) (folder : Folder) : MailRoutine Unit :=
  updateMail userId mailId (folderData folder)

def setReadStatus (userId mailId : Id) (isRead : Bool) : MailRoutine Unit :=
  updateMail userId mailId ⟨some isRead, none, none⟩

def bulkMoveMails (userId : Id) (mailIds : List Id) (folder : Folder) : MailRoutine Nat :=
  await (.updateMany userId mailIds (folderData folder))

def bulkArchiveMails (userId : Id) (mailIds : List Id) : MailRoutine Nat :=
  await (.updateMany userId mailIds ⟨none, some true, none⟩)

def bulkSetReadStatus (userId : Id) (mailIds : List Id) (isRead : Bool) : MailRoutine Nat :=
  await (.updateMany userId mailIds ⟨some isRead, none, none⟩)

def bulkDeleteMails (userId : Id) (mailIds : List Id) : MailRoutine Nat := do
  let mails ← await (.findMany userId mailIds)
  deleteObjects (mails.flatMap MailRow.storageKeys)
  await (.deleteMany userId mailIds)

end MailService

/-- Requests of a user, and mail that is stored for one. -/
inductive MailOperation where
  | storeMailboxMailForUser (userId : Id) (subject sender : String) (attachments : Nat)
  | getSingleMail (userId mailId : Id)
  | setReadStatus (userId mailId : Id) (isRead : Bool)
  | moveMail (userId mailId : Id) (folder : Folder)
  | deleteMail (userId mailId : Id)
  | bulkSetReadStatus (userId : Id) (mailIds : List Id) (isRead : Bool)
  | bulkMoveMails (userId : Id) (mailIds : List Id) (folder : Folder)
  | bulkArchiveMails (userId : Id) (mailIds : List Id)
  | bulkDeleteMails (userId : Id) (mailIds : List Id)

namespace MailOperation
open MailActions.MailService

def userId : MailOperation → Id
  | storeMailboxMailForUser userId _ _ _ | getSingleMail userId _ | setReadStatus userId _ _
  | moveMail userId _ _ | deleteMail userId _ | bulkSetReadStatus userId _ _
  | bulkMoveMails userId _ _ | bulkArchiveMails userId _ | bulkDeleteMails userId _ => userId

def routine : MailOperation → MailRoutine Unit
  | storeMailboxMailForUser userId subject sender attachments => do
    let _ ← MailService.storeMailboxMailForUser userId subject sender attachments
  | getSingleMail userId mailId => MailService.getSingleMail userId mailId
  | setReadStatus userId mailId isRead => MailService.setReadStatus userId mailId isRead
  | moveMail userId mailId folder => MailService.moveMail userId mailId folder
  | deleteMail userId mailId => MailService.deleteMail userId mailId
  | bulkSetReadStatus userId mailIds isRead => do
    let _ ← MailService.bulkSetReadStatus userId mailIds isRead
  | bulkMoveMails userId mailIds folder => do
    let _ ← MailService.bulkMoveMails userId mailIds folder
  | bulkArchiveMails userId mailIds => do
    let _ ← MailService.bulkArchiveMails userId mailIds
  | bulkDeleteMails userId mailIds => do
    let _ ← MailService.bulkDeleteMails userId mailIds

def program (op : MailOperation) : MailRoutine Unit := do
  await (.receive op.userId)
  op.routine

end MailOperation

/-- The mailboxes of all users. -/
def mailroom : System MailCall MailReply Thrown Unit Mailroom MailOperation Delivery Nat where
  exec := Mailroom.exec
  drift := fun n s => { s with clock := s.clock + n }
  program := MailOperation.program

abbrev MailRules := Rules MailCall MailReply Mailroom MailOperation Delivery Nat
abbrev MailPool := Pool MailCall MailReply Thrown Unit Mailroom MailOperation

/-- Any requests at any time, and any call may fail. -/
def anyRequests : MailRules := ⟨fun _ _ => true, fun _ _ _ _ => true, fun _ _ => true⟩

def Mailroom.empty : Mailroom := ⟨[], [], 0, 0⟩

end Redbox.MailActions
