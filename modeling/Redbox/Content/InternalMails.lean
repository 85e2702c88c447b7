import Redbox.Content.Mailbox
import Redbox.Text.JsString
import Mathlib.Data.List.AList

/-! Internal mails: administrators send them to one user or to all, recall and delete them. -/
namespace Redbox
open Interleaving

structure AdminMailSender where
  id : String
  address : String
  label : String

def adminMailSenders : List AdminMailSender :=
  [⟨"admin", "admin@team.redbox.cx", "Admin"⟩, ⟨"no-reply", "no-reply@team.redbox.cx", "No Reply"⟩,
    ⟨"support", "support@team.redbox.cx", "Support"⟩,
      ⟨"security", "security@team.redbox.cx", "Security"⟩]

structure AttachmentMetadata where
  name : String
  size : Nat
  type : String
  storageKey : Option Id

structure SendAdminMailDto where
  senderId : String
  recipient : Option String
  recipients : List String
  isBroadcast : Bool
  subject : String
  body : String
  isHtml : Bool
  template : Option String
  attachments : List AttachmentMetadata

structure UploadedAttachment where
  originalname : String
  mimetype : String
  size : Nat

/-- A broadcast has no username. -/
structure InternalMailTarget where
  toAddress : String
  targetUsername : Option String

structure InternalMail where
  id : Id
  createdByAdminUserId : Id
  sender : AdminMailSender
  target : InternalMailTarget
  subject : String
  body : String
  isHtml : Bool
  template : Option String
  recalledAt : Option Time
  recallReason : Option String
  recalledByAdminUserId : Option Id
  deletedAt : Option Time
  deleteReason : Option String
  deletedByAdminUserId : Option Id

structure InternalMailDelivery where
  internalMailId : Id
  userId : Id
  mailId : Option Id
  recalledAt : Option Time
  deriving DecidableEq

structure InternalMailAttachmentRow where
  internalMailId : Id
  attachment : AttachmentMetadata

inductive InternalMailRequest where
  | mail (q : MailRequest)
  | putShared (storageKey : Id) (size : Nat)
  | deleteShared (storageKey : Id)
  | recipients (target : InternalMailTarget)
  | createInternalMail (row : InternalMail) (attachments : List AttachmentMetadata)
  | deleteInternalMail (id : Id)
  | createDelivery (internalMailId userId mailId : Id)
  | findInternalMail (id : Id)
  | deliveredMailIds (internalMailId : Id)
  | markRecalled (id adminUserId : Id) (reason : String)
  | markDeleted (id adminUserId : Id) (reason : String) (recalls : Bool)
  | sharedKeys (internalMailId : Id)

abbrev InternalMailRequest.Answer : InternalMailRequest → Type
  | mail q => q.Answer
  | recipients _ => List User
  | createInternalMail _ _ => Id
  | findInternalMail _ => Option InternalMail
  | deliveredMailIds _ => List Id
  | sharedKeys _ => List Id
  | _ => Unit

abbrev InternalMailReply (q : InternalMailRequest) : Type := Except Thrown q.Answer

abbrev InternalMailRoutine (α : Type) := Prog InternalMailRequest InternalMailReply Thrown α

structure InternalMailWorld where
  world : World
  internalMails : List InternalMail
  deliveries : List InternalMailDelivery
  attachments : List InternalMailAttachmentRow
  /-- The objects of the bucket for mails whose names start with `internal_mail_att_`. -/
  shared : AList fun _ : Id => Nat

namespace InternalMailWorld

def recipients (cfg : Config) (s : InternalMailWorld) (target : InternalMailTarget) : List User :=
  match target.targetUsername with
  | none => s.world.db.users.filter fun u => decide (u.status ≠ .deleted)
  | some username =>
    (s.world.db.users.find? fun u => cfg.sameName u.username username &&
      decide (u.status ≠ .deleted)).toList

/-- Deliveries forget a mail that is gone. -/
def detach (s : InternalMailWorld) (mails : List Mail) : List InternalMailDelivery :=
  s.deliveries.map fun d => { d with mailId := d.mailId.filter fun id => mails.any (·.id == id) }

def createDelivery (s : InternalMailWorld) (internalMailId userId mailId : Id) :
    Except Thrown (List InternalMailDelivery) :=
  if s.internalMails.any (·.id == internalMailId) && (s.world.db.findUser userId).isSome &&
      s.world.db.mails.any (·.id == mailId) then
    if s.deliveries.any fun d => (d.internalMailId == internalMailId && d.userId == userId) ||
      d.mailId == some mailId then
      .error (.fault .uniqueConflict)
    else .ok (⟨internalMailId, userId, some mailId, none⟩ :: s.deliveries)
  else .error (.fault .foreignKey)

/-- `updateMany` of the deliveries that are not recalled. -/
def recallDeliveries (s : InternalMailWorld) (internalMailId : Id) : List InternalMailDelivery :=
  updateWhere (fun d => d.internalMailId == internalMailId && d.recalledAt.isNone)
    (fun d => { d with recalledAt := some s.world.clock }) s.deliveries

def audited (s : InternalMailWorld) (adminUserId : Id) (action reason : String) : World :=
  { s.world with db := s.world.db.createAuditLog ⟨.admin, some adminUserId, none, action, none,
    none, some reason⟩ }

/-- The transaction that records a recall. -/
def markRecalled (s : InternalMailWorld) (id adminUserId : Id) (reason : String) :
    Except Thrown InternalMailWorld :=
  if s.internalMails.any (·.id == id) then
    .ok { s with
      internalMails := updateWhere (·.id == id) (fun m => { m with
        recalledAt := some s.world.clock, recallReason := some reason
        recalledByAdminUserId := some adminUserId }) s.internalMails
      deliveries := s.recallDeliveries id
      world := s.audited adminUserId "internal_mail_recalled" reason }
  else .error (.fault .recordNotFound)

/-- The transaction that records a deletion, which recalls what is not recalled. -/
def markDeleted (s : InternalMailWorld) (id adminUserId : Id) (reason : String) (recalls : Bool) :
    Except Thrown InternalMailWorld :=
  if s.internalMails.any (·.id == id) then
    .ok { s with
      internalMails := updateWhere (·.id == id) (fun m => { m with
        deletedAt := some s.world.clock, deleteReason := some reason, deletedByAdminUserId :=
          some adminUserId
        recalledAt := if recalls then some s.world.clock else m.recalledAt
        recallReason := if recalls then some reason else m.recallReason
        recalledByAdminUserId := if recalls then some adminUserId else m.recalledByAdminUserId })
          s.internalMails
      deliveries := if recalls then s.recallDeliveries id else s.deliveries
      world := s.audited adminUserId "internal_mail_deleted" reason }
  else .error (.fault .recordNotFound)

def deliver (cfg : Config) (s : InternalMailWorld) : (q : InternalMailRequest) →
    InternalMailWorld × InternalMailReply q
  | .mail q =>
    let r := s.world.deliverMail cfg q
    ({ s with world := r.1, deliveries := s.detach r.1.db.mails }, r.2)
  | .putShared storageKey size => ({ s with shared := s.shared.insert storageKey size }, .ok ())
  | .deleteShared storageKey => ({ s with shared := s.shared.erase storageKey }, .ok ())
  | .recipients target => (s, .ok (s.recipients cfg target))
  | .createInternalMail row attachments =>
    ({ s with
      internalMails := { row with id := s.world.nextId } :: s.internalMails
      attachments := attachments.map (⟨s.world.nextId, ·⟩) ++ s.attachments
      world := { s.world with nextId := s.world.nextId + 1 } }, .ok s.world.nextId)
  | .deleteInternalMail id =>
    if s.internalMails.any (·.id == id) then
      ({ s with
        internalMails := s.internalMails.filter (·.id != id)
        deliveries := s.deliveries.filter (·.internalMailId != id)
        attachments := s.attachments.filter (·.internalMailId != id) }, .ok ())
    else (s, .error (.fault .recordNotFound))
  | .createDelivery internalMailId userId mailId =>
    match s.createDelivery internalMailId userId mailId with
    | .ok deliveries => ({ s with deliveries := deliveries }, .ok ())
    | .error e => (s, .error e)
  | .findInternalMail id => (s, .ok (s.internalMails.find? (·.id == id)))
  | .deliveredMailIds internalMailId =>
    (s, .ok ((s.deliveries.filter (·.internalMailId == internalMailId)).filterMap (·.mailId)))
  | .markRecalled id adminUserId reason => match s.markRecalled id adminUserId reason with
    | .ok s' => (s', .ok ())
    | .error e => (s, .error e)
  | .markDeleted id adminUserId reason recalls =>
    match s.markDeleted id adminUserId reason recalls with
    | .ok s' => (s', .ok ())
    | .error e => (s, .error e)
  | .sharedKeys internalMailId =>
    (s, .ok ((s.attachments.filter (·.internalMailId == internalMailId)).filterMap
      (·.attachment.storageKey)))

/-- A call that fails has no effect. -/
def exec (cfg : Config) (d : Delivery) (q : InternalMailRequest) (s : InternalMailWorld) :
    InternalMailWorld × InternalMailReply q :=
  match d with
  | .failed => (s, .error (.fault .unavailable))
  | _ => s.deliver cfg q

def tick (n : Nat) (s : InternalMailWorld) : InternalMailWorld := { s with world := s.world.tick n }

end InternalMailWorld

def awaitInternal (q : InternalMailRequest) : InternalMailRoutine q.Answer := Prog.await id q

/-- A routine of the mail service as it is. -/
def liftMailbox {α : Type} (x : MailRoutine α) : InternalMailRoutine α :=
  x.expand fun q => .call (.mail q) .ret

namespace AdminMailsService

def maxInternalMailAttachments : Nat := 10
def maxInternalMailAttachmentSize : Nat := 35 * 1024 * 1024

def findSenderOrThrow (senderId : String) : InternalMailRoutine AdminMailSender :=
  match adminMailSenders.find? fun s => decide (s.id = senderId) with
  | some sender => .ret sender
  | none => .throw (notFound "Sender not found")

/-- `/^(?:\*|[^@\s]+)@redbox\.cx$/i` with the part before the `@`. -/
def localPart? (address : String) : Option String :=
  let name := address.toList.takeWhile (· ≠ '@')
  if name ≠ [] ∧ name.all (fun c => !Text.isSpace c) = true ∧
      (address.toList.drop name.length).map Char.toLower = "@redbox.cx".toList then some
        (String.ofList name)
  else none

def resolveTargetAddress (cfg : Config) (dto : SendAdminMailDto) :
    InternalMailRoutine InternalMailTarget :=
  let normalizedTo := (dto.recipient.map cfg.normalizeEmail).getD ""
  let normalizedRecipients := (dto.recipients.map cfg.normalizeEmail).filter (· ≠ "")
  let toAddress :=
    if normalizedTo ≠ "" then normalizedTo
    else if dto.isBroadcast then "*@redbox.cx"
    else if normalizedRecipients.length = 1 then normalizedRecipients.headD ""
    else ""
  if toAddress = "" then
    .throw (badRequest "Internal mail requires either to, one legacy recipient, or broadcast mode")
  else if 1 < normalizedRecipients.length then
    .throw (badRequest "Internal mail can only target one specific user or *@redbox.cx broadcast")
  else match localPart? toAddress with
    | none =>
      .throw (badRequest "Internal mail can only be sent to *@redbox.cx or username@redbox.cx")
    | some localPart =>
      let localPart := cfg.normalizeEmail localPart
      .ret ⟨toAddress, if localPart = "*" then none else some localPart⟩

def resolveRecipientUsers (target : InternalMailTarget) : InternalMailRoutine (List User) := do
  let users ← awaitInternal (.recipients target)
  Prog.throwIf (target.targetUsername.isSome = true ∧
    users = []) (notFound "Recipient user not found")
  return users

def storeSharedInternalAttachment (attachment : UploadedAttachment) :
    InternalMailRoutine AttachmentMetadata := do
  let storageKey ← awaitInternal (.mail (.backend .random))
  awaitInternal (.putShared storageKey attachment.size)
  return ⟨if attachment.originalname = "" then "attachment" else attachment.originalname,
    attachment.size,
    if attachment.mimetype = "" then "application/octet-stream" else attachment.mimetype,
      some storageKey⟩

/-- An object that cannot be deleted is logged and left. -/
def deleteStoredAttachments (keys : List Id) : InternalMailRoutine Unit :=
  Prog.forEach keys fun key => (awaitInternal (.deleteShared key)).handle fun _ => .ret ()

/-- What is stored until an attachment fails, and why it does. -/
def storeEach : List UploadedAttachment → List AttachmentMetadata →
    InternalMailRoutine (List AttachmentMetadata × Option Thrown)
  | [], stored => return (stored, none)
  | attachment :: rest, stored =>
    if maxInternalMailAttachmentSize < attachment.size then
      return (stored, some (badRequest "Attachment can't be larger than 35MB"))
    else do
      match ← (storeSharedInternalAttachment attachment).outcome with
      | .ok metadata => storeEach rest (stored ++ [metadata])
      | .error e => return (stored, some e)

def storageKeysOf (attachments : List AttachmentMetadata) : List Id :=
  attachments.filterMap (·.storageKey)

def storeUploadedAttachments (uploadedAttachments : List UploadedAttachment) :
    InternalMailRoutine (List AttachmentMetadata) := do
  Prog.throwIf (maxInternalMailAttachments < uploadedAttachments.length)
    (badRequest "Internal mail can't have more than 10 attachments")
  let (stored, failure) ← storeEach uploadedAttachments []
  match failure with
  | none => return stored
  | some e => do
    deleteStoredAttachments (storageKeysOf stored)
    throw e

def createInternalInboxMail (cfg : Config) (user : User) (sender : AdminMailSender)
    (subject body : String) :
    InternalMailRoutine Id :=
  liftMailbox (liftMail (MailService.storeMailboxMailForUser cfg user
    ⟨sender.label ++ " <" ++ sender.address ++ ">", user.username ++ "@redbox.cx", user.username,
      [], subject, body,
      body.utf8ByteSize, []⟩))

/-- The loop over the recipients: the ids of the copies that it pushes, and the error that ends it.
-/
def deliverEach (cfg : Config) (internalMailId : Id) (sender : AdminMailSender)
    (subject body : String) :
    List User → List Id → InternalMailRoutine (List Id × Option Thrown)
  | [], delivered => return (delivered, none)
  | user :: rest, delivered => do
    match ← (createInternalInboxMail cfg user sender subject body).outcome with
    | .error e => return (delivered, some e)
    | .ok mailId =>
      match ← (awaitInternal (.createDelivery internalMailId user.id mailId)).outcome with
      | .error e => return (delivered ++ [mailId], some e)
      | .ok _ => deliverEach cfg internalMailId sender subject body rest (delivered ++ [mailId])

def deleteDelivered (delivered : List Id) : InternalMailRoutine Unit :=
  Prog.forEach delivered fun mailId => liftMailbox (MailService.deleteMailRecordById mailId false)

def deleteInternalMail (internalMailId : Id) : InternalMailRoutine Unit :=
  (awaitInternal (.deleteInternalMail internalMailId)).handle fun _ => .ret ()

/-- The outer catch block. -/
def cleanUp (delivered keys : List Id) (internalMailId : Option Id) : InternalMailRoutine Unit := do
  deleteDelivered delivered
  deleteStoredAttachments keys
  match internalMailId with
  | some id => deleteInternalMail id
  | none => return ()

/-- The inner catch block. Where it throws itself, that is what the outer one catches. -/
def undoDeliveries (delivered : List Id) (internalMailId : Id)
    (e : Thrown) : InternalMailRoutine Thrown := do
  match ← (do deleteDelivered delivered; deleteInternalMail internalMailId : InternalMailRoutine
    Unit).outcome with
  | .ok _ => return e
  | .error e' => return e'

structure SentMail where
  mailId : Id
  toAddress : String
  recipientCount : Nat
  attachmentCount : Nat
  sharedAttachmentCount : Nat
  isBroadcast : Bool

def sendMail (cfg : Config) (adminUserId : Id) (dto : SendAdminMailDto)
    (uploadedAttachments : List UploadedAttachment) :
    InternalMailRoutine SentMail := do
  let sender ← findSenderOrThrow dto.senderId
  let target ← resolveTargetAddress cfg dto
  let recipientUsers ← resolveRecipientUsers target
  Prog.throwIf (recipientUsers = []) (badRequest "No recipients available for this internal mail")
  let stored ← storeUploadedAttachments uploadedAttachments
  let keys := storageKeysOf stored
  let attachmentCreateData := dto.attachments.map (fun a => { a with storageKey := none }) ++ stored
  let row : InternalMail :=
    ⟨0, adminUserId, sender, target, dto.subject, dto.body, dto.isHtml, dto.template, none, none,
      none, none, none, none⟩
  match ← (awaitInternal (.createInternalMail row attachmentCreateData)).outcome with
  | .error e => do
    cleanUp [] keys none
    throw e
  | .ok internalMailId => do
    let (delivered, failure) ← deliverEach cfg internalMailId sender dto.subject dto.body
      recipientUsers []
    match failure with
    | some e => do
      let e ← undoDeliveries delivered internalMailId e
      cleanUp delivered keys (some internalMailId)
      throw e
    | none =>
      match ← (awaitInternal (.mail (.backend (.statement (.auditLog
        ⟨.admin, some adminUserId, none, "internal_mail_sent", none, none,
          some ("Internal mail sent to " ++ target.toAddress)⟩))))).outcome with
      | .error e => do
        cleanUp delivered keys (some internalMailId)
        throw e
      | .ok _ =>
        return ⟨internalMailId, target.toAddress, recipientUsers.length,
          attachmentCreateData.length, stored.length,
          target.targetUsername.isNone⟩

def findInternalMailOrThrow (mailId : Id) : InternalMailRoutine InternalMail := do
  let some mail ← awaitInternal (.findInternalMail mailId) | throw (notFound "Mail not found")
  return mail

def recallDeliveredInboxCopies (internalMailId : Id) : InternalMailRoutine Nat := do
  let mailIds ← awaitInternal (.deliveredMailIds internalMailId)
  deleteDelivered mailIds
  return mailIds.length

def recallMail (adminUserId mailId : Id) (reason : String) : InternalMailRoutine Nat := do
  let mail ← findInternalMailOrThrow mailId
  Prog.throwIf (mail.deletedAt.isSome = true) (badRequest "Mail has already been deleted")
  Prog.throwIf (mail.recalledAt.isSome = true) (badRequest "Mail has already been recalled")
  let recalledCount ← recallDeliveredInboxCopies mail.id
  awaitInternal (.markRecalled mail.id adminUserId reason)
  return recalledCount

def deleteMail (adminUserId mailId : Id) : InternalMailRoutine Nat := do
  let mail ← findInternalMailOrThrow mailId
  Prog.throwIf (mail.deletedAt.isSome = true) (badRequest "Mail has already been deleted")
  let recalledCount ← if mail.recalledAt.isNone then recallDeliveredInboxCopies mail.id else pure 0
  awaitInternal (.markDeleted mail.id adminUserId "Deleted by admin" mail.recalledAt.isNone)
  let keys ← awaitInternal (.sharedKeys mail.id)
  deleteStoredAttachments keys
  return recalledCount

end AdminMailsService

inductive InternalMailOperation where
  | sendMail (adminUserId : Id) (dto : SendAdminMailDto)
      (uploadedAttachments : List UploadedAttachment)
  | recallMail (adminUserId mailId : Id) (reason : String)
  | deleteMail (adminUserId mailId : Id)
  | deleteOwnMail (userId mailId : Id)

inductive InternalMailOutcome where
  | sent (mail : AdminMailsService.SentMail)
  | recalled (count : Nat)
  | deleted

namespace InternalMailOperation

def program (cfg : Config) : InternalMailOperation → InternalMailRoutine InternalMailOutcome
  | sendMail adminUserId dto uploadedAttachments => do
    return .sent (← AdminMailsService.sendMail cfg adminUserId dto uploadedAttachments)
  | recallMail adminUserId mailId reason =>
    do return .recalled (← AdminMailsService.recallMail adminUserId mailId reason)
  | deleteMail adminUserId mailId =>
    do return .recalled (← AdminMailsService.deleteMail adminUserId mailId)
  | deleteOwnMail userId mailId => do
    liftMailbox (MailService.deleteMail userId mailId)
    return .deleted

end InternalMailOperation

/-- Sending, recalling and deleting internal mails, and recipients who delete their copies. -/
def internalMails (cfg : Config) :
    System InternalMailRequest InternalMailReply Thrown InternalMailOutcome InternalMailWorld
      InternalMailOperation Delivery Nat where
  exec := InternalMailWorld.exec cfg
  drift := InternalMailWorld.tick
  program := InternalMailOperation.program cfg

abbrev InternalMailShared := Shared InternalMailRequest InternalMailReply InternalMailWorld
abbrev InternalMailRules := Rules InternalMailRequest InternalMailReply InternalMailWorld
      InternalMailOperation Delivery Nat
abbrev InternalMailEvent := Event InternalMailRequest InternalMailReply

end Redbox
