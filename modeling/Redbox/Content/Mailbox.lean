import Redbox.Backend.Commits
import Redbox.Interleaving.Expansion

/-! Mailboxes: mail that is delivered to users, and the deletions of mails by their owners. -/
namespace Redbox
open Interleaving

inductive MailRequest where
  | backend (q : Request)
  | findMail (userId mailId : Id)
  | mailById (mailId : Id)
  | mailsById (userId : Id) (mailIds : List Id)
  | deleteMail (mailId : Id)
  | deleteMails (userId : Id) (mailIds : List Id)

abbrev MailRequest.Answer : MailRequest → Type
  | backend q => q.Answer
  | findMail _ _ => Option Mail
  | mailById _ => Option Mail
  | mailsById _ _ => List Mail
  | deleteMail _ => Unit
  | deleteMails _ _ => Nat

abbrev MailReply (q : MailRequest) : Type := Except Thrown q.Answer

abbrev MailRoutine (α : Type) := Prog MailRequest MailReply Thrown α

namespace Database

def isAmong (userId : Id) (mailIds : List Id) (m : Mail) : Bool :=
  decide (m.id ∈ mailIds) && m.userId == userId

/-- The rows that satisfy `drop` go, with their attachments. -/
def dropMails (db : Database) (drop : Mail → Bool) : Database :=
  { db with mails := db.mails.filter fun m => !drop m }

end Database

namespace World

def dropMails (s : World) (drop : Mail → Bool) : World := { s with db := s.db.dropMails drop }

def deliverMail (cfg : Config) (s : World) : (q : MailRequest) → World × MailReply q
  | .backend q => s.deliver cfg q
  | .findMail userId mailId =>
    (s, .ok (s.db.mails.find? fun m => m.id == mailId && m.userId == userId))
  | .mailById mailId => (s, .ok (s.db.mails.find? fun m => m.id == mailId))
  | .mailsById userId mailIds => (s, .ok (s.db.mails.filter (Database.isAmong userId mailIds)))
  | .deleteMail mailId =>
    if s.db.mails.any (·.id == mailId) then (s.dropMails (·.id == mailId), .ok ())
    else (s, .error (.fault .recordNotFound))
  | .deleteMails userId mailIds =>
    (s.dropMails (Database.isAmong userId mailIds),
      .ok (s.db.mails.countP (Database.isAmong userId mailIds)))

def execMail (cfg : Config) (d : Delivery) (q : MailRequest) (s : World) : World × MailReply q :=
  match d, q with
  | .failed, _ => (s, .error (.fault .unavailable))
  | .lost, q => ((s.deliverMail cfg q).1, .error (.fault .unavailable))
  | .late, .backend q => s.exec cfg .late q
  | _, q => s.deliverMail cfg q

end World

def awaitMail (q : MailRequest) : MailRoutine q.Answer := Prog.await id q

/-- A routine of the backend as it is. -/
def liftMail {α : Type} (x : Routine α) : MailRoutine α := x.expand fun q => .call (.backend q) .ret

theorem liftMail_bind {α β : Type} (x : Routine α) (f : α → Routine β) :
    liftMail (x.bind f) = (liftMail x).bind fun a => liftMail (f a) :=
  Prog.expand_bind x f

theorem liftMail_await (q : Request) : liftMail (await q) = awaitMail (.backend q) := by
  apply congrArg (Prog.call (MailRequest.backend q))
  funext r
  cases r <;> rfl

theorem liftMail_ite {α : Type} (c : Prop) [Decidable c] (x y : Routine α) :
    liftMail (if c then x else y) = if c then liftMail x else liftMail y := apply_ite liftMail c x y

namespace MailService

/-- An object that cannot be deleted is logged and left. -/
def deleteObjects (keys : List Id) : MailRoutine Unit :=
  Prog.forEach keys fun key => (awaitMail (.backend (.s3 .mails (.deleteObject key)))).handle
    fun _ => .ret ()

def storageKeys (mail : Mail) : List Id := mail.storageKey :: mail.attachments.map (·.storageKey)

def deleteMailRecordById (mailId : Id) (throwIfMissing : Bool) : MailRoutine Unit := do
  let some mail ← awaitMail (.mailById mailId) | Prog.throwIf (throwIfMissing = true) (notFound
    "Mail not found")
  deleteObjects (storageKeys mail)
  awaitMail (.deleteMail mailId)

def deleteMail (userId mailId : Id) : MailRoutine Unit := do
  let some mail ← awaitMail (.findMail userId mailId) | throw (notFound "Mail not found")
  deleteMailRecordById mail.id true

def bulkDeleteMails (userId : Id) (mailIds : List Id) : MailRoutine Nat := do
  let mails ← awaitMail (.mailsById userId mailIds)
  deleteObjects (mails.flatMap storageKeys)
  awaitMail (.deleteMails userId mailIds)

end MailService

inductive MailOperation where
  | processIncomingMail (mail : IncomingMail)
  | deleteMail (userId mailId : Id)
  | bulkDeleteMails (userId : Id) (mailIds : List Id)

inductive MailOutcome where
  | processed (result : IncomingMailResult)
  | deleted
  | bulkDeleted (count : Nat)

namespace MailOperation

def program (cfg : Config) : MailOperation → MailRoutine MailOutcome
  | processIncomingMail mail =>
    do return .processed (← liftMail (MailService.processIncomingMail cfg mail))
  | deleteMail userId mailId => do
    MailService.deleteMail userId mailId
    return .deleted
  | bulkDeleteMails userId mailIds =>
    do return .bulkDeleted (← MailService.bulkDeleteMails userId mailIds)

end MailOperation

/-- Deliveries and deletions of mail, in runs in which administrators send no internal mail. -/
def mailboxes (cfg : Config) : System MailRequest MailReply Thrown MailOutcome World MailOperation
      Delivery Nat where
  exec := World.execMail cfg
  drift := World.tick
  program := MailOperation.program cfg

abbrev MailShared := Shared MailRequest MailReply World
abbrev MailRules := Rules MailRequest MailReply World MailOperation Delivery Nat
abbrev MailEvent := Event MailRequest MailReply

/-- Any mail may arrive, any user may delete mails, and any call may fail. -/
def anyMail : MailRules := ⟨fun _ _ => true, fun _ _ _ _ => true, fun _ _ => true⟩

end Redbox
