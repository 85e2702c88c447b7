import Redbox.Content.ContentServices
import Redbox.Text.JsString

/-! Incoming mail from the webhook on: the aliases of the forwarding administrator, the
recipient that is made out of header and envelope, and the subject of the rate limit. -/
namespace Redbox
open Text

/-- The environment variables of `admin-mail-aliases.ts`, and the tables of `toLowerCase`. -/
structure MailEnv where
  adminForwardUsername : Option String
  adminForwardAliases : Option String
  toLowerCase : String → String

def optionalEnv (value : Option String) : Option String := (value.map trim).filter (· ≠ "")

/-- `a || b` -/
def orElse (a : Option String) (b : String) : String := (a.filter (· ≠ "")).getD b

namespace MailAddress

/-- The group of `/<([^>]+)>/`. -/
def angleGroup : List Char → Option (List Char)
  | [] => none
  | c :: cs =>
    let inner := cs.takeWhile (· ≠ '>')
    if c = '<' ∧ inner ≠ [] ∧ inner.length < cs.length then some inner else angleGroup cs

def isNameChar (c : Char) : Bool := c.isAlphanum || ['.', '_', '%', '+', '-'].contains c
def isDomainChar (c : Char) : Bool := c.isAlphanum || ['.', '-'].contains c

/-- `[A-Z0-9.-]+\.[A-Z]{2,}` with its dot at `dot`. -/
def domainWithDot (cs : List Char) (dot : Nat) : Option (List Char) :=
  let letters := (cs.drop (dot + 1)).takeWhile Char.isAlpha
  if 0 < dot ∧ cs[dot]? = some '.' ∧ 2 ≤ letters.length then some (cs.take (dot + 1) ++ letters)
    else none

/-- The first class is greedy, so the last dot that will do is taken. -/
def domain (cs : List Char) : Option (List Char) :=
  let run := cs.takeWhile isDomainChar
  (List.range run.length).reverse.findSome? (domainWithDot run)

/-- `/[A-Z0-9._%+-]+@[A-Z0-9.-]+\.[A-Z]{2,}/i` at the beginning of the text. -/
def addressHere (cs : List Char) : Option (List Char) :=
  let name := cs.takeWhile isNameChar
  match cs.drop name.length with
  | '@' :: rest => if name = [] then none else (domain rest).map fun d => name ++ '@' :: d
  | _ => none

/-- The first match. -/
def address : List Char → Option (List Char)
  | [] => none
  | c :: cs => (addressHere (c :: cs)).or (address cs)

/-- `[^\s@<>]` -/
def isPlain (c : Char) : Bool := !isSpace c && !(['@', '<', '>'].contains c)

end MailAddress

open MailAddress

def extractMailAddress (env : MailEnv) : Option String → String
  | none => ""
  | some value =>
    let trimmed := trimList value.toList
    let emailCandidate := ((angleGroup trimmed).or (address trimmed)).getD trimmed
    trim (env.toLowerCase (String.ofList emailCandidate))

/-- The set of aliases. Runs of separators split off empty strings, which are no aliases. -/
def getAdminForwardAliases (env : MailEnv) : List String :=
  let rawAliases := (optionalEnv env.adminForwardAliases).getD ""
  let aliases := rawAliases.toList.splitOnP fun c => c = ',' || isSpace c || c = ';'
  (aliases.map fun cs => extractMailAddress env (some (String.ofList cs))).filter (· ≠ "")

/-- `/^[a-z0-9_-]{3,50}$/` -/
def usernamePattern (username : String) : Bool :=
  username.toList.all (fun c => c.isLower || c.isDigit || c == '_' || c == '-') &&
    decide (3 ≤ username.length) && decide (username.length ≤ 50)

def getAdminForwardUsername (env : MailEnv) : Except Thrown (Option String) :=
  match optionalEnv env.adminForwardUsername with
  | none => .ok none
  | some username =>
    if usernamePattern username then .ok (some username)
    else .error (internalServerError
      ("MAIL_ADMIN_FORWARD_USERNAME must be a lowercase username with 3-50 letters, " ++
      "numbers, underscores or hyphens"))

def isFullEmailAddress (value : String) : Bool :=
  let name := value.toList.takeWhile isPlain
  match value.toList.drop name.length with
  | '@' :: domain => name ≠ [] && domain.all isPlain && domain.tail.dropLast.contains '.'
  | _ => false

def resolveIncomingRecipientAddress (env : MailEnv) (rawRecipients : List (Option String)) :
    Except Thrown String :=
  match (rawRecipients.map (extractMailAddress env)).filter (· ≠ "") with
  | [] => .ok "unknown"
  | first :: rest => do
    let recipients := first :: rest
    let adminAliases := getAdminForwardAliases env
    let adminForwardUsername ← getAdminForwardUsername env
    let primaryAdminAddress := adminForwardUsername.map (· ++ "@redbox.cx")
    let forwardedAdminAlias := recipients.find? fun r => some r ≠ primaryAdminAddress &&
      adminAliases.contains r
    return (forwardedAdminAlias.or ((recipients.find? adminAliases.contains).or
      (recipients.find? isFullEmailAddress))).getD first

def resolveIncomingMailboxUsername (env : MailEnv) (rawRecipient : Option String) :
    Except Thrown String :=
  let cleanEmail := extractMailAddress env rawRecipient
  if cleanEmail = "" then .ok "unknown"
  else do
    let adminForwardUsername ← getAdminForwardUsername env
    let forwarded := adminForwardUsername.filter fun _ =>
      (getAdminForwardAliases env).contains cleanEmail
    return forwarded.getD (orElse (some
      (trim (String.ofList (cleanEmail.toList.takeWhile (· ≠ '@'))))) "unknown")

namespace RateLimitGuard

/-- `resolveSubject` for the subject `mail-recipient`. -/
def mailRecipient (env : MailEnv) (rawTo : Option String) : Except Thrown String := do
  return "mail-recipient:" ++ (← resolveIncomingMailboxUsername env rawTo)

end RateLimitGuard

def Config.forwardingTo (cfg : Config) (adminForwardUsername : Option String) : Config :=
  { cfg with adminForwardUsername := adminForwardUsername }

structure IncomingMailDto where
  sender : String
  recipient : String
  subject : Option String
  raw : String

/-- `parsed.recipients` -/
inductive ParsedRecipients where
  | absent
  | one (text : String)
  | many (texts : List String)

structure ParsedAttachment where
  filename : Option String
  contentType : Option String
  size : Nat
  contentLength : Nat

/-- What mailparser makes of a raw message. -/
structure ParsedMail where
  sender : Option String
  recipients : ParsedRecipients
  subject : Option String
  html : Option String
  textAsHtml : Option String
  text : Option String
  attachments : List ParsedAttachment

namespace MailService

def parsedRecipient : ParsedRecipients → Option String
  | .absent => none
  | .one text => some text
  | .many texts => texts.find? (· ≠ "")

def preparedAttachment (attachment : ParsedAttachment) : String × String × Nat :=
  (orElse attachment.filename "unknown_file",
    orElse attachment.contentType "application/octet-stream",
    if attachment.size = 0 then attachment.contentLength else attachment.size)

def displayFrom (dto : IncomingMailDto) (parsed : ParsedMail) : String :=
  orElse (parsed.sender.map trim) dto.sender

def senderEmails (env : MailEnv) (dto : IncomingMailDto) (parsed : ParsedMail) : List String :=
  let emails := [extractMailAddress env (some (displayFrom dto parsed)),
    extractMailAddress env (some dto.sender)]
  emails.eraseDups.filter (· ≠ "")

def mailContent (parsed : ParsedMail) : String :=
  orElse parsed.html (orElse parsed.textAsHtml (orElse parsed.text "(No content)"))

def incomingMail (env : MailEnv) (dto : IncomingMailDto) (parsed : ParsedMail)
    (cleanEmail username : String) :
    IncomingMail where
  displayFrom := displayFrom dto parsed
  cleanEmail := cleanEmail
  username := username
  senderEmails := senderEmails env dto parsed
  subject := orElse parsed.subject (orElse dto.subject "(No subject)")
  content := mailContent parsed
  contentSize := (mailContent parsed).utf8ByteSize
  attachments := parsed.attachments.map preparedAttachment

/-- `processIncomingMail` up to its first call. -/
def readIncomingMail (env : MailEnv) (dto : IncomingMailDto) (parsed : ParsedMail) :
    Except Thrown IncomingMail := do
  let cleanEmail ← resolveIncomingRecipientAddress env [parsedRecipient parsed.recipients,
    some dto.recipient]
  let username ← resolveIncomingMailboxUsername env (some cleanEmail)
  return incomingMail env dto parsed cleanEmail username

/-- `processIncomingMail` of a parsed message. Where the name of the forwarding administrator
is ill-formed, the quota check fails before anything is stored. -/
def receiveIncomingMail (cfg : Config) (env : MailEnv) (dto : IncomingMailDto)
    (parsed : ParsedMail) :
    Routine IncomingMailResult :=
  match readIncomingMail env dto parsed, getAdminForwardUsername env with
  | .ok mail, .ok adminForwardUsername =>
    processIncomingMail (cfg.forwardingTo adminForwardUsername) mail
  | .error e, _ | _, .error e => throw e

end MailService
end Redbox
