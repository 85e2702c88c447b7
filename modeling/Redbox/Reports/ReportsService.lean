import Redbox.Backend.World
import Redbox.Interleaving.Safety
import Redbox.Reports.ReportContentPassword
import Redbox.Text.JsString

/-! `reports.service.ts` and `admin-reports.service.ts`: reports of shared files and bins, and what
admins do with them. -/
namespace Redbox.Reports
open Interleaving ReportContentPassword
open Bytes (ByteString IdealAead Sealing)

inductive ReportedContentType where
  | FILE | BIN
  deriving DecidableEq

structure FileRow where
  id : Id
  userId : Id
  shareToken : Id
  expiresAt : Time
  passwordHash : Option String

structure BinRow where
  id : Id
  userId : Id
  shareToken : Id
  expiresAt : Option Time

/-- The columns of a report that say whether it is archived. -/
structure Archive where
  resolvedAt : Option Time
  actionTaken : Option String
  resolvedByAdminUserId : Option Id
  deriving DecidableEq

def Archive.open : Archive := ⟨none, none, none⟩

/-- What `createContentReport` inserts. -/
structure ContentReportData where
  contentType : ReportedContentType
  reportedUserId : Id
  fileId : Option Id
  binId : Option Id
  contentLink : String
  contentPasswordEncrypted : Option String
  reason : String
  reporterEmail : Option String

structure ContentReport where
  id : Id
  createdAt : Time
  data : ContentReportData
  archive : Archive

structure BugReport where
  id : Id
  description : String
  archive : Archive

inductive AuditAction where
  | user_files_deleted (fileIds : List Id)
  | report_content_deleted (contentType : ReportedContentType) (contentId : Option Id)
  | report_resolved
  | report_reopened
  | bug_report_resolved
  | bug_report_reopened
  deriving DecidableEq

structure AuditEntry where
  adminUserId : Id
  targetUserId : Option Id
  action : AuditAction
  reason : String
  reportId : Option Id

/-- One call at a time; an update with its audit entry is one transaction. -/
inductive ReportCall where
  | now
  | encryptReportedContentPassword (password : String)
  | findFile (id shareToken : Id)
  | findBin (id shareToken : Id)
  | findContentReport (id : Id)
  | findBugReport (id : Id)
  | createContentReport (data : ContentReportData)
  | createBugReport (description : String)
  | updateContentReport (id : Id) (data : Archive) (entry : AuditEntry)
  | updateBugReport (id : Id) (data : Archive) (entry : AuditEntry)
  | findUser (id : Id)
  | findFiles (userId : Id) (fileIds : List Id)
  | deleteObject (key : Id)
  | deleteFiles (userId : Id) (fileIds : List Id) (entry : AuditEntry)
  | deleteBin (id userId : Id)
  | createAuditLog (entry : AuditEntry)

@[reducible] def ReportCall.Answer : ReportCall → Type
  | now => Time
  | encryptReportedContentPassword _ => String
  | findFile _ _ => Option FileRow
  | findBin _ _ => Option BinRow
  | findContentReport _ => Option ContentReport
  | findBugReport _ => Option BugReport
  | createContentReport _ | createBugReport _ => Id
  | findUser _ => Bool
  | findFiles _ _ => List Id
  | deleteBin _ _ => Nat
  | _ => Unit

abbrev ReportReply (q : ReportCall) : Type := Except Thrown q.Answer
abbrev ReportRoutine (α : Type) := Prog ReportCall ReportReply Thrown α
abbrev ReportEvent := Event ReportCall ReportReply

/-- bcrypt, the cipher under the secret of the reports with the random bytes of its encryptions, and
the lower case of a string. -/
structure Config where
  bcryptCompare : String → String → Bool
  cipher : IdealAead tagLen
  randomBytes : Nat → ByteString
  length_randomBytes : ∀ n, (randomBytes n).length = 12
  toLowerCase : String → String

/-- The tables, with what the audit log has about reports, newest first, and the encryptions that
were made. -/
structure Tables where
  clock : Time
  nextId : Id
  users : List Id
  files : List FileRow
  bins : List BinRow
  contentReports : List ContentReport
  bugReports : List BugReport
  audit : List AuditEntry
  sealings : List Sealing

abbrev SharedTables := Shared ReportCall ReportReply Tables

namespace Tables

def empty : Tables := ⟨0, 0, [], [], [], [], [], [], []⟩

/-- The rows go, and reports lose their references to them. -/
def removeFiles (s : Tables) (gone : FileRow → Bool) : Tables :=
  { s with
    files := s.files.filter fun file => !gone file
    contentReports := s.contentReports.map fun r =>
      { r with data.fileId := r.data.fileId.filter fun id =>
        !s.files.any fun file => gone file && file.id == id } }

def removeBins (s : Tables) (gone : BinRow → Bool) : Tables :=
  { s with
    bins := s.bins.filter fun bin => !gone bin
    contentReports := s.contentReports.map fun r =>
      { r with data.binId := r.data.binId.filter fun id =>
        !s.bins.any fun bin => gone bin && bin.id == id } }

def log (s : Tables) (entry : AuditEntry) : Tables := { s with audit := entry :: s.audit }

/-- Foreign keys. -/
def accepts (s : Tables) (data : ContentReportData) : Bool :=
  s.users.contains data.reportedUserId &&
  data.fileId.all (fun id => s.files.any (·.id == id)) &&
  data.binId.all fun id => s.bins.any (·.id == id)

def perform (cfg : Config) (s : Tables) : (q : ReportCall) → Tables × ReportReply q
  | .now => (s, .ok s.clock)
  | .encryptReportedContentPassword password =>
    ({ s with
      nextId := s.nextId + 1
      sealings := sealing (cfg.randomBytes s.nextId) password :: s.sealings },
      .ok (ReportContentPassword.encryptReportedContentPassword cfg.cipher
        (cfg.randomBytes s.nextId) password))
  | .findFile id shareToken =>
    (s, .ok (s.files.find? fun file => file.id == id && file.shareToken == shareToken))
  | .findBin id shareToken =>
    (s, .ok (s.bins.find? fun bin => bin.id == id && bin.shareToken == shareToken))
  | .findContentReport id => (s, .ok (s.contentReports.find? (·.id == id)))
  | .findBugReport id => (s, .ok (s.bugReports.find? (·.id == id)))
  | .createContentReport data =>
    if s.accepts data then
      ({ s with
        nextId := s.nextId + 1
        contentReports := s.contentReports ++ [⟨s.nextId, s.clock, data, .open⟩] }, .ok s.nextId)
    else (s, .error (.fault .foreignKey))
  | .createBugReport description =>
    ({ s with
      nextId := s.nextId + 1
      bugReports := s.bugReports ++ [⟨s.nextId, description, .open⟩] }, .ok s.nextId)
  | .updateContentReport id data entry =>
    if s.contentReports.any (·.id == id) then
      ({ s with
        contentReports := updateWhere (·.id == id) (fun r => { r with archive := data })
          s.contentReports
        audit := entry :: s.audit }, .ok ())
    else (s, .error (.fault .recordNotFound))
  | .updateBugReport id data entry =>
    if s.bugReports.any (·.id == id) then
      ({ s with
        bugReports := updateWhere (·.id == id) (fun r => { r with archive := data }) s.bugReports
        audit := entry :: s.audit }, .ok ())
    else (s, .error (.fault .recordNotFound))
  | .findUser id => (s, .ok (s.users.contains id))
  | .findFiles userId fileIds =>
    (s, .ok ((s.files.filter fun file => fileIds.contains file.id && file.userId == userId).map
      (·.id)))
  | .deleteObject _ => (s, .ok ())
  | .deleteFiles userId fileIds entry =>
    ((s.removeFiles fun file => fileIds.contains file.id && file.userId == userId).log entry,
      .ok ())
  | .deleteBin id userId =>
    (s.removeBins fun bin => bin.id == id && bin.userId == userId,
      .ok (s.bins.countP fun bin => bin.id == id && bin.userId == userId))
  | .createAuditLog entry => (s.log entry, .ok ())

/-- A call fails before or after it took effect, or is answered. -/
def exec (cfg : Config) (d : Delivery) (q : ReportCall) (s : Tables) : Tables × ReportReply q :=
  match d with
  | .failed => (s, .error (.fault .unavailable))
  | .lost => ((s.perform cfg q).1, .error (.fault .unavailable))
  | _ => s.perform cfg q

end Tables

/-- What goes on elsewhere in the backend: users come, files and bins come and go. -/
inductive Elsewhere where
  | tick (n : Nat)
  | userRegistered
  | fileStored (userId shareToken : Id) (expiresAt : Time) (passwordHash : Option String)
  | binStored (userId shareToken : Id) (expiresAt : Option Time)
  | fileDeleted (id : Id)
  | binDeleted (id : Id)

def Tables.drift (s : Tables) : Elsewhere → Tables
  | .tick n => { s with clock := s.clock + n }
  | .userRegistered => { s with users := s.nextId :: s.users, nextId := s.nextId + 1 }
  | .fileStored userId shareToken expiresAt passwordHash =>
    { s with
      nextId := s.nextId + 1
      files := s.files ++ [⟨s.nextId, userId, shareToken, expiresAt, passwordHash⟩] }
  | .binStored userId shareToken expiresAt =>
    { s with
      nextId := s.nextId + 1
      bins := s.bins ++ [⟨s.nextId, userId, shareToken, expiresAt⟩] }
  | .fileDeleted id => s.removeFiles (·.id == id)
  | .binDeleted id => s.removeBins (·.id == id)

def await (q : ReportCall) : ReportRoutine q.Answer := Prog.await id q

structure ParsedContentLink where
  contentType : ReportedContentType
  contentId : Id
  token : Id

/-- A request to report content, with its link parsed and sanitized, and the password in the link.
-/
structure CreateContentReportDto where
  link : ParsedContentLink
  contentLink : String
  linkPassword : Option String
  contentPassword : Option String
  reason : String
  reporterEmail : Option String

structure ResolvedContentTarget where
  contentType : ReportedContentType
  reportedUserId : Id
  fileId : Option Id
  binId : Option Id
  filePasswordHash : Option String

namespace ReportsService

def resolveContentTarget (link : ParsedContentLink) : ReportRoutine ResolvedContentTarget := do
  match link.contentType with
  | .FILE =>
    match ← await (.findFile link.contentId link.token) with
    | none => throw (notFound "The reported upload could not be found")
    | some file =>
      let now ← await .now
      Prog.throwIf (file.expiresAt < now) (notFound "The reported upload could not be found")
      return ⟨.FILE, file.userId, some file.id, none, file.passwordHash⟩
  | .BIN =>
    match ← await (.findBin link.contentId link.token) with
    | none => throw (notFound "The reported bin could not be found")
    | some bin =>
      let now ← await .now
      Prog.throwIf (bin.expiresAt.any fun expiresAt => decide (expiresAt < now))
        (notFound "The reported bin could not be found")
      return ⟨.BIN, bin.userId, none, some bin.id, none⟩

/-- The password from the form, or else the one in the link. -/
def resolveSubmittedContentPassword (dto : CreateContentReportDto) :
    ReportRoutine (Option String) := do
  let submittedPassword := (dto.contentPassword.map Text.trim).filter (· ≠ "")
  if submittedPassword.isSome then return submittedPassword
  let passwordFromLink := (dto.linkPassword.map Text.trim).filter (· ≠ "")
  Prog.throwIf (passwordFromLink.any fun password => decide (100 < Text.utf16Length password))
    (badRequest "Content password must have between 1 and 100 characters")
  return passwordFromLink

def assertFileReportPasswordIfRequired (cfg : Config) (target : ResolvedContentTarget)
    (contentPassword : Option String) : ReportRoutine Unit :=
  if target.contentType ≠ .FILE then return ()
  else
    match target.filePasswordHash, contentPassword with
    | none, _ => return ()
    | some _, none =>
      throw (badRequest "Content password is required to report a password-protected file")
    | some hash, some password =>
      Prog.throwIf (cfg.bcryptCompare password hash = false)
        (badRequest "Content password is incorrect")

def encryptPassword : Option String → ReportRoutine (Option String)
  | none => return none
  | some password => do return some (← await (.encryptReportedContentPassword password))

def createContentReport (cfg : Config) (dto : CreateContentReportDto) : ReportRoutine Id := do
  let target ← resolveContentTarget dto.link
  let contentPassword ← resolveSubmittedContentPassword dto
  assertFileReportPasswordIfRequired cfg target contentPassword
  let contentPasswordEncrypted ← encryptPassword contentPassword
  await (.createContentReport
    { contentType := target.contentType, reportedUserId := target.reportedUserId
      fileId := target.fileId, binId := target.binId, contentLink := dto.contentLink
      contentPasswordEncrypted := contentPasswordEncrypted, reason := Text.trim dto.reason
      reporterEmail := (dto.reporterEmail.map fun email => cfg.toLowerCase (Text.trim email)).filter
        (· ≠ "") })

def createBugReport (description : String) : ReportRoutine Id :=
  await (.createBugReport description)

end ReportsService

structure ContentReportView where
  id : Id
  reportedUserId : Id
  timestamp : Time
  rawLink : String
  reason : String
  reporterEmail : Option String
  hasContentPassword : Bool
  contentPassword : Option String
  fileId : Option Id
  contentType : ReportedContentType

namespace AdminReportsService

def contentReportView (cfg : Config) (s : Tables) (report : ContentReport) :
    Except DecryptError ContentReportView := do
  let contentPassword ← decryptReportedContentPassword cfg.cipher s.sealings
    report.data.contentPasswordEncrypted
  return ⟨report.id, report.data.reportedUserId, report.createdAt, report.data.contentLink,
    report.data.reason, report.data.reporterEmail,
    report.data.contentPasswordEncrypted.any (· ≠ ""),
    contentPassword, report.data.fileId.or report.data.binId, report.data.contentType⟩

/-- The query of `getContentReports`. -/
def findContentReports (s : Tables) (archived : Bool) (offset limit : Nat) : List ContentReport :=
  let reports := s.contentReports.filter (·.archive.resolvedAt.isSome == archived)
  ((reports.mergeSort fun a b => decide (b.createdAt ≤ a.createdAt)).drop offset).take limit

/-- A password that cannot be read fails the whole page. -/
def getContentReports (cfg : Config) (s : Tables) (archived : Bool) (offset limit : Nat) :
    Except DecryptError (List ContentReportView) :=
  (findContentReports s archived offset limit).mapM (contentReportView cfg s)

/-- An object that cannot be deleted is logged and left. -/
def deleteS3Objects (keys : List Id) : ReportRoutine Unit :=
  Prog.forEach keys fun key => (await (.deleteObject key)).handle fun _ => .ret ()

def deleteUserFiles (adminUserId userId : Id) (fileIds : List Id) (reason : String) :
    ReportRoutine Nat := do
  let found ← await (.findUser userId)
  Prog.throwIf (found = false) (notFound "User not found")
  let files ← await (.findFiles userId fileIds)
  if files = [] then return 0
  deleteS3Objects files
  await (.deleteFiles userId files ⟨adminUserId, some userId, .user_files_deleted files, reason,
    none⟩)
  return files.length

def findOpenContentReportOrThrow (reportId : Id) : ReportRoutine ContentReport := do
  match ← await (.findContentReport reportId) with
  | none => throw (notFound "Report not found")
  | some report =>
    Prog.throwIf (report.archive.resolvedAt.isSome) (badRequest "Report is already archived")
    return report

def deleteContent (report : ContentReport) (reason : String) (adminUserId : Id) :
    ReportRoutine Unit := do
  match report.data.contentType with
  | .FILE =>
    match report.data.fileId with
    | none => throw (badRequest "Reported file has already been deleted")
    | some fileId =>
      let deletedCount ← deleteUserFiles adminUserId report.data.reportedUserId [fileId] reason
      Prog.throwIf (deletedCount = 0) (badRequest "Reported file has already been deleted")
  | .BIN =>
    match report.data.binId with
    | none => throw (badRequest "Reported bin has already been deleted")
    | some binId =>
      let deleted ← await (.deleteBin binId report.data.reportedUserId)
      Prog.throwIf (deleted = 0) (badRequest "Reported bin has already been deleted")

def deleteReportedContent (reportId : Id) (reason : String) (adminUserId : Id) :
    ReportRoutine Unit := do
  let report ← findOpenContentReportOrThrow reportId
  deleteContent report reason adminUserId
  await (.createAuditLog ⟨adminUserId, some report.data.reportedUserId,
    .report_content_deleted report.data.contentType (report.data.fileId.or report.data.binId),
    reason, some report.id⟩)

def resolveReport (reportId : Id) (reason : String) (adminUserId : Id) : ReportRoutine Unit := do
  match ← await (.findContentReport reportId) with
  | some report =>
    Prog.throwIf (report.archive.resolvedAt.isSome) (badRequest "Report is already archived")
    let now ← await .now
    await (.updateContentReport reportId ⟨some now, some reason, some adminUserId⟩ ⟨adminUserId,
      some report.data.reportedUserId, .report_resolved, reason, some reportId⟩)
  | none =>
    match ← await (.findBugReport reportId) with
    | some report =>
      Prog.throwIf (report.archive.resolvedAt.isSome) (badRequest "Report is already archived")
      let now ← await .now
      await (.updateBugReport reportId ⟨some now, some reason, some adminUserId⟩ ⟨adminUserId,
        none, .bug_report_resolved, reason, some reportId⟩)
    | none => throw (notFound "Report not found")

def reopenReport (reportId : Id) (reason : String) (adminUserId : Id) : ReportRoutine Unit := do
  match ← await (.findContentReport reportId) with
  | some report =>
    Prog.throwIf (report.archive.resolvedAt.isNone) (badRequest "Report is already open")
    await (.updateContentReport reportId .open ⟨adminUserId, some report.data.reportedUserId,
      .report_reopened, reason, some reportId⟩)
  | none =>
    match ← await (.findBugReport reportId) with
    | some report =>
      Prog.throwIf (report.archive.resolvedAt.isNone) (badRequest "Report is already open")
      await (.updateBugReport reportId .open ⟨adminUserId, none, .bug_report_reopened, reason,
        some reportId⟩)
    | none => throw (notFound "Report not found")

end AdminReportsService

inductive ReportOperation where
  | createContentReport (dto : CreateContentReportDto)
  | createBugReport (description : String)
  | resolveReport (reportId : Id) (reason : String) (adminUserId : Id)
  | reopenReport (reportId : Id) (reason : String) (adminUserId : Id)
  | deleteReportedContent (reportId : Id) (reason : String) (adminUserId : Id)

def ReportOperation.program (cfg : Config) : ReportOperation → ReportRoutine Unit
  | createContentReport dto => do
    let _ ← ReportsService.createContentReport cfg dto
  | createBugReport description => do
    let _ ← ReportsService.createBugReport description
  | resolveReport reportId reason adminUserId =>
    AdminReportsService.resolveReport reportId reason adminUserId
  | reopenReport reportId reason adminUserId =>
    AdminReportsService.reopenReport reportId reason adminUserId
  | deleteReportedContent reportId reason adminUserId =>
    AdminReportsService.deleteReportedContent reportId reason adminUserId

def reports (cfg : Config) :
    System ReportCall ReportReply Thrown Unit Tables ReportOperation Delivery Elsewhere where
  exec := Tables.exec cfg
  drift := fun e s => s.drift e
  program := ReportOperation.program cfg

abbrev ReportRules := Rules ReportCall ReportReply Tables ReportOperation Delivery Elsewhere

/-- Any requests at any time, and any call may fail. -/
def anyRequests : ReportRules := ⟨fun _ _ => true, fun _ _ _ _ => true, fun _ _ => true⟩

end Redbox.Reports
