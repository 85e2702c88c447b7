import Redbox.Reports.ReportsService

/-! What every call about reports keeps, and all that goes on elsewhere. -/
namespace Redbox.Reports
open Interleaving ReportContentPassword

/-- The entry that archived the report, unless a later one reopened it. The log is newest first. -/
def archivedBy (resolved reopened : AuditAction) (reportId : Id) :
    List AuditEntry → Option AuditEntry
  | [] => none
  | entry :: log =>
    if entry.reportId = some reportId ∧ entry.action = resolved then some entry
    else if entry.reportId = some reportId ∧ entry.action = reopened then none
    else archivedBy resolved reopened reportId log

structure Archive.Follows (archive : Archive) (entry : Option AuditEntry) : Prop where
  resolvedAt : archive.resolvedAt.isSome = entry.isSome
  actionTaken : archive.actionTaken = entry.map (·.reason)
  resolvedBy : archive.resolvedByAdminUserId = entry.map (·.adminUserId)

/-- The references of a report are to content of its kind, and of the user reported. -/
structure Names (s : Tables) (data : ContentReportData) : Prop where
  file : ∀ id, data.fileId = some id → data.contentType = .FILE ∧
    ∃ file ∈ s.files, file.id = id ∧ file.userId = data.reportedUserId
  bin : ∀ id, data.binId = some id → data.contentType = .BIN ∧
    ∃ bin ∈ s.bins, bin.id = id ∧ bin.userId = data.reportedUserId

/-- The text is an encryption of the password that was made. -/
def Encrypts (cfg : Config) (s : Tables) (password text : String) : Prop :=
  password ≠ "" ∧ ∃ n, sealing (cfg.randomBytes n) password ∈ s.sealings ∧
    text = encryptReportedContentPassword cfg.cipher (cfg.randomBytes n) password

/-- The password of a report is encrypted, and opens the reported file. -/
structure Opens (cfg : Config) (s : Tables) (data : ContentReportData) : Prop where
  encrypted : ∀ text, data.contentPasswordEncrypted = some text →
    ∃ password, Encrypts cfg s password text
  fits : ∀ file ∈ s.files, data.fileId = some file.id → ∀ hash, file.passwordHash = some hash →
    ∃ password text, data.contentPasswordEncrypted = some text ∧ Encrypts cfg s password text ∧
      cfg.bcryptCompare password hash = true

structure Sound (cfg : Config) (s : Tables) (data : ContentReportData) : Prop where
  names : Names s data
  opens : Opens cfg s data

def deletesBin (binId : Id) (entry : AuditEntry) : Bool :=
  decide (entry.action = .report_content_deleted .BIN (some binId))

/-- What holds of the tables at all times. -/
structure Kept (cfg : Config) (s : Tables) : Prop where
  content : ∀ r ∈ s.contentReports,
    r.archive.Follows (archivedBy .report_resolved .report_reopened r.id s.audit) ∧ r.id < s.nextId
  bugs : ∀ r ∈ s.bugReports,
    r.archive.Follows (archivedBy .bug_report_resolved .bug_report_reopened r.id s.audit) ∧
      r.id < s.nextId
  audit : ∀ entry ∈ s.audit, ∀ id, entry.reportId = some id → id < s.nextId
  files : (s.files.map (·.id)).Nodup ∧ ∀ file ∈ s.files, file.id < s.nextId
  bins : (s.bins.map (·.id)).Nodup ∧ ∀ bin ∈ s.bins, bin.id < s.nextId
  sound : ∀ r ∈ s.contentReports, Sound cfg s r.data

/-- The file, while it is there, is one of the user and has the password. -/
def FileOf (userId : Id) (passwordHash : Option String) (id : Id) (s : Tables) : Prop :=
  id < s.nextId ∧ ∀ file ∈ s.files, file.id = id →
    file.userId = userId ∧ file.passwordHash = passwordHash

def BinOf (userId id : Id) (s : Tables) : Prop :=
  id < s.nextId ∧ ∀ bin ∈ s.bins, bin.id = id → bin.userId = userId

/-- The process has deleted the bin. -/
def Deleted (p : Nat) (binId : Id) (log : List ReportEvent) : Prop :=
  ∃ userId n, ⟨p, .deleteBin binId userId, .ok (n + 1)⟩ ∈ log

def Unlogged (binId : Id) (s : Tables) : Prop :=
  ∀ entry ∈ s.audit, deletesBin binId entry = false

structure Inv (cfg : Config) (s : SharedTables) : Prop where
  kept : Kept cfg s.store
  gone : ∀ p binId, Deleted p binId s.log → binId < s.store.nextId ∧
    ∀ bin ∈ s.store.bins, bin.id ≠ binId
  once : ∀ p p' binId, Deleted p binId s.log → Deleted p' binId s.log → p = p'
  logged : ∀ binId, Unlogged binId s.store ∨ s.store.audit.countP (deletesBin binId) = 1 ∧
    ∃ p, Deleted p binId s.log

/-- The data of an update say what its entry says. -/
def Matches (resolved reopened : AuditAction) (id : Id) (data : Archive) (entry : AuditEntry) :
    Prop :=
  entry.reportId = some id ∧ (entry.action = resolved ∧ data.Follows (some entry) ∨
    entry.action = reopened ∧ data = .open)

/-- What has been resolved is content of its kind and owner. -/
def Describes (target : ResolvedContentTarget) (s : Tables) : Prop :=
  (∀ id, target.fileId = some id → target.contentType = .FILE ∧
    FileOf target.reportedUserId target.filePasswordHash id s) ∧
  ∀ id, target.binId = some id → target.contentType = .BIN ∧ BinOf target.reportedUserId id s

/-- A password that was asked for is there, and is the right one. -/
def Grants (cfg : Config) (s : Tables) (target : ResolvedContentTarget) (text : Option String) :
    Prop :=
  (∀ e, text = some e → ∃ password, Encrypts cfg s password e) ∧
  (target.contentType = .FILE → ∀ hash, target.filePasswordHash = some hash →
    ∃ password e, text = some e ∧ Encrypts cfg s password e ∧
      cfg.bcryptCompare password hash = true)

def Pre (cfg : Config) (s : SharedTables) (p : Nat) : ReportCall → Prop
  | .createContentReport data => ∃ filePasswordHash,
    Describes ⟨data.contentType, data.reportedUserId, data.fileId, data.binId, filePasswordHash⟩
      s.store ∧
    Grants cfg s.store ⟨data.contentType, data.reportedUserId, data.fileId, data.binId,
      filePasswordHash⟩ data.contentPasswordEncrypted
  | .updateContentReport id data entry => Matches .report_resolved .report_reopened id data entry
  | .updateBugReport id data entry =>
    Matches .bug_report_resolved .bug_report_reopened id data entry
  | .deleteFiles _ _ entry => ∃ ids, entry.action = .user_files_deleted ids ∧ entry.reportId = none
  | .createAuditLog entry => ∃ type content id,
    entry.action = .report_content_deleted type content ∧ entry.reportId = some id ∧
    id < s.store.nextId ∧ ∀ binId, type = .BIN → content = some binId →
      Deleted p binId s.log ∧ Unlogged binId s.store
  | _ => True

def outline (cfg : Config) : Outline ReportCall ReportReply Tables := ⟨Inv cfg, Pre cfg⟩

section
variable {cfg : Config} {s : Tables} {resolved reopened : AuditAction} {id : Id}
  {entry : AuditEntry}
  {entries : List AuditEntry} {gone : FileRow → Bool} {goneBin : BinRow → Bool}

theorem archivedBy_cons (id : Id) (entries : List AuditEntry) (h : ¬ (entry.reportId = some id ∧
    (entry.action = resolved ∨ entry.action = reopened))) :
    archivedBy resolved reopened id (entry :: entries) = archivedBy resolved reopened id
      entries := by
  rw [archivedBy, if_neg fun hr => h ⟨hr.1, .inl hr.2⟩, if_neg fun hr => h ⟨hr.1, .inr hr.2⟩]

theorem archivedBy_none (h : ∀ entry ∈ entries, ∀ id, entry.reportId = some id → id < s.nextId) :
    archivedBy resolved reopened s.nextId entries = none := by
  induction entries with
  | nil => rfl
  | cons entry entries ih =>
    rw [List.forall_mem_cons] at h
    rw [archivedBy_cons _ _ fun hr => Nat.lt_irrefl _ (h.1 _ hr.1), ih h.2]

/-- The newest entry about a report and what it did to it. -/
theorem Matches.follows {data : Archive} (h : Matches resolved reopened id data entry)
    (hne : resolved ≠ reopened) :
    data.Follows (archivedBy resolved reopened id (entry :: entries)) := by
  obtain ⟨hid, ⟨haction, hfollows⟩ | ⟨haction, rfl⟩⟩ := h
  · rw [archivedBy, if_pos ⟨hid, haction⟩]
    exact hfollows
  · rw [archivedBy, if_neg fun hr => hne (hr.2.symm.trans haction), if_pos ⟨hid, haction⟩]
    exact ⟨rfl, rfl, rfl⟩

theorem Encrypts.mono {s' : Tables} {password text : String} (h : Encrypts cfg s password text)
    (hs : s.sealings ⊆ s'.sealings) : Encrypts cfg s' password text :=
  ⟨h.1, h.2.imp fun _ hn => ⟨hs hn.1, hn.2⟩⟩

theorem Opens.mono {s' : Tables} {data data' : ContentReportData} (h : Opens cfg s data)
    (htext : data'.contentPasswordEncrypted = data.contentPasswordEncrypted)
    (hfiles : ∀ file ∈ s'.files, data'.fileId = some file.id →
      file ∈ s.files ∧ data.fileId = some file.id)
    (hs : s.sealings ⊆ s'.sealings) : Opens cfg s' data' := by
  refine ⟨fun text hsome => ?_, fun file hfile hid hash hhash => ?_⟩
  · obtain ⟨password, hencrypts⟩ := h.encrypted text (htext ▸ hsome)
    exact ⟨password, hencrypts.mono hs⟩
  · obtain ⟨hmem, hfid⟩ := hfiles file hfile hid
    obtain ⟨password, text, hsome, hencrypts, hcompare⟩ := h.fits file hmem hfid hash hhash
    exact ⟨password, text, htext.trans hsome, hencrypts.mono hs, hcompare⟩

theorem Sound.congr {s' : Tables} {data : ContentReportData} (h : Sound cfg s data)
    (hfiles : s'.files = s.files) (hbins : s'.bins = s.bins) (hs : s.sealings ⊆ s'.sealings) :
    Sound cfg s' data :=
  ⟨⟨fun id hid => hfiles ▸ h.names.file id hid, fun id hid => hbins ▸ h.names.bin id hid⟩,
    h.opens.mono rfl (fun _ hfile hid => ⟨hfiles ▸ hfile, hid⟩) hs⟩

theorem mem_removeFiles (cfg : Config) {r : ContentReport}
    (h : r ∈ (s.removeFiles gone).contentReports) :
    ∃ r' ∈ s.contentReports, r.id = r'.id ∧ r.archive = r'.archive ∧
      (Sound cfg s r'.data → Sound cfg (s.removeFiles gone) r.data) := by
  obtain ⟨r', hr', rfl⟩ := List.mem_map.mp h
  refine ⟨r', hr', rfl, rfl, fun hn => ⟨⟨fun id hid => ?_, hn.names.bin⟩,
    hn.opens.mono rfl (fun file hfile hid => ⟨List.mem_of_mem_filter hfile,
      (Option.filter_eq_some_iff.mp hid).1⟩) fun _ h => h⟩⟩
  obtain ⟨hid, hkept⟩ := Option.filter_eq_some_iff.mp hid
  obtain ⟨htype, file, hfile, rfl, howner⟩ := hn.names.file id hid
  refine ⟨htype, file, List.mem_filter.mpr ⟨hfile, ?_⟩, rfl, howner⟩
  cases hgone : gone file with
  | false => rfl
  | true =>
    have : (s.files.any fun f => gone f && f.id == file.id) = true :=
      List.any_eq_true.mpr ⟨file, hfile, by rw [hgone, beq_self_eq_true]; rfl⟩
    rw [this] at hkept
    cases hkept

theorem mem_removeBins (cfg : Config) {r : ContentReport}
    (h : r ∈ (s.removeBins goneBin).contentReports) :
    ∃ r' ∈ s.contentReports, r.id = r'.id ∧ r.archive = r'.archive ∧
      (Sound cfg s r'.data → Sound cfg (s.removeBins goneBin) r.data) := by
  obtain ⟨r', hr', rfl⟩ := List.mem_map.mp h
  refine ⟨r', hr', rfl, rfl, fun hn => ⟨⟨hn.names.file, fun id hid => ?_⟩,
    hn.opens.mono rfl (fun _ hfile hid => ⟨hfile, hid⟩) fun _ h => h⟩⟩
  obtain ⟨hid, hkept⟩ := Option.filter_eq_some_iff.mp hid
  obtain ⟨htype, bin, hbin, rfl, howner⟩ := hn.names.bin id hid
  refine ⟨htype, bin, List.mem_filter.mpr ⟨hbin, ?_⟩, rfl, howner⟩
  cases hgone : goneBin bin with
  | false => rfl
  | true =>
    have : (s.bins.any fun b => goneBin b && b.id == bin.id) = true :=
      List.any_eq_true.mpr ⟨bin, hbin, by rw [hgone, beq_self_eq_true]; rfl⟩
    rw [this] at hkept
    cases hkept

theorem Kept.removeFiles (h : Kept cfg s) (gone : FileRow → Bool) :
    Kept cfg (s.removeFiles gone) := by
  refine ⟨fun r hr => ?_, h.bugs, h.audit, ⟨?_, fun file hfile => ?_⟩, h.bins, fun r hr => ?_⟩
  · obtain ⟨r', hr', hid, harchive, -⟩ := mem_removeFiles cfg hr
    rw [hid, harchive]
    exact h.content r' hr'
  · exact h.files.1.sublist (List.filter_sublist.map _)
  · exact h.files.2 file (List.mem_of_mem_filter hfile)
  · obtain ⟨r', hr', -, -, hsound⟩ := mem_removeFiles cfg hr
    exact hsound (h.sound r' hr')

theorem Kept.removeBins (h : Kept cfg s) (gone : BinRow → Bool) : Kept cfg (s.removeBins gone) := by
  refine ⟨fun r hr => ?_, h.bugs, h.audit, h.files, ⟨?_, fun bin hbin => ?_⟩, fun r hr => ?_⟩
  · obtain ⟨r', hr', hid, harchive, -⟩ := mem_removeBins cfg hr
    rw [hid, harchive]
    exact h.content r' hr'
  · exact h.bins.1.sublist (List.filter_sublist.map _)
  · exact h.bins.2 bin (List.mem_of_mem_filter hbin)
  · obtain ⟨r', hr', -, -, hsound⟩ := mem_removeBins cfg hr
    exact hsound (h.sound r' hr')

/-- An entry that is not about the archive. -/
theorem Kept.log (h : Kept cfg s) (hid : ∀ id, entry.reportId = some id → id < s.nextId)
    (haction : entry.action ≠ .report_resolved ∧ entry.action ≠ .report_reopened ∧
      entry.action ≠ .bug_report_resolved ∧ entry.action ≠ .bug_report_reopened) :
    Kept cfg (s.log entry) := by
  refine ⟨fun r hr => ?_, fun r hr => ?_, List.forall_mem_cons.mpr ⟨hid, h.audit⟩, h.files, h.bins,
    fun r hr => (h.sound r hr).congr rfl rfl fun _ h => h⟩
  · have hsame := archivedBy_cons r.id s.audit (fun hr : _ ∧ (_ ∨ _) =>
      hr.2.elim haction.1 haction.2.1)
    exact ⟨hsame.symm ▸ (h.content r hr).1, (h.content r hr).2⟩
  · have hsame := archivedBy_cons r.id s.audit (fun hr : _ ∧ (_ ∨ _) =>
      hr.2.elim haction.2.2.1 haction.2.2.2)
    exact ⟨hsame.symm ▸ (h.bugs r hr).1, (h.bugs r hr).2⟩

theorem Kept.grow (h : Kept cfg s) : Kept cfg { s with nextId := s.nextId + 1 } :=
  ⟨fun r hr => ⟨(h.content r hr).1, Nat.lt_succ_of_lt (h.content r hr).2⟩,
    fun r hr => ⟨(h.bugs r hr).1, Nat.lt_succ_of_lt (h.bugs r hr).2⟩,
    fun entry he id hid => Nat.lt_succ_of_lt (h.audit entry he id hid),
    ⟨h.files.1, fun file hf => Nat.lt_succ_of_lt (h.files.2 file hf)⟩,
    ⟨h.bins.1, fun bin hb => Nat.lt_succ_of_lt (h.bins.2 bin hb)⟩,
    fun r hr => (h.sound r hr).congr rfl rfl fun _ h => h⟩

theorem follows_open (h : ∀ entry ∈ entries, ∀ id, entry.reportId = some id → id < s.nextId) :
    Archive.open.Follows (archivedBy resolved reopened s.nextId entries) := by
  rw [archivedBy_none h]
  exact ⟨rfl, rfl, rfl⟩

theorem Kept.createContentReport (h : Kept cfg s) {data : ContentReportData}
    (hsound : Sound cfg s data) :
    Kept cfg { s with
      nextId := s.nextId + 1
      contentReports := s.contentReports ++ [⟨s.nextId, s.clock, data, .open⟩] } := by
  have hgrown := h.grow
  refine ⟨List.forall_mem_append.mpr ⟨hgrown.content, fun r hr => ?_⟩, hgrown.bugs, hgrown.audit,
    hgrown.files, hgrown.bins, List.forall_mem_append.mpr
      ⟨fun r hr => (h.sound r hr).congr rfl rfl fun _ h => h, fun r hr => ?_⟩⟩
  · cases List.mem_singleton.mp hr
    exact ⟨follows_open h.audit, Nat.lt_succ_self _⟩
  · cases List.mem_singleton.mp hr
    exact hsound.congr rfl rfl fun _ h => h

theorem Kept.createBugReport (h : Kept cfg s) (description : String) :
    Kept cfg { s with
      nextId := s.nextId + 1
      bugReports := s.bugReports ++ [⟨s.nextId, description, .open⟩] } := by
  have hgrown := h.grow
  refine ⟨hgrown.content, List.forall_mem_append.mpr ⟨hgrown.bugs, fun r hr => ?_⟩, hgrown.audit,
    hgrown.files, hgrown.bins, fun r hr => (h.sound r hr).congr rfl rfl fun _ h => h⟩
  cases List.mem_singleton.mp hr
  exact ⟨follows_open h.audit, Nat.lt_succ_self _⟩

/-- The rows of an update: those with the id follow its entry, the others are as they were. -/
theorem Matches.updated {data : Archive} (hm : Matches resolved reopened id data entry)
    (hne : resolved ≠ reopened) {rowId : Id} {archive : Archive}
    (h : archive.Follows (archivedBy resolved reopened rowId entries)) :
    (if rowId == id then data else archive).Follows
      (archivedBy resolved reopened rowId (entry :: entries)) := by
  by_cases hid : rowId = id
  · rw [hid, beq_self_eq_true, if_pos rfl]
    exact hm.follows hne
  · rw [beq_false_of_ne hid, if_neg Bool.false_ne_true, archivedBy_cons]
    · exact h
    · exact fun hr => hid (Option.some.inj (hr.1.symm.trans hm.1))

theorem Kept.updateContentReport (h : Kept cfg s) {data : Archive}
    (hm : Matches .report_resolved .report_reopened id data entry)
    (hid : s.contentReports.any (·.id == id) = true) :
    Kept cfg { s with
      contentReports := updateWhere (·.id == id) (fun r => { r with archive := data })
        s.contentReports
      audit := entry :: s.audit } := by
  have hlt : id < s.nextId := by
    obtain ⟨r, hr, hrid⟩ := List.any_eq_true.mp hid
    exact beq_iff_eq.mp hrid ▸ (h.content r hr).2
  refine ⟨fun r' hr' => ?_, fun r hr => ?_, List.forall_mem_cons.mpr ⟨fun id' hid' => ?_, h.audit⟩,
    h.files, h.bins, fun r' hr' => ?_⟩
  · obtain ⟨r, hr, rfl⟩ := List.mem_map.mp hr'
    have hupdated := hm.updated (by decide) (h.content r hr).1
    split at hupdated
    · rename_i hrid
      rw [if_pos hrid]
      exact ⟨hupdated, (h.content r hr).2⟩
    · rename_i hrid
      rw [if_neg hrid]
      exact ⟨hupdated, (h.content r hr).2⟩
  · have haction : ¬ (entry.action = .bug_report_resolved ∨
      entry.action = .bug_report_reopened) := by
      rcases hm.2 with ⟨haction, -⟩ | ⟨haction, -⟩
      · rw [haction]
        decide
      · rw [haction]
        decide
    rw [archivedBy_cons _ _ fun hr => haction hr.2]
    exact h.bugs r hr
  · exact Option.some.inj (hm.1.symm.trans hid') ▸ hlt
  · obtain ⟨r, hr, rfl⟩ := List.mem_map.mp hr'
    split
    · exact (h.sound r hr).congr rfl rfl fun _ h => h
    · exact (h.sound r hr).congr rfl rfl fun _ h => h

theorem Kept.updateBugReport (h : Kept cfg s) {data : Archive}
    (hm : Matches .bug_report_resolved .bug_report_reopened id data entry)
    (hid : s.bugReports.any (·.id == id) = true) :
    Kept cfg { s with
      bugReports := updateWhere (·.id == id) (fun r => { r with archive := data }) s.bugReports
      audit := entry :: s.audit } := by
  have hlt : id < s.nextId := by
    obtain ⟨r, hr, hrid⟩ := List.any_eq_true.mp hid
    exact beq_iff_eq.mp hrid ▸ (h.bugs r hr).2
  refine ⟨fun r hr => ?_, fun r' hr' => ?_, List.forall_mem_cons.mpr ⟨fun id' hid' => ?_, h.audit⟩,
    h.files, h.bins, fun r hr => (h.sound r hr).congr rfl rfl fun _ h => h⟩
  · have haction : ¬ (entry.action = .report_resolved ∨ entry.action = .report_reopened) := by
      rcases hm.2 with ⟨haction, -⟩ | ⟨haction, -⟩
      · rw [haction]
        decide
      · rw [haction]
        decide
    rw [archivedBy_cons _ _ fun hr => haction hr.2]
    exact h.content r hr
  · obtain ⟨r, hr, rfl⟩ := List.mem_map.mp hr'
    have hupdated := hm.updated (by decide) (h.bugs r hr).1
    split at hupdated
    · rename_i hrid
      rw [if_pos hrid]
      exact ⟨hupdated, (h.bugs r hr).2⟩
    · rename_i hrid
      rw [if_neg hrid]
      exact ⟨hupdated, (h.bugs r hr).2⟩
  · exact Option.some.inj (hm.1.symm.trans hid') ▸ hlt

end

section
variable {cfg : Config} {p p' : Nat} {s t : SharedTables} {q : ReportCall} {d : Delivery}
  {u id binId : Id}

theorem exec_fst (cfg : Config) (d : Delivery) (q : ReportCall) (s : Tables) :
    (s.exec cfg d q).1 = s ∨ (s.exec cfg d q).1 = (s.perform cfg q).1 := by
  cases d with
  | failed => exact .inl rfl
  | delivered => exact .inr rfl
  | lost => exact .inr rfl
  | late => exact .inr rfl

/-- A report that is created names what its process has found, with the password of it. -/
theorem Pre.sound {data : ContentReportData} (hp : Pre cfg s p (.createContentReport data))
    (h : s.store.accepts data = true) : Sound cfg s.store data := by
  rw [Tables.accepts, Bool.and_eq_true, Bool.and_eq_true] at h
  obtain ⟨filePasswordHash, hdescribes, hgrants⟩ := hp
  refine ⟨⟨fun id hid => ?_, fun id hid => ?_⟩, hgrants.1, fun file hfile hid hash hhash => ?_⟩
  · have hany := h.1.2
    rw [hid] at hany
    obtain ⟨file, hfile, hfid⟩ := List.any_eq_true.mp hany
    obtain ⟨htype, hof⟩ := hdescribes.1 id hid
    exact ⟨htype, file, hfile, beq_iff_eq.mp hfid, (hof.2 file hfile (beq_iff_eq.mp hfid)).1⟩
  · have hany := h.2
    rw [hid] at hany
    obtain ⟨bin, hbin, hbid⟩ := List.any_eq_true.mp hany
    obtain ⟨htype, hof⟩ := hdescribes.2 id hid
    exact ⟨htype, bin, hbin, beq_iff_eq.mp hbid, hof.2 bin hbin (beq_iff_eq.mp hbid)⟩
  · obtain ⟨htype, hof⟩ := hdescribes.1 file.id hid
    exact hgrants.2 htype hash ((hof.2 file hfile rfl).2.symm.trans hhash)

theorem Kept.perform (h : Kept cfg s.store) (hp : Pre cfg s p q) :
    Kept cfg (s.store.perform cfg q).1 := by
  cases q with
  | encryptReportedContentPassword password =>
    exact ⟨h.grow.content, h.grow.bugs, h.grow.audit, h.grow.files, h.grow.bins, fun r hr =>
      (h.sound r hr).congr rfl rfl fun _ hmem => List.mem_cons_of_mem _ hmem⟩
  | createContentReport data =>
    unfold Tables.perform
    dsimp only
    split
    · rename_i haccepts
      exact h.createContentReport (Pre.sound hp haccepts)
    · exact h
  | createBugReport description => exact h.createBugReport description
  | updateContentReport id data entry =>
    unfold Tables.perform
    dsimp only
    split
    · rename_i hid
      exact h.updateContentReport hp hid
    · exact h
  | updateBugReport id data entry =>
    unfold Tables.perform
    dsimp only
    split
    · rename_i hid
      exact h.updateBugReport hp hid
    · exact h
  | deleteFiles userId fileIds entry =>
    obtain ⟨ids, haction, hid⟩ := hp
    apply (h.removeFiles _).log
    · intro id hid'
      rw [hid] at hid'
      cases hid'
    · rw [haction]
      exact ⟨nofun, nofun, nofun, nofun⟩
  | deleteBin binId userId => exact h.removeBins _
  | createAuditLog entry =>
    obtain ⟨type, content, id, haction, hid, hlt, -⟩ := hp
    apply h.log
    · intro id' hid'
      exact Option.some.inj (hid.symm.trans hid') ▸ hlt
    · rw [haction]
      exact ⟨nofun, nofun, nofun, nofun⟩
  | _ => exact h

theorem Kept.after (h : Kept cfg s.store) (hp : Pre cfg s p q) :
    Kept cfg ((reports cfg).after d p q s).store := by
  change Kept cfg (s.store.exec cfg d q).1
  rcases exec_fst cfg d q s.store with heq | heq
  · rw [heq]
    exact h
  · rw [heq]
    exact h.perform hp

theorem Kept.drift (h : Kept cfg s.store) (e : Elsewhere) : Kept cfg (s.store.drift e) := by
  have hgrown := h.grow
  cases e with
  | tick n => exact ⟨h.content, h.bugs, h.audit, h.files, h.bins,
      fun r hr => (h.sound r hr).congr rfl rfl fun _ h => h⟩
  | userRegistered => exact ⟨hgrown.content, hgrown.bugs, hgrown.audit, hgrown.files, hgrown.bins,
      fun r hr => (h.sound r hr).congr rfl rfl fun _ h => h⟩
  | fileStored userId shareToken expiresAt passwordHash =>
    refine ⟨hgrown.content, hgrown.bugs, hgrown.audit, ⟨?_, ?_⟩, hgrown.bins, fun r hr =>
      ⟨⟨fun id hid => ?_, (h.sound r hr).names.bin⟩, (h.sound r hr).opens.mono rfl ?_ fun _ h => h⟩⟩
    · rw [Tables.drift, List.map_append]
      refine List.nodup_append.mpr ⟨h.files.1, List.nodup_singleton _, fun i hi j hj => ?_⟩
      obtain ⟨file, hfile, rfl⟩ := List.mem_map.mp hi
      cases List.mem_singleton.mp hj
      exact Nat.ne_of_lt (h.files.2 file hfile)
    · refine List.forall_mem_append.mpr ⟨hgrown.files.2, fun file hfile => ?_⟩
      cases List.mem_singleton.mp hfile
      exact Nat.lt_succ_self _
    · obtain ⟨htype, file, hfile, hfid⟩ := (h.sound r hr).names.file id hid
      exact ⟨htype, file, List.mem_append_left _ hfile, hfid⟩
    · intro file hfile hid
      rcases List.mem_append.mp hfile with hfile | hfile
      · exact ⟨hfile, hid⟩
      · cases List.mem_singleton.mp hfile
        obtain ⟨-, file, hmem, hfid, -⟩ := (h.sound r hr).names.file _ hid
        exact absurd hfid (Nat.ne_of_lt (h.files.2 file hmem))
  | binStored userId shareToken expiresAt =>
    refine ⟨hgrown.content, hgrown.bugs, hgrown.audit, hgrown.files, ⟨?_, ?_⟩, fun r hr =>
      ⟨⟨(h.sound r hr).names.file, fun id hid => ?_⟩,
        (h.sound r hr).opens.mono rfl (fun _ hfile hid => ⟨hfile, hid⟩) fun _ h => h⟩⟩
    · rw [Tables.drift, List.map_append]
      refine List.nodup_append.mpr ⟨h.bins.1, List.nodup_singleton _, fun i hi j hj => ?_⟩
      obtain ⟨bin, hbin, rfl⟩ := List.mem_map.mp hi
      cases List.mem_singleton.mp hj
      exact Nat.ne_of_lt (h.bins.2 bin hbin)
    · refine List.forall_mem_append.mpr ⟨hgrown.bins.2, fun bin hbin => ?_⟩
      cases List.mem_singleton.mp hbin
      exact Nat.lt_succ_self _
    · obtain ⟨htype, bin, hbin, hbid⟩ := (h.sound r hr).names.bin id hid
      exact ⟨htype, bin, List.mem_append_left _ hbin, hbid⟩
  | fileDeleted id => exact h.removeFiles _
  | binDeleted id => exact h.removeBins _

end

/-- The entry that a call writes. -/
def ReportCall.entry : ReportCall → Option AuditEntry
  | updateContentReport _ _ entry | updateBugReport _ _ entry | deleteFiles _ _ entry
  | createAuditLog entry => some entry
  | _ => none

section
variable {cfg : Config} {p p' : Nat} {s t : SharedTables} {q : ReportCall} {d : Delivery}
  {u id binId : Id} {entry : AuditEntry} {hash : Option String}

theorem audit_exec (cfg : Config) (d : Delivery) (q : ReportCall) (s : Tables) :
    (s.exec cfg d q).1.audit = s.audit ∨
    ∃ entry, q.entry = some entry ∧ (s.exec cfg d q).1.audit = entry :: s.audit := by
  rcases exec_fst cfg d q s with heq | heq
  · exact .inl (congrArg Tables.audit heq)
  · rw [heq]
    cases q with
    | createContentReport data => unfold Tables.perform; dsimp only; split <;> exact .inl rfl
    | updateContentReport id data entry =>
      unfold Tables.perform
      dsimp only
      split
      · exact .inr ⟨entry, rfl, rfl⟩
      · exact .inl rfl
    | updateBugReport id data entry =>
      unfold Tables.perform
      dsimp only
      split
      · exact .inr ⟨entry, rfl, rfl⟩
      · exact .inl rfl
    | deleteFiles userId fileIds entry => exact .inr ⟨entry, rfl, rfl⟩
    | createAuditLog entry => exact .inr ⟨entry, rfl, rfl⟩
    | _ => exact .inl rfl

/-- Calls create no file and no bin, and forget no id and no encryption. -/
structure Grown (s s' : Tables) : Prop where
  files : s'.files ⊆ s.files
  bins : s'.bins ⊆ s.bins
  nextId : s.nextId ≤ s'.nextId
  sealings : s.sealings ⊆ s'.sealings

theorem Grown.refl (s : Tables) : Grown s s :=
  ⟨fun _ h => h, fun _ h => h, Nat.le_refl _, fun _ h => h⟩

theorem grown_exec (cfg : Config) (d : Delivery) (q : ReportCall) (s : Tables) :
    Grown s (s.exec cfg d q).1 := by
  have hsame := Grown.refl s
  rcases exec_fst cfg d q s with heq | heq
  · rw [heq]
    exact hsame
  · rw [heq]
    cases q with
    | encryptReportedContentPassword password =>
      exact ⟨hsame.files, hsame.bins, Nat.le_succ _, fun _ h => List.mem_cons_of_mem _ h⟩
    | createBugReport description => exact ⟨hsame.files, hsame.bins, Nat.le_succ _, hsame.sealings⟩
    | createContentReport data =>
      unfold Tables.perform
      dsimp only
      split
      · exact ⟨hsame.files, hsame.bins, Nat.le_succ _, hsame.sealings⟩
      · exact hsame
    | updateContentReport id data entry =>
      unfold Tables.perform
      dsimp only
      split
      · exact ⟨hsame.files, hsame.bins, hsame.nextId, hsame.sealings⟩
      · exact hsame
    | updateBugReport id data entry =>
      unfold Tables.perform
      dsimp only
      split
      · exact ⟨hsame.files, hsame.bins, hsame.nextId, hsame.sealings⟩
      · exact hsame
    | deleteFiles userId fileIds entry =>
      exact ⟨fun _ h => List.mem_of_mem_filter h, hsame.bins, hsame.nextId, hsame.sealings⟩
    | deleteBin id userId =>
      exact ⟨hsame.files, fun _ h => List.mem_of_mem_filter h, hsame.nextId, hsame.sealings⟩
    | createAuditLog entry => exact ⟨hsame.files, hsame.bins, hsame.nextId, hsame.sealings⟩
    | _ => exact hsame

theorem grown_after : Grown s.store ((reports cfg).after d p q s).store :=
  grown_exec cfg d q s.store

theorem FileOf.after (h : FileOf u hash id s.store) :
    FileOf u hash id ((reports cfg).after d p q s).store :=
  ⟨h.1.trans_le grown_after.nextId, fun file hfile => h.2 file (grown_after.files hfile)⟩

theorem BinOf.after (h : BinOf u id s.store) :
    BinOf u id ((reports cfg).after d p q s).store :=
  ⟨h.1.trans_le grown_after.nextId, fun bin hbin => h.2 bin (grown_after.bins hbin)⟩

theorem nextId_drift (e : Elsewhere) : s.store.nextId ≤ (s.store.drift e).nextId := by
  cases e with
  | userRegistered => exact Nat.le_succ _
  | fileStored => exact Nat.le_succ _
  | binStored => exact Nat.le_succ _
  | _ => exact Nat.le_refl _

theorem FileOf.drift (h : FileOf u hash id s.store) (e : Elsewhere) :
    FileOf u hash id (s.store.drift e) := by
  refine ⟨h.1.trans_le (nextId_drift e), fun file hfile hid => ?_⟩
  cases e with
  | fileStored =>
    rcases List.mem_append.mp hfile with hfile | hfile
    · exact h.2 file hfile hid
    · cases List.mem_singleton.mp hfile
      exact absurd hid (Nat.ne_of_gt h.1)
  | fileDeleted => exact h.2 file (List.mem_of_mem_filter hfile) hid
  | _ => exact h.2 file hfile hid

/-- A bin that is there after something went on elsewhere was there, or is new. -/
theorem mem_bins_drift {e : Elsewhere} {bin : BinRow} (h : bin ∈ (s.store.drift e).bins) :
    bin ∈ s.store.bins ∨ bin.id = s.store.nextId := by
  cases e with
  | binStored =>
    rcases List.mem_append.mp h with h | h
    · exact .inl h
    · cases List.mem_singleton.mp h
      exact .inr rfl
  | binDeleted => exact .inl (List.mem_of_mem_filter h)
  | _ => exact .inl h

theorem BinOf.drift (h : BinOf u id s.store) (e : Elsewhere) : BinOf u id (s.store.drift e) := by
  refine ⟨h.1.trans_le (nextId_drift e), fun bin hbin hid => ?_⟩
  rcases mem_bins_drift hbin with hbin | hnew
  · exact h.2 bin hbin hid
  · exact absurd (hid.symm.trans hnew) (Nat.ne_of_lt h.1)

theorem sealings_drift (e : Elsewhere) : (s.store.drift e).sealings = s.store.sealings := by
  cases e <;> rfl

section
variable {target : ResolvedContentTarget} {text : Option String}

theorem Describes.after (h : Describes target s.store) :
    Describes target ((reports cfg).after d p q s).store :=
  ⟨fun id hid => ⟨(h.1 id hid).1, (h.1 id hid).2.after⟩,
    fun id hid => ⟨(h.2 id hid).1, (h.2 id hid).2.after⟩⟩

theorem Describes.drift (h : Describes target s.store) (e : Elsewhere) :
    Describes target (s.store.drift e) :=
  ⟨fun id hid => ⟨(h.1 id hid).1, (h.1 id hid).2.drift e⟩,
    fun id hid => ⟨(h.2 id hid).1, (h.2 id hid).2.drift e⟩⟩

theorem Grants.mono {s s' : Tables} (h : Grants cfg s target text)
    (hs : s.sealings ⊆ s'.sealings) : Grants cfg s' target text := by
  refine ⟨fun e he => (h.1 e he).imp fun _ hp => hp.mono hs, fun htype hash hhash => ?_⟩
  obtain ⟨password, e, htext, hencrypts, hcompare⟩ := h.2 htype hash hhash
  exact ⟨password, e, htext, hencrypts.mono hs, hcompare⟩

end

theorem audit_drift (e : Elsewhere) : (s.store.drift e).audit = s.store.audit := by
  cases e <;> rfl

theorem Deleted.cons {e : ReportEvent} {log : List ReportEvent} (h : Deleted p binId log) :
    Deleted p binId (e :: log) := by
  obtain ⟨userId, n, h⟩ := h
  exact ⟨userId, n, List.mem_cons_of_mem _ h⟩

/-- What a call that was answered replied. -/
theorem reply_ok {a : q.Answer} (h : (reports cfg).reply d q s = .ok a) :
    (s.store.perform cfg q).2 = .ok a ∧
    ((reports cfg).after d p q s).store = (s.store.perform cfg q).1 := by
  cases d with
  | failed => cases h
  | lost => cases h
  | delivered => exact ⟨h, rfl⟩
  | late => exact ⟨h, rfl⟩

/-- A deletion finds its bin, and leaves none. -/
theorem deleteBin_reply {n : Nat} (hk : Kept cfg s.store)
    (h : (reports cfg).reply d (.deleteBin binId u) s = .ok (n + 1)) :
    (∃ bin ∈ s.store.bins, bin.id = binId) ∧
    ∀ bin ∈ ((reports cfg).after d p (.deleteBin binId u) s).store.bins, bin.id ≠ binId := by
  obtain ⟨hcount, hstore⟩ := reply_ok (p := p) h
  have hpos : 0 < s.store.bins.countP fun bin => bin.id == binId && bin.userId == u :=
    (Except.ok.inj hcount).symm ▸ Nat.succ_pos n
  obtain ⟨bin, hbin, hmatch⟩ := List.countP_pos_iff.mp hpos
  rw [Bool.and_eq_true, beq_iff_eq, beq_iff_eq] at hmatch
  refine ⟨⟨bin, hbin, hmatch.1⟩, fun other hother hid => ?_⟩
  rw [hstore] at hother
  obtain ⟨hmem, hkept⟩ := List.mem_filter.mp hother
  have hsame := List.inj_on_of_nodup_map hk.bins.1 hmem hbin (hid.trans hmatch.1.symm)
  rw [hsame] at hkept
  simp [hmatch] at hkept

theorem deleted_after (hk : Kept cfg s.store)
    (h : Deleted p' binId ((reports cfg).after d p q s).log) : Deleted p' binId s.log ∨
    p' = p ∧ (∃ bin ∈ s.store.bins, bin.id = binId) ∧
      ∀ bin ∈ ((reports cfg).after d p q s).store.bins, bin.id ≠ binId := by
  obtain ⟨userId, n, h⟩ := h
  rcases List.mem_cons.mp h with h | h
  · injection h with hpid hreq hresp
    subst hreq
    exact .inr ⟨hpid, deleteBin_reply hk (eq_of_heq hresp).symm⟩
  · exact .inl ⟨userId, n, h⟩

/-- An entry about the deletion of a bin comes from the process that has deleted it. -/
theorem Pre.deletes (hp : Pre cfg s p q) (hq : q.entry = some entry)
    (he : deletesBin binId entry = true) : Deleted p binId s.log ∧ Unlogged binId s.store := by
  have haction := of_decide_eq_true he
  cases q with
  | updateContentReport id data entry =>
    cases hq
    rcases hp.2 with ⟨h, -⟩ | ⟨h, -⟩ <;> exact absurd (h.symm.trans haction) nofun
  | updateBugReport id data entry =>
    cases hq
    rcases hp.2 with ⟨h, -⟩ | ⟨h, -⟩ <;> exact absurd (h.symm.trans haction) nofun
  | deleteFiles userId fileIds entry =>
    cases hq
    obtain ⟨ids, h, -⟩ := hp
    exact absurd (h.symm.trans haction) nofun
  | createAuditLog entry =>
    cases hq
    obtain ⟨type, content, id, h, -, -, hdeleted⟩ := hp
    obtain ⟨htype, hcontent⟩ := AuditAction.report_content_deleted.inj (h.symm.trans haction)
    exact hdeleted binId htype hcontent
  | _ => cases hq

theorem Inv.after (hs : Inv cfg s) (hp : Pre cfg s p q) :
    Inv cfg ((reports cfg).after d p q s) := by
  refine ⟨hs.kept.after hp, fun p' binId h => ?_, fun p₁ p₂ binId h₁ h₂ => ?_, fun binId => ?_⟩
  · rcases deleted_after hs.kept h with h | ⟨-, ⟨bin, hbin, rfl⟩, hgone⟩
    · obtain ⟨hlt, hgone⟩ := hs.gone p' binId h
      exact ⟨hlt.trans_le grown_after.nextId, fun bin hbin => hgone bin (grown_after.bins hbin)⟩
    · exact ⟨(hs.kept.bins.2 bin hbin).trans_le grown_after.nextId, hgone⟩
  · rcases deleted_after hs.kept h₁ with hold₁ | ⟨hp₁, ⟨bin, hbin, hid⟩, -⟩
    · rcases deleted_after hs.kept h₂ with hold₂ | ⟨-, ⟨bin, hbin, hid⟩, -⟩
      · exact hs.once p₁ p₂ binId hold₁ hold₂
      · exact absurd hid ((hs.gone p₁ binId hold₁).2 bin hbin)
    · rcases deleted_after hs.kept h₂ with hold₂ | ⟨hp₂, -, -⟩
      · exact absurd hid ((hs.gone p₂ binId hold₂).2 bin hbin)
      · exact hp₁.trans hp₂.symm
  · rcases audit_exec cfg d q s.store with haudit | ⟨entry, hq, haudit⟩
    · rcases hs.logged binId with h | ⟨hcount, p', h⟩
      · exact .inl fun entry he => h entry (haudit ▸ he)
      · exact .inr ⟨(congrArg (List.countP _) haudit).trans hcount, p', h.cons⟩
    · have hcons : ((reports cfg).after d p q s).store.audit = entry :: s.store.audit := haudit
      cases he : deletesBin binId entry with
      | true =>
        obtain ⟨hdeleted, hunlogged⟩ := Pre.deletes hp hq he
        refine .inr ⟨?_, p, hdeleted.cons⟩
        rw [hcons, List.countP_cons_of_pos he, List.countP_eq_zero.mpr fun e hmem => by
          rw [hunlogged e hmem]
          exact Bool.false_ne_true]
      | false =>
        rcases hs.logged binId with h | ⟨hcount, p', h⟩
        · refine .inl ?_
          rw [Unlogged, hcons, List.forall_mem_cons]
          exact ⟨he, h⟩
        · refine .inr ⟨?_, p', h.cons⟩
          rw [hcons, List.countP_cons_of_neg (by rw [he]; exact Bool.false_ne_true), hcount]

theorem Inv.drift (hs : Inv cfg s) (e : Elsewhere) : Inv cfg ((reports cfg).moved e s) := by
  refine ⟨hs.kept.drift e, fun p' binId h => ?_, hs.once, fun binId => ?_⟩
  · obtain ⟨hlt, hgone⟩ := hs.gone p' binId h
    refine ⟨hlt.trans_le (nextId_drift e), fun bin hbin hid => ?_⟩
    rcases mem_bins_drift hbin with hbin | hnew
    · exact hgone bin hbin hid
    · exact absurd (hid.symm.trans hnew) (Nat.ne_of_lt hlt)
  · have haudit : ((reports cfg).moved e s).store.audit = s.store.audit := audit_drift e
    rw [Unlogged, haudit]
    exact hs.logged binId

theorem outline_kept : (outline cfg).Kept (reports cfg) anyRequests :=
  ⟨fun hs _ hp => hs.after hp, fun hs _ => hs.drift _⟩

end

end Redbox.Reports
