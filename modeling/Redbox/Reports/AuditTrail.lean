import Redbox.Interleaving.Knowledge
import Redbox.Reports.ReportInvariant

/-! Reports and their audit log under all interleavings: the log tells which reports are archived,
by whom and why, reports name content of the reported user with a password that opens it, and no bin
is deleted twice. -/
namespace Redbox.Reports
open Interleaving ReportContentPassword

def ArchivesFollowAudit (cfg : Config) (R : ReportRules) : Prop :=
  ∀ as s, (reports cfg).run R (.initial .empty) as = some s →
    (∀ r ∈ s.shared.store.contentReports, r.archive.Follows
      (archivedBy .report_resolved .report_reopened r.id s.shared.store.audit)) ∧
    ∀ r ∈ s.shared.store.bugReports, r.archive.Follows
      (archivedBy .bug_report_resolved .bug_report_reopened r.id s.shared.store.audit)

def ReportsNameContent (cfg : Config) (R : ReportRules) : Prop :=
  ∀ as s, (reports cfg).run R (.initial .empty) as = some s →
    ∀ r ∈ s.shared.store.contentReports, Names s.shared.store r.data

/-- A report as it is shown: for a protected file it has a password that opens the file. -/
structure Shows (cfg : Config) (s : Tables) (r : ContentReport) (view : ContentReportView) :
    Prop where
  id : view.id = r.id
  password : view.contentPassword.isSome = r.data.contentPasswordEncrypted.isSome
  opens : ∀ file ∈ s.files, r.data.fileId = some file.id → ∀ hash, file.passwordHash = some hash →
    ∃ password, view.contentPassword = some password ∧ cfg.bcryptCompare password hash = true

/-- No page of the listing fails. -/
def PasswordsShown (cfg : Config) (R : ReportRules) : Prop :=
  ∀ as s archived offset limit, (reports cfg).run R (.initial .empty) as = some s →
    ∃ views, AdminReportsService.getContentReports cfg s.shared.store archived offset limit =
        .ok views ∧
      List.Forall₂ (Shows cfg s.shared.store)
        (AdminReportsService.findContentReports s.shared.store archived offset limit) views

def BinsDeletedOnce (cfg : Config) (R : ReportRules) : Prop :=
  ∀ as s binId, (reports cfg).run R (.initial .empty) as = some s →
    s.shared.store.audit.countP (deletesBin binId) ≤ 1 ∧
    (∀ entry ∈ s.shared.store.audit, deletesBin binId entry = true →
      ∀ bin ∈ s.shared.store.bins, bin.id ≠ binId)

section
variable {cfg : Config} {p : Nat} {s t : SharedTables} {q : ReportCall} {u id binId : Id}
  {α : Type} {P : ReportCall → Prop} {F : SharedTables → Prop}

theorem issued_held : Held (reports cfg) anyRequests (outline cfg) p (fun _ => True) fun s =>
      id < s.store.nextId :=
  .always (fun _ _ _ _ _ _ _ h => h.trans_le grown_after.nextId)
    fun _ e _ _ h => h.trans_le (nextId_drift e)

/-- A deletion that its process has not logged yet. -/
theorem unlogged_held : Held (reports cfg) anyRequests (outline cfg) p (fun q => q.entry = none)
    fun s => Deleted p binId s.log ∧ Unlogged binId s.store := by
  have hafter : ∀ s p' q d, (∀ entry, q.entry = some entry → deletesBin binId entry = false) →
      Deleted p binId s.log ∧ Unlogged binId s.store →
      Deleted p binId ((reports cfg).after d p' q s).log ∧
        Unlogged binId ((reports cfg).after d p' q s).store := by
    intro s p' q d hq hs
    refine ⟨hs.1.cons, ?_⟩
    rcases audit_exec cfg d q s.store with haudit | ⟨entry, hentry, haudit⟩
    · exact fun e he => hs.2 e (haudit ▸ he)
    · have hcons : ((reports cfg).after d p' q s).store.audit = entry :: s.store.audit := haudit
      rw [Unlogged, hcons, List.forall_mem_cons]
      exact ⟨hq entry hentry, hs.2⟩
  refine ⟨fun s s' h hs => ?_, fun hq _ _ _ hs => ?_⟩
  · cases h with
    | other ne hi _ hp =>
      refine hafter _ _ _ _ (fun entry hentry => ?_) hs
      cases hdeletes : deletesBin binId entry with
      | false => rfl
      | true => exact absurd (hi.once _ _ _ (Pre.deletes hp hentry hdeletes).1 hs.1) ne
    | drift =>
      refine ⟨hs.1, ?_⟩
      intro entry hentry
      exact hs.2 entry (audit_drift _ ▸ hentry)
  · refine hafter _ _ _ _ (fun entry hentry => ?_) hs
    rw [hq] at hentry
    cases hentry

theorem nothing_held : Held (reports cfg) anyRequests (outline cfg) p (fun q => q.entry = none)
      fun _ => True := .const True

theorem describes_held (target : ResolvedContentTarget) :
    Held (reports cfg) anyRequests (outline cfg) p (fun q => q.entry = none) fun s =>
      Describes target s.store :=
  .always (fun _ _ _ _ _ _ _ h => h.after) fun _ e _ _ h => h.drift e

theorem grants_held (target : ResolvedContentTarget) (text : Option String) :
    Held (reports cfg) anyRequests (outline cfg) p (fun q => q.entry = none) fun s =>
      Grants cfg s.store target text :=
  .always (fun _ _ _ _ _ _ _ h => h.mono grown_after.sealings)
    fun _ e _ _ h => h.mono fun _ hmem => (sealings_drift e).symm ▸ hmem

theorem Kept.fileOf (h : Kept cfg s.store) {file : FileRow} (hfile : file ∈ s.store.files) :
    FileOf file.userId file.passwordHash file.id s.store := by
  refine ⟨h.files.2 file hfile, fun other hother hid => ?_⟩
  rw [List.inj_on_of_nodup_map h.files.1 hother hfile hid]
  exact ⟨rfl, rfl⟩

theorem Kept.binOf (h : Kept cfg s.store) {bin : BinRow} (hbin : bin ∈ s.store.bins) :
    BinOf bin.userId bin.id s.store := by
  refine ⟨h.bins.2 bin hbin, fun other hother hid => ?_⟩
  rw [List.inj_on_of_nodup_map h.bins.1 hother hbin hid]

theorem resolveContentTarget_follows {link : ParsedContentLink}
    {f : ResolvedContentTarget → ReportRoutine α}
    (hf : ∀ target t, Describes target t.store →
      Follows (reports cfg) anyRequests (outline cfg) p (f target) t) :
    Follows (reports cfg) anyRequests (outline cfg) p
      ((ReportsService.resolveContentTarget link).bind f) s := by
  unfold ReportsService.resolveContentTarget
  cases link.contentType with
  | FILE =>
    dsimp only
    rw [Prog.bind_eq, Prog.bind_assoc]
    refine Follows.awaitFree outline_kept (fun _ => trivial)
      fun file t d hi hi' hr => ?_
    cases file with
    | none => exact .throw
    | some file =>
      have hfound : t.store.files.find? _ = some file := Except.ok.inj (reply_ok (p := p) hr).1
      have hof : FileOf file.userId file.passwordHash file.id
          ((reports cfg).after d p (.findFile link.contentId link.token) t).store :=
        (hi.kept.fileOf (List.mem_of_find?_eq_some hfound)).after
      dsimp only
      rw [Prog.bind_eq, Prog.bind_assoc]
      refine Follows.heldAwait outline_kept (describes_held ⟨.FILE, file.userId, some file.id, none,
        file.passwordHash⟩) rfl
        (fun _ _ _ _ _ => trivial) ⟨fun id hid => ⟨rfl, Option.some.inj hid ▸ hof⟩, nofun⟩
        fun now t d _ _ ht _ => ?_
      rw [Prog.bind_eq, Prog.bind_assoc]
      exact .throwIf fun _ => hf _ _ ht
  | BIN =>
    dsimp only
    rw [Prog.bind_eq, Prog.bind_assoc]
    refine Follows.awaitFree outline_kept (fun _ => trivial)
      fun bin t d hi hi' hr => ?_
    cases bin with
    | none => exact .throw
    | some bin =>
      have hfound : t.store.bins.find? _ = some bin := Except.ok.inj (reply_ok (p := p) hr).1
      have hof : BinOf bin.userId bin.id
          ((reports cfg).after d p (.findBin link.contentId link.token) t).store :=
        (hi.kept.binOf (List.mem_of_find?_eq_some hfound)).after
      dsimp only
      rw [Prog.bind_eq, Prog.bind_assoc]
      refine Follows.heldAwait outline_kept (describes_held ⟨.BIN, bin.userId, none,
        some bin.id, none⟩) rfl
        (fun _ _ _ _ _ => trivial) ⟨nofun, fun id hid => ⟨rfl, Option.some.inj hid ▸ hof⟩⟩
        fun now t d _ _ ht _ => ?_
      rw [Prog.bind_eq, Prog.bind_assoc]
      exact .throwIf fun _ => hf _ _ ht

theorem resolveSubmittedContentPassword_follows {dto : CreateContentReportDto}
    {f : Option String → ReportRoutine α}
    (hf : ∀ password, (∀ text, password = some text → text ≠ "") →
      Follows (reports cfg) anyRequests (outline cfg) p (f password) s) :
    Follows (reports cfg) anyRequests (outline cfg) p
      ((ReportsService.resolveSubmittedContentPassword dto).bind f) s := by
  have hne : ∀ (password : Option String) text, password.filter (· ≠ "") = some text →
      text ≠ "" := fun _ _ h => of_decide_eq_true (Option.filter_eq_some_iff.mp h).2
  unfold ReportsService.resolveSubmittedContentPassword
  dsimp only
  split
  · exact hf _ (hne _)
  · rw [Prog.bind_eq, Prog.bind_assoc]
    exact .throwIf fun _ => hf _ (hne _)

/-- A protected file is reported with its password only. -/
theorem assertFileReportPassword_follows {target : ResolvedContentTarget}
    {contentPassword : Option String} {f : Unit → ReportRoutine α}
    (hf : (target.contentType = .FILE → ∀ hash, target.filePasswordHash = some hash →
        ∃ password, contentPassword = some password ∧ cfg.bcryptCompare password hash = true) →
      Follows (reports cfg) anyRequests (outline cfg) p (f ()) s) :
    Follows (reports cfg) anyRequests (outline cfg) p
      ((ReportsService.assertFileReportPasswordIfRequired cfg target contentPassword).bind f)
        s := by
  unfold ReportsService.assertFileReportPasswordIfRequired
  split
  · rename_i htype
    exact hf fun h => absurd h htype
  · cases hstored : target.filePasswordHash with
    | none => exact hf fun _ hash hhash => absurd (hstored.symm.trans hhash) nofun
    | some stored =>
      cases contentPassword with
      | none => exact .throw
      | some password =>
        refine .throwIf fun hcompare => hf fun _ hash hhash => ⟨password, rfl, ?_⟩
        rw [← Option.some.inj (hstored.symm.trans hhash)]
        exact Bool.of_not_eq_false hcompare

theorem createContentReport_follows {dto : CreateContentReportDto} :
    Follows (reports cfg) anyRequests (outline cfg) p
      (ReportsService.createContentReport cfg dto) s := by
  refine resolveContentTarget_follows fun target t ht => ?_
  refine resolveSubmittedContentPassword_follows fun contentPassword hne => ?_
  refine assertFileReportPassword_follows fun hright => ?_
  cases contentPassword with
  | none =>
    refine Follows.heldLast ((describes_held target).and
      (grants_held target none)) (fun _ _ _ _ h => ⟨_, h⟩) ⟨ht, nofun, ?_⟩
    intro htype hash hhash
    obtain ⟨password, hnone, -⟩ := hright htype hash hhash
    cases hnone
  | some password =>
    dsimp only [ReportsService.encryptPassword]
    rw [Prog.bind_eq, Prog.bind_eq, Prog.bind_assoc]
    refine Follows.heldAwait outline_kept (describes_held target) rfl (fun _ _ _ _ _ => trivial) ht
      fun text t d _ _ ht hr => ?_
    obtain ⟨htext, hstore⟩ := reply_ok (p := p) hr
    have hencrypts : Encrypts cfg ((reports cfg).after d p
        (.encryptReportedContentPassword password) t).store password text := by
      rw [hstore]
      exact ⟨hne password rfl, t.store.nextId, List.mem_cons_self, (Except.ok.inj htext).symm⟩
    refine Follows.heldLast ((describes_held target).and
      (grants_held target (some text))) (fun _ _ _ _ h => ⟨_, h⟩) ⟨ht, ?_, ?_⟩
    · intro e he
      exact ⟨password, Option.some.inj he ▸ hencrypts⟩
    · intro htype hash hhash
      obtain ⟨given, hgiven, hcompare⟩ := hright htype hash hhash
      exact ⟨password, text, rfl, hencrypts, Option.some.inj hgiven ▸ hcompare⟩

theorem resolveReport_follows {reportId : Id} {reason : String} {adminUserId : Id} :
    Follows (reports cfg) anyRequests (outline cfg) p
      (AdminReportsService.resolveReport reportId reason adminUserId) s := by
  refine Follows.awaitFree outline_kept (fun _ => trivial) fun report t d _ _ _ => ?_
  cases report with
  | some report =>
    refine .throwIf fun _ => Follows.awaitFree outline_kept (fun _ => trivial)
      fun now t d _ _ _ => ?_
    exact Follows.heldLast nothing_held (fun _ _ _ _ _ => ⟨rfl, .inl ⟨rfl, rfl, rfl, rfl⟩⟩) trivial
  | none =>
    refine Follows.awaitFree outline_kept (fun _ => trivial) fun report t d _ _ _ => ?_
    cases report with
    | some report =>
      refine .throwIf fun _ => Follows.awaitFree outline_kept (fun _ => trivial)
        fun now t d _ _ _ => ?_
      exact Follows.heldLast nothing_held (fun _ _ _ _ _ => ⟨rfl, .inl ⟨rfl, rfl, rfl, rfl⟩⟩)
        trivial
    | none => exact .throw

theorem reopenReport_follows {reportId : Id} {reason : String} {adminUserId : Id} :
    Follows (reports cfg) anyRequests (outline cfg) p
      (AdminReportsService.reopenReport reportId reason adminUserId) s := by
  refine Follows.awaitFree outline_kept (fun _ => trivial) fun report t d _ _ _ => ?_
  cases report with
  | some report =>
    exact .throwIf fun _ => Follows.heldLast nothing_held
      (fun _ _ _ _ _ => ⟨rfl, .inr ⟨rfl, rfl⟩⟩) trivial
  | none =>
    refine Follows.awaitFree outline_kept (fun _ => trivial) fun report t d _ _ _ => ?_
    cases report with
    | some report =>
      exact .throwIf fun _ => Follows.heldLast nothing_held
        (fun _ _ _ _ _ => ⟨rfl, .inr ⟨rfl, rfl⟩⟩) trivial
    | none => exact .throw

theorem deleteUserFiles_calls (adminUserId userId : Id) (fileIds : List Id) (reason : String) :
    (AdminReportsService.deleteUserFiles adminUserId userId fileIds reason).Calls
      fun q => ∀ s p, Pre cfg s p q := by
  refine .bind (.await fun _ _ => trivial) fun found => .bind .throwIf fun _ =>
    .bind (.await fun _ _ => trivial) fun files => .ite trivial ?_
  refine .bind (.forEach fun key => .handle (.await fun _ _ => trivial) fun _ => trivial)
    fun _ => .bind (.await fun _ _ => ⟨files, rfl, rfl⟩) fun _ => trivial

/-- The entry after a deletion is the only one about it. -/
theorem deleteContent_follows {report : ContentReport} {reason : String} {adminUserId : Id}
    (hi : Inv cfg s) (hid : report.id < s.store.nextId)
    (htype : ∀ id, report.data.fileId = some id → report.data.contentType = .FILE) :
    Follows (reports cfg) anyRequests (outline cfg) p
      ((AdminReportsService.deleteContent report reason adminUserId).bind fun _ =>
        await (.createAuditLog ⟨adminUserId, some report.data.reportedUserId,
          .report_content_deleted report.data.contentType
            (report.data.fileId.or report.data.binId), reason, some report.id⟩)) s := by
  unfold AdminReportsService.deleteContent
  cases hcontent : report.data.contentType with
  | FILE =>
    cases report.data.fileId with
    | none => exact .throw
    | some fileId =>
      dsimp only
      rw [Prog.bind_eq, Prog.bind_assoc]
      refine Meets.heldBind outline_kept hi issued_held
        (deleteUserFiles_calls adminUserId report.data.reportedUserId [fileId] reason)
        (fun _ _ => trivial) (fun t q _ hq _ _ _ => hq t p) hid (fun _ _ _ => trivial)
        fun count t _ ht => ?_
      refine Follows.throwIf fun _ => Follows.heldLast issued_held
        (fun t _ _ _ ht => ⟨_, _, report.id, rfl, rfl, ht, nofun⟩) ht
  | BIN =>
    have hfile : report.data.fileId = none := by
      cases hf : report.data.fileId with
      | none => rfl
      | some id => exact absurd ((htype id hf).symm.trans hcontent) nofun
    rw [hfile]
    cases hbin : report.data.binId with
    | none => exact .throw
    | some binId =>
      dsimp only
      rw [Prog.bind_eq, Prog.bind_assoc]
      refine Follows.heldAwait outline_kept issued_held trivial (fun _ _ _ _ _ => trivial) hid
        fun count t d hi hi' ht hr => .throwIf fun hcount => ?_
      cases count with
      | zero => exact absurd rfl hcount
      | succ n =>
        have hdeleted : Deleted p binId ((reports cfg).after d p
            (.deleteBin binId report.data.reportedUserId) t).log :=
          ⟨_, n, List.mem_cons.mpr (.inl (by rw [hr]))⟩
        -- Nobody has deleted it before, since it was there.
        obtain ⟨⟨bin, hmem, hbinId⟩, -⟩ := deleteBin_reply (p := p) hi.kept hr
        have hunlogged : Unlogged binId t.store :=
          (hi.logged binId).resolve_right fun ⟨_, p', h⟩ => (hi.gone p' binId h).2 bin hmem hbinId
        have hstill : Unlogged binId ((reports cfg).after d p
            (.deleteBin binId report.data.reportedUserId) t).store := by
          rcases audit_exec cfg d (.deleteBin binId report.data.reportedUserId) t.store with
            haudit | ⟨_, hentry, -⟩
          · exact fun entry he => hunlogged entry (haudit ▸ he)
          · cases hentry
        refine Follows.heldLast (unlogged_held.and (issued_held.mono fun _ _ => trivial))
          (fun t _ _ _ ht => ?_)
          ⟨⟨hdeleted, hstill⟩, ht⟩
        refine ⟨_, _, report.id, rfl, rfl, ht.2, fun id _ hid => ?_⟩
        rw [← Option.some.inj hid]
        exact ht.1

theorem deleteReportedContent_follows {reportId : Id} {reason : String} {adminUserId : Id} :
    Follows (reports cfg) anyRequests (outline cfg) p
      (AdminReportsService.deleteReportedContent reportId reason adminUserId) s := by
  unfold AdminReportsService.deleteReportedContent AdminReportsService.findOpenContentReportOrThrow
  rw [Prog.bind_eq, Prog.bind_eq, Prog.bind_assoc]
  refine Follows.awaitFree outline_kept (fun _ => trivial)
    fun report t d hi hi' hr => ?_
  cases report with
  | none => exact .throw
  | some report =>
    have hfound : t.store.contentReports.find? _ = some report :=
      Except.ok.inj (reply_ok (p := p) hr).1
    have hmem := List.mem_of_find?_eq_some hfound
    dsimp only
    rw [Prog.bind_eq, Prog.bind_assoc]
    exact .throwIf fun _ => deleteContent_follows hi'
      ((hi.kept.content report hmem).2.trans_le grown_after.nextId)
      fun id hid => ((hi.kept.sound report hmem).names.file id hid).1

theorem program_safe (op : ReportOperation) :
    Safe (reports cfg) anyRequests (outline cfg) ((reports cfg).program op) := by
  intro p s hi
  cases op with
  | createContentReport dto =>
    exact Follows.bind outline_kept hi createContentReport_follows fun _ _ _ _ => .ret
  | createBugReport description =>
    exact Follows.bind outline_kept hi
      (Follows.heldLast nothing_held (fun _ _ _ _ _ => trivial) trivial) fun _ _ _ _ => .ret
  | resolveReport reportId reason adminUserId => exact resolveReport_follows
  | reopenReport reportId reason adminUserId => exact reopenReport_follows
  | deleteReportedContent reportId reason adminUserId => exact deleteReportedContent_follows

theorem inv_initial : Inv cfg (Pool.initial Tables.empty :
    Pool ReportCall ReportReply Thrown Unit Tables ReportOperation).shared := by
  refine ⟨⟨nofun, nofun, nofun, ⟨List.nodup_nil, nofun⟩, ⟨List.nodup_nil, nofun⟩, nofun⟩,
    fun p binId h => ?_, fun p p' binId h _ => ?_, fun binId => .inl nofun⟩
  · obtain ⟨userId, n, h⟩ := h
    cases h
  · obtain ⟨userId, n, h⟩ := h
    cases h

theorem archives_follow_audit (cfg : Config) : ArchivesFollowAudit cfg anyRequests := by
  intro as s h
  have hi : Inv cfg s.shared := (Safe.run outline_kept program_safe inv_initial h).inv
  exact ⟨fun r hr => (hi.kept.content r hr).1, fun r hr => (hi.kept.bugs r hr).1⟩

theorem reports_name_content (cfg : Config) : ReportsNameContent cfg anyRequests := by
  intro as s h
  have hi : Inv cfg s.shared := (Safe.run outline_kept program_safe inv_initial h).inv
  exact fun r hr => (hi.kept.sound r hr).names

/-- What succeeds on every element succeeds on the list. -/
theorem mapM_ok {β γ ε : Type} {f : β → Except ε γ} {Q : β → γ → Prop} {l : List β}
    (h : ∀ x ∈ l, ∃ y, f x = .ok y ∧ Q x y) : ∃ ys, l.mapM f = .ok ys ∧ List.Forall₂ Q l ys := by
  induction l with
  | nil => exact ⟨[], rfl, .nil⟩
  | cons x l ih =>
    rw [List.forall_mem_cons] at h
    obtain ⟨⟨y, hy, hq⟩, hl⟩ := h
    obtain ⟨ys, hys, hall⟩ := ih hl
    refine ⟨y :: ys, ?_, .cons hq hall⟩
    rw [List.mapM_cons, hy, hys]
    rfl

theorem Encrypts.decrypt {tables : Tables} {password text : String}
    (h : Encrypts cfg tables password text) :
    decryptReportedContentPassword cfg.cipher tables.sealings (some text) =
      .ok (some password) := by
  obtain ⟨hpassword, n, hmade, rfl⟩ := h
  refine decrypt_encrypt hmade (fun hnil => ?_) hpassword
  have hlength := cfg.length_randomBytes n
  rw [hnil] at hlength
  cases hlength

theorem contentReportView_ok {tables : Tables} {r : ContentReport} (h : Opens cfg tables r.data) :
    ∃ view, AdminReportsService.contentReportView cfg tables r = .ok view ∧
      Shows cfg tables r view := by
  unfold AdminReportsService.contentReportView
  cases htext : r.data.contentPasswordEncrypted with
  | none =>
    refine ⟨_, rfl, rfl, congrArg Option.isSome htext.symm, fun file hfile hid hash hhash => ?_⟩
    obtain ⟨password, text, hsome, -⟩ := h.fits file hfile hid hash hhash
    exact absurd (htext.symm.trans hsome) nofun
  | some text =>
    obtain ⟨password, hencrypts⟩ := h.encrypted text htext
    rw [hencrypts.decrypt]
    refine ⟨_, rfl, rfl, ?_, fun file hfile hid hash hhash => ?_⟩
    · rw [htext]
      rfl
    obtain ⟨given, text', hsome, hgiven, hcompare⟩ := h.fits file hfile hid hash hhash
    rw [← Option.some.inj (htext.symm.trans hsome)] at hgiven
    have hsame := hencrypts.decrypt.symm.trans hgiven.decrypt
    exact ⟨password, rfl, Option.some.inj (Except.ok.inj hsame) ▸ hcompare⟩

theorem bins_deleted_once (cfg : Config) : BinsDeletedOnce cfg anyRequests := by
  intro as s binId h
  have hi : Inv cfg s.shared := (Safe.run outline_kept program_safe inv_initial h).inv
  rcases hi.logged binId with hnone | ⟨hcount, p, hdeleted⟩
  · refine ⟨?_, fun entry he hdeletes => ?_⟩
    · rw [List.countP_eq_zero.mpr fun e he => by rw [hnone e he]; exact Bool.false_ne_true]
      exact Nat.zero_le 1
    · rw [hnone entry he] at hdeletes
      cases hdeletes
  · exact ⟨hcount.le, fun _ _ _ => (hi.gone p binId hdeleted).2⟩

end

end Redbox.Reports
