import Redbox.Accounts.Composition

/-! Erasure is complete. The routines that create content look at the status of the
account before they insert, so this holds of the runs in which no deletion commits
between the two. -/
namespace Redbox
open Interleaving

namespace Database
variable {cfg : Config} {db db' : Database} {now : Time} {fresh userId v : Id}

theorem ownsNothing_iff : db.ownsNothing userId = true ↔
    (∀ f ∈ db.files, f.userId ≠ userId) ∧ (∀ m ∈ db.mails, m.userId ≠ userId) ∧
    (∀ b ∈ db.bins, b.userId ≠ userId) ∧ (∀ l ∈ db.links, l.userId ≠ userId) ∧
    (∀ c ∈ db.inviteCodes, c.userId ≠ some userId) ∧ ∀ b ∈ db.blockedSenders,
      b.userId ≠ userId := by
  simp only [ownsNothing, Bool.and_eq_true, List.all_eq_true, bne_iff_ne, and_assoc]

/-- Whether an invite code is valid says nothing about its owner. -/
theorem ownsNothing_validity {isValid : Bool} (h : db.ownsNothing userId = true) :
    (db.setInviteCodesValidity v isValid).ownsNothing userId = true := by
  obtain ⟨hf, hm, hb, hl, hc, hs⟩ := ownsNothing_iff.mp h
  refine ownsNothing_iff.mpr ⟨hf, hm, hb, hl, fun c hc' => ?_, hs⟩
  rcases mem_updateWhere.mp hc' with ⟨hmem, _⟩ | ⟨c', hmem, _, rfl⟩
  · exact hc c hmem
  · exact hc c' hmem

theorem ownsNothing_clear (h : db.ownsNothing userId = true) :
    (db.clearUserContentRecords v).ownsNothing userId = true := by
  obtain ⟨hf, hm, hb, hl, hc, hs⟩ := ownsNothing_iff.mp h
  exact ownsNothing_iff.mpr ⟨fun f h => hf f (List.mem_of_mem_filter h),
    fun m h => hm m (List.mem_of_mem_filter h),
    fun b h => hb b (List.mem_of_mem_filter h), fun l h => hl l (List.mem_of_mem_filter h),
    fun c h => hc c (List.mem_of_mem_filter h), fun b h => hs b (List.mem_of_mem_filter h)⟩

/-- The user whose content is cleared keeps none. -/
theorem ownsNothing_cleared : (db.clearUserContentRecords userId).ownsNothing userId = true := by
  rw [ownsNothing_iff]
  simp [clearUserContentRecords]

/-- Statements that create nothing for a user leave him without content. -/
theorem ownsNothing_perform {w : Statement} {a : w.Answer}
    (h : db.perform cfg now fresh w = .ok (db', a)) (ho : db.ownsNothing userId = true)
    (hw : w.creates ≠ some userId) : db'.ownsNothing userId = true := by
  have hdb := perform_result h
  subst hdb
  have hown := ownsNothing_iff.mp ho
  obtain ⟨hf, hm, hb, hl, hc, hs⟩ := hown
  cases w with
  | swapSessionKey table id key =>
    simp only [result, swapSessionKey]
    cases table <;> split <;> exact ho
  | rotateSessionKey table id => cases table <;> exact ho
  | reactivate v _ _ _ _ _ => exact ownsNothing_validity ho
  | lock v _ _ _ => exact ownsNothing_validity ho
  | ban v _ _ _ _ _ => exact ownsNothing_validity ho
  | markDeleted v _ _ _ _ _ _ => exact ownsNothing_clear ho
  | createInviteCode v code =>
    obtain ⟨y, _, heq⟩ := perform_bind h
    cases heq
    refine ownsNothing_iff.mpr ⟨hf, hm, hb, hl, List.forall_mem_cons.mpr ⟨hw, hc⟩, hs⟩
  | createFile v _ _ _ _ _ =>
    obtain ⟨_, _, hv, _⟩ := createFile_ok h
    refine ownsNothing_iff.mpr ⟨List.forall_mem_cons.mpr ⟨fun he => hw ?_, hf⟩, hm, hb, hl, hc, hs⟩
    exact congrArg some (hv.symm.trans he)
  | deleteFile id =>
    exact ownsNothing_iff.mpr ⟨fun f h => hf f (List.mem_of_mem_filter h), hm, hb, hl, hc, hs⟩
  | createMail mail =>
    exact ownsNothing_iff.mpr ⟨hf, List.forall_mem_cons.mpr ⟨fun he => hw (congrArg some he), hm⟩,
      hb, hl, hc, hs⟩
  | createBin bin =>
    exact ownsNothing_iff.mpr ⟨hf, hm, List.forall_mem_cons.mpr ⟨fun he => hw (congrArg some he),
      hb⟩, hl, hc, hs⟩
  | createLink v _ _ =>
    obtain ⟨_, rfl, _⟩ := createLink_ok h
    exact ownsNothing_iff.mpr ⟨hf, hm, hb,
      List.forall_mem_cons.mpr ⟨fun he => hw (congrArg some he), hl⟩, hc, hs⟩
  | upsertBlockedSender v email =>
    simp only [result]
    split
    · exact ho
    · exact ownsNothing_iff.mpr ⟨hf, hm, hb, hl, hc,
        List.forall_mem_cons.mpr ⟨fun he => hw (congrArg some he), hs⟩⟩
  | _ => exact ho

/-- A deletion leaves its user without content. -/
theorem ownsNothing_deleted {w : Statement} {a : w.Answer}
    (h : db.perform cfg now fresh w = .ok (db', a)) (hw : w.setsStatus = some (userId, .deleted)) :
    db'.ownsNothing userId = true := by
  rw [perform_result h]
  cases w with
  | markDeleted v _ _ _ _ _ _ =>
    cases hw
    exact ownsNothing_cleared
  | _ => cases hw

end Database

def Request.creates : Request → Option Id
  | .statement w => w.creates
  | _ => none

namespace Erasure

/-- A read that shows the status of the user: the guard's, that of `generateInviteCode`
and the lookup of a mail's recipient. -/
def checks (userId : Id) : BackendEvent → Bool
  | ⟨_, .query (.user .row id), _⟩ => decide (id = userId)
  | ⟨_, .query (.user .idIssuedStatus id), _⟩ => decide (id = userId)
  | ⟨_, .query (.userByUsername _), .ok row⟩ =>
    Option.any (fun u : User => decide (u.id = userId)) row
  | _ => false

/-- At each insert for a user, no deletion of the user has committed since the
process last looked at the status. -/
def noDeletionSinceCheck (s : SharedWorld) (p : Nat) (q : Request) (_ : Delivery) : Bool :=
  match q.creates with
  | some userId => !occursSince p (checks userId) (setStatus userId .deleted) s.log
  | none => true

def rules : BackendRules := allRequests.also noDeletionSinceCheck

/-- Users have distinct ids, and deleted ones own nothing. -/
structure Erased (w : World) : Prop where
  ids : (w.db.users.map (·.id)).Nodup
  owned : ∀ userId, w.db.statusOf userId = some .deleted → w.db.ownsNothing userId = true

/-- Deleted accounts own nothing, and nobody inserts for them. -/
def outline : Outline Request Reply World where
  inv := fun s => Erased s.store
  pre := fun s _ q => ∀ userId, q.creates = some userId → NotDeleted userId s

variable {cfg : Config} {s : SharedWorld} {p : Nat} {userId : Id}

theorem outline_kept : outline.Kept (backend cfg) rules where
  after := by
    intro s p q d hs ha hp
    cases delivered_of_allowed ha
    show Erased (s.store.deliver cfg q).1
    obtain hdb | ⟨w, db', a, rfl, hw, hdb, _⟩ := s.store.deliver_db cfg q
    · exact ⟨by rw [hdb]; exact hs.ids, by rw [hdb]; exact hs.owned⟩
    rw [hdb]
    refine ⟨(Database.userIds_perform hw).symm ▸ hs.ids, fun userId hst => ?_⟩
    by_cases hset : w.setsStatus = some (userId, .deleted)
    · exact Database.ownsNothing_deleted hw hset
    · have hold : s.store.db.statusOf userId = some .deleted := by
        rcases Database.statusOf_perform hw userId with h | ⟨status, h, h'⟩
        · exact h ▸ hst
        · exact absurd (Option.some.inj (h'.symm.trans hst) ▸ h) hset
      exact Database.ownsNothing_perform hw (hs.owned userId hold) fun hc => hp userId hc hold
  moved := fun hs _ => ⟨hs.ids, hs.owned⟩

/-- The account is not deleted, unless it was since the process last looked. -/
abbrev Checked (p : Nat) (userId : Id) (s : SharedWorld) : Prop :=
  Unless p (checks userId) (setStatus userId .deleted) (NotDeleted userId) s

/-- Calls that look at no status. -/
def Blind (q : Request) : Prop := ∀ p userId r, checks userId ⟨p, q, r⟩ = false

theorem checked_held : Held (backend cfg) rules outline p Blind (Checked p userId) :=
  Survives.held notDeleted_survives fun _ _ hq => hq p userId _

theorem pre_other {q : Request} (hq : q.creates = none) : outline.pre s p q := by
  intro userId h
  rw [hq] at h
  cases h

/-- An insert that the process has looked for. -/
theorem create_allowed {q : Request} {d : Delivery} (hq : ∀ v, q.creates = some v → v = userId)
    (ha : rules.allows s p q d = true) (hs : Checked p userId s) : outline.pre s p q := by
  intro v hv
  cases hq v hv
  have hcond := cond_of_allowed ha
  simp only [noDeletionSinceCheck, hv, Bool.not_eq_eq_eq_not, Bool.not_true] at hcond
  exact hs.resolve hcond

def others : List RequestKind :=
  [.swapSession, .endSession, .requestDeletion, .reactivate, .restrict, .markDeleted,
    .processDeletion,
    .deleteFile, .sign]

theorem quiet_others : Quiet rules outline others := by
  intro s p q d hq _ _
  refine pre_other ?_
  cases q with
  | statement w =>
    cases w <;> simp_all [Within, Request.kind, others, Request.creates, Statement.creates]
  | _ => rfl

/-- The calls of a routine that creates content for the user. -/
def CreatesFor (userId : Id) (q : Request) : Prop := Blind q ∧ ∀ v, q.creates = some v → v = userId

theorem creating : Creating (CreatesFor userId) userId where
  aside := by
    intro q hq
    cases q with
    | query q =>
      cases q with
      | user _ _ => cases hq
      | userByUsername _ => cases hq
      | _ => exact ⟨fun _ _ _ => rfl, by simp [Request.creates]⟩
    | statement w =>
      refine ⟨fun _ _ _ => rfl, fun v hv => ?_⟩
      have hkind : (Request.statement w).kind = .createContent := kind_of_creates hv
      rw [plain_of_aside hq] at hkind
      cases hkind
    | _ => exact ⟨fun _ _ _ => rfl, by simp [Request.creates]⟩
  creates := by
    intro w hw
    refine ⟨fun _ _ _ => rfl, fun v hv => ?_⟩
    exact (Option.some.inj (hw.symm.trans hv)).symm

/-- A routine that creates content right after a look at the status. -/
theorem creates_follows {α : Type} {x : Routine α} (hx : x.Calls (CreatesFor userId))
    (hs : Checked p userId s) :
    Follows (backend cfg) rules outline p x s :=
  (Meets.heldCalls checked_held hx (fun _ h => h.1) (fun _ _ _ hq _ ht ha =>
    create_allowed hq.2 ha ht) hs).mono
    fun _ _ _ _ => trivial

theorem checked_of_row {u : User} (hu : s.store.db.findUser userId = some u)
    (hst : u.status ≠ .deleted) :
    NotDeleted userId s := by
  rw [NotDeleted, Database.statusOf, hu]
  simpa using hst

/-- Behind the guard the user of the token is not deleted. -/
theorem guarded_follows {payload : TokenPayload} {body : Id → Routine Outcome}
    (h : ∀ t, outline.inv t → Checked p payload.sub t →
      Follows (backend cfg) rules outline p (body payload.sub) t) :
    Follows (backend cfg) rules outline p (Operation.guarded payload body) s := by
  simp only [Operation.guarded, JwtStrategy.validate, Prog.bind_eq, Prog.pure_eq, Prog.bind_assoc]
  refine Follows.await (Stable.const True) trivial fun t _ hi d ha =>
    ⟨pre_other rfl, fun row hr => ?_⟩
  cases delivered_of_allowed ha
  have hrow : t.store.db.findUser payload.sub = row := Except.ok.inj hr
  cases row with
  | none => exact Follows.throw
  | some u =>
    simp only [Prog.bind_assoc, Prog.ret_bind]
    refine Follows.throwIf fun _ => Follows.throwIf fun hactive => ?_
    rw [Database.findUser_id hrow]
    refine h _ (Outline.Kept.after outline_kept hi ha (pre_other rfl))
      (.inl (checked_of_row hrow ?_))
    intro hd
    simp [hd] at hactive

/-- A request behind the guard that creates content for its user. -/
theorem guarded_creates {payload : TokenPayload} {α : Type} {x : Id → Routine α} {f : α → Outcome}
    (hx : ∀ userId, (x userId).Calls (CreatesFor userId)) :
    Safe (backend cfg) rules outline (Operation.guarded payload fun userId =>
      (x userId).bind fun a => .ret (f a)) :=
  fun _ _ _ => guarded_follows fun _ _ ht => creates_follows ((hx _).bind fun _ => trivial) ht

theorem generateInviteCode_follows :
    Follows (backend cfg) rules outline p (UsersService.generateInviteCode cfg userId) s := by
  refine Follows.await (Stable.const True) trivial fun t _ _ d ha =>
    ⟨pre_other rfl, fun row hr => ?_⟩
  cases delivered_of_allowed ha
  have hrow : t.store.db.findUser userId = row := Except.ok.inj hr
  cases row with
  | none => exact Follows.throw
  | some u =>
    refine Follows.throwIf fun hactive => Follows.throwIf fun _ => ?_
    have hu : NotDeleted userId t := checked_of_row hrow (by intro hd; simp [hd] at hactive)
    exact creates_follows (.bind (.await (Creating.aside creating _ rfl)) fun _ =>
      .await (Creating.creates creating _ rfl)) (.inl hu)

/-- A mail is stored for the recipient that was looked up. -/
theorem processIncomingMail_safe {mail : IncomingMail} :
    Safe (backend cfg) rules outline (MailService.processIncomingMail cfg mail) := by
  refine .ite .ret fun p s _ => ?_
  refine Follows.await (Stable.const True) trivial fun t _ hi d ha =>
    ⟨pre_other rfl, fun row hr => ?_⟩
  cases delivered_of_allowed ha
  have hrow : t.store.db.findUsername cfg.sameName mail.username = row := Except.ok.inj hr
  cases row with
  | none => exact Follows.ret
  | some u =>
    refine Follows.ite (fun _ => Follows.ret) fun hactive => ?_
    have hu : NotDeleted u.id t :=
      checked_of_row (Database.findUser_of_findUsername hi.ids hrow) (by
        intro hd; simp [hd] at hactive)
    have hs : Checked p u.id ((backend cfg).after .delivered p
      (.query (.userByUsername mail.username)) t) := .inl hu
    refine creates_follows ?_ hs
    exact (.bind (.await (Creating.aside creating _ rfl)) fun _ => .ite trivial <|
      .bind (.await (Creating.aside creating _ rfl)) fun _ => .ite trivial <|
        .bind (storeMailboxMail_calls creating) fun _ => trivial)

theorem program_safe (op : Operation) : Safe (backend cfg) rules outline (op.program cfg) := by
  cases op with
  | generateInviteCode payload =>
    intro p s _
    simp only [Operation.program, Prog.bind_eq, Prog.pure_eq]
    exact guarded_follows fun t hi _ => Follows.bind outline_kept hi (F := fun _ => True)
      generateInviteCode_follows fun _ _ _ _ => Follows.ret
  | createBin payload dto => exact guarded_creates fun _ => createBin_calls creating
  | createLink payload url => exact guarded_creates fun _ => createLink_calls creating
  | blockSender payload email => exact guarded_creates fun _ => blockSender_calls creating
  | completeUpload payload uploadId dto =>
    exact guarded_creates fun _ => FilesService.finalizeUpload_calls creating
  | processIncomingMail mail =>
    exact .bind outline_kept processIncomingMail_safe fun r => by cases r <;> exact .ret
  | _ => exact Quiet.program quiet_others (by simp [Operation.footprint, others])

end Erasure

open Erasure

/-- In every state without a request in progress, deleted accounts own nothing. -/
def ErasureIsComplete (cfg : Config) (R : BackendRules) (w : World) : Prop :=
  ∀ as s userId, (backend cfg).run R (.initial w) as = some s → s.idle = true →
    s.shared.store.db.statusOf userId = some .deleted → s.shared.store.db.ownsNothing userId = true

/-- Erasure is complete in the runs where no deletion falls between a look at the status and an
insert. -/
theorem erasure_is_complete (cfg : Config) (w : World) (hw : Erased w) :
    ErasureIsComplete cfg Erasure.rules w := by
  intro as s userId h _ hst
  have hr : s.Respects (backend cfg) Erasure.rules outline fun _ _ _ _ => True :=
    Safe.run outline_kept program_safe hw h
  exact hr.inv.owned userId hst

namespace Erasure

def deletion : UpdateAdminUserStatusDto := ⟨"abuse", .deleted, none, none⟩

/-- The user's request has passed the guard when an administrator deletes the account. -/
def insertAfterDeletion : List BackendAction :=
  .start (.blockSender demoToken "eve@example.org") :: calls 2 1 ++
  .start (.updateUserStatus demoAdminToken 1 deletion) :: calls 3 10 ++ calls 2 1

/-- The sender is blocked before the account is deleted. -/
def insertBeforeDeletion : List BackendAction :=
  .start (.blockSender demoToken "eve@example.org") :: calls 2 2 ++
  .start (.updateUserStatus demoAdminToken 1 deletion) :: calls 3 10

theorem demo_erased : Erased demoWorld := by
  refine ⟨by decide, fun userId _ => ?_⟩
  rw [Database.ownsNothing_iff]
  simp [demoWorld]

end Erasure

/-- The deleted account gets a blocked sender. -/
theorem deleted_user_owns : ¬ ErasureIsComplete demoConfig allRequests demoWorld := by
  have key : ((demoRun allRequests insertAfterDeletion).any fun s => s.idle &&
      decide (s.shared.store.db.statusOf 1 = some .deleted) &&
      !s.shared.store.db.ownsNothing 1) = true := by decide +kernel
  intro h
  obtain ⟨s, hs, hx⟩ := (Option.any_eq_true _ _).mp key
  simp only [Bool.and_eq_true, decide_eq_true_eq, Bool.not_eq_true'] at hx
  rw [h _ s 1 hs hx.1.1 hx.1.2] at hx
  cases hx.2

/-- A run of the kind the theorem is about: what was created before the deletion is erased. -/
theorem erasure_is_complete_demo : ∃ s, demoRun Erasure.rules insertBeforeDeletion = some s ∧
    s.shared.store.db.statusOf 1 = some .deleted ∧ s.shared.store.db.ownsNothing 1 = true := by
  have key : ((demoRun Erasure.rules insertBeforeDeletion).any fun s => s.idle &&
      decide (s.shared.store.db.statusOf 1 = some .deleted)) = true := by decide +kernel
  obtain ⟨s, hs, hx⟩ := (Option.any_eq_true _ _).mp key
  simp only [Bool.and_eq_true, decide_eq_true_eq] at hx
  exact ⟨s, hs, hx.2, erasure_is_complete demoConfig demoWorld demo_erased _ s 1 hs hx.1 hx.2⟩

end Redbox
