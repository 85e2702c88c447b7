import Redbox.Accounts.Composition

/-! A deleted account stays deleted. Each routine reads the status in one call and
writes it in a later one, so this holds of the runs in which no deletion commits
between the two. -/
namespace Redbox
open Interleaving

namespace DeletionTerminal

/-- At each write of another status, no deletion of the user has committed since
the process last read the user's row. -/
def noDeletionSinceRead (s : SharedWorld) (p : Nat) (q : Request) (_ : Delivery) : Bool :=
  match q.setsStatus with
  | some (userId, status) =>
    decide (status = .deleted) || !occursSince p (readUser userId) (setStatus userId .deleted) s.log
  | none => true

def rules : BackendRules := allRequests.also noDeletionSinceRead

/-- Nobody gives another status to a deleted account. -/
def outline : Outline Request Reply World where
  inv := fun _ => True
  pre := fun s _ q => ∀ userId status, q.setsStatus = some (userId, status) → status ≠ .deleted →
    s.store.db.statusOf userId ≠ some .deleted

variable {cfg : Config} {p : Nat} {userId : Id} {s : SharedWorld}

theorem outline_kept : outline.Kept (backend cfg) rules :=
  ⟨fun _ _ _ => trivial, fun _ _ => trivial⟩

/-- The account is not deleted, unless it was since the process last read its row. -/
abbrev Fresh (p : Nat) (userId : Id) (s : SharedWorld) : Prop :=
  Unless p (readUser userId) (setStatus userId .deleted) (NotDeleted userId) s

theorem fresh_stable : Stable (backend cfg) rules outline p (Fresh p userId) :=
  Survives.stable notDeleted_survives

/-- A call that sets no status needs no precondition. -/
theorem pre_plain {q : Request} (hq : q.setsStatus = none) : outline.pre s p q := by
  intro userId status h
  rw [hq] at h
  cases h

section
variable {α : Type} {sel : UserSelect}

/-- A read of the row tells whether the account is deleted. -/
theorem follows_read {f : Option User → Routine α}
    (h : ∀ row t, (∀ u, row = some u → u.status ≠ .deleted → Fresh p userId t) →
      Follows (backend cfg) rules outline p (f row) t) :
    Follows (backend cfg) rules outline p ((await (.query (.user sel userId))).bind f) s := by
  refine Follows.await (Stable.const True) trivial fun t _ _ d ha =>
    ⟨pre_plain rfl, fun row hr => ?_⟩
  cases delivered_of_allowed ha
  have hrow : t.store.db.findUser userId = row := Except.ok.inj hr
  refine h row _ fun u hu hst => .inl ?_
  have hus : t.store.db.statusOf userId = some u.status := by
    rw [Database.statusOf, hrow, hu]; rfl
  show t.store.db.statusOf userId ≠ some .deleted
  rw [hus]
  simpa using hst

/-- A call that is neither a read of the row nor a write keeps what the process knows. -/
theorem follows_plain {q : Request} {f : q.Answer → Routine α} (hq : q.setsStatus = none)
    (hr : q.readsUser = none) (hs : Fresh p userId s)
    (h : ∀ a t, Fresh p userId t → Follows (backend cfg) rules outline p (f a) t) :
    Follows (backend cfg) rules outline p ((await q).bind f) s := by
  refine Follows.await fresh_stable hs fun t ht hi d ha => ⟨pre_plain hq, fun a _ => h a _ ?_⟩
  exact Survives.own notDeleted_survives hi ha (pre_plain hq) (by simp [readUser, hr]) ht

/-- A write of another status right after its process looked is in order. -/
theorem follows_write {q : Request} {f : q.Answer → Routine α} {status : UserStatus}
    (hq : q.setsStatus = some (userId, status)) (hs : Fresh p userId s)
    (h : ∀ a, Safe (backend cfg) rules outline (f a)) :
    Follows (backend cfg) rules outline p ((await q).bind f) s := by
  refine Follows.await fresh_stable hs fun t ht hi d ha => ⟨?_, fun a _ => h a p _ trivial⟩
  intro v status' hv hst
  rw [hq] at hv
  cases hv
  have hcond := cond_of_allowed ha
  simp only [noDeletionSinceRead, hq, hst, decide_false, Bool.false_or, Bool.not_eq_eq_eq_not,
    Bool.not_true] at hcond
  exact ht.resolve hcond

end

/-- Calls of these kinds set no status but that of a deletion. -/
def harmless : List RequestKind :=
  [.swapSession, .endSession, .markDeleted, .processDeletion, .createContent, .deleteFile, .sign]

theorem quiet_harmless : Quiet rules outline harmless := by
  intro s p q d hq _ _ userId status h hst
  cases q with
  | statement w =>
    cases w <;> simp_all [Within, harmless, Request.kind, Request.setsStatus, Statement.setsStatus]
  | _ => cases h

theorem reactivateUser_safe {options : ReactivationOptions} :
    Safe (backend cfg) rules outline (UsersService.reactivateUser userId options) := by
  refine fun p s _ => follows_read fun row t ht => ?_
  cases row with
  | none => exact Follows.throw
  | some u =>
    exact Follows.throwIf fun hd => follows_write rfl (ht u rfl hd) fun _ =>
      Quiet.safe quiet_harmless (await_plain rfl)

theorem adminReactivateUser_safe {options : ReactivationOptions} :
    Safe (backend cfg) rules outline (AdminUsersService.reactivateUser userId options) := by
  intro p s _
  unfold AdminUsersService.reactivateUser AdminUsersService.findUserOrThrow
  simp only [Prog.bind_eq, Prog.bind_assoc]
  refine follows_read fun row t ht => ?_
  cases row with
  | none => exact Follows.throw
  | some u =>
    exact Follows.throwIf fun hd => follows_write rfl (ht u rfl hd) fun _ =>
      Quiet.safe quiet_harmless (await_plain rfl)

theorem requestAccountDeletion_safe {password : String} :
    Safe (backend cfg) rules outline (UsersService.requestAccountDeletion cfg userId password) := by
  refine fun p s _ => follows_read fun row t ht => ?_
  cases row with
  | none => exact Follows.throw
  | some u =>
    refine Follows.throwIf fun _ => Follows.throwIf fun hd =>
      follows_plain rfl rfl (ht u rfl hd) fun _ _ ht => ?_
    refine Follows.throwIf fun _ => follows_plain rfl rfl ht fun _ _ ht => ?_
    exact follows_write rfl ht fun _ =>
      Quiet.safe quiet_harmless (.bind (await_plain rfl) fun _ => trivial)

/-- The branches of `updateUserStatus` start from its read of the row. -/
theorem setStatus_follows {adminId : Id} {dto : UpdateAdminUserStatusDto} {status : UserStatus}
    (hs : dto.status ≠ .deleted → Fresh p userId s) :
    Follows (backend cfg) rules outline p (AdminUsersService.setStatus adminId userId dto status)
      s := by
  unfold AdminUsersService.setStatus
  cases hd : dto.status with
  | active => exact adminReactivateUser_safe p s trivial
  | locked =>
    exact Follows.throwIf fun _ => follows_write rfl (hs (by simp [hd])) fun _ =>
      Quiet.safe quiet_harmless (await_plain rfl)
  | banned =>
    exact Follows.throwIf fun _ => Follows.throwIf fun _ =>
      follows_plain rfl rfl (hs (by simp [hd]))
      fun _ _ ht => follows_write rfl ht fun _ => Quiet.safe quiet_harmless (await_plain rfl)
  | deleted =>
    exact Quiet.safe quiet_harmless (AdminUsersService.setDeleted_calls (by decide)) p s trivial

theorem updateUserStatus_safe {adminId : Id} {dto : UpdateAdminUserStatusDto} :
    Safe (backend cfg) rules outline (AdminUsersService.updateUserStatus adminId userId dto) := by
  refine fun p s _ => follows_read fun row t ht => ?_
  cases row with
  | none => exact Follows.throw
  | some u =>
    refine Follows.throwIf fun hd => ?_
    refine Follows.bind (F := fun _ => True) outline_kept trivial (setStatus_follows fun hdto =>
      ht u rfl ?_) ?_
    · exact fun h => hd ⟨h, hdto⟩
    · exact fun _ t _ _ => Quiet.safe quiet_harmless AdminUsersService.findUserOrThrow_calls p t
        trivial

theorem preparePendingDeletionLogin_safe :
    Safe (backend cfg) rules outline (UsersService.preparePendingDeletionLogin userId) := by
  refine Quiet.plain outline_kept quiet_harmless rfl fun row => ?_
  cases row with
  | none => exact .ret
  | some u =>
    refine .ite .ret (Quiet.plain outline_kept quiet_harmless rfl fun request => ?_)
    cases request with
    | some request =>
      exact Quiet.safe quiet_harmless (.bind (await_plain rfl) fun _ =>
        .ite (.bind (UsersService.finalizePendingDeletion_calls (by decide)) fun _ =>
          trivial) trivial)
    | none => exact .bind outline_kept reactivateUser_safe fun _ => .ret

theorem reactivatePendingAccount_safe {requestId : Id} :
    Safe (backend cfg) rules outline (UsersService.reactivatePendingAccount userId requestId) := by
  refine Quiet.plain outline_kept quiet_harmless rfl fun row => ?_
  cases row with
  | none => exact .throw
  | some u =>
    refine .throwIf (.ite .ret (.throwIf (Quiet.plain outline_kept quiet_harmless rfl fun request =>
      ?_)))
    cases request with
    | none => exact .throw
    | some request =>
      refine .throwIf (Quiet.plain outline_kept quiet_harmless rfl fun _ =>
        .ite ?_ reactivateUser_safe)
      exact Quiet.safe quiet_harmless
        (.bind (UsersService.finalizePendingDeletion_calls (by decide)) fun _ => trivial)

theorem assertBanExpired_safe : Safe (backend cfg) rules outline
      (UsersService.assertBanExpired cfg userId) :=
  Quiet.plain outline_kept quiet_harmless rfl fun _ =>
    Quiet.plain outline_kept quiet_harmless rfl fun _ =>
    .ite reactivateUser_safe .throw

theorem program_safe (op : Operation) : Safe (backend cfg) rules outline (op.program cfg) := by
  have check (user : User) : Safe (backend cfg) rules outline
      (UsersService.assertUserCanLogin cfg user) :=
    assertUserCanLogin_safe outline_kept quiet_harmless (fun _ => preparePendingDeletionLogin_safe)
      (fun _ => assertBanExpired_safe) user
  cases op with
  | login dto =>
    exact loginOutcome_safe outline_kept (login_safe outline_kept quiet_harmless (by decide)
      (fun _ => preparePendingDeletionLogin_safe) check dto)
  | refreshToken payload =>
    exact .bind outline_kept (refreshToken_safe outline_kept quiet_harmless (by decide)
      (by decide) check _ _)
      fun _ => .ret
  | reactivateAccount payload =>
    exact .bind outline_kept (reactivateAccount_safe outline_kept quiet_harmless
      (fun _ _ => reactivatePendingAccount_safe) payload) fun _ => .ret
  | requestAccountDeletion payload password =>
    simp only [Operation.program, Prog.bind_eq, Prog.pure_eq]
    exact guarded_safe outline_kept quiet_harmless fun _ =>
      .bind outline_kept requestAccountDeletion_safe fun _ => .ret
  | processExpiredRestrictions =>
    exact .bind outline_kept (Quiet.plain outline_kept quiet_harmless rfl fun _ =>
      .forEach outline_kept fun _ _ => reactivateUser_safe) fun _ => .ret
  | updateUserStatus payload userId dto =>
    simp only [Operation.program, Prog.bind_eq, Prog.pure_eq]
    exact adminGuarded_safe outline_kept quiet_harmless fun _ =>
      .bind outline_kept updateUserStatus_safe fun _ => .ret
  | _ => exact Quiet.program quiet_harmless (by simp [Operation.footprint, harmless])

/-- No call that respects the outline takes the status from a deleted account. -/
theorem deleted_kept (s : SharedWorld) (p : Nat) (q : Request) (d : Delivery)
    (ha : rules.allows s p q d = true) (hp : outline.pre s p q)
    (hs : s.store.db.statusOf userId = some .deleted) :
    ((backend cfg).after d p q s).store.db.statusOf userId = some .deleted := by
  cases delivered_of_allowed ha
  rw [after_delivered]
  rcases s.store.statusOf_deliver cfg q userId with h | ⟨status, hq, _, hst⟩
  · rw [h, hs]
  · by_cases hd : status = .deleted
    · rw [hst, hd]
    · exact absurd hs (hp userId status hq hd)

end DeletionTerminal

/-- Once an account is deleted, it is in every later state of a run. -/
def DeletionIsTerminal (cfg : Config) (R : BackendRules) (w : World) : Prop :=
  ∀ as₁ as₂ s₁ s₂ userId, (backend cfg).run R (.initial w) as₁ = some s₁ →
    (backend cfg).run R s₁ as₂ = some s₂ → s₁.shared.store.db.statusOf userId = some .deleted →
    s₂.shared.store.db.statusOf userId = some .deleted

open DeletionTerminal in
/-- Deletion is terminal in the runs where no deletion falls between a read and a write. -/
theorem deletion_is_terminal (cfg : Config) (w : World) :
    DeletionIsTerminal cfg DeletionTerminal.rules w := by
  intro as₁ as₂ s₁ s₂ userId h₁ h₂ hs
  have hr : s₁.Respects (backend cfg) rules outline fun _ _ _ _ => True :=
    Safe.run outline_kept program_safe trivial h₁
  exact Safe.run_keeps outline_kept program_safe (fun s p q d _ => deleted_kept s p q d)
    (fun _ _ _ _ hs => hs) hr hs h₂

namespace DeletionTerminal

def activation : UpdateAdminUserStatusDto := ⟨"appeal", .active, none, none⟩
def deletion : UpdateAdminUserStatusDto := ⟨"abuse", .deleted, none, none⟩

/-- One administrator's request has read the user when another one deletes the account. -/
def deletionBetween : List BackendAction :=
  .start (.updateUserStatus demoAdminToken 1 activation) :: calls 2 3 ++
  .start (.updateUserStatus demoAdminToken 1 deletion) :: calls 3 5

end DeletionTerminal

open DeletionTerminal in
/-- The pending reactivation brings the deleted account back. -/
theorem deletion_is_not_terminal : ¬ DeletionIsTerminal demoConfig allRequests demoWorld := by
  have key : ((demoRun allRequests deletionBetween).any fun s₁ =>
      decide (s₁.shared.store.db.statusOf 1 = some .deleted) &&
      ((backend demoConfig).run allRequests s₁ (calls 2 1)).any fun s₂ =>
        decide (s₂.shared.store.db.statusOf 1 = some .active)) = true := by decide +kernel
  intro h
  obtain ⟨s₁, h₁, hs⟩ := (Option.any_eq_true _ _).mp key
  simp only [Bool.and_eq_true, decide_eq_true_eq] at hs
  obtain ⟨s₂, h₂, hst⟩ := (Option.any_eq_true _ _).mp hs.2
  simp [h _ _ s₁ s₂ 1 h₁ h₂ hs.1] at hst

open DeletionTerminal in
/-- A run of the kind the theorem is about: the second administrator comes too late to read the old
status. -/
theorem deletion_is_terminal_demo : ∃ s₁ s₂,
    demoRun DeletionTerminal.rules (.start (.updateUserStatus demoAdminToken 1 deletion) ::
      calls 2 5) = some s₁ ∧
    (backend demoConfig).run DeletionTerminal.rules s₁
      (.start (.updateUserStatus demoAdminToken 1 activation) :: calls 3 2) = some s₂ ∧
    s₂.shared.store.db.statusOf 1 = some .deleted := by
  have key : ((demoRun DeletionTerminal.rules
      (.start (.updateUserStatus demoAdminToken 1 deletion) :: calls 2 5)).any fun s₁ =>
      decide (s₁.shared.store.db.statusOf 1 = some .deleted) &&
      ((backend demoConfig).run DeletionTerminal.rules s₁
        (.start (.updateUserStatus demoAdminToken 1 activation) :: calls 3 2)).isSome) = true := by
          decide +kernel
  obtain ⟨s₁, h₁, hs⟩ := (Option.any_eq_true _ _).mp key
  simp only [Bool.and_eq_true, decide_eq_true_eq] at hs
  obtain ⟨s₂, h₂⟩ := Option.isSome_iff_exists.mp hs.2
  exact ⟨s₁, s₂, h₁, h₂, deletion_is_terminal demoConfig demoWorld _ _ s₁ s₂ 1 h₁ h₂ hs.1⟩

end Redbox
