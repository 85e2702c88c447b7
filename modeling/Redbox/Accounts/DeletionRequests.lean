import Redbox.Accounts.Composition
import Mathlib.Data.List.Nodup

/-! A deletion request that was cancelled never erases the account. The routines
that process a request decide on it long before their transaction, so this holds
of the runs in which no other transaction closes it in between. -/
namespace Redbox
open Interleaving

namespace Request

/-- The user and the deletion request that a deletion transaction processes. -/
def processes : Request → Option (Id × Id)
  | .statement (.markDeleted userId _ _ _ _ _ (some requestId)) => some (userId, requestId)
  | _ => none

def readsRequests : Request → Bool
  | .query (.activeDeletionRequest _) => true
  | .query .dueDeletionRequests => true
  | _ => false

end Request

namespace DeletionRequests

/-- A read on which a process decides to delete the user. -/
def decides (userId : Id) (e : BackendEvent) : Bool :=
  match e.req with
  | .query (.activeDeletionRequest id) => decide (id = userId)
  | .query .dueDeletionRequests => true
  | _ => false

/-- A committed reactivation, lock, ban or deletion, which closes requests of the user. -/
def closes (userId : Id) (e : BackendEvent) : Bool :=
  e.resp.isOk && e.req.setsStatus.any fun x => decide (x.1 = userId ∧ x.2 ≠ .pending)

/-- At each deletion that processes a request, no transaction has closed requests
of the user since the process last decided. -/
def nothingClosedSince (s : SharedWorld) (p : Nat) (q : Request) (_ : Delivery) : Bool :=
  match q.processes with
  | some (userId, _) => !occursSince p (decides userId) (closes userId) s.log
  | none => true

def rules : BackendRules := allRequests.also nothingClosedSince

/-- The request is open. -/
def StillOpen (userId requestId : Id) (db : Database) : Prop :=
  ∃ r ∈ db.deletionRequests, r.id = requestId ∧ r.userId = userId ∧ r.isOpen = true

/-- What the tables always say about deletion requests. -/
structure Consistent (w : World) : Prop where
  below : ∀ r ∈ w.db.deletionRequests, r.id < w.nextId
  unique : (w.db.deletionRequests.map (·.id)).Nodup
  openStatus : ∀ r ∈ w.db.deletionRequests, r.isOpen = true →
    w.db.statusOf r.userId = some .pending ∨ w.db.statusOf r.userId = some .deleted
  oneEnd : ∀ r ∈ w.db.deletionRequests, r.cancelledAt = none ∨ r.processedAt = none

/-- A deletion processes an open request of a pending user. -/
def outline : Outline Request Reply World where
  inv := fun s => Consistent s.store
  pre := fun s _ q => ∀ userId requestId, q.processes = some (userId, requestId) →
    StillOpen userId requestId s.store.db ∧ s.store.db.statusOf userId = some .pending

section
variable {db : Database} {userId requestId : Id} {now : Time} {r : UserDeletionRequest}

theorem mem_cancel (h : r ∈ (db.cancelActiveDeletionRequests userId now).deletionRequests) :
    (r ∈ db.deletionRequests ∧ (r.userId = userId → r.isOpen = false)) ∨
    ∃ r' ∈ db.deletionRequests, r'.userId = userId ∧ r'.isOpen = true ∧
      r = { r' with cancelledAt := some now } := by
  rcases mem_updateWhere.mp h with ⟨hr, hp⟩ | ⟨r', hr, hp, rfl⟩
  · exact .inl ⟨hr, fun hu => by simpa [hu] using hp⟩
  · simp only [Bool.and_eq_true, beq_iff_eq] at hp
    exact .inr ⟨r', hr, hp.1, hp.2, rfl⟩

theorem mem_process (h : r ∈ db.closedRequests userId (some requestId) now) :
    (r ∈ db.deletionRequests ∧ r.id ≠ requestId) ∨
    ∃ r' ∈ db.deletionRequests, r'.id = requestId ∧ r = { r' with processedAt := some now } := by
  rcases mem_updateWhere.mp h with ⟨hr, hp⟩ | ⟨r', hr, hp, rfl⟩
  · exact .inl ⟨hr, by simpa using hp⟩
  · exact .inr ⟨r', hr, by simpa using hp, rfl⟩

theorem ids_updateWhere {p : UserDeletionRequest → Bool}
    {f : UserDeletionRequest → UserDeletionRequest} (hf : ∀ r, (f r).id = r.id)
    (rows : List UserDeletionRequest) :
    (updateWhere p f rows).map (·.id) = rows.map (·.id) := by
  simp only [updateWhere, List.map_map]
  refine List.map_congr_left fun r _ => ?_
  simp only [Function.comp_apply]
  split <;> simp [hf]

end

/-- Rows with one id are one row. -/
theorem Consistent.eq_of_id {w : World} (hw : Consistent w) {r r' : UserDeletionRequest}
    (hr : r ∈ w.db.deletionRequests) (hr' : r' ∈ w.db.deletionRequests) (h : r.id = r'.id) :
    r = r' :=
  List.inj_on_of_nodup_map hw.unique hr hr' h

section
variable {cfg : Config} {db db' : Database} {now : Time} {fresh : Id} {w : Statement}
  {r : UserDeletionRequest}

/-- Where the deletion requests after a statement come from. -/
theorem mem_requestsAfter (h : r ∈ db.requestsAfter now fresh w) :
    (r ∈ db.deletionRequests ∧ ∀ status, w.setsStatus = some (r.userId, status) → r.isOpen = true →
      status = .pending ∨ status = .deleted) ∨
    (∃ r' ∈ db.deletionRequests, r'.isOpen = true ∧ r = { r' with cancelledAt := some now }) ∨
    (r.id = fresh + 1 ∧ r.cancelledAt = none ∧ w.setsStatus = some (r.userId, .pending)) ∨
    ∃ r' ∈ db.deletionRequests, ∃ userId, (Request.statement w).processes = some (userId, r'.id) ∧
      r = { r' with processedAt := some now } := by
  have cancelled {userId : Id} {status : UserStatus} (hw : w.setsStatus = some (userId, status))
      (h : r ∈ (db.cancelActiveDeletionRequests userId now).deletionRequests) :
      (r ∈ db.deletionRequests ∧ ∀ status, w.setsStatus = some (r.userId, status) →
        r.isOpen = true →
        status = .pending ∨ status = .deleted) ∨
      ∃ r' ∈ db.deletionRequests, r'.isOpen = true ∧ r = { r' with cancelledAt := some now } := by
    rcases mem_cancel h with ⟨hr, hopen⟩ | ⟨r', hr', _, ho, rfl⟩
    · refine .inl ⟨hr, fun status' hst ho => ?_⟩
      rw [hw] at hst
      cases hst
      rw [hopen rfl] at ho
      cases ho
    · exact .inr ⟨r', hr', ho, rfl⟩
  cases w with
  | requestDeletion userId deleteAfterAt status =>
    rcases List.mem_cons.mp h with rfl | hr
    · exact .inr (.inr (.inl ⟨rfl, rfl, rfl⟩))
    · refine .inl ⟨hr, fun status hst _ => ?_⟩
      cases hst
      exact .inl rfl
  | reactivate userId actorType adminUserId action reason status =>
    exact (cancelled rfl h).imp_right .inl
  | lock userId adminUserId reason status => exact (cancelled rfl h).imp_right .inl
  | ban userId adminUserId reason isPermanent expiresAt status =>
    exact (cancelled rfl h).imp_right .inl
  | markDeleted userId actorType adminUserId action reason status requestId =>
    cases requestId with
    | none => exact (cancelled rfl h).imp_right .inl
    | some requestId =>
      have hp : r ∈ db.closedRequests userId (some requestId) now := h
      rcases mem_process hp with ⟨hr, _⟩ | ⟨r', hr', hid, rfl⟩
      · refine .inl ⟨hr, fun status hst _ => ?_⟩
        cases hst
        exact .inr rfl
      · exact .inr (.inr (.inr ⟨r', hr', userId, by rw [hid]; rfl, rfl⟩))
  | _ => exact .inl ⟨h, fun _ hst => nomatch hst⟩

theorem ids_requestsAfter : (db.requestsAfter now fresh w).map (·.id) =
      db.deletionRequests.map (·.id) ∨
    (db.requestsAfter now fresh w).map (·.id) = (fresh + 1) :: db.deletionRequests.map (·.id) := by
  have cancelled (userId : Id) : (db.cancelActiveDeletionRequests userId now).deletionRequests.map
    (·.id) =
      db.deletionRequests.map (·.id) :=
    ids_updateWhere (f := fun r => { r with cancelledAt := some now }) (fun _ => rfl) _
  cases w with
  | requestDeletion _ _ _ => exact .inr rfl
  | reactivate _ _ _ _ _ _ => exact .inl (cancelled _)
  | lock _ _ _ _ => exact .inl (cancelled _)
  | ban _ _ _ _ _ _ => exact .inl (cancelled _)
  | markDeleted _ _ _ _ _ _ requestId =>
    cases requestId with
    | none => exact .inl (cancelled _)
    | some _ =>
      exact .inl (ids_updateWhere (f :=
        fun r => { r with processedAt := some now }) (fun _ => rfl) _)
  | _ => exact .inl rfl

end

variable {cfg : Config} {s : SharedWorld} {p : Nat} {userId requestId : Id}

theorem isOpen_iff {r : UserDeletionRequest} :
    r.isOpen = true ↔ r.cancelledAt = none ∧ r.processedAt = none := by
  simp [UserDeletionRequest.isOpen]

/-- Statements that meet the outline keep the tables consistent. -/
theorem consistent_perform {s : World} {w : Statement} {a : w.Answer} {db' : Database}
    (hs : Consistent s) (hw : s.db.perform cfg s.clock s.nextId w = .ok (db', a))
    (hp : ∀ userId requestId, (Request.statement w).processes = some (userId, requestId) →
      StillOpen userId requestId s.db ∧ s.db.statusOf userId = some .pending) :
    Consistent { s with db := db', nextId := s.nextId + 2 } := by
  have hreq := Database.deletionRequests_perform hw
  have below : ∀ r ∈ db'.deletionRequests, r.id < s.nextId + 2 := by
    intro r hr
    rw [hreq] at hr
    rcases mem_requestsAfter hr with ⟨h, _⟩ | ⟨r', h, _, rfl⟩ | ⟨h, _⟩ | ⟨r', h, _, _, rfl⟩
    · exact Nat.lt_add_right 2 (hs.below r h)
    · exact Nat.lt_add_right 2 (hs.below r' h)
    · exact h ▸ Nat.lt_succ_self _
    · exact Nat.lt_add_right 2 (hs.below r' h)
  -- A processed request was open and the only one with its id, so it was not cancelled.
  have processed : ∀ r' ∈ s.db.deletionRequests, ∀ userId,
      (Request.statement w).processes = some (userId, r'.id) → r'.cancelledAt = none := by
    intro r' hr' userId h
    obtain ⟨⟨r, hr, hid, _, ho⟩, _⟩ := hp userId r'.id h
    rw [hs.eq_of_id hr' hr hid.symm]
    exact (isOpen_iff.mp ho).1
  refine ⟨below, ?_, fun r hr ho => ?_, fun r hr => ?_⟩
  · rw [hreq]
    have hids : (s.db.requestsAfter s.clock s.nextId w).map (·.id) = _ ∨ _ := ids_requestsAfter
    rcases hids with h | h
    · rw [h]; exact hs.unique
    · rw [h]
      refine List.nodup_cons.mpr ⟨fun hmem => ?_, hs.unique⟩
      obtain ⟨r, hr, hid⟩ := List.mem_map.mp hmem
      exact absurd (hs.below r hr) (hid ▸ Nat.not_lt.mpr (Nat.le_succ _))
  · rw [hreq] at hr
    rcases mem_requestsAfter hr with ⟨h, hst⟩ | ⟨r', h, _, rfl⟩ | ⟨_, _, hst⟩ | ⟨r', h, _, _, rfl⟩
    · by_cases hset : ∃ status, w.setsStatus = some (r.userId, status)
      · obtain ⟨status, hset⟩ := hset
        rw [Database.statusOf_perform_sets hw hset]
        exact (hst status hset ho).imp (congrArg some) (congrArg some)
      · rw [Database.statusOf_perform_other hw fun status h => hset ⟨status, h⟩]
        exact hs.openStatus r h ho
    · simp [isOpen_iff] at ho
    · rw [Database.statusOf_perform_sets hw hst]
      exact .inl rfl
    · simp [isOpen_iff] at ho
  · rw [hreq] at hr
    rcases mem_requestsAfter hr with ⟨h, _⟩ | ⟨r', h, ho, rfl⟩ | ⟨_, hc, _⟩ | ⟨r', h,
      userId, hpr, rfl⟩
    · exact hs.oneEnd r h
    · exact .inr (isOpen_iff.mp ho).2
    · exact .inl hc
    · exact .inl (processed r' h userId hpr)

theorem Consistent.later {s s' : World} (hs : Consistent s) (hdb : s'.db = s.db)
    (hn : s.nextId ≤ s'.nextId) :
    Consistent s' where
  below := by rw [hdb]; exact fun r hr => Nat.lt_of_lt_of_le (hs.below r hr) hn
  unique := by rw [hdb]; exact hs.unique
  openStatus := by rw [hdb]; exact hs.openStatus
  oneEnd := by rw [hdb]; exact hs.oneEnd

theorem outline_kept : outline.Kept (backend cfg) rules where
  after := by
    intro s p q d hs ha hp
    cases delivered_of_allowed ha
    show Consistent (s.store.deliver cfg q).1
    obtain hdb | ⟨w, db', a, rfl, hw, hst, _⟩ := s.store.deliver_db cfg q
    · exact hs.later hdb (s.store.nextId_deliver cfg q)
    · rw [hst]
      exact consistent_perform hs hw hp
  moved := fun hs _ => hs.later rfl (le_refl _)

theorem closes_of_sets {w : Statement} {status : UserStatus} {r : Reply (.statement w)}
    (hw : w.setsStatus = some (userId, status)) (hst : status ≠ .pending) (hok : r.isOk = true) :
    closes userId ⟨p, .statement w, r⟩ = true := by
  simp [closes, Request.setsStatus, hw, hst, hok]

/-- Only a transaction that closes requests of the user can end an open one. -/
theorem stillOpen_survives : Survives (backend cfg) rules outline (closes userId)
    (fun s => StillOpen userId requestId s.store.db) where
  after := by
    intro s p q d hi ha hp hs
    cases delivered_of_allowed ha
    rw [after_delivered]
    obtain hdb | ⟨w, db', a, rfl, hw, hst, hok⟩ := s.store.deliver_db cfg q
    · exact .inl (hdb ▸ hs)
    obtain ⟨r, hr, hid, hu, ho⟩ := hs
    rw [hst]
    have hreq := Database.deletionRequests_perform hw
    have cancelled {v : Id} {status : UserStatus} (hv : w.setsStatus = some (v, status))
        (hne : status ≠ .pending)
        (heq : db'.deletionRequests =
          (s.store.db.cancelActiveDeletionRequests v s.store.clock).deletionRequests) :
        StillOpen userId requestId db' ∨
          closes userId ⟨p, .statement w, (backend cfg).reply .delivered (.statement w) s⟩ =
            true := by
      by_cases hvu : v = userId
      · subst hvu
        exact .inr (closes_of_sets hv hne hok)
      · refine .inl ⟨r, ?_, hid, hu, ho⟩
        rw [heq]
        exact mem_updateWhere.mpr (.inl ⟨hr, by simp [hu, Ne.symm hvu]⟩)
    cases w with
    | requestDeletion v deleteAfterAt status =>
      exact .inl ⟨r, by rw [hreq]; exact List.mem_cons_of_mem _ hr, hid, hu, ho⟩
    | reactivate v actorType adminUserId action reason status => exact cancelled rfl (by simp) hreq
    | lock v adminUserId reason status => exact cancelled rfl (by simp) hreq
    | ban v adminUserId reason isPermanent expiresAt status => exact cancelled rfl (by simp) hreq
    | markDeleted v actorType adminUserId action reason status processed =>
      cases processed with
      | none => exact cancelled rfl (by simp) hreq
      | some rid =>
        by_cases hrid : rid = requestId
        · obtain ⟨⟨r', hr', hid', hu', _⟩, _⟩ := hp v rid rfl
          have heq := hi.eq_of_id hr hr' (hid.trans (hrid.symm.trans hid'.symm))
          have hvu : v = userId := hu'.symm.trans (heq ▸ hu)
          subst hvu
          exact .inr (closes_of_sets rfl (by simp) hok)
        · refine .inl ⟨r, ?_, hid, hu, ho⟩
          rw [hreq]
          exact mem_updateWhere.mpr (.inl ⟨hr, by simp [hid, Ne.symm hrid]⟩)
    | _ => exact .inl ⟨r, by rw [hreq]; exact hr, hid, hu, ho⟩
  moved := fun _ _ hs => hs

/-- The request is open and its user is pending. -/
def Due (userId requestId : Id) (s : SharedWorld) : Prop :=
  StillOpen userId requestId s.store.db ∧ s.store.db.statusOf userId = some .pending

theorem due_survives : Survives (backend cfg) rules outline (closes userId)
    (Due userId requestId) where
  after := by
    intro s p q d hi ha hp hs
    rcases Survives.after stillOpen_survives hi ha hp hs.1 with ho | hev
    · cases delivered_of_allowed ha
      rcases s.store.statusOf_deliver cfg q userId with h | ⟨status, hq, hok, hst⟩
      · exact .inl ⟨ho, by rw [after_delivered, h]; exact hs.2⟩
      · by_cases hpd : status = .pending
        · exact .inl ⟨ho, by rw [after_delivered, hst, hpd]⟩
        · exact .inr (by simp [closes, hq, hok, hpd])
    · exact .inr hev
  moved := fun _ _ hs => hs

/-- Calls other than the reads that a deletion is decided on. -/
def Unread (q : Request) : Prop := q.readsRequests = false

/-- The request was open when the process decided, and nothing has closed it since. -/
abbrev Known (p : Nat) (userId requestId : Id) (s : SharedWorld) : Prop :=
  Unless p (decides userId) (closes userId) (fun s => StillOpen userId requestId s.store.db) s

abbrev DueSince (p : Nat) (userId requestId : Id) (s : SharedWorld) : Prop :=
  Unless p (decides userId) (closes userId) (Due userId requestId) s

theorem decides_unread {q : Request} {r : Reply q} (hq : Unread q) :
    decides userId ⟨p, q, r⟩ = false := by
  cases q with
  | query q => cases q <;> simp_all [Unread, Request.readsRequests, decides]
  | _ => rfl

theorem known_held : Held (backend cfg) rules outline p Unread (Known p userId requestId) :=
  Survives.held stillOpen_survives fun _ _ => decides_unread

theorem due_held : Held (backend cfg) rules outline p Unread (DueSince p userId requestId) :=
  Survives.held due_survives fun _ _ => decides_unread

theorem pre_other {q : Request} (hq : q.processes = none) : outline.pre s p q := by
  intro userId requestId h
  rw [hq] at h
  cases h

def others : List RequestKind :=
  [.swapSession, .endSession, .requestDeletion, .reactivate, .restrict, .markDeleted,
    .createContent,
    .deleteFile, .sign]

theorem quiet_others : Quiet rules outline others := by
  intro s p q d hq _ _
  refine pre_other ?_
  cases q with
  | statement w =>
    cases w with
    | markDeleted _ _ _ _ _ _ requestId =>
      cases requestId with
      | none => rfl
      | some _ => simp [Within, Request.kind, deletionKind, others] at hq
    | _ => rfl
  | _ => rfl

/-- The transaction of a deletion that is due. -/
theorem process_allowed {w : Statement} {d : Delivery}
    (hw : (Request.statement w).processes = some (userId, requestId))
    (ha : rules.allows s p (.statement w) d = true) (hs : DueSince p userId requestId s) :
    outline.pre s p (.statement w) := by
  intro v rid h
  rw [hw] at h
  cases h
  have hcond := cond_of_allowed ha
  simp only [nothingClosedSince, hw, Bool.not_eq_eq_eq_not, Bool.not_true] at hcond
  exact hs.resolve hcond

/-- Calls that neither decide on a deletion nor process one. -/
def Aside (q : Request) : Prop := Unread q ∧ q.processes = none

theorem aside_pre (t : SharedWorld) (q : Request) (hq : Aside q) : outline.pre t p q :=
  pre_other hq.2

section
variable {G : SharedWorld → Prop} (hG : Held (backend cfg) rules outline p Unread G)
include hG

theorem deleteUserData_meets {options : DeletionOptions}
    (ho : options.deletionRequestId = some requestId) (hd : DueSince p userId requestId s)
    (hs : G s) :
    Meets (backend cfg) rules outline p (UsersService.deleteUserDataAndMarkDeleted userId options)
      (fun _ t => G t) s := by
  have hF : Held (backend cfg) rules outline p Unread fun s => DueSince p userId requestId s ∧
      G s :=
    Held.and due_held hG
  have objects (bucket : BucketName) (keys : List Id) : (deleteS3Objects bucket keys).Calls Aside :=
    .forEach fun _ => .handle (.await ⟨rfl, rfl⟩) fun _ => trivial
  have masterKey : (await (.redis (.write (.del (.masterKey userId))))).Calls Aside :=
    .await ⟨rfl, rfl⟩
  refine Meets.held hF rfl (fun _ _ _ _ _ => pre_other rfl) outline_kept ⟨hd, hs⟩ (fun _ _ h => h.2)
    fun files t _ ht => ?_
  refine Meets.held hF rfl (fun _ _ _ _ _ => pre_other rfl) outline_kept ht (fun _ _ h => h.2)
    fun mails t hi ht => ?_
  refine Meets.heldBind outline_kept hi hF (objects _ _) (fun _ h => h.1) (fun t q _ h _ _ _ =>
    aside_pre t q h) ht
    (fun _ _ h => h.2) fun _ t hi ht => ?_
  refine Meets.heldBind outline_kept hi hF (objects _ _) (fun _ h => h.1) (fun t q _ h _ _ _ =>
    aside_pre t q h) ht
    (fun _ _ h => h.2) fun _ t _ ht => ?_
  refine Meets.held hF rfl (fun t d _ ht ha => process_allowed ?_ ha ht.1) outline_kept ht
    (fun _ _ h => h.2)
    fun _ t _ ht => ?_
  · simp [Request.processes, ho]
  · exact Meets.heldCalls hG masterKey (fun _ h => h.1) (fun t q _ h _ _ _ => aside_pre t q h) ht.2

/-- From a known request on, finalizing its deletion is in order, and keeps what else the process
knows. -/
theorem finalizePendingDeletion_meets (hk : Known p userId requestId s) (hs : G s) :
    Meets (backend cfg) rules outline p (UsersService.finalizePendingDeletion userId requestId)
      (fun _ t => G t) s := by
  have hF : Held (backend cfg) rules outline p Unread fun s => Known p userId requestId s ∧ G s :=
    Held.and known_held hG
  refine Meets.await hF.stable ⟨hk, hs⟩ fun t ht hi d ha => ?_
  have hp : outline.pre t p (.query (.user .status userId)) := pre_other rfl
  have ht' := hF.own (show Unread (.query (.user .status userId)) from rfl) hi ha hp ht
  have hi' : outline.inv ((backend cfg).after d p _ t) := Outline.Kept.after outline_kept hi ha hp
  refine ⟨hp, fun row hr => ?_, fun e _ => Meets.throw hG.stable ht'.2 fun _ h _ => h⟩
  cases delivered_of_allowed ha
  have hrow : t.store.db.findUser userId = row := Except.ok.inj hr
  cases row with
  | none => exact Meets.ret hG.stable ht'.2 fun _ h _ => h
  | some user =>
    by_cases hst : user.status = .deleted
    · simp only [hst, if_true]
      exact Meets.ret hG.stable ht'.2 fun _ h _ => h
    · simp only [hst, if_false]
      refine deleteUserData_meets hG rfl (ht'.1.imp_left fun ho => ⟨ho, ?_⟩) ht'.2
      obtain ⟨r, hr, _, rfl, hopen⟩ := ho
      have hus : t.store.db.statusOf r.userId = some user.status := by
        rw [Database.statusOf, hrow]; rfl
      refine (hi'.openStatus r hr hopen).resolve_right ?_
      show t.store.db.statusOf r.userId ≠ some .deleted
      rw [hus]
      simpa using hst

end

/-- Reading the active request is knowing it. -/
theorem follows_active {α : Type} {f : Option UserDeletionRequest → Routine α}
    (h : ∀ request t, outline.inv t → (∀ r, request = some r → Known p userId r.id t) →
      Follows (backend cfg) rules outline p (f request) t) :
    Follows (backend cfg) rules outline p ((UsersService.getActiveDeletionRequest userId).bind f)
      s := by
  refine Follows.await (Stable.const True) trivial fun t _ hi d ha =>
    ⟨pre_other rfl, fun request hr => ?_⟩
  cases delivered_of_allowed ha
  refine h request _ (Outline.Kept.after outline_kept hi ha (pre_other rfl)) fun r hreq => .inl ?_
  have hact : t.store.db.activeDeletionRequest userId = some r := (Except.ok.inj hr).trans hreq
  obtain ⟨hmem, hu, ho⟩ := Database.activeDeletionRequest_some hact
  exact ⟨r, hmem, rfl, hu, ho⟩

theorem finalizePendingDeletion_follows (hk : Known p userId requestId s) :
    Follows (backend cfg) rules outline p (UsersService.finalizePendingDeletion userId requestId)
      s :=
  finalizePendingDeletion_meets (Held.const True) hk trivial

/-- Finalizing, when the process has still to look at the clock, and then throwing. -/
theorem finalizeDue_follows {α : Type} {rest : Routine α} {deleteAfterAt : Time} {e : Thrown}
    (hk : Known p userId requestId s)
    (hrest : Safe (backend cfg) rules outline rest) :
    Follows (backend cfg) rules outline p (do
      if deleteAfterAt ≤ (← await .now) then
        UsersService.finalizePendingDeletion userId requestId
        throw e
      rest) s := by
  refine Meets.held known_held rfl (fun _ _ _ _ _ => pre_other rfl) outline_kept hk (fun _ _ _ =>
    trivial) fun now t hi ht => ?_
  refine Follows.ite (fun _ => ?_) fun _ => hrest p t hi
  exact Follows.bind outline_kept hi (F := fun _ => True) (finalizePendingDeletion_follows ht)
    fun _ _ _ _ => Follows.throw

theorem preparePendingDeletionLogin_safe (userId : Id) :
    Safe (backend cfg) rules outline (UsersService.preparePendingDeletionLogin userId) := by
  refine Quiet.plain outline_kept quiet_others rfl fun row => ?_
  cases row with
  | none => exact .ret
  | some u =>
    refine .ite .ret fun p s _ => follows_active fun request t hi ht => ?_
    cases request with
    | some request => exact finalizeDue_follows (ht request rfl) .ret
    | none =>
      exact Safe.bind outline_kept (Quiet.safe quiet_others
        (UsersService.reactivateUser_calls (by decide)))
        (fun _ => .ret) p t hi

theorem reactivatePendingAccount_safe (userId requestId : Id) :
    Safe (backend cfg) rules outline (UsersService.reactivatePendingAccount userId requestId) := by
  refine Quiet.plain outline_kept quiet_others rfl fun row => ?_
  cases row with
  | none => exact .throw
  | some u =>
    refine .throwIf (.ite .ret (.throwIf fun p s _ => follows_active fun request t hi ht => ?_))
    cases request with
    | none => exact Follows.throw
    | some request =>
      exact Follows.throwIf fun _ => finalizeDue_follows (ht request rfl)
        (Quiet.safe quiet_others (UsersService.reactivateUser_calls (by decide)))

/-- The job knows every request of its list until it gets there. -/
theorem processPendingDeletionRequests_safe :
    Safe (backend cfg) rules outline UsersService.processPendingDeletionRequests := by
  intro p s _
  refine Follows.await (Stable.const True) trivial fun t _ hi d ha =>
    ⟨pre_other rfl, fun requests hr => ?_⟩
  cases delivered_of_allowed ha
  have hdue : t.store.db.dueDeletionRequests t.store.clock = requests := Except.ok.inj hr
  have hF : Held (backend cfg) rules outline p Unread fun s =>
      ∀ r : { r : UserDeletionRequest // r ∈ requests }, Known p r.1.userId r.1.id s :=
    Held.all fun _ => known_held
  refine Meets.mono (Meets.forEach outline_kept hF.stable (fun r hr s hs _ => ?_)
    (Outline.Kept.after outline_kept hi ha (pre_other rfl)) fun r => .inl ?_) fun _ _ _ _ => trivial
  · exact finalizePendingDeletion_meets hF (hs ⟨r, hr⟩) hs
  · have hmem : r.1 ∈ t.store.db.dueDeletionRequests t.store.clock := hdue ▸ r.2
    simp only [Database.dueDeletionRequests, List.mem_filter, Bool.and_eq_true] at hmem
    exact ⟨r.1, hmem.1, rfl, rfl, hmem.2.1⟩

theorem program_safe (op : Operation) : Safe (backend cfg) rules outline (op.program cfg) := by
  have ban (id : Id) : Safe (backend cfg) rules outline (UsersService.assertBanExpired cfg id) :=
    Quiet.plain outline_kept quiet_others rfl fun _ =>
      Quiet.plain outline_kept quiet_others rfl fun _ =>
      .ite (Quiet.safe quiet_others (UsersService.reactivateUser_calls (by decide))) .throw
  have check (user : User) : Safe (backend cfg) rules outline
      (UsersService.assertUserCanLogin cfg user) :=
    assertUserCanLogin_safe outline_kept quiet_others preparePendingDeletionLogin_safe ban user
  cases op with
  | login dto =>
    exact loginOutcome_safe outline_kept (login_safe outline_kept quiet_others (by decide)
      preparePendingDeletionLogin_safe check dto)
  | refreshToken payload =>
    exact .bind outline_kept (refreshToken_safe outline_kept quiet_others (by decide)
      (by decide) check _ _)
      fun _ => .ret
  | reactivateAccount payload =>
    exact .bind outline_kept (reactivateAccount_safe outline_kept quiet_others
      reactivatePendingAccount_safe payload) fun _ => .ret
  | processPendingDeletionRequests =>
    exact .bind outline_kept processPendingDeletionRequests_safe fun _ => .ret
  | _ => exact Quiet.program quiet_others (by simp [Operation.footprint, others])

end DeletionRequests

open DeletionRequests

/-- A deletion transaction for a request commits only while the request is open
and its user pending, and no request is both cancelled and processed. -/
def OnlyDueDeletions (cfg : Config) (R : BackendRules) (w : World) : Prop :=
  ∀ as s, (backend cfg).run R (.initial w) as = some s →
    (∀ a s' e userId requestId, (backend cfg).step R s a = some s' →
      s'.shared.log = e :: s.shared.log →
      e.req.processes = some (userId, requestId) → e.resp.isOk = true →
      StillOpen userId requestId s.shared.store.db ∧
      s.shared.store.db.statusOf userId = some .pending) ∧
    ∀ r ∈ s.shared.store.db.deletionRequests, r.cancelledAt = none ∨ r.processedAt = none

/-- Only due deletions are processed in the runs where no other transaction closes
requests of the user between the decision and the deletion. -/
theorem only_due_deletions (cfg : Config) (w : World) (hw : Consistent w) :
    OnlyDueDeletions cfg DeletionRequests.rules w := by
  intro as s h
  have hr : s.Respects (backend cfg) DeletionRequests.rules outline fun _ _ _ _ => True :=
    Safe.run outline_kept program_safe hw h
  refine ⟨fun a s' e userId requestId hstep hlog hp _ => ?_, hr.inv.oneEnd⟩
  obtain ⟨op, _, _, rfl⟩ | ⟨p, d, op, q, k, _, hpr, ha, rfl⟩ | ⟨n, _, _, rfl⟩ :=
    System.step_cases hstep
  · simp at hlog
  · obtain ⟨rfl, -⟩ := List.cons.inj hlog
    exact hr.call hpr ha userId requestId hp
  · simp [System.moved] at hlog

namespace DeletionRequests

/-- The user asks for deletion and a week passes. -/
def requestedDeletion : List BackendAction :=
  .start (.requestAccountDeletion demoToken "secret") :: calls 2 6 ++ [.environ (7 * 86400000)]

def reactivation : UpdateAdminUserStatusDto := ⟨"appeal", .active, none, none⟩

/-- The job has its list when the administrator reactivates the user, and goes on. -/
def reactivationBetween : List BackendAction :=
  requestedDeletion ++ .start .processPendingDeletionRequests :: calls 3 4 ++
  .start (.updateUserStatus demoAdminToken 1 reactivation) :: calls 4 4 ++ calls 3 1

theorem demo_consistent : Consistent demoWorld := by
  constructor <;> simp [demoWorld]

end DeletionRequests

/-- The job erases the account whose request was cancelled. -/
theorem cancelled_request_erases : ¬ OnlyDueDeletions demoConfig allRequests demoWorld := by
  have key : ((demoRun allRequests reactivationBetween).any fun s =>
      s.shared.store.db.deletionRequests.any fun r =>
        r.cancelledAt.isSome && r.processedAt.isSome) = true := by decide +kernel
  intro h
  obtain ⟨s, hs, hr⟩ := (Option.any_eq_true _ _).mp key
  obtain ⟨r, hmem, hend⟩ := List.any_eq_true.mp hr
  rcases (h _ s hs).2 r hmem with hc | hc <;> simp [hc] at hend

/-- A run of the kind the theorem is about: the job deletes the account that nobody reactivates. -/
theorem only_due_deletions_demo : ∃ s, demoRun DeletionRequests.rules
      (requestedDeletion ++ .start .processPendingDeletionRequests :: calls 3 6) = some s ∧
    s.shared.store.db.statusOf 1 = some .deleted ∧
    ∀ r ∈ s.shared.store.db.deletionRequests, r.cancelledAt = none ∨ r.processedAt = none := by
  have key : ((demoRun DeletionRequests.rules
      (requestedDeletion ++ .start .processPendingDeletionRequests :: calls 3 6)).any fun s =>
      decide (s.shared.store.db.statusOf 1 = some .deleted)) = true := by decide +kernel
  obtain ⟨s, hs, hst⟩ := (Option.any_eq_true _ _).mp key
  exact ⟨s, hs, of_decide_eq_true hst,
    (only_due_deletions demoConfig demoWorld demo_consistent _ s hs).2⟩

end Redbox
