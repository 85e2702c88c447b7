import Redbox.Accounts.DeletionRequests
import Redbox.Accounts.InviteCodes
import Redbox.Accounts.CachedKeys

/-! The status of an account and the rows of other tables that depend on it, while requests are
served one at a time. Each statement keeps them in agreement, where three of them are made only in
the states that they are for. -/
namespace Redbox
open Interleaving

section
variable {α : Type} {p q : α → Bool} {f : α → α} {rows : List α}

/-- An update of rows that are not selected, neither before nor after. -/
theorem filter_updateWhere_other (h : ∀ x ∈ rows, p x = true → q x = false ∧ q (f x) = false) :
    (updateWhere p f rows).filter q = rows.filter q := by
  induction rows with
  | nil => rfl
  | cons x rows ih =>
    have hrest := ih fun y hy => h y (List.mem_cons_of_mem _ hy)
    simp only [updateWhere, List.map_cons] at hrest ⊢
    by_cases hp : p x = true
    · obtain ⟨hx, hfx⟩ := h x List.mem_cons_self hp
      rw [if_pos hp, List.filter_cons_of_neg (by simp [hfx]),
        List.filter_cons_of_neg (by simp [hx]), hrest]
    · rw [if_neg hp, List.filter_cons, List.filter_cons, hrest]

/-- An update after which none of the selected rows is. -/
theorem filter_updateWhere_none (hq : ∀ x ∈ rows, q x = true → p x = true)
    (hf : ∀ x, p x = true → q (f x) = false) :
    (updateWhere p f rows).filter q = [] := by
  refine List.filter_eq_nil_iff.mpr fun x hx => ?_
  rcases mem_updateWhere.mp hx with ⟨hmem, hp⟩ | ⟨y, -, hp, rfl⟩
  · intro hx
    rw [hq x hmem hx] at hp
    cases hp
  · simp [hf y hp]

end

namespace Database

/-- Neither cancelled nor processed. -/
def openRequests (db : Database) (userId : Id) : List UserDeletionRequest :=
  db.deletionRequests.filter fun r => r.userId == userId && r.isOpen

/-- With distinct ids, a row is the row of its id. -/
theorem findUser_of_mem {db : Database} {u : User} (hids : (db.users.map (·.id)).Nodup)
    (hmem : u ∈ db.users) : db.findUser u.id = some u := by
  cases hu : db.findUser u.id with
  | none =>
    have := List.find?_eq_none.mp hu u hmem
    simp at this
  | some v =>
    have hid : v.id = u.id := findUser_id hu
    rw [List.inj_on_of_nodup_map hids (List.mem_of_find?_eq_some hu) hmem hid]

def openRestrictions (db : Database) (userId : Id) : List UserRestriction :=
  db.restrictions.filter fun r => r.userId == userId && r.isOpen

end Database

/-- What an account with the status is restricted by. -/
def UserStatus.restrictedBy : UserStatus → List UserRestrictionType
  | .banned => [.ban]
  | .locked => [.lock]
  | _ => []

/-- The user may let others register. -/
def UserStatus.invites (status : UserStatus) : Bool := status == .active || status == .pending

/-- The rows of the user in other tables say what his status says. -/
structure Agrees (db : Database) (u : User) : Prop where
  requests : (db.openRequests u.id).length = if u.status = .pending then 1 else 0
  restrictions : (db.openRestrictions u.id).map (·.type) = u.status.restrictedBy
  codes : ∀ c ∈ db.inviteCodes, c.userId = some u.id → 0 < c.usage → c.isValid = u.status.invites
  deleted : u.status = .deleted → u.issuedCodes = 0 ∧ ∀ c ∈ db.inviteCodes, c.userId ≠ some u.id

namespace StatusAgreement
variable {cfg : Config} {db db' : Database} {now : Time} {fresh v : Id} {w : Statement}
  {a : w.Answer}

section
variable {userId : Id}

theorem openRequests_cancel : (db.cancelActiveDeletionRequests userId now).openRequests v =
    if v = userId then [] else db.openRequests v := by
  split
  · rename_i hv
    subst hv
    exact filter_updateWhere_none (fun _ _ h => h) fun r _ => by simp [UserDeletionRequest.isOpen]
  · rename_i hv
    refine filter_updateWhere_other fun r _ h => ?_
    have hr : r.userId = userId := by simp_all
    exact ⟨by simp [hr, Ne.symm hv], by simp [hr, Ne.symm hv]⟩

theorem openRestrictions_resolve : (db.resolveOpenRestrictions userId now).openRestrictions v =
    if v = userId then [] else db.openRestrictions v := by
  split
  · rename_i hv
    subst hv
    exact filter_updateWhere_none (fun _ _ h => h) fun r _ => by simp [UserRestriction.isOpen]
  · rename_i hv
    refine filter_updateWhere_other fun r _ h => ?_
    have hr : r.userId = userId := by simp_all
    exact ⟨by simp [hr, Ne.symm hv], by simp [hr, Ne.symm hv]⟩

/-- The request is the only open one of the user, and nobody else's. -/
theorem openRequests_process {requestId : Id} (hown : ∀ r ∈ db.deletionRequests, r.id = requestId →
      r.userId = userId) (honly : ∀ r ∈ db.openRequests userId, r.id = requestId) :
    (db.closedRequests userId (some requestId) now).filter (fun r => r.userId == v && r.isOpen) =
      if v = userId then [] else db.openRequests v := by
  split
  · rename_i hv
    subst hv
    refine filter_updateWhere_none (fun r hr hopen => ?_) fun r _ => by
      simp [UserDeletionRequest.isOpen]
    rw [honly r (List.mem_filter.mpr ⟨hr, hopen⟩)]
    exact BEq.rfl
  · rename_i hv
    refine filter_updateWhere_other fun r hr h => ?_
    have hu : r.userId = userId := hown r hr (by simpa using h)
    exact ⟨by simp [hu, Ne.symm hv], by simp [hu, Ne.symm hv]⟩

end

/-- What has to hold before the three statements that not every state allows. -/
def Asserted (db : Database) : Statement → Prop
  | .requestDeletion userId _ _ => db.statusOf userId = some .active
  | .createInviteCode userId _ => db.statusOf userId = some .active
  | .markDeleted userId _ _ _ _ _ (some requestId) =>
    (∀ r ∈ db.deletionRequests, r.id = requestId → r.userId = userId) ∧
      ∀ r ∈ db.openRequests userId, r.id = requestId
  | _ => True

theorem openRequests_perform (h : db.perform cfg now fresh w = .ok (db', a)) (hp : Asserted db w) :
    (db'.openRequests v).length = match w.setsStatus with
      | some (userId, status) =>
        if v = userId then (if status = .pending then (db.openRequests v).length + 1 else 0)
        else (db.openRequests v).length
      | none => (db.openRequests v).length := by
  have hrows := Database.deletionRequests_perform h
  rw [Database.openRequests, hrows]
  cases w with
  | requestDeletion userId deleteAfterAt status =>
    simp only [Database.requestsAfter, Statement.setsStatus, List.filter_cons]
    by_cases hv : v = userId
    · simp [hv, Database.openRequests, UserDeletionRequest.isOpen]
    · simp [hv, Ne.symm hv, Database.openRequests]
  | reactivate userId actorType adminUserId action reason status =>
    exact (congrArg List.length openRequests_cancel).trans (by
      simp only [Statement.setsStatus]; split <;> rfl)
  | lock userId adminUserId reason status =>
    exact (congrArg List.length openRequests_cancel).trans (by
      simp only [Statement.setsStatus]; split <;> rfl)
  | ban userId adminUserId reason isPermanent expiresAt status =>
    exact (congrArg List.length openRequests_cancel).trans (by
      simp only [Statement.setsStatus]; split <;> rfl)
  | markDeleted userId actorType adminUserId action reason status requestId =>
    cases requestId with
    | none =>
      exact (congrArg List.length openRequests_cancel).trans (by
        simp only [Statement.setsStatus]; split <;> rfl)
    | some requestId =>
      exact (congrArg List.length (openRequests_process hp.1 hp.2)).trans (by
        simp only [Statement.setsStatus]; split <;> rfl)
  | _ => rfl

theorem openRestrictions_perform (h : db.perform cfg now fresh w = .ok (db', a)) :
    (db'.openRestrictions v).map (·.type) = match w.setsStatus with
      | some (userId, status) => if v = userId ∧ status ≠ .pending then status.restrictedBy
        else (db.openRestrictions v).map (·.type)
      | none => (db.openRestrictions v).map (·.type) := by
  have hrows := Database.restrictions_perform h
  have resolved : ∀ userId, ((db.resolveOpenRestrictions userId now).restrictions.filter fun r =>
    r.userId == v && r.isOpen) =
      if v = userId then [] else db.openRestrictions v := fun userId => openRestrictions_resolve
  rw [Database.openRestrictions, hrows]
  cases w with
  | requestDeletion userId deleteAfterAt status =>
    simp [Statement.setsStatus, Database.restrictionsAfter, Database.openRestrictions]
  | reactivate userId actorType adminUserId action reason status =>
    simp only [Database.restrictionsAfter, resolved, Statement.setsStatus]
    by_cases hv : v = userId <;> simp [hv, UserStatus.restrictedBy]
  | lock userId adminUserId reason status =>
    obtain ⟨_, _, ha⟩ := Database.perform_bind h
    obtain rfl := congrArg Prod.snd ha
    simp only [Database.restrictionsAfter, List.filter_cons, resolved, Statement.setsStatus]
    by_cases hv : v = userId
    · simp [hv, UserStatus.restrictedBy, UserRestriction.isOpen]
    · simp [hv, Ne.symm hv]
  | ban userId adminUserId reason isPermanent expiresAt status =>
    obtain ⟨_, _, ha⟩ := Database.perform_bind h
    obtain rfl := congrArg Prod.snd ha
    simp only [Database.restrictionsAfter, List.filter_cons, resolved, Statement.setsStatus]
    by_cases hv : v = userId
    · simp [hv, UserStatus.restrictedBy, UserRestriction.isOpen]
    · simp [hv, Ne.symm hv]
  | markDeleted userId actorType adminUserId action reason status requestId =>
    simp only [Database.restrictionsAfter, resolved, Statement.setsStatus]
    by_cases hv : v = userId <;> simp [hv, UserStatus.restrictedBy]
  | _ => rfl

/-- The codes of a user after a statement: as before, as his new status says, or created by him. -/
theorem inviteCodes_perform (h : db.perform cfg now fresh w = .ok (db', a)) {c' : InviteCode}
    (hc : c' ∈ db'.inviteCodes) (hv : c'.userId = some v) (husage : 0 < c'.usage) :
    (∃ status, w.setsStatus = some (v, status) ∧ status ≠ .pending ∧ status ≠ .deleted ∧
      c'.isValid = status.invites) ∨
    ((∀ status, w.setsStatus = some (v, status) → status = .pending) ∧ c' ∈ db.inviteCodes) ∨
    ∃ code, w = .createInviteCode v code ∧ c'.isValid = true := by
  have kept (hw : ∀ status, w.setsStatus = some (v, status) → status = .pending)
      (hsame : ∀ c ∈ db.inviteCodes, c' = w.onCode c → c' = c) (hcreates : ∀ userId code,
        w ≠ .createInviteCode userId code) :
      (∃ status, w.setsStatus = some (v, status) ∧ status ≠ .pending ∧ status ≠ .deleted ∧
        c'.isValid = status.invites) ∨
      ((∀ status, w.setsStatus = some (v, status) → status = .pending) ∧ c' ∈ db.inviteCodes) ∨
      ∃ code, w = .createInviteCode v code ∧ c'.isValid = true := by
    rcases Database.mem_inviteCodes_perform h hc with ⟨c, hmem, he⟩ | ⟨userId, code, hw', -⟩
    · exact .inr (.inl ⟨hw, hsame c hmem he ▸ hmem⟩)
    · exact absurd hw' (hcreates userId code)
  have validated {userId : Id} {status : UserStatus} {isValid : Bool}
    (hw : w.setsStatus = some (userId, status))
      (hstatus : status ≠ .pending ∧ status ≠ .deleted ∧ status.invites = isValid)
      (hon : ∀ c, w.onCode c = if c.userId = some userId ∧ 0 < c.usage then { c with isValid :=
        isValid } else c)
      (hcreates : ∀ userId code, w ≠ .createInviteCode userId code) :
      (∃ status, w.setsStatus = some (v, status) ∧ status ≠ .pending ∧ status ≠ .deleted ∧
        c'.isValid = status.invites) ∨
      ((∀ status, w.setsStatus = some (v, status) → status = .pending) ∧ c' ∈ db.inviteCodes) ∨
      ∃ code, w = .createInviteCode v code ∧ c'.isValid = true := by
    rcases Database.mem_inviteCodes_perform h hc with ⟨c, hmem, he⟩ | ⟨userId, code, hw', -⟩
    · rw [hon] at he
      split at he
      · rename_i howner
        obtain rfl : userId = v := Option.some.inj
          (howner.1.symm.trans (by rw [he] at hv; exact hv))
        exact .inl ⟨status, hw, hstatus.1, hstatus.2.1, by rw [he, hstatus.2.2]⟩
      · rename_i howner
        subst he
        refine .inr (.inl ⟨fun status' hw' => ?_, hmem⟩)
        rw [hw] at hw'
        cases hw'
        exact absurd ⟨hv, husage⟩ howner
    · exact absurd hw' (hcreates userId code)
  cases w with
  | requestDeletion userId deleteAfterAt status =>
    exact kept (fun _ hw => by cases hw; rfl) (fun _ _ he => he) fun _ _ hw => by cases hw
  | reactivate userId actorType adminUserId action reason status =>
    exact validated rfl (by decide) (fun _ => rfl) fun _ _ hw => by cases hw
  | lock userId adminUserId reason status =>
    exact validated rfl (by decide) (fun _ => rfl) fun _ _ hw => by cases hw
  | ban userId adminUserId reason isPermanent expiresAt status =>
    exact validated rfl (by decide) (fun _ => rfl) fun _ _ hw => by cases hw
  | markDeleted userId actorType adminUserId action reason status requestId =>
    have hdb := Database.perform_result h
    rw [hdb] at hc
    obtain ⟨hmem, hother⟩ := List.mem_filter.mp hc
    refine .inr (.inl ⟨fun status' hw => ?_, hmem⟩)
    cases hw
    simp [hv] at hother
  | createInviteCode userId code =>
    rcases Database.mem_inviteCodes_perform h hc with ⟨c, hmem, rfl⟩ | ⟨userId', code', hw, rfl⟩
    · exact .inr (.inl ⟨fun _ hw => (by cases hw), hmem⟩)
    · cases hw
      cases hv
      exact .inr (.inr ⟨code, rfl, rfl⟩)
  | _ => exact kept (fun _ hw => by cases hw) (fun _ _ he => he) fun _ _ hw => by cases hw

/-- A deletion leaves no code of the user. -/
theorem inviteCodes_deleted (h : db.perform cfg now fresh w = .ok (db', a))
    (hw : w.setsStatus = some (v, .deleted)) {c : InviteCode} (hc : c ∈ db'.inviteCodes) :
    c.userId ≠ some v := by
  cases w with
  | markDeleted userId actorType adminUserId action reason status requestId =>
    cases hw
    have hdb := Database.perform_result h
    rw [hdb] at hc
    simpa using (List.mem_filter.mp hc).2
  | _ => cases hw

theorem mem_userIds (h : (db.findUser v).isSome = true) : v ∈ db.users.map (·.id) := by
  obtain ⟨u, hu⟩ := Option.isSome_iff_exists.mp h
  exact Database.findUser_id hu ▸ List.mem_map_of_mem (List.mem_of_find?_eq_some hu)

/-- The deletion requests after a statement belong to those before, or to the user who requests. -/
theorem requests_from {r : UserDeletionRequest} (h : db.perform cfg now fresh w = .ok (db', a))
    (hr : r ∈ db'.deletionRequests) :
    (∃ r' ∈ db.deletionRequests, r'.id = r.id ∧ r'.userId = r.userId) ∨
    r.id = fresh + 1 ∧ w.setsStatus = some (r.userId, .pending) := by
  rw [Database.deletionRequests_perform h] at hr
  rcases DeletionRequests.mem_requestsAfter hr with ⟨h, -⟩ | ⟨r', h, -, rfl⟩ | ⟨h, -, hw⟩ |
    ⟨r', h, -, -, rfl⟩
  · exact .inl ⟨r, h, rfl, rfl⟩
  · exact .inl ⟨r', h, rfl, rfl⟩
  · exact .inr ⟨h, hw⟩
  · exact .inl ⟨r', h, rfl, rfl⟩

theorem restrictions_from {r : UserRestriction} (h : db.perform cfg now fresh w = .ok (db', a))
    (hr : r ∈ db'.restrictions) : (∃ r' ∈ db.restrictions, r'.userId = r.userId) ∨
      ∃ status, w.setsStatus = some (r.userId, status) := by
  have resolved : ∀ {userId : Id}, r ∈ (db.resolveOpenRestrictions userId now).restrictions →
      ∃ r' ∈ db.restrictions, r'.userId = r.userId := by
    intro userId hr
    rcases mem_updateWhere.mp hr with ⟨hr, -⟩ | ⟨r', hr', -, rfl⟩
    · exact ⟨r, hr, rfl⟩
    · exact ⟨r', hr', rfl⟩
  rw [Database.restrictions_perform h] at hr
  cases w with
  | reactivate userId actorType adminUserId action reason status => exact .inl (resolved hr)
  | markDeleted userId actorType adminUserId action reason status requestId =>
    exact .inl (resolved hr)
  | lock userId adminUserId reason status =>
    rcases List.mem_cons.mp hr with rfl | hr
    · obtain ⟨_, _, ha⟩ := Database.perform_bind h
      obtain rfl := congrArg Prod.snd ha
      exact .inr ⟨_, rfl⟩
    · exact .inl (resolved hr)
  | ban userId adminUserId reason isPermanent expiresAt status =>
    rcases List.mem_cons.mp hr with rfl | hr
    · obtain ⟨_, _, ha⟩ := Database.perform_bind h
      obtain rfl := congrArg Prod.snd ha
      exact .inr ⟨_, rfl⟩
    · exact .inl (resolved hr)
  | _ => exact .inl ⟨r, hr, rfl⟩

theorem codes_from {c' : InviteCode} (h : db.perform cfg now fresh w = .ok (db', a))
    (hc : c' ∈ db'.inviteCodes) (hv : c'.userId = some v) :
    (∃ c ∈ db.inviteCodes, c.userId = some v) ∨ ∃ code, w = .createInviteCode v code := by
  rcases Database.mem_inviteCodes_perform h hc with ⟨c, hmem, rfl⟩ | ⟨userId, code, rfl, rfl⟩
  · refine .inl ⟨c, hmem, ?_⟩
    rw [← hv]
    exact (AccountEvent.onCode_userId ⟨0, .backend (.statement w), .ok a⟩ c).symm
  · cases hv
    exact .inr ⟨code, rfl⟩

theorem onUser_issuedCodes (fresh : Id) (w : Statement) (u : User) : (w.onUser fresh u).issuedCodes = u.issuedCodes ∨
    (∃ code, w = .createInviteCode u.id code) ∨
    w.setsStatus = some (u.id, .deleted) ∧ (w.onUser fresh u).issuedCodes = 0 := by
  fun_cases Statement.onUser fresh w u <;> simp_all [Statement.setsStatus]

/-- The tables agree, and their rows are those of users. -/
structure Agreed (w : World) : Prop where
  users : CachedKeys.UsersDrawn w.db w.nextId
  below : ∀ r ∈ w.db.deletionRequests, r.id < w.nextId
  owned : ∀ r ∈ w.db.deletionRequests, ∀ r' ∈ w.db.deletionRequests, r.id = r'.id →
    r.userId = r'.userId
  requestUsers : ∀ r ∈ w.db.deletionRequests, r.userId ∈ w.db.users.map (·.id)
  restrictionUsers : ∀ r ∈ w.db.restrictions, r.userId ∈ w.db.users.map (·.id)
  codeUsers : ∀ c ∈ w.db.inviteCodes, ∀ v, c.userId = some v → v ∈ w.db.users.map (·.id)
  agrees : ∀ id u, w.db.findUser id = some u → Agrees w.db u

/-- A status of `PENDING` is only set where it was `ACTIVE`. -/
theorem active_of_pending {u : User} (hp : Asserted db w)
    (hw : w.setsStatus = some (u.id, .pending)) (hu : db.findUser u.id = some u) :
    u.status = .active := by
  cases w with
  | requestDeletion userId deleteAfterAt status =>
    cases hw
    have hstatus : (db.findUser u.id).map (·.status) = some .active := hp
    rw [hu] at hstatus
    exact Option.some.inj hstatus
  | _ => cases hw

theorem active_of_createInviteCode {u : User} {code : String} (hp : Asserted db w)
    (hw : w = .createInviteCode u.id code) (hu : db.findUser u.id = some u) :
    u.status = .active := by
  subst hw
  have hstatus : (db.findUser u.id).map (·.status) = some .active := hp
  rw [hu] at hstatus
  exact Option.some.inj hstatus

/-- The user's rows agree with his status after a statement, where they did before. -/
theorem agrees_perform {u : User} (hu : Agrees db u) (hfound : db.findUser u.id = some u)
    (h : db.perform cfg now fresh w = .ok (db', a)) (hp : Asserted db w) :
    Agrees db' (w.onUser fresh u) := by
  have hid : (w.onUser fresh u).id = u.id := Database.onUser_id
  have hrequests := openRequests_perform (v := u.id) h hp
  have hrestrictions := openRestrictions_perform (v := u.id) h
  have kept : (∀ status, w.setsStatus ≠ some (u.id, status)) →
      (w.onUser fresh u).status = u.status := by
    intro hw
    rw [Database.onUser_status]
    split
    · rename_i v status hv
      exact if_neg fun he => hw status (by rw [he]; exact hv)
    · rfl
  have set : ∀ {status}, w.setsStatus = some (u.id, status) →
      (w.onUser fresh u).status = status := by
    intro status hw
    rw [Database.onUser_status, hw]
    exact if_pos rfl
  -- the statement sets the status of this user, or it leaves his requests and restrictions
  by_cases hw : ∃ status, w.setsStatus = some (u.id, status)
  · obtain ⟨status, hw⟩ := hw
    have hactive : status = .pending → u.status = .active := by
      rintro rfl
      exact active_of_pending hp hw hfound
    simp only [hw, if_true, true_and] at hrequests hrestrictions
    refine ⟨?_, ?_, fun c hc hv husage => ?_, fun hdeleted => ⟨?_, fun c hc => ?_⟩⟩
    · rw [hid, set hw, hrequests]
      split
      · rename_i hpending
        rw [hu.requests, hactive hpending]
        rfl
      · rfl
    · rw [hid, set hw, hrestrictions]
      split
      · rfl
      · rename_i hpending
        obtain rfl : status = .pending := Decidable.not_not.mp hpending
        rw [hu.restrictions, hactive rfl]
        rfl
    · rw [hid] at hv
      rw [set hw]
      rcases inviteCodes_perform h hc hv husage with ⟨status', hw', -, -, hvalid⟩ |
        ⟨honly, hmem⟩ | ⟨code, rfl, -⟩
      · rw [hw] at hw'
        cases hw'
        exact hvalid
      · obtain rfl := honly status hw
        rw [hu.codes c hmem hv husage, hactive rfl]
        rfl
      · cases hw
    · rw [set hw] at hdeleted
      subst hdeleted
      rcases onUser_issuedCodes fresh w u with hsame | ⟨code, rfl⟩ | ⟨-, hzero⟩
      · cases w with
        | markDeleted userId actorType adminUserId action reason status requestId =>
          cases hw
          simp [Statement.onUser]
        | _ => cases hw
      · cases hw
      · exact hzero
    · rw [set hw] at hdeleted
      subst hdeleted
      rw [hid]
      exact inviteCodes_deleted h hw hc
  · have hw' : ∀ status, w.setsStatus ≠ some (u.id, status) := fun status hs => hw ⟨status, hs⟩
    have hother : (db'.openRequests u.id).length = (db.openRequests u.id).length ∧
        (db'.openRestrictions u.id).map (·.type) = (db.openRestrictions u.id).map (·.type) := by
      rw [hrequests, hrestrictions]
      cases hset : w.setsStatus with
      | none => exact ⟨rfl, rfl⟩
      | some x =>
        have hne : u.id ≠ x.1 := fun he => hw' x.2 (he ▸ hset)
        exact ⟨if_neg hne, if_neg fun hx => hne hx.1⟩
    refine ⟨?_, ?_, fun c hc hv husage => ?_, fun hdeleted => ⟨?_, fun c hc hv => ?_⟩⟩
    · rw [hid, kept hw', hother.1, hu.requests]
    · rw [hid, kept hw', hother.2, hu.restrictions]
    · rw [hid] at hv
      rw [kept hw']
      rcases inviteCodes_perform h hc hv husage with ⟨status', hs, -⟩ | ⟨-, hmem⟩ |
        ⟨code, hcreates, hvalid⟩
      · exact absurd hs (hw' status')
      · exact hu.codes c hmem hv husage
      · rw [hvalid, active_of_createInviteCode hp hcreates hfound]
        rfl
    · rw [kept hw'] at hdeleted
      rcases onUser_issuedCodes fresh w u with hsame | ⟨code, hcreates⟩ | ⟨hs, -⟩
      · rw [hsame]
        exact (hu.deleted hdeleted).1
      · rw [active_of_createInviteCode hp hcreates hfound] at hdeleted
        cases hdeleted
      · exact absurd hs (hw' _)
    · rw [kept hw'] at hdeleted
      rw [hid] at hv
      rcases codes_from h hc hv with ⟨c₀, hmem, hv₀⟩ | ⟨code, hcreates⟩
      · exact (hu.deleted hdeleted).2 c₀ hmem hv₀
      · rw [active_of_createInviteCode hp hcreates hfound] at hdeleted
        cases hdeleted

/-- The step lemma for statements. -/
theorem Agreed.perform {s : World} (hs : Agreed s)
    (h : s.db.perform cfg s.clock s.nextId w = .ok (db', a)) (hp : Asserted s.db w) :
    Agreed { s with db := db', nextId := s.nextId + 2 } := by
  have hids := Database.userIds_perform h
  have hfind : ∀ {v : Id} {status}, w.setsStatus = some (v, status) → v ∈ db'.users.map (·.id) := by
    intro v status hw
    rw [hids]
    exact mem_userIds (Database.findUser_of_setsStatus h hw)
  refine ⟨⟨?_, ?_⟩, fun r hr => ?_, fun r hr r' hr' he => ?_, fun r hr => ?_, fun r hr => ?_,
    fun c hc v hv => ?_, fun id u' hu' => ?_⟩
  · exact hids ▸ hs.users.distinct
  · intro id hid
    exact Nat.lt_add_right 2 (hs.users.drawn id (hids ▸ hid))
  · rcases requests_from h hr with ⟨r₀, hr₀, he, -⟩ | ⟨hid, -⟩
    · exact he ▸ Nat.lt_add_right 2 (hs.below r₀ hr₀)
    · exact hid ▸ Nat.lt_succ_self _
  · rcases requests_from h hr with ⟨r₀, hr₀, hid, hu⟩ | ⟨hid, hw⟩ <;>
      rcases requests_from h hr' with ⟨r₁, hr₁, hid', hu'⟩ | ⟨hid', hw'⟩
    · exact hu.symm.trans ((hs.owned r₀ hr₀ r₁ hr₁ (hid.trans (he.trans hid'.symm))).trans hu')
    · have hlate : r₀.id = s.nextId + 1 := hid.trans (he.trans hid')
      exact absurd (hs.below r₀ hr₀) (hlate ▸ Nat.not_lt.mpr (Nat.le_succ _))
    · have hlate : r₁.id = s.nextId + 1 := hid'.trans (he.symm.trans hid)
      exact absurd (hs.below r₁ hr₁) (hlate ▸ Nat.not_lt.mpr (Nat.le_succ _))
    · rw [hw] at hw'
      exact congrArg Prod.fst (Option.some.inj hw')
  · rcases requests_from h hr with ⟨r₀, hr₀, -, hu⟩ | ⟨-, hw⟩
    · exact hu ▸ hids ▸ hs.requestUsers r₀ hr₀
    · exact hfind hw
  · rcases restrictions_from h hr with ⟨r₀, hr₀, hu⟩ | ⟨status, hw⟩
    · exact hu ▸ hids ▸ hs.restrictionUsers r₀ hr₀
    · exact hfind hw
  · rcases codes_from h hc hv with ⟨c₀, hc₀, hv₀⟩ | ⟨code, rfl⟩
    · exact hids ▸ hs.codeUsers c₀ hc₀ v hv₀
    · obtain ⟨y, hy, -⟩ := Database.perform_bind h
      obtain ⟨hfound, -⟩ := Database.createInviteCode_ok hy
      exact hids ▸ mem_userIds hfound
  · have hfound : db'.findUser id = some u' := hu'
    rw [Database.findUser_perform h] at hfound
    obtain ⟨u, hu, rfl⟩ := Option.map_eq_some_iff.mp hfound
    obtain rfl := Database.findUser_id hu
    exact agrees_perform (hs.agrees u.id u hu) hu h hp

theorem Agreed.later {s s' : World} (hs : Agreed s) (hdb : s'.db = s.db)
    (hn : s.nextId ≤ s'.nextId) : Agreed s' := by
  refine ⟨⟨?_, ?_⟩, ?_, ?_, ?_, ?_, ?_, ?_⟩ <;> rw [hdb]
  · exact hs.users.distinct
  · exact fun id hid => Nat.lt_of_lt_of_le (hs.users.drawn id hid) hn
  · exact fun r hr => Nat.lt_of_lt_of_le (hs.below r hr) hn
  · exact hs.owned
  · exact hs.requestUsers
  · exact hs.restrictionUsers
  · exact hs.codeUsers
  · exact hs.agrees

/-- A new user has no rows yet, and the code of a registration stays as valid as it was. -/
theorem Agreed.register {s : World} (hs : Agreed s) (inviteId : Id) (new : NewUser) :
    Agreed { s with
      db := s.db.accountResult cfg s.nextId (.registerUser inviteId new), nextId :=
        s.nextId + 3 } := by
  have fresh : s.nextId ∉ s.db.users.map (·.id) :=
    fun hmem => Nat.lt_irrefl _ (hs.users.drawn _ hmem)
  have code : ∀ {c' : InviteCode},
      c' ∈ (s.db.accountResult cfg s.nextId (.registerUser inviteId new)).inviteCodes →
      ∃ c ∈ s.db.inviteCodes, c'.userId = c.userId ∧ c'.isValid = c.isValid ∧
        c'.usage ≤ c.usage := by
    intro c' hc
    rcases mem_updateWhere.mp hc with ⟨hmem, -⟩ | ⟨c, hmem, -, rfl⟩
    · exact ⟨c', hmem, rfl, rfl, Int.le_refl _⟩
    · exact ⟨c, hmem, rfl, rfl, Int.sub_le_self _ (by decide)⟩
  refine ⟨⟨?_, fun id hid => ?_⟩, fun r hr => Nat.lt_add_right 3 (hs.below r hr), hs.owned,
    fun r hr => List.mem_cons_of_mem _ (hs.requestUsers r hr),
    fun r hr => List.mem_cons_of_mem _ (hs.restrictionUsers r hr), fun c' hc v hv => ?_,
    fun id u hu => ?_⟩
  · exact List.nodup_cons.mpr ⟨fresh, hs.users.distinct⟩
  · rcases List.mem_cons.mp hid with rfl | hid
    · exact Nat.lt_add_of_pos_right (by decide)
    · exact Nat.lt_add_right 3 (hs.users.drawn id hid)
  · obtain ⟨c, hc, huser, -⟩ := code hc
    exact List.mem_cons_of_mem _ (hs.codeUsers c hc v (huser.symm.trans hv))
  · by_cases hid : s.nextId = id
    · -- the row is the new one
      subst hid
      have hfound : (Database.newUser cfg new s.nextId :: s.db.users).find?
          (fun u => u.id == s.nextId) = some u := hu
      rw [List.find?_cons_of_pos (by simp [Database.newUser])] at hfound
      obtain rfl := Option.some.inj hfound
      refine ⟨?_, ?_, fun c' hc hv _ => ?_, fun hdeleted => by cases hdeleted⟩
      · have hnone : s.db.openRequests s.nextId = [] :=
          List.filter_eq_nil_iff.mpr fun r hr hopen => by
          rw [Bool.and_eq_true, beq_iff_eq] at hopen
          exact fresh (hopen.1 ▸ hs.requestUsers r hr)
        exact congrArg List.length hnone
      · have hnone : s.db.openRestrictions s.nextId = [] :=
          List.filter_eq_nil_iff.mpr fun r hr hopen => by
            rw [Bool.and_eq_true, beq_iff_eq] at hopen
            exact fresh (hopen.1 ▸ hs.restrictionUsers r hr)
        exact congrArg (List.map (·.type)) hnone
      · obtain ⟨c, hc, huser, -⟩ := code hc
        exact absurd (hs.codeUsers c hc _ (huser.symm.trans hv)) fresh
    · have hfound : (Database.newUser cfg new s.nextId :: s.db.users).find?
          (fun u => u.id == id) = some u := hu
      rw [List.find?_cons_of_neg (by simp [Database.newUser, hid])] at hfound
      have hagrees := hs.agrees id u hfound
      refine ⟨hagrees.requests, hagrees.restrictions, fun c' hc hv husage => ?_,
        fun hdeleted => ⟨(hagrees.deleted hdeleted).1, fun c' hc hv => ?_⟩⟩
      · obtain ⟨c, hc, huser, hvalid, hle⟩ := code hc
        rw [hvalid]
        exact hagrees.codes c hc (huser.symm.trans hv) (Int.lt_of_lt_of_le husage hle)
      · obtain ⟨c, hc, huser, -⟩ := code hc
        exact (hagrees.deleted hdeleted).2 c hc (huser.symm.trans hv)

theorem Agreed.deliver {s : World} (hs : Agreed s) {q : Request}
    (hp : ∀ w, q = .statement w → Asserted s.db w) : Agreed (s.deliver cfg q).1 := by
  obtain hdb | ⟨w, db', a, rfl, h, hstore, -⟩ := s.deliver_db cfg q
  · exact hs.later hdb (s.nextId_deliver cfg q)
  · rw [hstore]
    exact hs.perform h (hp w rfl)

/-- However a call is resolved, it takes its effect or none. -/
theorem Agreed.exec {s : World} (hs : Agreed s) {d : Delivery} {q : Request}
    (hp : ∀ w, q = .statement w → Asserted s.db w) : Agreed (s.exec cfg d q).1 := by
  have delivered : Agreed (s.deliver cfg q).1 := hs.deliver hp
  cases d with
  | delivered => exact delivered
  | failed => exact hs
  | lost => exact delivered
  | late =>
    cases q with
    | s3 name q =>
      cases q with
      | uploadPart key s3UploadId partNumber body =>
        cases name <;> exact hs.later rfl (Nat.le_refl _)
      | _ => exact delivered
    | _ => exact delivered

/-- The calls of the requests at hand. -/
def Allowed (db : Database) : AccountRequest → Prop
  | .backend q => ∀ w, q = .statement w → Asserted db w
  | .receive _ | .inviteCode _ | .registerUser _ _ => True
  | _ => False

theorem Agreed.execAccount {s : World} (hs : Agreed s) {d : Delivery} {q : AccountRequest}
    (hp : Allowed s.db q) : Agreed (s.execAccount cfg d q).1 := by
  have delivered : Agreed (s.deliverAccount cfg q).1 := by
    cases q with
    | backend q => exact hs.deliver hp
    | receive op => exact hs
    | inviteCode code => exact hs
    | registerUser inviteId new =>
      rcases s.deliverAccount_cases cfg (q := .registerUser inviteId new) rfl with
        ⟨a, -, -, h⟩ | ⟨e, -, h⟩
      · rw [h]
        exact hs.register inviteId new
      · rw [h]
        exact hs
    | _ => exact hp.elim
  cases q with
  | backend q => exact hs.exec hp
  | receive op => exact hs
  | _ =>
    cases d with
    | failed => exact hs
    | _ => exact delivered

/-- These requests arrive one at a time, and their calls are resolved in any way. -/
def concernsStatus : AccountOperation → Bool
  | .register _ => true
  | .base op => match op with
    | .generateInviteCode _ | .requestAccountDeletion _ _ | .login _ | .reactivateAccount _
    | .updateUserStatus _ _ _ | .processPendingDeletionRequests | .processExpiredRestrictions =>
      true
    | _ => false
  | _ => false

def rules : AccountRules where
  starts := fun _ op => concernsStatus op
  allows := fun _ _ _ _ => true
  drifts := fun _ _ => true

/-- What the routines of the backend may do here. -/
def backendRules : BackendRules := ⟨fun _ _ => true, fun _ _ _ _ => true, fun _ _ => true⟩

variable {p : Nat} {s t : SharedWorld} {userId requestId : Id}

abbrev outline (p : Nat) : Outline Request Reply World :=
  .solo p (fun s => Agreed s.store) fun s q => ∀ w, q = .statement w → Asserted s.store.db w

abbrev accountOutline (p : Nat) : Outline AccountRequest AccountReply World :=
  .solo p (fun s => Agreed s.store) fun s q => Allowed s.store.db q

theorem outline_kept : (outline p).Kept (backend cfg) backendRules := by
  refine Outline.solo_kept (fun s p q d hs _ hp => ?_) fun s n hs _ => ?_
  · exact hs.exec hp
  · exact hs.later rfl (Nat.le_refl _)

theorem accountOutline_kept : (accountOutline p).Kept (accounts cfg) rules := by
  refine Outline.solo_kept (fun s p q d hs _ hp => ?_) fun s n hs _ => ?_
  · exact hs.execAccount hp
  · exact hs.later rfl (Nat.le_refl _)

theorem within : (backendWithin cfg).Refines backendRules rules p (outline p) (accountOutline p) :=
  .solo (fun _ _ _ _ => rfl) (fun _ _ _ => rfl) (fun _ hs => hs) fun _ _ _ hp => hp

/-- Between calls a database is left as it is, or by a statement that commits. -/
theorem exec_cases (cfg : Config) (s : World) (d : Delivery) (q : Request) : (s.exec cfg d q).1.db = s.db ∨
    ∃ w db' a, q = .statement w ∧ s.db.perform cfg s.clock s.nextId w = .ok (db', a) ∧
      (s.exec cfg d q).1.db = db' := by
  have delivered : (s.deliver cfg q).1.db = s.db ∨ ∃ w db' a, q = .statement w ∧
      s.db.perform cfg s.clock s.nextId w = .ok (db', a) ∧ (s.deliver cfg q).1.db = db' :=
    (s.deliver_db cfg q).imp_right fun ⟨w, db', a, hq, h, hstore, _⟩ =>
      ⟨w, db', a, hq, h, congrArg World.db hstore⟩
  cases d with
  | failed => exact .inl rfl
  | late =>
    cases q with
    | s3 name q =>
      cases q with
      | uploadPart key s3UploadId partNumber body => cases name <;> exact .inl rfl
      | _ => exact delivered
    | _ => exact delivered
  | _ => exact delivered

/-- An assertion about the database that the permitted calls of the given kind keep. -/
theorem held_db {F : Database → Prop} {P : Request → Prop}
    (h : ∀ {s : World} {w : Statement} {db' : Database} {a : w.Answer}, P (.statement w) →
      s.db.perform cfg s.clock s.nextId w = .ok (db', a) → Asserted s.db w → F s.db → F db') :
    Held (backend cfg) backendRules (outline p) p P fun s => F s.store.db where
  stable := .solo fun _ _ _ hs => hs
  own := by
    intro s q d hq _ _ hp hs
    rcases exec_cases cfg s.store d q with hdb | ⟨w, db', a, rfl,
      hperform, hdb⟩
    · exact (congrArg F hdb).mpr hs
    · exact (congrArg F hdb).mpr (h hq hperform (hp.2 w rfl) hs)

abbrev Plain (q : Request) : Prop := q.kind = .plain

/-- From each state that agrees and meets the assertion, the routine makes its statements in the
states that they are for. -/
abbrev Sound {α : Type} (cfg : Config) (F : Database → Prop) (x : Routine α) : Prop :=
  ∀ p s, F s.store.db → Follows (backend cfg) backendRules (outline p) p x s

/-- Plain calls keep the assertion. -/
abbrev Lasting (cfg : Config) (F : Database → Prop) : Prop :=
  ∀ p, Held (backend cfg) backendRules (outline p) p Plain fun s => F s.store.db

section
variable {α β : Type} {F G : Database → Prop} {x : Routine α} {f : α → Routine β}

theorem lasting_true : Lasting cfg fun _ => True := fun _ => Held.const True

theorem asserted_plain {q : Request} (hq : Plain q) {db : Database} (w : Statement)
    (hw : q = .statement w) : Asserted db w := by
  subst hw
  cases w with
  | requestDeletion => cases hq
  | createInviteCode => cases hq
  | markDeleted userId actorType adminUserId action reason status requestId =>
    cases requestId <;> cases hq
  | _ => trivial

theorem Sound.of_true (hx : Sound cfg (fun _ => True) x) : Sound cfg F x :=
  fun p s _ => hx p s trivial

theorem Sound.ret {a : α} : Sound cfg F (.ret a) := fun _ _ _ => Follows.ret

theorem Sound.throw {e : Thrown} : Sound cfg F (.throw e : Routine α) := fun _ _ _ => Follows.throw

theorem Sound.ite {c : Prop} [Decidable c] {x y : Routine α} (hx : Sound cfg F x)
    (hy : Sound cfg F y) : Sound cfg F (if c then x else y) := by
  split
  · exact hx
  · exact hy

theorem Sound.throwIf {c : Prop} [Decidable c] {e : Thrown} {f : Unit → Routine α}
    (h : Sound cfg F (f ())) : Sound cfg F ((Prog.throwIf c e).bind f) :=
  fun p s hs => Follows.throwIf fun _ => h p s hs

/-- What the second routine needs to be sound is no more than that the first is. -/
theorem Sound.bind (hx : Sound cfg F x) (hf : ∀ a, Sound cfg (fun _ => True) (f a)) :
    Sound cfg F (x.bind f) :=
  fun p s hs => (hx p s hs).next (fun _ _ _ _ => trivial) fun a t _ _ => hf a p t trivial

theorem Sound.plain (hF : Lasting cfg F) {q : Request} {f : q.Answer → Routine α} (hq : Plain q)
    (hf : ∀ a, Sound cfg F (f a)) : Sound cfg F ((await q).bind f) :=
  fun p _ hs => Meets.held (hF p) hq (fun _ _ _ _ _ => ⟨rfl, asserted_plain hq⟩) outline_kept hs
    (fun _ _ _ => trivial) fun a t _ ht => hf a p t ht

/-- Requests whose statements may be made in every state. -/
def free : List RequestKind := [.reactivate, .restrict, .markDeleted, .sign]

theorem asserted_of_within {q : Request} {db : Database} (hq : Within free q) (w : Statement)
    (hw : q = .statement w) : Asserted db w := by
  subst hw
  cases w with
  | requestDeletion userId deleteAfterAt status =>
    exact absurd hq (by simp [Within, Request.kind, free])
  | createInviteCode userId code => exact absurd hq (by simp [Within, Request.kind, free])
  | markDeleted userId actorType adminUserId action reason status requestId =>
    cases requestId with
    | none => trivial
    | some requestId => exact absurd hq (by simp [Within, Request.kind, deletionKind, free])
  | _ => trivial

theorem Sound.calls (hx : x.Calls (Within free)) : Sound cfg F x :=
  fun _ _ _ => Meets.frame hx (Stable.const True) (fun _ _ _ hq _ _ _ =>
    ⟨⟨rfl, asserted_of_within hq⟩, trivial⟩) trivial

/-- A statement of the database that the state is for, in front of plain calls. -/
theorem Sound.statement {w : Statement} {f : w.Answer → Routine α}
    (hw : ∀ db, F db → Asserted db w) (hF : ∀ p, Stable (backend cfg) backendRules (outline p) p
      fun s => F s.store.db) (hf : ∀ a, (f a).Calls (Within free)) :
    Sound cfg F ((await (.statement w)).bind f) := by
  intro p s hs
  refine Follows.await (hF p) hs fun t ht _ d _ => ⟨⟨rfl, ?_⟩, fun a _ => ?_⟩
  · rintro _ ⟨⟩
    exact hw _ ht
  · exact Sound.calls (F := fun _ => True) (hf a) p _ trivial

end

/-- The request is the user's, and no other request of his is open. -/
def Target (userId requestId : Id) (db : Database) : Prop :=
  (∀ r ∈ db.deletionRequests, r.id = requestId → r.userId = userId) ∧
    ∀ r ∈ db.openRequests userId, r.id = requestId

theorem eq_of_mem_of_length {α : Type} {xs : List α} (h : xs.length ≤ 1) {x y : α} (hx : x ∈ xs)
    (hy : y ∈ xs) : x = y := by
  cases xs with
  | nil => cases hx
  | cons z xs =>
    obtain rfl : xs = [] := List.length_eq_zero_iff.mp (Nat.le_zero.mp (Nat.le_of_succ_le_succ h))
    exact (List.mem_singleton.mp hx).trans (List.mem_singleton.mp hy).symm

/-- Each open request is the only one of its user. -/
theorem Agreed.target {w : World} (hw : Agreed w) {r : UserDeletionRequest}
    (hr : r ∈ w.db.deletionRequests) (hopen : r.isOpen = true) : Target r.userId r.id w.db := by
  refine ⟨fun r' hr' hid => hw.owned r' hr' r hr hid, fun r' hr' => ?_⟩
  have hmem : r ∈ w.db.openRequests r.userId :=
    List.mem_filter.mpr ⟨hr, by simp [hopen]⟩
  obtain ⟨u, hu, hid⟩ := List.mem_map.mp (hw.requestUsers r hr)
  have hfound : (w.db.findUser r.userId).isSome = true :=
    List.find?_isSome.mpr ⟨u, hu, beq_iff_eq.mpr hid⟩
  obtain ⟨u, hu⟩ := Option.isSome_iff_exists.mp hfound
  have hcount := (hw.agrees _ u hu).requests
  rw [Database.findUser_id hu] at hcount
  have hone : (w.db.openRequests r.userId).length ≤ 1 := by
    rw [hcount]
    split
    · exact Nat.le_refl 1
    · exact Nat.zero_le 1
  exact congrArg UserDeletionRequest.id (eq_of_mem_of_length hone hr' hmem)

/-- Plain calls, and the transaction that processes the request. -/
def Finalizes (userId requestId : Id) (q : Request) : Prop :=
  Plain q ∨ q.processes = some (userId, requestId)

theorem asserted_of_finalizes {q : Request} {db : Database} (hq : Finalizes userId requestId q)
    (ht : Target userId requestId db) (w : Statement) (hw : q = .statement w) : Asserted db w := by
  rcases hq with hq | hq
  · exact asserted_plain hq w hw
  · subst hw
    cases w with
    | markDeleted userId' actorType adminUserId action reason status rid =>
      cases rid with
      | none => cases hq
      | some rid =>
        cases hq
        exact ht
    | _ => cases hq

/-- Processing a request leaves every target one. -/
theorem target_perform {rid : Id} (hq : Finalizes userId requestId (.statement w))
    (h : db.perform cfg now fresh w = .ok (db', a)) (hp : Asserted db w) (ht : Target v rid db) :
    Target v rid db' := by
  have hrows := Database.deletionRequests_perform h
  refine ⟨fun r hr hid => ?_, fun r hr => ?_⟩
  · rcases requests_from h hr with ⟨r', hr', hid', hu⟩ | ⟨-, hw⟩
    · exact hu ▸ ht.1 r' hr' (hid'.trans hid)
    · cases w with
      | requestDeletion => rcases hq with hq | hq <;> cases hq
      | _ => cases hw
  · rw [Database.openRequests, hrows] at hr
    cases w with
    | auditLog entry => exact ht.2 r hr
    | markDeleted userId' actorType adminUserId action reason status rid' =>
      cases rid' with
      | none => rcases hq with hq | hq <;> cases hq
      | some rid' =>
        have hr' : r ∈ (db.closedRequests userId' (some rid') now).filter
          (fun r => r.userId == v && r.isOpen) := hr
        rw [openRequests_process hp.1 hp.2] at hr'
        split at hr'
        · cases hr'
        · exact ht.2 r hr'
    | _ => rcases hq with hq | hq <;> cases hq

theorem target_held (userId requestId v rid : Id) : Held (backend cfg) backendRules (outline p) p
    (Finalizes userId requestId) fun s => Target v rid s.store.db :=
  held_db fun hq h hp ht => target_perform hq h hp ht

theorem target_lasting : Lasting cfg (Target userId requestId) :=
  fun _ => (target_held userId requestId userId requestId).mono fun _ hq => .inl hq

theorem finalizePendingDeletion_finalizes :
    (UsersService.finalizePendingDeletion userId requestId).Calls
      (Finalizes userId requestId) := by
  have plain : ∀ {q : Request}, Within [] q → Finalizes userId requestId q :=
    fun hq => .inl (hq.resolve_right fun h => by cases h)
  refine .bind (.await (.inl rfl)) fun row => ?_
  cases row with
  | none => trivial
  | some user =>
    refine .ite trivial (.bind (.await (.inl rfl)) fun _ => .bind (.await (.inl rfl)) fun _ => ?_)
    refine .bind (deleteS3Objects_calls.mono fun _ => plain) fun _ => ?_
    refine .bind (deleteS3Objects_calls.mono fun _ => plain) fun _ => ?_
    exact .bind (.await (.inr rfl)) fun _ => .await (.inl rfl)

/-- Finalizing the deletion of a target keeps all that processing it keeps. -/
theorem finalizePendingDeletion_meets {F : SharedWorld → Prop}
    (hF : Held (backend cfg) backendRules (outline p) p (Finalizes userId requestId) F)
    (ht : Target userId requestId s.store.db) (hs : F s) :
    Meets (backend cfg) backendRules (outline p) p
      (UsersService.finalizePendingDeletion userId requestId) (fun _ t => F t) s := by
  have hall := Held.and (target_held userId requestId userId requestId) hF
  refine Meets.mono (Meets.frame finalizePendingDeletion_finalizes hall.stable
    (fun t q d hq hi ha ht => ?_) ⟨ht, hs⟩) fun _ _ _ h => h.2
  have hp : (outline p).pre t p q := ⟨rfl, asserted_of_finalizes hq ht.1⟩
  exact ⟨hp, hall.own hq hi ha hp ht⟩

theorem finalizePendingDeletion_sound :
    Sound cfg (Target userId requestId) (UsersService.finalizePendingDeletion userId requestId) :=
  fun _ _ hs => finalizePendingDeletion_meets (Held.const True) hs trivial

section
variable {α : Type}

/-- What is read from the database is in it. -/
theorem Sound.query {F : Database → Prop} {q : Query} {f : q.Answer → Routine α}
    (h : ∀ p t a, Agreed t.store → t.store.db.read cfg t.store.clock q = .ok a →
      Follows (backend cfg) backendRules (outline p) p (f a) t) :
    Sound cfg F ((await (.query q)).bind f) := by
  intro p s _
  refine Follows.await (Stable.const True) trivial fun t _ hi d _ =>
    ⟨⟨rfl, fun _ hw => by cases hw⟩, fun a ha => ?_⟩
  have hread := World.exec_query_ok ha
  have hstore : ((backend cfg).after d p (.query q) t).store = t.store := World.exec_query
  exact h p _ a (by rw [hstore]; exact hi) (by rw [hstore]; exact hread)

/-- The active request of a user is a target. -/
theorem Sound.activeRequest {f : Option UserDeletionRequest → Routine α}
    (hnone : Sound cfg (fun _ => True) (f none))
    (hsome : ∀ r : UserDeletionRequest, Sound cfg (Target userId r.id) (f (some r))) :
    Sound cfg (fun _ => True) ((UsersService.getActiveDeletionRequest userId).bind f) := by
  refine Sound.query fun p t request hi hread => ?_
  cases request with
  | none => exact hnone p t trivial
  | some r =>
    have hactive : t.store.db.activeDeletionRequest userId = some r := Except.ok.inj hread
    obtain ⟨hmem, hu, hopen⟩ := Database.activeDeletionRequest_some hactive
    exact hsome r p t (hu ▸ hi.target hmem hopen)

theorem finalizeDue_sound {deleteAfterAt : Time} {e : Thrown} {rest : Routine α}
    (hrest : Sound cfg (fun _ => True) rest) :
    Sound cfg (Target userId requestId) (do
      if deleteAfterAt ≤ (← await .now) then
        UsersService.finalizePendingDeletion userId requestId
        throw e
      rest) :=
  .plain target_lasting rfl fun _ => .ite (.bind finalizePendingDeletion_sound fun _ => .throw)
    hrest.of_true

end

theorem preparePendingDeletionLogin_sound :
    Sound cfg (fun _ => True) (UsersService.preparePendingDeletionLogin userId) := by
  refine .plain lasting_true rfl fun row => ?_
  cases row with
  | none => exact .ret
  | some u =>
    refine .ite .ret (.activeRequest ?_ fun r => finalizeDue_sound .ret)
    exact .bind (.calls (UsersService.reactivateUser_calls (by decide))) fun _ => .ret

theorem reactivatePendingAccount_sound :
    Sound cfg (fun _ => True) (UsersService.reactivatePendingAccount userId requestId) := by
  refine .plain lasting_true rfl fun row => ?_
  cases row with
  | none => exact .throw
  | some u =>
    refine .throwIf (.ite .ret (.throwIf (.activeRequest .throw fun r => .throwIf ?_)))
    exact finalizeDue_sound (.calls (UsersService.reactivateUser_calls (by decide)))

theorem assertUserCanLogin_sound (user : User) :
    Sound cfg (fun _ => True) (UsersService.assertUserCanLogin cfg user) := by
  unfold UsersService.assertUserCanLogin
  cases user.status with
  | active => exact .ret
  | deleted => exact .throw
  | pending =>
    refine .bind preparePendingDeletionLogin_sound fun request => ?_
    cases request with
    | none => exact .ret
    | some request => exact .throw
  | locked => exact .plain lasting_true rfl fun _ => .throw
  | banned =>
    exact .plain lasting_true rfl fun _ => .plain lasting_true rfl fun _ =>
      .ite (.calls (UsersService.reactivateUser_calls (by decide))) .throw

theorem login_sound (dto : LoginDto) :
    Sound cfg (fun _ => True) (AuthService.login cfg dto) := by
  refine .plain lasting_true rfl fun row => ?_
  cases row with
  | none => exact .throw
  | some u =>
    refine .throwIf (.bind preparePendingDeletionLogin_sound fun request => ?_)
    cases request with
    | some request =>
      exact .bind (.calls (AuthService.getReactivationToken_calls (by decide))) fun _ => .ret
    | none =>
      refine .plain lasting_true rfl fun row => ?_
      cases row with
      | none => exact .throw
      | some u =>
        refine .bind (assertUserCanLogin_sound u) fun _ => .calls (.bind (await_plain rfl) fun
          | none => trivial
          | some _ =>
            .bind AuthService.decryptMasterKey_calls fun _ => .bind (await_plain rfl) fun _ =>
            .bind (AuthService.getTokens_calls (by decide)) fun _ => trivial)

theorem reactivateAccount_sound (payload : ReactivationTokenPayload) :
    Sound cfg (fun _ => True) (AuthService.reactivateAccount payload) := by
  refine .plain lasting_true rfl fun row => ?_
  cases row with
  | none => exact .throw
  | some u =>
    exact .throwIf (.throwIf (.ite .ret (.throwIf reactivatePendingAccount_sound)))

/-- The job has read the requests of its list and deletes their users in turn. -/
theorem processPendingDeletionRequests_sound :
    Sound cfg (fun _ => True) UsersService.processPendingDeletionRequests := by
  refine Sound.query fun p t requests hi hread => ?_
  have hdue : t.store.db.dueDeletionRequests t.store.clock = requests := Except.ok.inj hread
  have htargets : ∀ r : { r : UserDeletionRequest // r ∈ requests },
      Target r.1.userId r.1.id t.store.db := by
    rintro ⟨r, hr⟩
    rw [← hdue, Database.dueDeletionRequests, List.mem_filter, Bool.and_eq_true] at hr
    exact hi.target hr.1 hr.2.1
  have hstable : Stable (backend cfg) backendRules (outline p) p fun s =>
      ∀ r : { r : UserDeletionRequest // r ∈ requests }, Target r.1.userId r.1.id s.store.db :=
    .solo fun _ _ _ h => h
  refine Meets.mono (Meets.forEach outline_kept hstable (fun r hr s hs _ => ?_) hi htargets)
    fun _ _ _ _ => trivial
  exact finalizePendingDeletion_meets (Held.all fun _ => target_held _ _ _ _) (hs ⟨r, hr⟩) hs

def Active (userId : Id) (db : Database) : Prop := db.statusOf userId = some .active

theorem active_lasting : Lasting cfg (Active userId) := by
  refine fun p => held_db fun {s w db' a} hq h _ hs => ?_
  rcases Database.statusOf_perform h userId with hst | ⟨status, hw, -⟩
  · exact hst.trans hs
  · cases w with
    | markDeleted u actorType adminUserId action reason status requestId =>
      cases requestId <;> cases hq
    | requestDeletion => cases hq
    | reactivate => cases hq
    | lock => cases hq
    | ban => cases hq
    | _ => cases hw

theorem requestAccountDeletion_sound (password : String) :
    Sound cfg (Active userId) (UsersService.requestAccountDeletion cfg userId password) := by
  refine .plain active_lasting rfl fun row => ?_
  cases row with
  | none => exact .throw
  | some u =>
    refine .throwIf (.throwIf (.plain active_lasting rfl fun request => .throwIf ?_))
    refine .plain active_lasting rfl fun now => ?_
    exact .statement (fun _ h => h) (fun p => (active_lasting p).stable) fun _ =>
      .bind (await_plain rfl) fun _ => trivial

theorem generateInviteCode_sound :
    Sound cfg (Active userId) (UsersService.generateInviteCode cfg userId) := by
  refine .plain active_lasting rfl fun row => ?_
  cases row with
  | none => exact .throw
  | some u =>
    refine .throwIf (.throwIf (.plain active_lasting rfl fun bytes => ?_))
    rw [← Prog.bind_ret (await _)]
    exact .statement (w := .createInviteCode userId (cfg.inviteCodeOf bytes)) (f := .ret)
      (fun _ h => h) (fun p => (active_lasting p).stable) fun _ =>
      trivial

/-- Behind the guard for users the account is active. -/
theorem guarded_sound {payload : TokenPayload} {body : Id → Routine Outcome}
    (h : ∀ userId, Sound cfg (Active userId) (body userId)) :
    Sound cfg (fun _ => True) (Operation.guarded payload body) := by
  unfold Operation.guarded JwtStrategy.validate
  simp only [Prog.bind_eq, Prog.bind_assoc, Prog.pure_eq]
  refine Sound.query fun p t row hi hread => ?_
  have hrow : t.store.db.findUser payload.sub = row := Except.ok.inj hread
  cases row with
  | none => exact Follows.throw
  | some user =>
    simp only [Prog.bind_assoc]
    refine Follows.throwIf fun _ => Follows.throwIf fun hactive => ?_
    rw [Prog.ret_bind]
    refine h user.id p t ?_
    rw [Active, Database.statusOf, Database.findUser_id hrow, hrow]
    exact congrArg some (Decidable.not_not.mp hactive)

theorem program_sound {op : Operation} (hop : concernsStatus (.base op) = true) :
    Sound cfg (fun _ => True) (op.program cfg) := by
  cases op with
  | login dto =>
    exact .bind (login_sound dto) fun
      | .tokens _ => .ret
      | .pendingDeletion _ _ => .ret
  | reactivateAccount payload => exact .bind (reactivateAccount_sound payload) fun _ => .ret
  | requestAccountDeletion payload password =>
    have hbody : ∀ userId, Sound cfg (Active userId) (do
        return Outcome.deletionRequested
          (← UsersService.requestAccountDeletion cfg userId password)) :=
      fun _ => .bind (requestAccountDeletion_sound password) fun _ => .ret
    exact guarded_sound hbody
  | generateInviteCode payload =>
    have hbody : ∀ userId, Sound cfg (Active userId) (do
        return Outcome.inviteCode (← UsersService.generateInviteCode cfg userId)) :=
      fun _ => .bind generateInviteCode_sound fun _ => .ret
    exact guarded_sound hbody
  | processPendingDeletionRequests =>
    exact .bind processPendingDeletionRequests_sound fun _ => .ret
  | processExpiredRestrictions =>
    exact .calls (Operation.processExpiredRestrictions.program_calls.mono fun _ hq =>
      hq.imp_right (by
      simp +contextual [Operation.footprint, free]))
  | updateUserStatus payload userId dto =>
    exact .calls ((Operation.updateUserStatus payload userId dto).program_calls.mono
      fun _ hq => hq.imp_right (by simp +contextual [Operation.footprint, free, or_imp]))
  | _ => cases hop

theorem allowed_harmless {q : Request} (hq : q.harmless = true) {db : Database} :
    Allowed db (.backend q) := by
  rintro w rfl
  cases hq

/-- The calls of a registration may be made in every state. -/
theorem register_allowed {dto : RegisterUsersDto} :
    (AuthService.register cfg dto).Calls fun q => ∀ db, Allowed db q := by
  have backend : ∀ q : Request, Within free q → ∀ db, Allowed db (.backend q) :=
    fun q hq db w hw => asserted_of_within hq w hw
  have harmless : ∀ q : Request, q.harmless = true → ∀ db, Allowed db (.backend q) :=
    fun q hq db => allowed_harmless hq
  refine .bind (.await fun _ => trivial) fun invite => ?_
  cases invite with
  | none => trivial
  | some invite =>
    refine .bind .throwIf fun _ => .bind (lift_harmless harmless (.await rfl)) fun _ => ?_
    refine .bind (lift_harmless harmless (generateMasterKeyStore_calls fun _ hq => hq)) fun _ => ?_
    refine .bind (lift_harmless harmless (generateMasterKeyStore_calls fun _ hq => hq)) fun _ => ?_
    refine .bind (lift_harmless harmless (hash_calls fun _ hq => hq)) fun _ => ?_
    refine .bind (lift_harmless harmless (.await rfl)) fun _ => .bind ?_ fun _ =>
      lift_calls backend (AuthService.getTokens_calls (by decide))
    refine .handle (.bind (.await fun _ => trivial) fun _ => ?_) fun _ => trivial
    exact .bind (lift_calls backend (.await (.inl rfl))) fun _ => trivial

theorem body_follows {op : AccountOperation} (hop : concernsStatus op = true)
    {s : SharedAccounts} : Follows (accounts cfg) rules (accountOutline p) p (op.body cfg) s := by
  cases op with
  | base op => exact within.meets (program_sound hop p _ trivial)
  | register dto =>
    refine Meets.frame (.bind register_allowed fun _ => trivial) (Stable.const True)
      (fun t q d hq _ _ _ => ⟨⟨rfl, hq _⟩, trivial⟩) trivial
  | _ => cases hop

theorem program_agrees {op : AccountOperation} {s : SharedAccounts} (hs : Agreed s.store)
    (hop : concernsStatus op = true) :
    Meets (accounts cfg) rules (.alone p) p (op.program cfg) (fun _ t => Agreed t.store) s := by
  have hprogram : Follows (accounts cfg) rules (accountOutline p) p (op.program cfg) s :=
    Meets.call (Stable.const True) trivial fun t _ _ d _ => ⟨⟨rfl, trivial⟩, body_follows hop⟩
  exact (Meets.alone_of_solo accountOutline_kept hprogram hs).mono fun _ _ _ h => h.1

theorem agreed_lasts : Lasts (accounts cfg) rules fun s => Agreed s.store :=
  fun _ _ _ hs => hs.later rfl (Nat.le_refl _)

end StatusAgreement

/-- Nobody has registered, and the invite codes are the administrators'. -/
structure Unregistered (w : World) : Prop where
  users : w.db.users = []
  deletionRequests : w.db.deletionRequests = []
  restrictions : w.db.restrictions = []
  codes : ∀ c ∈ w.db.inviteCodes, c.userId = none

/-- Whenever no request is in progress, the rows of each user agree with his status. -/
def StatusesAgree (cfg : Config) (R : AccountRules) (w : World) : Prop :=
  ∀ as s, (accounts cfg).runAlone R (.initial w) as = some s → s.idle = true →
    ∀ u ∈ s.shared.store.db.users, Agrees s.shared.store.db u

namespace StatusAgreement

theorem agreed_initial {w : World} (h : Unregistered w) : Agreed w := by
  refine ⟨⟨?_, ?_⟩, ?_, ?_, ?_, ?_, fun c hc v hv => ?_, fun id u hu => ?_⟩
  · rw [h.users]
    exact List.nodup_nil
  · rw [h.users]
    exact fun id hid => by cases hid
  · rw [h.deletionRequests]
    exact fun r hr => by cases hr
  · rw [h.deletionRequests]
    exact fun r hr => by cases hr
  · rw [h.deletionRequests]
    exact fun r hr => by cases hr
  · rw [h.restrictions]
    exact fun r hr => by cases hr
  · rw [h.codes c hc] at hv
    cases hv
  · rw [Database.findUser, h.users] at hu
    cases hu

end StatusAgreement

theorem statuses_agree (cfg : Config) (w : World) (hw : Unregistered w) :
    StatusesAgree cfg StatusAgreement.rules w := by
  intro as s hs hidle u hu
  have hsteady := Lasts.run StatusAgreement.agreed_lasts
    (fun t op ht hst p => StatusAgreement.program_agrees ht hst)
    (StatusAgreement.agreed_initial hw) hs
  have hagreed := hsteady.idle hidle
  exact hagreed.agrees u.id u (Database.findUser_of_mem hagreed.users.distinct hu)

namespace StatusAgreement

def freshWorld : World := { demoWorld with
  db := { demoWorld.db with users := [], inviteCodes :=
    [⟨3, "RB-0123456789ABCDEF", 1, true, none, none, true⟩] } }

/-- The user registers, creates a code and asks for the deletion of the account. -/
def leavingUser : List AccountAction :=
  .start (.register ⟨"alice", "Secret123", "RB-0123456789ABCDEF", "phrase"⟩) :: accountCalls 0 12 ++
    .start (.base (.generateInviteCode ⟨107, "alice", 108⟩)) :: accountCalls 1 5 ++
    .start (.base (.requestAccountDeletion ⟨107, "alice", 108⟩ "Secret123")) :: accountCalls 2 7

end StatusAgreement

theorem statuses_agree_leaving : ∃ s, (accounts demoConfig).runAlone StatusAgreement.rules
      (.initial StatusAgreement.freshWorld) StatusAgreement.leavingUser = some s ∧
    ∃ u ∈ s.shared.store.db.users, u.status = .pending ∧ Agrees s.shared.store.db u := by
  have key : (((accounts demoConfig).runAlone StatusAgreement.rules
      (.initial StatusAgreement.freshWorld) StatusAgreement.leavingUser).any fun s =>
      s.idle && s.shared.store.db.users.any fun u => decide (u.status = .pending)) = true := by
    decide +kernel
  obtain ⟨s, hs, hx⟩ := (Option.any_eq_true _ _).mp key
  rw [Bool.and_eq_true] at hx
  obtain ⟨u, hu, hpending⟩ := List.any_eq_true.mp hx.2
  have hw : Unregistered StatusAgreement.freshWorld := ⟨rfl, rfl, rfl, by decide⟩
  exact ⟨s, hs, u, hu, of_decide_eq_true hpending,
    statuses_agree demoConfig StatusAgreement.freshWorld hw _ s hs hx.1 u hu⟩

end Redbox
