import Redbox.Content.ContentServices
import Redbox.Accounts.UsersService
import Redbox.Backend.Commits
import Redbox.Interleaving.Expansion
import Redbox.Interleaving.Safety

/-! How many invite codes, bins and links one user can have. The limits are checked before
the rows are created. -/
namespace Redbox
open Interleaving

/-- The calls of the backend, and those of the deletions of single bins and links. -/
inductive CapRequest where
  | backend (q : Request)
  | bin (binId : Id)
  | link (linkId : Id)
  | deleteBin (binId : Id)
  | deleteLink (linkId : Id)

/-- Of a link only its owner is selected. -/
abbrev CapRequest.Answer : CapRequest → Type
  | backend q => q.Answer
  | bin _ => Option Bin
  | link _ => Option Id
  | deleteBin _ | deleteLink _ => Unit

abbrev CapReply (q : CapRequest) : Type := Except Thrown q.Answer
abbrev CapRoutine (α : Type) := Prog CapRequest CapReply Thrown α

namespace Database

def findBin (db : Database) (id : Id) : Option Bin := db.bins.find? fun b => b.id == id
def findLink (db : Database) (id : Id) : Option Link := db.links.find? fun l => l.id == id

def deleteBin (db : Database) (id : Id) : Except Thrown Database :=
  if (db.findBin id).isSome then .ok { db with bins := db.bins.filter fun b => b.id != id }
  else .error (.fault .recordNotFound)

def deleteLink (db : Database) (id : Id) : Except Thrown Database :=
  if (db.findLink id).isSome then .ok { db with links := db.links.filter fun l => l.id != id }
  else .error (.fault .recordNotFound)

def inviteCodeCount (db : Database) (userId : Id) : Nat :=
  (db.inviteCodes.filter fun c => c.userId == some userId).length

end Database

namespace World

/-- What a write to the database leaves. -/
def committed (s : World) : Except Thrown Database → World × Except Thrown Unit
  | .ok db => ({ s with db := db }, .ok ())
  | .error e => (s, .error e)

def deliverCap (cfg : Config) (s : World) : (q : CapRequest) → World × CapReply q
  | .backend q => s.deliver cfg q
  | .bin id => (s, .ok (s.db.findBin id))
  | .link id => (s, .ok ((s.db.findLink id).map (·.userId)))
  | .deleteBin id => s.committed (s.db.deleteBin id)
  | .deleteLink id => s.committed (s.db.deleteLink id)

def execCap (cfg : Config) (d : Delivery) (q : CapRequest) (s : World) : World × CapReply q :=
  match d with
  | .delivered | .late => s.deliverCap cfg q
  | .failed => (s, .error (.fault .unavailable))
  | .lost => ((s.deliverCap cfg q).1, .error (.fault .unavailable))

end World

def awaitCap (q : CapRequest) : CapRoutine q.Answer := Prog.await id q

/-- A routine of the backend as it is. -/
def liftCap {α : Type} (x : Routine α) : CapRoutine α := x.expand fun q => .call (.backend q) .ret

namespace BinsService

def deleteBin (userId binId : Id) : CapRoutine Unit := do
  let some bin ← awaitCap (.bin binId) | throw (notFound "Bin not found")
  Prog.throwIf (bin.userId ≠ userId) (notFound "Bin not found")
  awaitCap (.deleteBin binId)

end BinsService

namespace LinksService

def delete (userId linkId : Id) : CapRoutine Unit := do
  let some owner ← awaitCap (.link linkId) | throw (notFound ("Link with ID " ++ toString linkId ++
    " not found."))
  Prog.throwIf (owner ≠ userId) (forbidden ("Link with ID " ++ toString linkId ++ " not found."))
  awaitCap (.deleteLink linkId)

end LinksService

inductive CapOperation where
  | generateInviteCode
  | createBin (dto : CreateBinDto)
  | createLink (url : String)
  | deleteBin (binId : Id)
  | deleteLink (linkId : Id)

def CapOperation.program (cfg : Config) (userId : Id) : CapOperation → CapRoutine Unit
  | generateInviteCode => do
    let _ ← liftCap (UsersService.generateInviteCode cfg userId)
    return ()
  | createBin dto => do
    let _ ← liftCap (BinsService.createBin cfg userId dto)
    return ()
  | createLink url => do
    let _ ← liftCap (LinksService.create cfg userId url)
    return ()
  | deleteBin binId => BinsService.deleteBin userId binId
  | deleteLink linkId => LinksService.delete userId linkId

/-- The creations and deletions of one user. -/
def creations (cfg : Config) (userId : Id) : System CapRequest CapReply Thrown Unit World
      CapOperation Delivery Nat where
  exec := World.execCap cfg
  drift := World.tick
  program := CapOperation.program cfg userId

abbrev SharedCreations := Shared CapRequest CapReply World
abbrev CapEvent := Event CapRequest CapReply
abbrev CapRules := Rules CapRequest CapReply World CapOperation Delivery Nat
abbrev CapAction := Action CapOperation Delivery Nat

/-- What there is a limit for. -/
inductive Capped where
  | inviteCode | bin | link
  deriving DecidableEq

namespace Capped

def limit (cfg : Config) : Capped → Nat
  | inviteCode => 2
  | bin => cfg.binLimit
  | link => cfg.linkLimit

def rows (userId : Id) (db : Database) : Capped → Nat
  | inviteCode => db.inviteCodeCount userId
  | bin => db.binCount userId
  | link => db.linkCount userId

end Capped

/-- The row that a call creates for the user. -/
def CapRequest.creates (userId : Id) : CapRequest → Option Capped
  | .backend (.statement (.createInviteCode u _)) => if u = userId then some .inviteCode else none
  | .backend (.statement (.createBin row)) => if row.userId = userId then some .bin else none
  | .backend (.statement (.createLink u _ _)) => if u = userId then some .link else none
  | _ => none

namespace CapEvent

/-- The number that a check has read. -/
def reads (userId : Id) : CapEvent → Option (Capped × Nat)
  | ⟨_, .backend (.query (.user .idIssuedStatus u)), .ok (some user)⟩ =>
    if u = userId then some (.inviteCode, user.issuedCodes) else none
  | ⟨_, .backend (.query (.binCount u)), .ok n⟩ => if u = userId then some (.bin, n) else none
  | ⟨_, .backend (.query (.linkCount u)), .ok n⟩ => if u = userId then some (.link, n) else none
  | _ => none

/-- The row that is there since, unless the call failed before it took effect. -/
def created (userId : Id) (e : CapEvent) : Option Capped :=
  match e.resp with
  | .ok _ | .error (.fault .unavailable) => e.req.creates userId
  | .error _ => none

end CapEvent

/-- The number that process `p` has read, and the rows created since. -/
def countedFor (userId : Id) (k : Capped) (p : Nat) : List CapEvent → Nat
  | [] => 0
  | e :: log => match CapEvent.reads userId e with
    | some (k', n) => if e.pid = p ∧ k' = k then n else countedFor userId k p log
    | none => (if CapEvent.created userId e = some k then 1 else 0) + countedFor userId k p log

/-- Calls may fail, before or after they took effect, and time may pass. A row is created only while
the number that its call had checked, with the rows created since, is below the limit. -/
def roomKnown (cfg : Config) (userId : Id) : CapRules where
  starts := fun _ _ => true
  allows := fun s p q _ => (q.creates userId).all fun k =>
    decide (countedFor userId k p s.log < k.limit cfg)
  drifts := fun _ _ => true

/-- The same without the condition on the order of calls. -/
def anyOrder : CapRules where
  starts := fun _ _ => true
  allows := fun _ _ _ _ => true
  drifts := fun _ _ => true

/-- The user's codes are counted, and no limit is passed. -/
structure WithinCaps (cfg : Config) (userId : Id) (db : Database) : Prop where
  issued : ∀ user, db.findUser userId = some user → user.issuedCodes = db.inviteCodeCount userId
  capped : ∀ k : Capped, k.rows userId db ≤ k.limit cfg

namespace CreationCaps

/-- The calls that these requests make. -/
def used (userId : Id) : CapRequest → Bool
  | .backend (.query _) | .backend .now | .backend .random | .backend (.redis (.get _)) => true
  | .backend q => ((CapRequest.backend q).creates userId).isSome
  | _ => true

/-- Process `p` has read the number of rows. -/
def Checked (userId : Id) (k : Capped) (p : Nat) (log : List CapEvent) : Prop :=
  ∃ e ∈ log, e.pid = p ∧ ∃ n, CapEvent.reads userId e = some (k, n)

/-- At most the row that the event tells of is new. -/
structure Adds (userId : Id) (new : Option Capped) (db db' : Database) : Prop where
  rows : ∀ k : Capped, k.rows userId db' ≤ (if new = some k then 1 else 0) + k.rows userId db
  issued : (∀ user, db.findUser userId = some user → user.issuedCodes = db.inviteCodeCount userId) →
    ∀ user, db'.findUser userId = some user → user.issuedCodes = db'.inviteCodeCount userId

section
variable {cfg : Config} {userId : Id} {db db' : Database} {s : World} {new : Option Capped}

theorem Adds.refl : Adds userId new db db := ⟨fun _ => Nat.le_add_left _ _, id⟩

theorem length_filter_insert {α : Type} (f : α → Bool) (x : α) (l : List α) (h : f x = true) :
    ((x :: l).filter f).length = 1 + (l.filter f).length := by
  rw [List.filter_cons, if_pos h, List.length_cons, Nat.add_comm]

theorem length_filter_filter {α : Type} (f g : α → Bool) (l : List α) :
    ((l.filter g).filter f).length ≤ (l.filter f).length :=
  (List.filter_sublist.filter f).length_le

theorem adds_inviteCode {code : String} {fresh : Id}
    (h : db.createInviteCode userId code fresh = .ok db') :
    Adds userId (some .inviteCode) db db' := by
  obtain ⟨_, rfl⟩ := Database.createInviteCode_ok h
  have hcount : ∀ f : User → User, (({ db with inviteCodes :=
    ⟨fresh, code, 1, true, some userId, none, false⟩ :: db.inviteCodes } :
      Database).setUser userId f).inviteCodeCount userId = 1 + db.inviteCodeCount userId :=
    fun _ => length_filter_insert _ _ _ (by simp)
  refine ⟨fun k => ?_, fun hissued user huser => ?_⟩
  · cases k with
    | inviteCode => exact Nat.le_of_eq (hcount _)
    | bin | link => exact Nat.le_add_left _ _
  · rw [Database.findUser_setUser (f := fun u => { u with issuedCodes := u.issuedCodes + 1 })
      fun _ => rfl] at huser
    obtain ⟨user', huser', rfl⟩ := Option.map_eq_some_iff.mp huser
    have hid : user'.id = userId := by simpa using List.find?_some huser'
    rw [hcount, if_pos hid, ← hissued user' huser']
    exact Nat.add_comm _ _

theorem adds_bin {row : Bin} (hrow : row.userId = userId)
    (h : db.owned row.userId (fun db => { db with bins := row :: db.bins }) = .ok db') :
    Adds userId (some .bin) db db' := by
  obtain ⟨rfl, _⟩ := Database.owned_ok h
  refine ⟨fun k => ?_, fun hissued => hissued⟩
  cases k with
  | bin => exact Nat.le_of_eq (length_filter_insert _ _ _ (by simp [hrow]))
  | inviteCode | link => exact Nat.le_add_left _ _

theorem adds_link {url code : String} {fresh : Id} {link : Link}
    (h : db.createLink cfg userId url code fresh = .ok (db', link)) :
    Adds userId (some .link) db db' := by
  obtain ⟨rfl, rfl, _⟩ := Database.createLink_ok h
  refine ⟨fun k => ?_, fun hissued => hissued⟩
  cases k with
  | link => exact Nat.le_of_eq (length_filter_insert _ _ _ (by simp))
  | inviteCode | bin => exact Nat.le_add_left _ _

theorem adds_deleteBin {id : Id} (h : db.deleteBin id = .ok db') : Adds userId new db db' := by
  simp only [Database.deleteBin] at h
  split at h <;> cases h
  refine ⟨fun k => ?_, fun hissued => hissued⟩
  cases k with
  | bin => exact (length_filter_filter _ _ _).trans (Nat.le_add_left _ _)
  | inviteCode | link => exact Nat.le_add_left _ _

theorem adds_deleteLink {id : Id} (h : db.deleteLink id = .ok db') : Adds userId new db db' := by
  simp only [Database.deleteLink] at h
  split at h <;> cases h
  refine ⟨fun k => ?_, fun hissued => hissued⟩
  cases k with
  | link => exact (length_filter_filter _ _ _).trans (Nat.le_add_left _ _)
  | inviteCode | bin => exact Nat.le_add_left _ _

/-- What a call that is answered leaves. -/
theorem adds_deliver {q : CapRequest} (hq : used userId q = true) {a : q.Answer}
    (h : (s.deliverCap cfg q).2 = .ok a) :
    Adds userId (q.creates userId) s.db (s.deliverCap cfg q).1.db := by
  cases q with
  | bin id => exact .refl
  | link id => exact .refl
  | deleteBin id =>
    cases hdel : s.db.deleteBin id with
    | ok db =>
      simp only [World.deliverCap, World.committed, hdel]
      exact adds_deleteBin hdel
    | error e =>
      simp only [World.deliverCap, World.committed, hdel]
      exact .refl
  | deleteLink id =>
    cases hdel : s.db.deleteLink id with
    | ok db =>
      simp only [World.deliverCap, World.committed, hdel]
      exact adds_deleteLink hdel
    | error e =>
      simp only [World.deliverCap, World.committed, hdel]
      exact .refl
  | backend q =>
    cases q with
    | query q => exact .refl
    | now => exact .refl
    | random => exact .refl
    | redis c => exact .refl
    | statement w =>
      obtain ⟨hdb, hw⟩ : s.db.perform cfg s.clock s.nextId w =
        .ok ((s.deliverCap cfg (.backend (.statement w))).1.db, a) ∧
          used userId (.backend (.statement w)) = true := by
        refine ⟨?_, hq⟩
        simp only [World.deliverCap, World.deliver] at h ⊢
        split at h
        · cases h
          assumption
        · cases h
      generalize (s.deliverCap cfg (.backend (.statement w))).1.db = db' at hdb
      simp only [used, Option.isSome_iff_exists] at hw
      obtain ⟨k, hk⟩ := hw
      rw [hk]
      cases w with
      | createInviteCode u code =>
        simp only [CapRequest.creates, Option.ite_none_right_eq_some, Option.some.injEq] at hk
        obtain ⟨rfl, rfl⟩ := hk
        obtain ⟨_, hcreate, heq⟩ := Database.perform_bind hdb
        cases heq
        exact adds_inviteCode hcreate
      | createBin row =>
        simp only [CapRequest.creates, Option.ite_none_right_eq_some, Option.some.injEq] at hk
        obtain ⟨hrow, rfl⟩ := hk
        obtain ⟨_, hcreate, heq⟩ := Database.perform_bind hdb
        cases heq
        have hrow' : ({ row with id := s.nextId } : Bin).userId = userId := hrow
        exact adds_bin hrow' hcreate
      | createLink u url code =>
        simp only [CapRequest.creates, Option.ite_none_right_eq_some, Option.some.injEq] at hk
        obtain ⟨rfl, rfl⟩ := hk
        exact adds_link hdb
      | _ => cases hk
    | _ => cases hq

/-- A call that fails leaves the database as it was. -/
theorem deliver_error {q : CapRequest} {e : Thrown} (h : (s.deliverCap cfg q).2 = .error e) :
    (s.deliverCap cfg q).1.db = s.db := by
  cases q with
  | bin id => rfl
  | link id => rfl
  | deleteBin id =>
    cases hdel : s.db.deleteBin id with
    | ok db =>
      simp only [World.deliverCap, World.committed, hdel] at h
      cases h
    | error e => simp only [World.deliverCap, World.committed, hdel]
  | deleteLink id =>
    cases hdel : s.db.deleteLink id with
    | ok db =>
      simp only [World.deliverCap, World.committed, hdel] at h
      cases h
    | error e => simp only [World.deliverCap, World.committed, hdel]
  | backend q =>
    simp only [World.deliverCap] at h ⊢
    cases q with
    | statement w =>
      simp only [World.deliver] at h ⊢
      split at h
      · cases h
      · rfl
    | s3 name q =>
      simp only [World.deliver] at h ⊢
      split at h
      · cases h
      · rfl
    | _ => rfl

end
section
variable {cfg : Config} {userId : Id} {s : SharedCreations} {p : Nat} {q : CapRequest}
  {c : Delivery}

/-- The event of a call tells of the row that it may have created. -/
theorem adds_after (hq : used userId q = true) : Adds userId
    (CapEvent.created userId ⟨p, q, (creations cfg userId).reply c q s⟩) s.store.db
      ((creations cfg userId).after c p q s).store.db := by
  have delivered : Adds userId (CapEvent.created userId ⟨p, q, (s.store.deliverCap cfg q).2⟩)
    s.store.db
      (s.store.deliverCap cfg q).1.db := by
    cases hr : (s.store.deliverCap cfg q).2 with
    | ok a => exact adds_deliver hq hr
    | error e =>
      rw [deliver_error hr]
      exact .refl
  cases c with
  | delivered => exact delivered
  | late => exact delivered
  | failed => exact .refl
  | lost =>
    show Adds userId (q.creates userId) s.store.db (s.store.deliverCap cfg q).1.db
    cases hr : (s.store.deliverCap cfg q).2 with
    | ok a => exact adds_deliver hq hr
    | error e =>
      rw [deliver_error hr]
      exact .refl

theorem creates_of_created {e : CapEvent} {k : Capped} (h : CapEvent.created userId e = some k) :
    e.req.creates userId = some k := by
  unfold CapEvent.created at h
  split at h
  · exact h
  · exact h
  · cases h

/-- A number that is read is that of the rows. -/
theorem reads_rows {k : Capped} {n : Nat}
    (hissued : ∀ user, s.store.db.findUser userId = some user →
      user.issuedCodes = s.store.db.inviteCodeCount userId)
    (h : CapEvent.reads userId ⟨p, q, (s.store.deliverCap cfg q).2⟩ = some (k, n)) :
    (s.store.deliverCap cfg q).1 = s.store ∧ k.rows userId s.store.db = n := by
  cases q with
  | backend q =>
    cases q with
    | query q =>
      refine ⟨rfl, ?_⟩
      cases q with
      | user columns u =>
        cases columns with
        | idIssuedStatus =>
          have hreply : (s.store.deliverCap cfg (.backend (.query (.user .idIssuedStatus u)))).2 =
              .ok (s.store.db.findUser u) := rfl
          rw [hreply] at h
          cases huser : s.store.db.findUser u with
          | none =>
            rw [huser] at h
            cases h
          | some user =>
            rw [huser] at h
            simp only [CapEvent.reads, Option.ite_none_right_eq_some, Option.some.injEq,
              Prod.mk.injEq] at h
            obtain ⟨rfl, rfl, rfl⟩ := h
            exact (hissued user huser).symm
        | _ => cases h
      | binCount u =>
        have hreads : (if u = userId then some (Capped.bin, s.store.db.binCount u) else none) =
            some (k, n) := h
        simp only [Option.ite_none_right_eq_some, Option.some.injEq, Prod.mk.injEq] at hreads
        obtain ⟨rfl, rfl, rfl⟩ := hreads
        rfl
      | linkCount u =>
        have hreads : (if u = userId then some (Capped.link, s.store.db.linkCount u) else none) =
            some (k, n) := h
        simp only [Option.ite_none_right_eq_some, Option.some.injEq, Prod.mk.injEq] at hreads
        obtain ⟨rfl, rfl, rfl⟩ := hreads
        rfl
      | _ => cases h
    | _ => cases h
  | _ => cases h

theorem reads_error {e : Thrown} : CapEvent.reads userId ⟨p, q, .error e⟩ = none := by
  unfold CapEvent.reads
  split <;> rename_i heq <;> first | rfl | cases heq

theorem reads_after {k : Capped} {n : Nat}
    (hissued : ∀ user, s.store.db.findUser userId = some user →
      user.issuedCodes = s.store.db.inviteCodeCount userId)
    (h : CapEvent.reads userId ⟨p, q, (creations cfg userId).reply c q s⟩ = some (k, n)) :
    ((creations cfg userId).after c p q s).store = s.store ∧ k.rows userId s.store.db = n := by
  cases c with
  | delivered | late => exact reads_rows hissued h
  | failed | lost => cases reads_error.symm.trans h

end

/-- The limits hold, and no number that was checked has been passed by more than the rows created
since. -/
structure Inv (cfg : Config) (userId : Id) (s : SharedCreations) : Prop where
  within : WithinCaps cfg userId s.store.db
  known : ∀ k p, Checked userId k p s.log →
    Capped.rows userId s.store.db k ≤ countedFor userId k p s.log

/-- A row is created by who has checked the number of rows. -/
def outline (cfg : Config) (userId : Id) : Outline CapRequest CapReply World where
  inv := Inv cfg userId
  pre s p q := used userId q = true ∧ ∀ k, q.creates userId = some k → Checked userId k p s.log

section
variable {cfg : Config} {userId : Id} {s : SharedCreations} {p : Nat} {q : CapRequest}
  {c : Delivery}

/-- The step lemma. -/
theorem Inv.after (hi : Inv cfg userId s) (hpre : (outline cfg userId).pre s p q)
    (hroom : (roomKnown cfg userId).allows s p q c = true) :
    Inv cfg userId ((creations cfg userId).after c p q s) := by
  have hadds : Adds userId (CapEvent.created userId ⟨p, q, (creations cfg userId).reply c q s⟩)
    s.store.db
      ((creations cfg userId).after c p q s).store.db := adds_after hpre.1
  refine ⟨⟨hadds.issued hi.within.issued, fun k => ?_⟩, fun k p' hchecked => ?_⟩
  · refine (hadds.rows k).trans ?_
    split
    · rename_i hcreated
      have hcreates : q.creates userId = some k := creates_of_created hcreated
      have hlt : countedFor userId k p s.log < k.limit cfg := by
        simpa only [roomKnown, hcreates, Option.all_some, decide_eq_true_eq] using hroom
      have hle := hi.known k p (hpre.2 k hcreates)
      omega
    · rw [Nat.zero_add]
      exact hi.within.capped k
  · have hlog : ((creations cfg userId).after c p q s).log = ⟨p, q,
      (creations cfg userId).reply c q s⟩ :: s.log := rfl
    rw [hlog] at hchecked ⊢
    cases hreads : CapEvent.reads userId ⟨p, q, (creations cfg userId).reply c q s⟩ with
    | none =>
      have hbefore : Checked userId k p' s.log := by
        obtain ⟨e, he, hp, n, hn⟩ := hchecked
        rcases List.mem_cons.mp he with rfl | he
        · cases hreads.symm.trans hn
        · exact ⟨e, he, hp, n, hn⟩
      simp only [countedFor, hreads]
      exact (hadds.rows k).trans (Nat.add_le_add_left (hi.known k p' hbefore) _)
    | some x =>
      obtain ⟨k', n⟩ := x
      obtain ⟨hsame, hrows⟩ := reads_after hi.within.issued hreads
      simp only [countedFor, hreads]
      rw [hsame]
      split
      · rename_i hown
        rw [← hown.2, hrows]
      · rename_i hother
        refine hi.known k p' ?_
        obtain ⟨e, he, hp, m, hm⟩ := hchecked
        rcases List.mem_cons.mp he with rfl | he
        · cases hreads.symm.trans hm
          exact absurd ⟨hp, rfl⟩ hother
        · exact ⟨e, he, hp, m, hm⟩

theorem outline_kept : (outline cfg userId).Kept (creations cfg userId) (roomKnown cfg userId) where
  after hi ha hp := hi.after hp ha
  moved hi _ := ⟨hi.within, hi.known⟩

/-- What has been checked stays checked. -/
theorem Checked.stable {k : Capped} :
    Stable (creations cfg userId) (roomKnown cfg userId) (outline cfg userId) p
    fun s => Checked userId k p s.log := by
  intro s s' hi hs
  cases hi with
  | other _ _ _ _ =>
    obtain ⟨e, he, hrest⟩ := hs
    exact ⟨e, List.mem_cons_of_mem _ he, hrest⟩
  | drift _ _ => exact hs

/-- A process of the outline, whatever it ends in. -/
abbrev Respects (cfg : Config) (userId : Id) (p : Nat) {α : Type} (x : CapRoutine α)
    (s : SharedCreations) : Prop :=
  Follows (creations cfg userId) (roomKnown cfg userId) (outline cfg userId) p x s

variable {α : Type}

theorem liftCap_bind {β : Type} (x : Routine α) (f : α → Routine β) :
    liftCap (x.bind f) = (liftCap x).bind fun a => liftCap (f a) :=
  Prog.expand_bind x f

theorem liftCap_await (q : Request) : liftCap (await q) = awaitCap (.backend q) := by
  simp only [liftCap, await, awaitCap, Prog.await, Prog.expand_call, Prog.call_bind, Prog.ret_bind]
  congr
  funext r
  cases r <;> rfl

/-- The calls after a check of the number of rows of one kind. -/
def Creating (userId : Id) (k : Capped) (q : Request) : Prop :=
  used userId (.backend q) = true ∧ ∀ k', (CapRequest.backend q).creates userId = some k' → k' = k

theorem checked_respects {k : Capped} {x : Routine α} (hx : x.Calls (Creating userId k))
    (hs : Checked userId k p s.log) :
    Respects cfg userId p (liftCap x) s := by
  have hcalls : (liftCap x).Calls fun q => used userId q = true ∧
      ∀ k', q.creates userId = some k' → k' = k :=
    hx.expand fun q hq => ⟨hq, fun _ => trivial⟩
  refine (Meets.frame hcalls Checked.stable (fun t q c hq _ _ ht => ⟨⟨hq.1, fun k' hk' => ?_⟩, ?_⟩)
    hs).mono fun _ _ _ _ => trivial
  · rw [hq.2 k' hk']
    exact ht
  · obtain ⟨e, he, hrest⟩ := ht
    exact ⟨e, List.mem_cons_of_mem _ he, hrest⟩

/-- A call that creates nothing, in front of the rest of a request. -/
theorem Respects.await {β : Type} {q : CapRequest} {f : q.Answer → CapRoutine β}
    (hq : used userId q = true) (hnone : q.creates userId = none)
    (h : ∀ t c a, (creations cfg userId).reply c q t = .ok a → Respects cfg userId p (f a)
      ((creations cfg userId).after c p q t)) :
    Respects cfg userId p ((awaitCap q).bind f) s := by
  refine Follows.await (Stable.const True) trivial fun t _ _ c _ =>
    ⟨⟨hq, fun k hk => ?_⟩, fun a ha => h t c a ha⟩
  cases hnone.symm.trans hk

/-- The check of the number of rows, in front of their creation. -/
theorem check_respects {k : Capped} {q : Request} {f : q.Answer → Routine α}
    (hq : used userId (.backend q) = true) (hnone : (CapRequest.backend q).creates userId = none)
    (hf : ∀ a, (∃ n, CapEvent.reads userId ⟨p, .backend q, .ok a⟩ = some (k, n)) ∧
      (f a).Calls (Creating userId k) ∨ ∃ e, f a = .throw e) :
    Respects cfg userId p (liftCap ((Redbox.await q).bind f)) s := by
  rw [liftCap_bind, liftCap_await]
  refine Respects.await hq hnone fun t c a ha => ?_
  rcases hf a with ⟨hreads, hcalls⟩ | ⟨e, he⟩
  · refine checked_respects hcalls ⟨_, List.mem_cons_self, rfl, ?_⟩
    rw [ha]
    exact hreads
  · rw [he]
    exact Follows.throw

theorem generateInviteCode_respects :
    Respects cfg userId p (liftCap (UsersService.generateInviteCode cfg userId)) s := by
  refine check_respects (k := .inviteCode) rfl rfl fun user => ?_
  cases user with
  | none => exact .inr ⟨_, rfl⟩
  | some user =>
    refine .inl ⟨⟨user.issuedCodes, if_pos rfl⟩, .bind .throwIf fun _ => .bind .throwIf fun _ =>
      .bind (.await ⟨rfl, fun _ h => by cases h⟩) fun _ => ?_⟩
    refine .await ⟨by simp [used, CapRequest.creates], fun k h => ?_⟩
    simp only [CapRequest.creates, if_pos, Option.some.injEq] at h
    exact h.symm

theorem createLink_respects {url : String} :
    Respects cfg userId p (liftCap (LinksService.create cfg userId url)) s := by
  have hattempts : ∀ n, (LinksService.createWithin cfg userId url n).Calls
      (Creating userId .link) := by
    intro n
    induction n with
    | zero => trivial
    | succ n ih =>
      refine .bind (.await ⟨rfl, fun _ h => by cases h⟩) fun _ =>
        .handle (.await ⟨by simp [used, CapRequest.creates], fun k h => ?_⟩)
        fun _ => .ite ih trivial
      simp only [CapRequest.creates, if_pos, Option.some.injEq] at h
      exact h.symm
  exact check_respects (k := .link) rfl rfl fun n =>
    .inl ⟨⟨n, if_pos rfl⟩, .bind .throwIf fun _ => hattempts _⟩

theorem createBin_respects {dto : CreateBinDto} :
    Respects cfg userId p (liftCap (BinsService.createBin cfg userId dto)) s := by
  have hrest : ∀ (masterKey : String) t, Respects cfg userId p (liftCap (do
      let currentBinCount ← Redbox.await (.query (.binCount userId))
      Prog.throwIf (cfg.binLimit ≤ currentBinCount)
        (badRequest ("You have reached your limit of " ++ toString cfg.binLimit ++ " bins."))
      let binKeyIv ← Redbox.await .random
      let salt ← Redbox.await .random
      let now ← Redbox.await .now
      Redbox.await (.statement (.createBin
        { id := 0, title := if dto.title = "" then "Untitled Bin" else dto.title, content :=
          dto.content
          size := dto.size, userId := userId, expiresAt :=
            BinsService.calculateExpiration now dto.expiresIn
          passwordHash := (dto.password.filter (· ≠ "")).map fun p => cfg.bcryptHash p salt
          encryptedBinKey := cfg.encryptKey masterKey dto.binKey binKeyIv, binKeyIv :=
            binKeyIv })))) t := by
    intro masterKey t
    refine check_respects (k := .bin) rfl rfl fun n =>
      .inl ⟨⟨n, if_pos rfl⟩, .bind .throwIf fun _ =>
      .bind (.await ⟨rfl, fun _ h => by cases h⟩) fun _ =>
        .bind (.await ⟨rfl, fun _ h => by cases h⟩) fun _ =>
        .bind (.await ⟨rfl, fun _ h => by cases h⟩) fun _ =>
          .await ⟨by simp [used, CapRequest.creates], fun k h => ?_⟩⟩
    simp only [CapRequest.creates, if_pos, Option.some.injEq] at h
    exact h.symm
  show Respects cfg userId p (liftCap ((FilesService.getMasterKeyForUser userId).bind _)) s
  rw [FilesService.getMasterKeyForUser]
  simp only [Prog.bind_eq, Prog.bind_assoc]
  rw [liftCap_bind, liftCap_await]
  refine Respects.await rfl rfl fun t c value _ => ?_
  split
  · exact hrest _ _
  · exact Follows.throw

theorem deleteBin_respects {binId : Id} :
    Respects cfg userId p (BinsService.deleteBin userId binId) s := by
  refine Respects.await rfl rfl fun t c row _ => ?_
  cases row with
  | none => exact Follows.throw
  | some row =>
    refine Follows.throwIf fun _ => ?_
    rw [← Prog.bind_ret (awaitCap _)]
    exact Respects.await rfl rfl fun _ _ _ _ => Follows.ret

theorem deleteLink_respects {linkId : Id} : Respects cfg userId p
      (LinksService.delete userId linkId) s := by
  refine Respects.await rfl rfl fun t c owner _ => ?_
  cases owner with
  | none => exact Follows.throw
  | some owner =>
    refine Follows.throwIf fun _ => ?_
    rw [← Prog.bind_ret (awaitCap _)]
    exact Respects.await rfl rfl fun _ _ _ _ => Follows.ret

/-- Every request follows the outline. -/
theorem program_respects (op : CapOperation) (hi : Inv cfg userId s) :
    Respects cfg userId p (op.program cfg userId) s := by
  have done : ∀ {β : Type} {x : CapRoutine β}, Respects cfg userId p x s →
      Respects cfg userId p (x.bind fun _ => .ret ()) s :=
    fun hx => Follows.bind outline_kept hi hx fun _ _ _ _ => Follows.ret
  cases op with
  | generateInviteCode => exact done generateInviteCode_respects
  | createBin dto => exact done createBin_respects
  | createLink url => exact done createLink_respects
  | deleteBin binId => exact deleteBin_respects
  | deleteLink linkId => exact deleteLink_respects

end
end CreationCaps

/-- A user who may have one bin. -/
def oneBin : Config := { demoConfig with binLimit := 1 }

def oneBinWorld : World := { demoWorld with redis := demoWorld.redis.insert (.masterKey 1) ⟨.text
      "master", none⟩ }

/-- A bin, its deletion, and another bin. -/
def binAgain : List CapAction :=
  .start (.createBin ⟨"a", "b", 1, "key", none, none⟩) ::
    List.replicate 6 (.advance 0 .delivered) ++
    .start (.deleteBin 102) :: List.replicate 2 (.advance 1 .delivered) ++
      .start (.createBin ⟨"c", "d", 1, "key", none, none⟩) ::
        List.replicate 6 (.advance 2 .delivered)

theorem oneBinWorld_within : WithinCaps oneBin 1 oneBinWorld.db := by
  refine ⟨fun user huser => ?_, fun k => ?_⟩
  · cases Option.some.inj huser
    rfl
  · cases k <;> decide

/-- Two requests that both count before either of them creates its bin. -/
def twoBinsAtOnce : List CapAction :=
  .start (.createBin ⟨"a", "b", 1, "key", none, none⟩) ::
    .start (.createBin ⟨"c", "d", 1, "key", none, none⟩) ::
    List.replicate 5 (.advance 0 .delivered) ++ List.replicate 6 (.advance 1 .delivered) ++
      [.advance 0 .delivered]

end Redbox
