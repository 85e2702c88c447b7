import Redbox.Files.FileTransactions
import Mathlib.Algebra.Order.BigOperators.Group.List
import Mathlib.Algebra.Order.Group.Nat

/-! The files of a user fit into the quota, whatever finalizations run at the same time. -/
namespace Redbox
open Interleaving

namespace Database

/-- The files of the user are within the limit that goes with the username. -/
def WithinQuota (cfg : Config) (db : Database) (userId : Id) : Prop :=
  ∀ u, db.findUser userId = some u →
    db.fileUsage userId ≤ (cfg.getFileLimitsForUsername u.username).quotaLimit

def usernameOf (db : Database) (userId : Id) : Option String :=
  (db.findUser userId).map (·.username)

/-- Fewer files and the same usernames. -/
structure Shrinks (db db' : Database) : Prop where
  files : db'.files.Sublist db.files
  usernames : ∀ v, db'.usernameOf v = db.usernameOf v

variable {cfg : Config} {db db' : Database} {userId v fresh : Id} {now : Time}

theorem Shrinks.refl (db : Database) : Shrinks db db := ⟨List.Sublist.refl _, fun _ => rfl⟩

theorem Shrinks.usage (h : Shrinks db db') (v : Id) : db'.fileUsage v ≤ db.fileUsage v :=
  ((h.files.filter _).map _).sum_le_sum fun _ _ => Nat.zero_le _

/-- The limit of a user depends on the username alone. -/
theorem withinQuota_iff : db.WithinQuota cfg userId ↔ ∀ name, db.usernameOf userId = some name →
    db.fileUsage userId ≤ (cfg.getFileLimitsForUsername name).quotaLimit := by
  simp only [WithinQuota, usernameOf, Option.map_eq_some_iff]
  constructor
  · rintro h name ⟨u, hu, rfl⟩
    exact h u hu
  · exact fun h u hu => h _ ⟨u, hu, rfl⟩

theorem Shrinks.withinQuota (h : Shrinks db db') (hq : db.WithinQuota cfg userId) :
    db'.WithinQuota cfg userId := by
  rw [withinQuota_iff] at hq ⊢
  exact fun name hname => (h.usage userId).trans (hq name (h.usernames userId ▸ hname))

theorem onUser_username {w : Statement} {u : User} : (w.onUser fresh u).username = u.username := by
  fun_cases Statement.onUser fresh w u <;> rfl

/-- All statements but the insert of a file. -/
theorem shrinks_perform {w : Statement} {a : w.Answer}
    (h : db.perform cfg now fresh w = .ok (db', a))
    (hw : ∀ userId name mimetype state key iv, w ≠ .createFile userId name mimetype state key iv) :
    Shrinks db db' := by
  refine ⟨?_, fun v => ?_⟩
  · rw [perform_result h]
    cases w with
    | createFile userId name mimetype state key iv =>
      exact absurd rfl (hw userId name mimetype state key iv)
    | swapSessionKey table id key =>
      simp only [result, swapSessionKey]
      cases table <;> split <;> exact List.Sublist.refl _
    | rotateSessionKey table id => cases table <;> exact List.Sublist.refl _
    | upsertBlockedSender userId email =>
      simp only [result]
      split <;> exact List.Sublist.refl _
    | markDeleted _ _ _ _ _ _ _ => exact List.filter_sublist
    | deleteFile _ => exact List.filter_sublist
    | _ => exact List.Sublist.refl _
  · rw [usernameOf, findUser_perform h, Option.map_map]
    exact Option.map_congr fun u _ => onUser_username

end Database

/-- The call is the insert of a file as one statement. -/
def Request.insertsFile : Request → Bool
  | .statement (.createFile _ _ _ _ _ _) => true
  | _ => false

namespace World
variable {cfg : Config} {s : World} {q : Request}

theorem shrinks_deliver (h : q.insertsFile = false) :
    Database.Shrinks s.db (s.deliver cfg q).1.db := by
  obtain hdb | ⟨w, db', a, rfl, hw, hs, _⟩ := deliver_db cfg s q
  · rw [hdb]
    exact .refl _
  · rw [hs]
    refine Database.shrinks_perform hw fun userId name mimetype state key iv heq => ?_
    rw [heq] at h
    cases h

theorem shrinks_exec {d : Delivery} (h : q.insertsFile = false) :
    Database.Shrinks s.db (s.exec cfg d q).1.db := by
  cases d with
  | delivered => exact shrinks_deliver h
  | lost => exact shrinks_deliver h
  | failed => exact .refl _
  | late =>
    simp only [exec]
    split
    · rename_i name _ _ _ _
      cases name <;> exact .refl _
    · exact shrinks_deliver h

end World

namespace FileQuota

/-- The transaction was begun by the process. -/
def Mine (p tx : Id) (s : LockedShared) : Prop := ⟨p, .begin, .ok tx⟩ ∈ s.log

def Locked (userId tx : Id) (s : LockedShared) : Prop := (userId, tx) ∈ s.store.locks

/-- The file still fits into the quota of its user. -/
def Fits (cfg : Config) (userId : Id) (size : Nat) (db : Database) : Prop :=
  ∀ name, db.usernameOf userId = some name →
    db.fileUsage userId + size ≤ (cfg.getFileLimitsForUsername name).quotaLimit

/-- A transaction that may commit: it holds the lock of the user for whom it has inserted a file
that fits. -/
structure Ready (cfg : Config) (tx userId : Id) (file : File) (s : LockedShared) : Prop where
  inserted : (s.store.transactions tx).inserted = [file]
  owner : file.userId = userId
  locked : Locked userId tx s
  fits : Fits cfg userId file.size s.store.world.db

structure Sound (cfg : Config) (s : LockedShared) : Prop where
  quota : ∀ userId, s.store.world.db.WithinQuota cfg userId
  own : ∀ p p' tx, Mine p tx s → Mine p' tx s → p = p'
  drawn : ∀ p tx, Mine p tx s → tx < s.store.nextTransaction
  exclusive : ∀ userId tx tx', Locked userId tx s → Locked userId tx' s → tx = tx'
  empty : ∀ tx, s.store.nextTransaction ≤ tx → (s.store.transactions tx).inserted = []

def pre (cfg : Config) (s : LockedShared) (p : Nat) : LockedRequest → Prop
  | .backend q => q.insertsFile = false
  | .begin => True
  | .lockUser tx _ | .findUser tx _ | .sumSizes tx _ | .createFile tx _ _ _ _ _ _ | .rollback tx =>
    Mine p tx s
  | .commit tx => Mine p tx s ∧ ∃ userId file, Ready cfg tx userId file s

def outline (cfg : Config) : Outline LockedRequest LockedReply LockedWorld := ⟨Sound cfg, pre cfg⟩

/-- Everything a call can do. -/
inductive Move (cfg : Config) (s : LockedWorld) : LockedRequest → LockedWorld → Prop where
  | world {q : LockedRequest} (w : World) (shrinks : Database.Shrinks s.world.db w.db) :
      Move cfg s q { s with world := w }
  | begin : Move cfg s .begin (s.deliver cfg .begin).1
  | lockUser (tx userId : Id) : Move cfg s (.lockUser tx userId)
      (s.deliver cfg (.lockUser tx userId)).1
  | createFile (tx userId : Id) (name mimetype : String) (state : UploadMeta) (key : String)
      (iv : Id) (file : File)
      (created : (s.deliver cfg (.createFile tx userId name mimetype state key iv)).2 = .ok file) :
      Move cfg s (.createFile tx userId name mimetype state key iv)
        (s.deliver cfg (.createFile tx userId name mimetype state key iv)).1
  | commit (tx : Id) : Move cfg s (.commit tx) (s.deliver cfg (.commit tx)).1
  | rollback (tx : Id) : Move cfg s (.rollback tx) (s.deliver cfg (.rollback tx)).1

section
variable {cfg : Config} {s s' : LockedShared} {p p' tx userId : Id} {q : LockedRequest}
  {d : Delivery}

theorem Move.refl (w : LockedWorld) : Move cfg w q w := .world w.world (.refl _)

theorem move_deliver {w : LockedWorld} (hq : ∀ b, q = .backend b → b.insertsFile = false) :
    Move cfg w q (w.deliver cfg q).1 := by
  cases q with
  | backend b => exact .world _ (World.shrinks_deliver (hq b rfl))
  | begin => exact .begin
  | lockUser tx userId => exact .lockUser tx userId
  | findUser tx userId => exact .refl w
  | sumSizes tx userId => exact .refl w
  | createFile tx userId name mimetype state key iv =>
    cases hr : (w.deliver cfg (.createFile tx userId name mimetype state key iv)).2 with
    | ok file => exact .createFile tx userId name mimetype state key iv file hr
    | error e =>
      simp only [LockedWorld.deliver] at hr ⊢
      split at hr
      · rename_i h
        rw [if_pos h]
        exact .refl w
      · cases hr
  | commit tx => exact .commit tx
  | rollback tx => exact .rollback tx

theorem move_exec {w : LockedWorld} (hq : ∀ b, q = .backend b → b.insertsFile = false) :
    Move cfg w q (w.exec cfg d q).1 := by
  cases d with
  | delivered => exact move_deliver hq
  | lost => exact move_deliver hq
  | failed => exact .refl w
  | late =>
    cases q with
    | backend b => exact .world _ (World.shrinks_exec (hq b rfl))
    | _ => exact move_deliver hq

theorem move_after (hp : pre cfg s p q) :
    Move cfg s.store q ((lockedBackend cfg).after d p q s).store :=
  move_exec fun b hb => by subst hb; exact hp

/-- A process comes to own a transaction by beginning it. -/
theorem mine_after (h : Mine p' tx ((lockedBackend cfg).after d p q s)) : Mine p' tx s ∨
    p' = p ∧ tx = s.store.nextTransaction ∧
    ((lockedBackend cfg).after d p q s).store.nextTransaction = tx + 1 := by
  rcases List.mem_cons.mp h with h | h
  · injection h with hp hq hr
    subst hp hq
    have hr := eq_of_heq hr
    have hstore : ∀ t, (Except.ok tx : LockedReply .begin) = (s.store.deliver cfg .begin).2 →
        t = (s.store.deliver cfg .begin).1 → tx = s.store.nextTransaction ∧
          t.nextTransaction = tx + 1 := by
      rintro t hr rfl
      cases hr
      exact ⟨rfl, rfl⟩
    cases d with
    | delivered => exact .inr ⟨rfl, hstore _ hr rfl⟩
    | late => exact .inr ⟨rfl, hstore _ hr rfl⟩
    | failed => cases hr
    | lost => cases hr
  · exact .inl h

theorem mine_mono (h : Mine p' tx s) : Mine p' tx ((lockedBackend cfg).after d p q s) :=
  List.mem_cons_of_mem _ h

theorem nextTransaction_after (hp : pre cfg s p q) :
    s.store.nextTransaction ≤ ((lockedBackend cfg).after d p q s).store.nextTransaction := by
  obtain hm := move_after (d := d) hp
  generalize ((lockedBackend cfg).after d p q s).store = w at hm
  cases hm with
  | begin => exact Nat.le_succ _
  | createFile tx userId name mimetype state key iv file hc =>
    simp only [LockedWorld.deliver] at hc ⊢
    split <;> exact Nat.le_refl _
  | _ => exact Nat.le_refl _

/-- The usernames are as before, and the user has no more files. -/
def Quieter (userId : Id) (db db' : Database) : Prop :=
  db'.fileUsage userId ≤ db.fileUsage userId ∧ db'.usernameOf userId = db.usernameOf userId

theorem Quieter.fits {size : Nat} {db db' : Database} (h : Quieter userId db db')
    (hf : Fits cfg userId size db) :
    Fits cfg userId size db' :=
  fun name hname => (Nat.add_le_add_right h.1 size).trans (hf name (h.2 ▸ hname))

theorem usage_insert {db : Database} {file : File} (v : Id) :
    ({ db with files := [file] ++ db.files } : Database).fileUsage v =
      (if file.userId = v then file.size else 0) + db.fileUsage v := by
  simp only [Database.fileUsage, Database.filesOf, List.cons_append, List.nil_append,
    List.filter_cons, beq_iff_eq]
  split
  · simp
  · simp

/-- What a call of one process leaves of a transaction of another. -/
theorem undisturbed (hs : Sound cfg s) (ne : p' ≠ p) (hq : pre cfg s p' q) (hm : Mine p tx s) :
    ((lockedBackend cfg).after d p' q s).store.transactions tx = s.store.transactions tx ∧
    ∀ userId, Locked userId tx s → Locked userId tx ((lockedBackend cfg).after d p' q s) ∧
      Quieter userId s.store.world.db ((lockedBackend cfg).after d p' q s).store.world.db := by
  have other : ∀ tx', Mine p' tx' s → tx ≠ tx' := fun tx' h heq => ne (hs.own p' p tx (heq ▸ h) hm)
  have hmove := move_after (d := d) hq
  simp only [Locked]
  generalize ((lockedBackend cfg).after d p' q s).store = w at hmove
  cases hmove with
  | world w shrinks => exact ⟨rfl, fun v hv => ⟨hv, shrinks.usage v, shrinks.usernames v⟩⟩
  | begin => exact ⟨rfl, fun v hv => ⟨hv, Nat.le_refl _, rfl⟩⟩
  | lockUser tx' v =>
    exact ⟨Function.update_of_ne (other tx' hq) _ _,
      fun u hu => ⟨List.mem_cons_of_mem _ hu, Nat.le_refl _, rfl⟩⟩
  | createFile tx' v name mimetype state key iv file hc =>
    simp only [LockedWorld.deliver] at hc ⊢
    split
    · exact ⟨rfl, fun u hu => ⟨hu, Nat.le_refl _, rfl⟩⟩
    · exact ⟨Function.update_of_ne (other tx' hq) _ _, fun u hu => ⟨hu, Nat.le_refl _, rfl⟩⟩
  | commit tx' =>
    obtain ⟨hmine, v, file, hready⟩ := hq
    refine ⟨Function.update_of_ne (other tx' hmine) _ _, fun u hu => ⟨?_, ?_, rfl⟩⟩
    · exact List.mem_filter.mpr ⟨hu, by simpa using other tx' hmine⟩
    · simp only [LockedWorld.deliver, LockedWorld.finish, hready.inserted]
      rw [usage_insert, if_neg]
      · exact Nat.le_of_eq (Nat.zero_add _)
      · intro heq
        -- the file's user is locked by the committing transaction, not by this one
        have hv : v = u := hready.owner.symm.trans heq
        exact other tx' hmine (hs.exclusive u tx tx' hu (hv ▸ hready.locked))
  | rollback tx' =>
    refine ⟨Function.update_of_ne (other tx' hq) _ _, fun u hu => ⟨?_, Nat.le_refl _, rfl⟩⟩
    exact List.mem_filter.mpr ⟨hu, by simpa using other tx' hq⟩

/-- Every call that respects the outline keeps the invariant. -/
theorem sound_after (hs : Sound cfg s) (ha : rowLocks.allows s p q d = true) (hq : pre cfg s p q) :
    Sound cfg ((lockedBackend cfg).after d p q s) := by
  have hmove := move_after (d := d) hq
  refine ⟨?quota, ?own, ?drawn, ?exclusive, ?empty⟩
  case own =>
    intro p₁ p₂ tx h₁ h₂
    rcases mine_after h₁ with o₁ | ⟨rfl, hnext, _⟩
    · rcases mine_after h₂ with o₂ | ⟨rfl, hnext, _⟩
      · exact hs.own p₁ p₂ tx o₁ o₂
      · exact absurd (hs.drawn p₁ tx o₁) (hnext ▸ Nat.lt_irrefl _)
    · rcases mine_after h₂ with o₂ | ⟨rfl, _, _⟩
      · exact absurd (hs.drawn p₂ tx o₂) (hnext ▸ Nat.lt_irrefl _)
      · rfl
  case drawn =>
    intro p₁ tx h₁
    rcases mine_after h₁ with h₁ | ⟨_, _, hnext⟩
    · exact Nat.lt_of_lt_of_le (hs.drawn p₁ tx h₁) (nextTransaction_after hq)
    · exact hnext ▸ Nat.lt_succ_self tx
  case quota =>
    intro userId
    generalize ((lockedBackend cfg).after d p q s).store = w at hmove ⊢
    cases hmove with
    | world w shrinks => exact shrinks.withinQuota (hs.quota userId)
    | createFile tx v name mimetype state key iv file hc =>
      simp only [LockedWorld.deliver] at hc ⊢
      split <;> exact hs.quota userId
    | commit tx =>
      obtain ⟨_, v, file, hready⟩ := hq
      rw [Database.withinQuota_iff]
      intro name hname
      simp only [LockedWorld.deliver, LockedWorld.finish, hready.inserted]
      rw [usage_insert]
      by_cases hv : file.userId = userId
      · rw [if_pos hv, Nat.add_comm]
        have hvu : v = userId := hready.owner.symm.trans hv
        exact hvu ▸ hready.fits name (hvu ▸ hname)
      · rw [if_neg hv, Nat.zero_add]
        exact Database.withinQuota_iff.mp (hs.quota userId) name hname
    | _ => exact hs.quota userId
  case exclusive =>
    intro userId tx tx' h h'
    simp only [Locked] at h h'
    generalize ((lockedBackend cfg).after d p q s).store = w at hmove h h'
    cases hmove with
    | lockUser tx₀ v =>
      have hfree : ∀ l ∈ s.store.locks, l.1 = v → l.2 = tx₀ :=
        fun l hl => of_decide_eq_true (List.all_eq_true.mp ha l hl)
      rcases List.mem_cons.mp h with h | h
      · obtain ⟨rfl, rfl⟩ := Prod.mk.inj h
        rcases List.mem_cons.mp h' with h' | h'
        · exact (Prod.mk.inj h').2.symm
        · exact (hfree (userId, tx') h' rfl).symm
      · rcases List.mem_cons.mp h' with h' | h'
        · obtain ⟨rfl, rfl⟩ := Prod.mk.inj h'
          exact hfree (userId, tx) ‹_› rfl
        · exact hs.exclusive userId tx tx' h h'
    | createFile tx₀ v name mimetype state key iv file hc =>
      simp only [LockedWorld.deliver] at hc h h'
      split at h
      · rw [if_pos ‹_›] at h'
        exact hs.exclusive userId tx tx' h h'
      · rw [if_neg ‹_›] at h'
        exact hs.exclusive userId tx tx' h h'
    | commit tx₀ =>
      exact hs.exclusive userId tx tx' (List.mem_filter.mp h).1 (List.mem_filter.mp h').1
    | rollback tx₀ =>
      exact hs.exclusive userId tx tx' (List.mem_filter.mp h).1 (List.mem_filter.mp h').1
    | _ => exact hs.exclusive userId tx tx' h h'

  case empty =>
    intro tx htx
    have hold := hs.empty tx ((nextTransaction_after hq).trans htx)
    have other : ∀ tx', Mine p tx' s → tx ≠ tx' := fun tx' h heq =>
      absurd (hs.drawn p tx' h) (Nat.not_lt.mpr (heq ▸ (nextTransaction_after hq).trans htx))
    clear htx
    generalize ((lockedBackend cfg).after d p q s).store = w at hmove ⊢
    cases hmove with
    | lockUser tx' v => exact (congrArg _ (Function.update_of_ne (other tx' hq) _ _)).trans hold
    | createFile tx' v name mimetype state key iv file hc =>
      simp only [LockedWorld.deliver] at hc ⊢
      split
      · exact hold
      · exact (congrArg _ (Function.update_of_ne (other tx' hq) _ _)).trans hold
    | commit tx' => exact (congrArg _ (Function.update_of_ne (other tx' hq.1) _ _)).trans hold
    | rollback tx' => exact (congrArg _ (Function.update_of_ne (other tx' hq) _ _)).trans hold
    | _ => exact hold

theorem kept : (outline cfg).Kept (lockedBackend cfg) rowLocks where
  after hi ha hp := sound_after hi ha hp
  moved hi _ := ⟨hi.quota, hi.own, hi.drawn, hi.exclusive, hi.empty⟩

/-- The process has a transaction of its own that has inserted nothing. -/
def Begun (p tx : Id) (s : LockedShared) : Prop :=
  Mine p tx s ∧ (s.store.transactions tx).inserted = []

/-- It holds the lock, and what it sees of the user is no less than what is there. -/
def Viewing (p tx userId : Id) (db : Database) (s : LockedShared) : Prop :=
  Mine p tx s ∧ s.store.transactions tx = ⟨some db, []⟩ ∧ Locked userId tx s ∧
    Quieter userId db s.store.world.db

def Filed (cfg : Config) (p tx : Id) (s : LockedShared) : Prop :=
  Mine p tx s ∧ ∃ userId file, Ready cfg tx userId file s

abbrev Steadfast (cfg : Config) (p : Nat) (F : LockedShared → Prop) : Prop :=
  Stable (lockedBackend cfg) rowLocks (outline cfg) p F

theorem mine_stable : Steadfast cfg p (Mine p tx) := by
  intro s s' h hs
  cases h with
  | other => exact mine_mono hs
  | drift => exact hs

theorem begun_stable : Steadfast cfg p (Begun p tx) := by
  intro s s' h hs
  cases h with
  | @other _ _ c ne hi ha hq =>
    have hsame := (undisturbed (d := c) hi ne hq hs.1).1
    exact ⟨mine_mono hs.1, by rw [hsame]; exact hs.2⟩
  | drift => exact hs

theorem viewing_stable {db : Database} : Steadfast cfg p (Viewing p tx userId db) := by
  intro s s' h hs
  cases h with
  | @other _ _ c ne hi ha hq =>
    obtain ⟨hm, htx, hlock, hquiet⟩ := hs
    obtain ⟨hsame, hkeep⟩ := undisturbed (d := c) hi ne hq hm
    obtain ⟨hlock', hquiet'⟩ := hkeep userId hlock
    exact ⟨mine_mono hm, hsame.trans htx, hlock', hquiet'.1.trans hquiet.1,
      hquiet'.2.trans hquiet.2⟩
  | drift => exact hs

theorem filed_stable : Steadfast cfg p (Filed cfg p tx) := by
  intro s s' h hs
  cases h with
  | @other _ _ c ne hi ha hq =>
    obtain ⟨hm, userId, file, hready⟩ := hs
    obtain ⟨hsame, hkeep⟩ := undisturbed (d := c) hi ne hq hm
    obtain ⟨hlock, hquiet⟩ := hkeep userId hready.locked
    exact ⟨mine_mono hm, userId, file, by
      rw [hsame]; exact hready.inserted, hready.owner, hlock, hquiet.fits hready.fits⟩
  | drift => 
    obtain ⟨hm, userId, file, hready⟩ := hs
    exact ⟨hm, userId, file, hready.inserted, hready.owner, hready.locked, hready.fits⟩

/-- A call of a transaction that answers has been delivered. -/
theorem exec_ok {w : LockedWorld} {a : q.Answer} (hq : ∀ b, q ≠ .backend b)
    (h : (w.exec cfg d q).2 = .ok a) :
    w.exec cfg d q = w.deliver cfg q := by
  cases d with
  | delivered => rfl
  | failed => cases h
  | lost => cases h
  | late =>
    cases q with
    | backend b => exact absurd rfl (hq b)
    | _ => rfl

section
variable {α : Type} {f : q.Answer → LockedRoutine α} {F G : LockedShared → Prop}
  {Q : Except Thrown α → LockedShared → Prop}

/-- One call of a transaction, in front of the rest of the callback. -/
theorem call_meets (hq : ∀ b, q ≠ .backend b) (hF : Steadfast cfg p F) (hs : F s)
    (hpre : ∀ t, F t → pre cfg t p q) (hmine : ∀ t, F t → Mine p tx t)
    (hthrow : ∀ e t, Mine p tx t → Q (.error e) t)
    (h : ∀ t a, F t → t.store.deliver cfg q = ((t.store.deliver cfg q).1, .ok a) →
      Meets (lockedBackend cfg) rowLocks (outline cfg) p (f a) Q
        ⟨(t.store.deliver cfg q).1, ⟨p, q, .ok a⟩ :: t.log⟩) :
    Meets (lockedBackend cfg) rowLocks (outline cfg) p ((FilesService.awaitLocked q).bind f) Q
      s := by
  refine Meets.await hF hs fun t ht _ d _ => ⟨hpre t ht, fun a ha => ?_, fun e _ => ?_⟩
  · have hexec : t.store.exec cfg d q = t.store.deliver cfg q := exec_ok hq ha
    have hreply : (t.store.exec cfg d q).2 = .ok a := ha
    rw [hexec] at hreply
    have hafter : (lockedBackend cfg).after d p q t = ⟨(t.store.deliver cfg q).1,
      ⟨p, q, .ok a⟩ :: t.log⟩ := by
      simp only [System.after, System.reply, lockedBackend, hexec, hreply]
    rw [hafter]
    exact h t a ht (Prod.ext rfl hreply)
  · exact Meets.throw mine_stable (mine_mono (hmine t ht)) fun t ht _ => hthrow e t ht

end

/-- The callback inserts only what fits, and under the lock of its user. -/
theorem insertFile_meets {name mimetype key : String} {state : UploadMeta} {iv : Id}
    (hs : Begun p tx s) :
    Meets (lockedBackend cfg) rowLocks (outline cfg) p
      (FilesService.insertFile cfg tx userId name mimetype state key iv)
      (fun r t => Mine p tx t ∧ ∀ file, r = .ok file → Filed cfg p tx t) s := by
  have hthrow : ∀ (e : Thrown) (t : LockedShared), Mine p tx t →
      Mine p tx t ∧ ∀ file : File, Except.error e = .ok file → Filed cfg p tx t :=
    fun e t ht => ⟨ht, fun file hf => by cases hf⟩
  refine call_meets (q := .lockUser tx userId) (by
    simp) begun_stable hs (fun _ ht => ht.1) (fun _ ht => ht.1) hthrow
    fun t _ ht _ => ?_
  have hview : Viewing p tx userId t.store.world.db
      ⟨(t.store.deliver cfg (.lockUser tx userId)).1,
        ⟨p, .lockUser tx userId, .ok ()⟩ :: t.log⟩ := by
    refine ⟨List.mem_cons_of_mem _ ht.1, ?_, List.mem_cons_self, Nat.le_refl _, rfl⟩
    simp only [LockedWorld.deliver, Function.update_self, ht.2]
  generalize t.store.world.db = db at hview
  refine call_meets (q := .findUser tx userId) (by simp) viewing_stable hview (fun _ ht => ht.1)
    (fun _ ht => ht.1) hthrow
    fun t row ht hrow => ?_
  have hrow : db.findUser userId = row := by
    have := congrArg Prod.snd hrow
    simp only [LockedWorld.deliver, LockedWorld.view, ht.2.1, Option.getD_some] at this
    exact Except.ok.inj this
  have ht : Viewing p tx userId db ⟨t.store, ⟨p, .findUser tx userId, .ok row⟩ :: t.log⟩ :=
    ⟨List.mem_cons_of_mem _ ht.1, ht.2⟩
  cases row with
  | none => exact Meets.throw mine_stable ht.1 fun t ht _ => hthrow _ t ht
  | some user =>
    refine Meets.throwIf (fun _ => Meets.throw mine_stable ht.1 fun t ht _ =>
      hthrow _ t ht) fun _ => ?_
    refine call_meets (q := .sumSizes tx userId) (by
      simp) viewing_stable ht (fun _ ht => ht.1) (fun _ ht => ht.1) hthrow
      fun t usage ht husage => ?_
    have husage : db.fileUsage userId = usage := by
      have := congrArg Prod.snd husage
      simp only [LockedWorld.deliver, LockedWorld.view, ht.2.1, Option.getD_some] at this
      exact Except.ok.inj this
    have ht : Viewing p tx userId db ⟨t.store, ⟨p, .sumSizes tx userId, .ok usage⟩ :: t.log⟩ :=
      ⟨List.mem_cons_of_mem _ ht.1, ht.2⟩
    refine Meets.throwIf (fun _ => Meets.throw mine_stable ht.1 fun t ht _ => hthrow _ t ht)
      fun hquota => ?_
    rw [← Prog.bind_ret (FilesService.awaitLocked _)]
    refine call_meets (q := .createFile tx userId name mimetype state key iv) (by
      simp) viewing_stable ht
      (fun _ ht => ht.1) (fun _ ht => ht.1) hthrow fun t file ht hfile => ?_
    refine Meets.ret (F := Filed cfg p tx) filed_stable ?_ fun t ht _ => ⟨ht.1, fun _ _ => ht⟩
    obtain ⟨hm, htx, hlock, hquiet⟩ := ht
    simp only [LockedWorld.deliver] at hfile ⊢
    split at hfile
    · cases congrArg Prod.snd hfile
    · rw [if_neg ‹_›]
      refine ⟨List.mem_cons_of_mem _ hm, userId,
        newFile userId name mimetype state key iv t.store.world.clock t.store.world.nextId, ?_,
          rfl, hlock, ?_⟩
      · simp only [Function.update_self, htx]
      · intro n hn
        have hname : n = user.username := by
          have : t.store.world.db.usernameOf userId = some user.username := by
            rw [hquiet.2, Database.usernameOf, hrow, Option.map_some]
          exact Option.some.inj (hn.symm.trans this)
        subst hname
        have hsize := hquiet.1
        simp only [newFile]
        omega

/-- The transaction commits only a file that fits. -/
theorem fileTransaction_safe {name mimetype key : String} {state : UploadMeta} {iv : Id} :
    Safe (lockedBackend cfg) rowLocks (outline cfg)
    (FilesService.fileTransaction cfg userId name mimetype state key iv) := by
  intro p s hs
  refine Follows.await (F := fun _ => True) (Stable.const True) trivial fun t _ hi d _ =>
    ⟨trivial, fun tx htx => ?_⟩
  have hi' := sound_after (d := d) (q := .begin) (p := p) hi rfl trivial
  have hexec : t.store.exec cfg d .begin = t.store.deliver cfg .begin := exec_ok (by simp) htx
  have hbegun : Begun p tx ((lockedBackend cfg).after d p .begin t) := by
    have hreply : (lockedBackend cfg).reply d .begin t = .ok tx := htx
    have htx' : t.store.nextTransaction = tx := by
      have : (t.store.exec cfg d .begin).2 = .ok tx := htx
      rw [hexec] at this
      exact Except.ok.inj this
    refine ⟨by rw [Mine, System.after, hreply]; exact List.mem_cons_self, ?_⟩
    simp only [System.after, lockedBackend, hexec, LockedWorld.deliver]
    exact hi.empty tx (Nat.le_of_eq htx')
  have hbody : Meets (lockedBackend cfg) rowLocks (outline cfg) p
      ((FilesService.insertFile cfg tx userId name mimetype state key iv).bind fun file =>
        (FilesService.awaitLocked (.commit tx)).bind fun _ => .ret file)
      (fun _ t => Mine p tx t) ((lockedBackend cfg).after d p .begin t) := by
    refine Meets.bind hi' kept ((insertFile_meets hbegun).mono fun r t _ ht => ?_)
    cases r with
    | error e => exact Meets.throw mine_stable ht.1 fun _ ht _ => ht
    | ok file =>
      refine Meets.await filed_stable (ht.2 file rfl) fun t ht _ d _ =>
        ⟨⟨ht.1, ht.2⟩, fun _ _ => ?_, fun _ _ => ?_⟩
      · exact Meets.ret mine_stable (mine_mono ht.1) fun _ ht _ => ht
      · exact Meets.throw mine_stable (mine_mono ht.1) fun _ ht _ => ht
  refine Meets.handle hi' kept (hbody.mono fun r t _ ht => ?_)
  cases r with
  | ok file => exact Follows.ret
  | error e =>
    refine Follows.await mine_stable ht fun t ht _ d _ => ⟨ht, fun _ _ => Follows.throw⟩

/-- Each call of the backend is safe with the transaction written out. -/
theorem transactions_safe (q : Request) :
    Safe (lockedBackend cfg) rowLocks (outline cfg) (FilesService.transactions cfg q) := by
  unfold FilesService.transactions
  split
  · intro p s hs
    refine Meets.handle hs kept (Meets.bind hs kept
      ((fileTransaction_safe p s hs).mono fun r t _ _ => ?_))
    cases r <;> exact fun _ _ _ => Follows.ret
  · rename_i hne
    intro p s _
    refine Meets.call (Stable.const True) trivial fun t _ _ d _ => ⟨?_, fun _ _ _ => trivial⟩
    show q.insertsFile = false
    unfold Request.insertsFile
    split
    · exact absurd rfl (hne _ _ _ _ _ _)
    · rfl

/-- In every run of any number of requests and jobs, whatever calls fail, the files of each user
stay within the quota. -/
theorem quota_never_exceeded {w : World} (hw : ∀ userId, w.db.WithinQuota cfg userId)
    {as : List (Action Operation Delivery Nat)}
    {t : Pool LockedRequest LockedReply Thrown Outcome LockedWorld Operation}
    (h : (lockedBackend cfg).run rowLocks (.initial (.initial w)) as = some t) (userId : Id) :
    t.shared.store.world.db.WithinQuota cfg userId := by
  have hi : Sound cfg (.initial (.initial w)) := by
    refine ⟨hw, ?_, ?_, ?_, ?_⟩ <;> simp [Mine, Locked, Shared.initial, LockedWorld.initial]
  exact (Safe.run kept (fun op => Safe.expand kept transactions_safe _) hi h).inv.quota userId

end

/-- A user whose one upload has all its chunks. -/
def uploadedWorld : World :=
  { demoWorld with
    redis := (demoWorld.redis.insert (.masterKey 1) ⟨.text "master", none⟩).insert
      (.uploadMeta 1 50)
      ⟨.upload ⟨1, 1, 10, none, "1h", 60, some 61, [⟨1, 7⟩], 0, 0⟩, none⟩
    filesBucket := ⟨∅, AList.insert 61 ⟨60, [(1, ⟨38, 7⟩)]⟩ ∅⟩ }

def finalizing : List BackendAction :=
  .start (.completeUpload demoToken 50 ⟨"a.txt", "text/plain", "00", 1⟩) :: calls 0 15

theorem quota_never_exceeded_demo :
    ∃ t, (lockedBackend demoConfig).run rowLocks (.initial (.initial uploadedWorld)) finalizing =
    some t ∧ t.shared.store.world.db.fileUsage 1 = 10 ∧
    t.shared.store.world.db.WithinQuota demoConfig 1 := by
  have key : (((lockedBackend demoConfig).run rowLocks (.initial (.initial uploadedWorld))
    finalizing).any fun t =>
      decide (t.shared.store.world.db.fileUsage 1 = 10)) = true := by decide +kernel
  obtain ⟨t, ht, husage⟩ := (Option.any_eq_true _ _).mp key
  refine ⟨t, ht, of_decide_eq_true husage, ?_⟩
  exact quota_never_exceeded (fun _ _ _ => Nat.zero_le _) ht 1

end FileQuota
end Redbox
