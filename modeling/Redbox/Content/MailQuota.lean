import Redbox.Content.Mailbox
import Mathlib.Algebra.Order.BigOperators.Group.List
import Mathlib.Algebra.Order.Group.Nat
import Mathlib.Data.List.Flatten

/-! The mail quota. A delivery reads the usage, stores the objects and then inserts the
mail, so the quota holds in the runs in which no other mail for the user comes between. -/
namespace Redbox
open Interleaving

/-- What a mail adds to the usage of its user. -/
def Mail.size (m : Mail) : Nat := m.contentSize + (m.attachments.map (·.size)).sum

namespace Database
variable {cfg : Config} {db db' : Database} {userId fresh : Id} {now : Time}

/-- So much more fits into the mail quota that goes with the username. -/
def MailFits (cfg : Config) (userId : Id) (size : Nat) (db : Database) : Prop :=
  ∀ u, db.findUser userId = some u →
    db.mailStorageUsed userId + size ≤ MailService.getMailQuotaLimitForUsername cfg u.username

/-- The users are as before, and the mails of the user take no more space. -/
def NoMoreMail (userId : Id) (db db' : Database) : Prop :=
  db'.users = db.users ∧ db'.mailStorageUsed userId ≤ db.mailStorageUsed userId

theorem NoMoreMail.refl : NoMoreMail userId db db := ⟨rfl, Nat.le_refl _⟩

theorem NoMoreMail.fits {size : Nat} (h : NoMoreMail userId db db')
    (hf : MailFits cfg userId size db) :
    MailFits cfg userId size db' := by
  intro u hu
  rw [findUser, h.1] at hu
  exact (Nat.add_le_add_right h.2 size).trans (hf u hu)

theorem mailStorageUsed_cons (m : Mail) (v : Id) :
    ({ db with mails := m :: db.mails } : Database).mailStorageUsed v =
      (if m.userId = v then m.size else 0) + db.mailStorageUsed v := by
  simp only [mailStorageUsed, mailsOf, List.filter_cons, beq_iff_eq, Mail.size]
  split
  · simp only [List.map_cons, List.sum_cons, List.flatMap_cons, List.sum_append]
    omega
  · omega

theorem mailStorageUsed_createMail {m : Mail} {a : Id}
    (h : db.perform cfg now fresh (.createMail m) = .ok (db', a)) (v : Id) :
    db'.mailStorageUsed v = (if m.userId = v then m.size else 0) + db.mailStorageUsed v := by
  rw [perform_result h]
  exact mailStorageUsed_cons { m with id := a } v

theorem users_createMail {m : Mail} {a : Id}
    (h : db.perform cfg now fresh (.createMail m) = .ok (db', a)) :
    db'.users = db.users := by
  rw [perform_result h]
  rfl

theorem noMoreMail_drop (drop : Mail → Bool) : NoMoreMail userId db (db.dropMails drop) := by
  have hsub : ((db.dropMails drop).mailsOf userId).Sublist (db.mailsOf userId) :=
    List.filter_sublist.filter _
  have hcontent := (hsub.map (·.contentSize)).sum_le_sum fun _ _ => Nat.zero_le _
  have hattachments := (hsub.flatMap fun m : Mail => m.attachments.map (·.size)).sum_le_sum
    fun _ _ => Nat.zero_le _
  exact ⟨rfl, Nat.add_le_add_right (Nat.add_le_add hcontent hattachments) _⟩

/-- Inserting a mail changes nothing for the others. -/
theorem noMoreMail_createMail {m : Mail} {a : Id}
    (h : db.perform cfg now fresh (.createMail m) = .ok (db', a)) (hm : m.userId ≠ userId) :
    NoMoreMail userId db db' := by
  refine ⟨users_createMail h, ?_⟩
  rw [mailStorageUsed_createMail h, if_neg hm, Nat.zero_add]

end Database

namespace MailQuota

/-- The user's usage is summed up. -/
def aggregates (userId : Id) (e : MailEvent) : Bool :=
  match e.req with
  | .backend (.query (.mailStorageUsed v)) => decide (v = userId)
  | _ => false

/-- A mail for the user is inserted. -/
def inserts (userId : Id) (e : MailEvent) : Bool :=
  match e.req with
  | .backend (.statement (.createMail m)) => decide (m.userId = userId)
  | _ => false

/-- Between the sum and the insert of a delivery, no other mail for the user is inserted. -/
def noMailSinceAggregation (s : MailShared) (p : Nat) (q : MailRequest) (_ : Delivery) : Bool :=
  match q with
  | .backend (.statement (.createMail m)) =>
    !occursSince p (aggregates m.userId) (inserts m.userId) s.log
  | _ => true

def rules : MailRules := anyMail.also noMailSinceAggregation

/-- Users have distinct ids, and their mails are within the quota. -/
structure Within (cfg : Config) (w : World) : Prop where
  ids : (w.db.users.map (·.id)).Nodup
  quota : ∀ userId, w.db.MailFits cfg userId 0

/-- What is inserted fits; nothing else is written to the database. -/
def outline (cfg : Config) : Outline MailRequest MailReply World where
  inv := fun s => Within cfg s.store
  pre := fun s _ q => match q with
    | .backend (.statement (.createMail m)) => s.store.db.MailFits cfg m.userId m.size
    | .backend (.statement _) => False
    | _ => True

variable {cfg : Config} {s : MailShared} {p : Nat} {userId : Id} {q : MailRequest} {d : Delivery}

/-- Everything that a call can do to the database. -/
theorem db_after (hp : (outline cfg).pre s p q) :
    (∀ v, Database.NoMoreMail v s.store.db ((mailboxes cfg).after d p q s).store.db) ∨
    ∃ m db' a, q = .backend (.statement (.createMail m)) ∧
      s.store.db.perform cfg s.store.clock s.store.nextId (.createMail m) = .ok (db', a) ∧
      ((mailboxes cfg).after d p q s).store.db = db' := by
  have hsame : ∀ {db : Database}, db = s.store.db → ∀ v, Database.NoMoreMail v s.store.db db :=
    fun h v => h ▸ .refl
  have hdrop : ∀ drop v, Database.NoMoreMail v s.store.db (s.store.dropMails drop).db :=
    fun drop _ => Database.noMoreMail_drop drop
  cases q with
  | backend q =>
    have hdeliver : ((mailboxes cfg).after d p (.backend q) s).store.db = s.store.db ∨
        ((mailboxes cfg).after d p (.backend q) s).store.db = (s.store.deliver cfg q).1.db := by
      cases d with
      | failed => exact .inl rfl
      | late =>
        show (s.store.exec cfg .late q).1.db = _ ∨
          (s.store.exec cfg .late q).1.db = (s.store.deliver cfg q).1.db
        simp only [World.exec]
        split
        · rename_i name _ _ _ _
          cases name <;> exact .inl rfl
        · exact .inr rfl
      | _ => exact .inr rfl
    rcases hdeliver with h | h
    · exact .inl (hsame h)
    · rw [h]
      rcases s.store.deliver_db cfg q with hdb | ⟨w, db', a, rfl, hw, hdb, _⟩
      · exact .inl (hsame hdb)
      · cases w with
        | createMail m => exact .inr ⟨m, db', a, rfl, hw, by rw [hdb]⟩
        | _ => exact hp.elim
  | deleteMail mailId =>
    left
    cases d with
    | failed => exact hsame rfl
    | _ =>
      show ∀ v, Database.NoMoreMail v s.store.db (s.store.deliverMail cfg (.deleteMail mailId)).1.db
      simp only [World.deliverMail]
      split
      · exact hdrop _
      · exact hsame rfl
  | deleteMails v mailIds =>
    left
    cases d with
    | failed => exact hsame rfl
    | _ => exact hdrop _
  | _ => exact .inl (hsame (by cases d <;> rfl))

theorem users_after (hp : (outline cfg).pre s p q) :
    ((mailboxes cfg).after d p q s).store.db.users = s.store.db.users := by
  rcases db_after (d := d) hp with h | ⟨m, db', a, -, hw, hdb⟩
  · exact (h 0).1
  · rw [hdb, Database.users_createMail hw]

/-- An insert that fits keeps the quota. -/
theorem outline_kept : (outline cfg).Kept (mailboxes cfg) rules where
  after := by
    intro s p q d hs ha hp
    have hids : (((mailboxes cfg).after d p q s).store.db.users.map (·.id)).Nodup := by
      rw [users_after hp]
      exact hs.ids
    refine ⟨hids, fun v => ?_⟩
    rcases db_after (d := d) hp with h | ⟨m, db', a, rfl, hw, hdb⟩
    · exact (h v).fits (hs.quota v)
    · rw [hdb]
      by_cases hv : m.userId = v
      · subst hv
        intro u hu
        rw [Database.findUser, Database.users_createMail hw] at hu
        have hfit : s.store.db.mailStorageUsed m.userId + m.size ≤ _ := hp u hu
        rw [Database.mailStorageUsed_createMail hw, if_pos rfl]
        omega
      · exact (Database.noMoreMail_createMail hw hv).fits (hs.quota v)
  moved := fun hs _ => ⟨hs.ids, hs.quota⟩

/-- The row of the user is the one that was read. -/
def HasRow (u : User) (s : MailShared) : Prop := s.store.db.findUser u.id = some u

/-- The mail still fits, unless another one for the user has been inserted since the sum. -/
abbrev Fits (cfg : Config) (p : Nat) (userId : Id) (size : Nat) (s : MailShared) : Prop :=
  Unless p (aggregates userId) (inserts userId) (fun s => s.store.db.MailFits cfg userId size) s

theorem fits_survives {size : Nat} : Survives (mailboxes cfg) rules (outline cfg) (inserts userId)
    fun s => s.store.db.MailFits cfg userId size where
  after := by
    intro s p q d _ _ hp hs
    rcases db_after (d := d) hp with h | ⟨m, db', a, rfl, hw, hdb⟩
    · exact .inl ((h userId).fits hs)
    · by_cases hm : m.userId = userId
      · exact .inr (decide_eq_true hm)
      · exact .inl (hdb ▸ (Database.noMoreMail_createMail hw hm).fits hs)
  moved := fun _ _ hs => hs

theorem hasRow_after {u : User} (hp : (outline cfg).pre s p q) (hs : HasRow u s) :
    HasRow u ((mailboxes cfg).after d p q s) := by
  rw [HasRow, Database.findUser, users_after hp]
  exact hs

theorem hasRow_stable {u : User} : Stable (mailboxes cfg) rules (outline cfg) p (HasRow u) := by
  intro s t h hs
  cases h with
  | other _ _ _ hp => exact hasRow_after hp hs
  | drift => exact hs

theorem reply_query {q : Query} {a : q.Answer}
    (h : (mailboxes cfg).reply d (.backend (.query q)) s = .ok a) :
    s.store.db.read cfg s.store.clock q = .ok a ∧
    ((mailboxes cfg).after d p (.backend (.query q)) s).store = s.store := by
  cases d with
  | failed => cases h
  | lost => cases h
  | _ => exact ⟨h, rfl⟩

/-- The calls between the sum and the insert. -/
def Preparing : MailRequest → Prop
  | .backend (.s3 _ _) => True
  | .backend .random => True
  | _ => False

theorem fits_held {size : Nat} : Held (mailboxes cfg) rules (outline cfg) p Preparing
      (Fits cfg p userId size) :=
  fits_survives.held fun q r hq => by
    cases q with
    | backend q => cases q <;> first | rfl | exact hq.elim
    | _ => rfl

theorem pre_preparing (hq : Preparing q) : (outline cfg).pre s p q := by
  cases q with
  | backend q =>
    cases q with
    | statement w => exact hq.elim
    | _ => trivial
  | _ => trivial

section
variable {α : Type} {f : q.Answer → MailRoutine α} {size : Nat}

/-- A call between the sum and the insert. -/
theorem preparing_meets {Q : Except Thrown α → MailShared → Prop} (hq : Preparing q)
    (hs : Fits cfg p userId size s) (hQ : ∀ e t, Fits cfg p userId size t → Q (.error e) t)
    (h : ∀ a t, Fits cfg p userId size t → Meets (mailboxes cfg) rules (outline cfg) p (f a) Q t) :
    Meets (mailboxes cfg) rules (outline cfg) p ((awaitMail q).bind f) Q s :=
  Meets.held fits_held hq (fun _ _ _ _ _ => pre_preparing hq) outline_kept hs hQ fun a t _ ht =>
    h a t ht

end

/-- The rows of the attachments have the sizes that were counted. -/
theorem storeAttachments_meets {size : Nat} {attachments : List (String × String × Nat)}
    (hs : Fits cfg p userId size s) :
    Meets (mailboxes cfg) rules (outline cfg) p
      (liftMail (MailService.storeAttachments attachments))
      (fun r t => Fits cfg p userId size t ∧
        ∀ rows, r = .ok rows → (rows.map (·.size)).sum = (attachments.map (·.2.2)).sum) s := by
  have hthrow : ∀ (e : Thrown) (t : MailShared), Fits cfg p userId size t →
    Fits cfg p userId size t ∧
      ∀ rows : List MailAttachment, Except.error e = .ok rows →
        (rows.map (·.size)).sum = (attachments.map (·.2.2)).sum :=
    fun e t ht => ⟨ht, fun rows h => by cases h⟩
  induction attachments generalizing s with
  | nil =>
    refine Meets.ret fits_held.stable hs fun t ht _ => ⟨ht, fun rows h => ?_⟩
    cases Except.ok.inj h
    rfl
  | cons a rest ih =>
    obtain ⟨filename, mimetype, n⟩ := a
    rw [MailService.storeAttachments, Prog.bind_eq, liftMail_bind, liftMail_await .random]
    refine preparing_meets trivial hs hthrow fun storageKey t ht => ?_
    rw [Prog.bind_eq, liftMail_bind,
      liftMail_await (.s3 .mails (.putObject storageKey (MailService.cbcLength n)))]
    refine preparing_meets trivial ht hthrow fun _ t ht => ?_
    rw [Prog.bind_eq, liftMail_bind]
    refine (ih ht fun e t ht => ⟨ht, fun rows h => by cases h⟩).next (fun e t _ h => hthrow e t h.1)
      fun rows t _ h => ?_
    refine Meets.ret fits_held.stable h.1 fun t ht _ => ⟨ht, fun rows' h' => ?_⟩
    cases Except.ok.inj h'
    simp only [List.map_cons, List.sum_cons, h.2 rows rfl]

/-- A mail is inserted with the size that was found to fit. -/
theorem storeMailboxMail_follows {user : User} {mail : IncomingMail}
    (hs : Fits cfg p user.id (mail.contentSize + (mail.attachments.map (·.2.2)).sum) s) :
    Follows (mailboxes cfg) rules (outline cfg) p
      (liftMail (MailService.storeMailboxMailForUser cfg user mail)) s := by
  rw [MailService.storeMailboxMailForUser, Prog.bind_eq, liftMail_bind, liftMail_await .random]
  refine preparing_meets trivial hs (fun _ _ _ => trivial) fun storageKey t hs => ?_
  rw [Prog.bind_eq, liftMail_bind, liftMail_await .random]
  refine preparing_meets trivial hs (fun _ _ _ => trivial) fun mailKey t hs => ?_
  rw [Prog.bind_eq, liftMail_bind, liftMail_await .random]
  refine preparing_meets trivial hs (fun _ _ _ => trivial) fun mailIv t hs => ?_
  rw [Prog.bind_eq, liftMail_bind, liftMail_await
    (.s3 .mails (.putObject storageKey (MailService.cbcLength mail.contentSize)))]
  refine preparing_meets trivial hs (fun _ _ _ => trivial) fun _ t hs => ?_
  rw [Prog.bind_eq, liftMail_bind]
  refine (storeAttachments_meets hs).next (fun _ _ _ _ => trivial) fun attachments t _ h => ?_
  obtain ⟨hs, hsize⟩ := h
  rw [liftMail_await (.statement _), ← Prog.bind_ret (awaitMail _)]
  refine Follows.await fits_held.stable hs fun t ht _ d ha => ⟨?_, fun _ _ => Follows.ret⟩
  simp only [rules, Rules.also, anyMail, noMailSinceAggregation, Bool.true_and,
    Bool.not_eq_true'] at ha
  have hfits := ht.resolve ha
  have hsum : (attachments.map (·.size)).sum = (mail.attachments.map (·.2.2)).sum :=
    hsize attachments rfl
  show t.store.db.MailFits cfg user.id (mail.contentSize + (attachments.map (·.size)).sum)
  rw [hsum]
  exact hfits

theorem processIncomingMail_safe {mail : IncomingMail} :
    Safe (mailboxes cfg) rules (outline cfg)
    (liftMail (MailService.processIncomingMail cfg mail)) := by
  intro p s _
  rw [MailService.processIncomingMail, liftMail_ite]
  refine Follows.ite (fun _ => Follows.ret) fun _ => ?_
  rw [Prog.bind_eq, liftMail_bind, liftMail_await (.query (.userByUsername mail.username))]
  refine Follows.await (Stable.const True) trivial fun t _ hi d _ => ⟨trivial, fun row hr => ?_⟩
  obtain ⟨hrow, hstore⟩ := reply_query (p := p) hr
  have hrow : t.store.db.findUsername cfg.sameName mail.username = row := Except.ok.inj hrow
  cases row with
  | none => exact Follows.ret
  | some u =>
    have hu : HasRow u ((mailboxes cfg).after d p
      (.backend (.query (.userByUsername mail.username))) t) := by
      rw [HasRow, hstore]
      exact Database.findUser_of_findUsername hi.ids hrow
    rw [liftMail_ite]
    refine Follows.ite (fun _ => Follows.ret) fun _ => ?_
    rw [Prog.bind_eq, liftMail_bind,
      liftMail_await (.query (.blockedSender u.id mail.senderEmails))]
    refine Follows.await hasRow_stable hu fun t hu _ d _ => ⟨trivial, fun isBlocked _ => ?_⟩
    rw [liftMail_ite]
    refine Follows.ite (fun _ => Follows.ret) fun _ => ?_
    rw [Prog.bind_eq, liftMail_bind, liftMail_await (.query (.mailStorageUsed u.id))]
    refine Follows.await hasRow_stable (hasRow_after trivial hu) fun t hu hi d _ =>
      ⟨trivial, fun usage hr => ?_⟩
    obtain ⟨husage, hstore⟩ := reply_query (p := p) hr
    have husage : t.store.db.mailStorageUsed u.id = usage := Except.ok.inj husage
    rw [liftMail_ite]
    refine Follows.ite (fun _ => Follows.ret) fun hroom => ?_
    rw [Prog.bind_eq, liftMail_bind]
    have hfits : ((mailboxes cfg).after d p (.backend (.query (.mailStorageUsed u.id)))
      t).store.db.MailFits cfg u.id
        (mail.contentSize + (mail.attachments.map (·.2.2)).sum) := by
      rw [hstore]
      intro v hv
      cases Option.some.inj (hu.symm.trans hv)
      rw [husage]
      exact Nat.le_of_not_lt hroom
    have hi' : Within cfg ((mailboxes cfg).after d p (.backend (.query (.mailStorageUsed u.id)))
      t).store := by
      rw [hstore]
      exact hi
    exact Follows.bind outline_kept hi' (storeMailboxMail_follows (.inl hfits)) fun _ _ _ _ =>
      Follows.ret

/-- The calls of a deletion insert nothing. -/
def Deleting : MailRequest → Prop
  | .backend (.statement _) => False
  | _ => True

theorem pre_deleting (hq : Deleting q) : (outline cfg).pre s p q := by
  cases q with
  | backend q =>
    cases q with
    | statement w => exact hq.elim
    | _ => trivial
  | _ => trivial

theorem deleteObjects_calls {keys : List Id} : (MailService.deleteObjects keys).Calls Deleting :=
  .forEach fun _ => .handle (.await trivial) fun _ => trivial

theorem deleteMail_calls {mailId : Id} : (MailService.deleteMail userId mailId).Calls Deleting :=
  .bind (.await trivial) fun
    | none => trivial
    | some _ => .bind (.await trivial) fun
      | none => .throwIf
      | some _ => .bind deleteObjects_calls fun _ => .await trivial

theorem bulkDeleteMails_calls {mailIds : List Id} :
    (MailService.bulkDeleteMails userId mailIds).Calls Deleting :=
  .bind (.await trivial) fun _ => .bind deleteObjects_calls fun _ => .await trivial

theorem program_safe (op : MailOperation) :
    Safe (mailboxes cfg) rules (outline cfg) (op.program cfg) := by
  have hdeletes : ∀ {x : MailRoutine MailOutcome}, x.Calls Deleting →
      Safe (mailboxes cfg) rules (outline cfg) x :=
    fun hx => .calls hx fun _ _ _ _ hq _ _ => pre_deleting hq
  cases op with
  | processIncomingMail mail => exact .bind outline_kept processIncomingMail_safe fun _ => .ret
  | deleteMail userId mailId => exact hdeletes (.bind deleteMail_calls fun _ => trivial)
  | bulkDeleteMails userId mailIds => exact hdeletes (.bind bulkDeleteMails_calls fun _ => trivial)

end MailQuota

/-- In every reachable state the mails of each user take no more than the quota. -/
def MailQuotaHolds (cfg : Config) (R : MailRules) (w : World) : Prop :=
  ∀ as s userId u, (mailboxes cfg).run R (.initial w) as = some s →
    s.shared.store.db.findUser userId = some u →
    s.shared.store.db.mailStorageUsed userId ≤ MailService.getMailQuotaLimitForUsername
      cfg u.username

/-- The quota holds in the runs where no other mail for the user is inserted between the sum and the
insert. -/
theorem mail_quota_holds (cfg : Config) (w : World) (hw : MailQuota.Within cfg w) :
    MailQuotaHolds cfg MailQuota.rules w := by
  intro as s userId u h hu
  have hr : s.Respects (mailboxes cfg) MailQuota.rules (MailQuota.outline cfg) fun _ _ _ _ =>
      True :=
    Safe.run MailQuota.outline_kept MailQuota.program_safe hw h
  exact hr.inv.quota userId u hu

namespace MailQuota

/-- A mail with a body of 300 MiB. -/
def largeMail : IncomingMail :=
  ⟨"eve@example.org", "alice@redbox.cx", "alice", ["eve@example.org"], "", "",
    300 * 1024 * 1024, []⟩

def advances (p n : Nat) : List (Action MailOperation Delivery Nat) :=
  List.replicate n (.advance p .delivered)

/-- Both deliveries sum up the usage before either inserts its mail. -/
def twoDeliveries : List (Action MailOperation Delivery Nat) :=
  .start (.processIncomingMail largeMail) :: advances 0 3 ++
  .start (.processIncomingMail largeMail) :: advances 1 3 ++ advances 0 5 ++ advances 1 5

/-- The second delivery sums up the usage after the first mail is there. -/
def oneByOne : List (Action MailOperation Delivery Nat) :=
  .start (.processIncomingMail largeMail) :: advances 0 8 ++
  .start (.processIncomingMail largeMail) :: advances 1 3

theorem demo_within : Within demoConfig demoWorld := ⟨by decide, fun _ _ _ => Nat.zero_le _⟩

end MailQuota

/-- Two deliveries at once exceed the quota. -/
theorem mail_quota_exceeded : ¬ MailQuotaHolds demoConfig anyMail demoWorld := by
  have key : (((mailboxes demoConfig).run anyMail (.initial demoWorld) MailQuota.twoDeliveries).any
    fun s =>
      decide (s.shared.store.db.mailStorageUsed 1 = 600 * 1024 * 1024) &&
      (s.shared.store.db.findUser 1).any fun u => decide (u.username = "alice")) = true := by
        decide +kernel
  intro h
  obtain ⟨s, hs, hx⟩ := (Option.any_eq_true _ _).mp key
  simp only [Bool.and_eq_true, decide_eq_true_eq, Option.any_eq_true] at hx
  obtain ⟨hused, u, hu, hname⟩ := hx
  have hle := h _ s 1 u hs hu
  rw [hused, hname] at hle
  exact absurd hle (by decide)

/-- A run of the kind the theorem is about: the second mail is turned away. -/
theorem mail_quota_holds_demo : ∃ s u,
    (mailboxes demoConfig).run MailQuota.rules (.initial demoWorld) MailQuota.oneByOne = some s ∧
    s.shared.store.db.findUser 1 = some u ∧
    s.shared.store.db.mailStorageUsed 1 = 300 * 1024 * 1024 ∧
    s.shared.store.db.mailStorageUsed 1 ≤ MailService.getMailQuotaLimitForUsername demoConfig
      u.username := by
  have key : (((mailboxes demoConfig).run MailQuota.rules (.initial demoWorld)
    MailQuota.oneByOne).any fun s =>
      decide (s.shared.store.db.mailStorageUsed 1 = 300 * 1024 * 1024) &&
      (s.shared.store.db.findUser 1).isSome) = true := by decide +kernel
  obtain ⟨s, hs, hx⟩ := (Option.any_eq_true _ _).mp key
  simp only [Bool.and_eq_true, decide_eq_true_eq] at hx
  obtain ⟨u, hu⟩ := Option.isSome_iff_exists.mp hx.2
  exact ⟨s, u, hs, hu, hx.1, mail_quota_holds demoConfig demoWorld MailQuota.demo_within _
    s 1 u hs hu⟩

end Redbox
