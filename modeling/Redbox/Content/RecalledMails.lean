import Redbox.Content.MailBroadcast

/-! Internal mails that are recalled or deleted while they are still being sent. -/
namespace Redbox
open Interleaving

namespace RecalledMails

/-- The internal mail that the call has created. -/
def createdOf : InternalMailEvent → Option Id
  | ⟨_, .createInternalMail _ _, .ok id⟩ => some id
  | _ => none

/-- The copy in an inbox that the call has created. -/
def copyOf : InternalMailEvent → Option Id
  | ⟨_, .mail (.backend (.statement (.createMail _))), .ok id⟩ => some id
  | _ => none

/-- The call has read the deliveries of the internal mail. -/
def reads (internalMailId : Id) : InternalMailEvent → Bool
  | ⟨_, .deliveredMailIds id, .ok _⟩ => id == internalMailId
  | _ => false

/-- The copies of an internal mail: the mails that its sender has created since. -/
def copies (internalMailId : Id) : List InternalMailEvent → List Id
  | [] => []
  | e :: log =>
    if newestOwn createdOf e.pid log = some internalMailId then
      (copyOf e).toList ++ copies internalMailId log
    else copies internalMailId log

/-- Any order of calls, of which any may fail. -/
def anyOrder : InternalMailRules := ⟨fun _ _ => true, fun _ _ _ _ => true, fun _ _ => true⟩

/-- When the deliveries of an internal mail are read, each copy that is there has its delivery, and
afterwards its sender creates no copy and no delivery. -/
def undisturbed (s : InternalMailShared) (p : Nat) (q : InternalMailRequest)
    (_ : Delivery) : Bool :=
  match q with
  | .mail (.backend (.statement (.createMail _))) =>
    (newestOwn createdOf p s.log).all fun id => !s.log.any (reads id)
  | .createDelivery id _ _ => !s.log.any (reads id)
  | .deliveredMailIds id => (copies id s.log).all fun mailId =>
    !(s.store.world.db.mails.any (·.id == mailId)) ||
      s.store.deliveries.any fun d => d.internalMailId == id && d.mailId == some mailId
  | _ => true

def rules : InternalMailRules := anyOrder.also undisturbed

/-- No copy of the internal mail is there, and its deliveries are recalled. -/
structure Recalled (internalMailId : Id) (s : InternalMailShared) : Prop where
  copies : ∀ mail ∈ s.store.world.db.mails, mail.id ∉ copies internalMailId s.log
  deliveries : ∀ d ∈ s.store.deliveries, d.internalMailId = internalMailId →
    d.recalledAt.isSome = true

/-- The process recalls or deletes the internal mail. -/
def Recalls (internalMailId : Id) : InternalMailOperation → Prop
  | .recallMail _ id _ | .deleteMail _ id => id = internalMailId
  | _ => False

/-- The process sends the internal mail, recalls or deletes it, or deletes a copy. -/
def Concerns (internalMailId : Id) (log : List InternalMailEvent) (p : Nat) :
    InternalMailOperation → Prop
  | .sendMail _ _ _ => newestOwn createdOf p log = some internalMailId
  | .recallMail _ id _ | .deleteMail _ id => id = internalMailId
  | .deleteOwnMail _ mailId => mailId ∈ copies internalMailId log

abbrev InternalMailPool := Pool InternalMailRequest InternalMailReply Thrown InternalMailOutcome
  InternalMailWorld InternalMailOperation

/-- No operation on the internal mail is in progress. -/
def Quiet (internalMailId : Id) (s : InternalMailPool) : Prop :=
  ∀ p op q k, s.procs[p]? = some (op, .call q k) → ¬ Concerns internalMailId s.shared.log p op

/-- The internal mail was sent in the run. -/
def Sent (internalMailId : Id) (log : List InternalMailEvent) : Prop :=
  ∃ e ∈ log, createdOf e = some internalMailId

/-- An internal mail that was recalled or deleted has no surviving copies. -/
def StaysRecalled (s : InternalMailPool) : Prop :=
  ∀ internalMailId op count, Recalls internalMailId op → (op, .ret (.recalled count)) ∈ s.procs →
    Sent internalMailId s.shared.log → Quiet internalMailId s → Recalled internalMailId s.shared

/-- The deliveries were read, and no copy is there but those in the list. -/
structure Left (internalMailId : Id) (mailIds : List Id) (s : InternalMailShared) : Prop where
  read : s.log.any (reads internalMailId) = true
  copies : ∀ mail ∈ s.store.world.db.mails, mail.id ∈ copies internalMailId s.log →
    mail.id ∈ mailIds

/-- Nothing is left of the internal mail, and nothing will come. -/
structure Settled (internalMailId : Id) (s : InternalMailShared) : Prop where
  left : Left internalMailId [] s
  deliveries : ∀ d ∈ s.store.deliveries, d.internalMailId = internalMailId →
    d.recalledAt.isSome = true

structure Inv (s : InternalMailShared) : Prop where
  rows : ∀ mail ∈ s.store.internalMails, mail.id < s.store.world.nextId
  sent : ∀ id, Sent id s.log → id < s.store.world.nextId
  copies : ∀ id, ∀ m ∈ copies id s.log, m < s.store.world.nextId
  recalled : ∀ mail ∈ s.store.internalMails, mail.recalledAt.isSome = true → Sent mail.id s.log →
    Settled mail.id s

/-- The internal mail that a transaction marks as recalled. -/
def marks : InternalMailRequest → Option Id
  | .markRecalled id _ _ | .markDeleted id _ _ true => some id
  | _ => none

/-- What a process knows when it makes a call. -/
def pre (s : InternalMailShared) (_ : Nat) (q : InternalMailRequest) : Prop :=
  (∀ id, marks q = some id → Left id [] s) ∧
    ∀ row attachments, q = .createInternalMail row attachments → row.recalledAt = none

def outline : Outline InternalMailRequest InternalMailReply InternalMailWorld := ⟨Inv, pre⟩

section
variable {cfg : Config} {w : InternalMailWorld} {s : InternalMailShared} {q : InternalMailRequest}
  {c : Delivery} {p : Nat} {id : Id} {e : InternalMailEvent} {log : List InternalMailEvent}
  {mailIds : List Id}

theorem exec_cases (cfg : Config) (c : Delivery) (q : InternalMailRequest) (w : InternalMailWorld) :
    w.exec cfg c q = w.deliver cfg q ∨ w.exec cfg c q = (w, .error (.fault .unavailable)) := by
  cases c with
  | failed => exact .inr rfl
  | _ => exact .inl rfl

theorem nextId_deliver (cfg : Config) (w : InternalMailWorld) (q : InternalMailRequest) :
    w.world.nextId ≤ (w.deliver cfg q).1.world.nextId := by
  cases q with
  | mail q =>
    cases q with
    | backend q => exact World.nextId_deliver cfg w.world q
    | deleteMail mailId =>
      simp only [InternalMailWorld.deliver, World.deliverMail]
      split <;> exact Nat.le_refl _
    | _ => exact Nat.le_refl _
  | createInternalMail row attachments => exact Nat.le_succ _
  | deleteInternalMail id =>
    simp only [InternalMailWorld.deliver]
    split <;> exact Nat.le_refl _
  | createDelivery id userId mailId =>
    simp only [InternalMailWorld.deliver]
    split <;> exact Nat.le_refl _
  | markRecalled id adminUserId reason =>
    simp only [InternalMailWorld.deliver, InternalMailWorld.markRecalled]
    by_cases h : w.internalMails.any (·.id == id) = true
    · simp only [if_pos h]
      exact Nat.le_refl _
    · simp only [if_neg h]
      exact Nat.le_refl _
  | markDeleted id adminUserId reason recalls =>
    simp only [InternalMailWorld.deliver, InternalMailWorld.markDeleted]
    by_cases h : w.internalMails.any (·.id == id) = true
    · simp only [if_pos h]
      exact Nat.le_refl _
    · simp only [if_neg h]
      exact Nat.le_refl _
  | _ => exact Nat.le_refl _

/-- A statement adds at most the mail that it creates. -/
theorem mails_result {db : Database} {now : Time} {fresh : Id} {statement : Statement}
    {a : statement.Answer} {mail : Mail}
    (h : mail ∈ (db.result cfg now fresh statement a).mails) :
    mail ∈ db.mails ∨ ∃ m, statement = .createMail m ∧ HEq a mail.id := by
  cases statement with
  | createMail m =>
    rcases List.mem_cons.mp h with rfl | h
    · exact .inr ⟨m, rfl, HEq.rfl⟩
    · exact .inl h
  | rotateSessionKey table id => cases table <;> exact .inl h
  | swapSessionKey table id key =>
    simp only [Database.result, Database.swapSessionKey] at h
    split at h
    · cases table <;> exact .inl h
    · exact .inl h
  | markDeleted => exact .inl (List.mem_of_mem_filter h)
  | upsertBlockedSender userId email =>
    simp only [Database.result] at h
    split at h <;> exact .inl h
  | _ => exact .inl h

/-- New mails are copies, and get the next name. -/
theorem mails_exec {mail : Mail} (h : mail ∈ (w.exec cfg c q).1.world.db.mails) :
    mail ∈ w.world.db.mails ∨ mail.id = w.world.nextId := by
  rcases exec_cases cfg c q w with hexec | hexec
  · rw [hexec] at h
    cases q with
    | mail q =>
      cases q with
      | backend b =>
        have h : mail ∈ (w.world.deliver cfg b).1.db.mails := h
        rcases World.deliver_db cfg w.world b with hsame | ⟨st, db', a, rfl, hperform, hs, -⟩
        · exact .inl (hsame ▸ h)
        · rw [hs, Database.perform_result hperform] at h
          refine (mails_result h).imp_right ?_
          rintro ⟨m, rfl, heq⟩
          obtain ⟨y, -, hy⟩ := Database.perform_bind hperform
          rw [← eq_of_heq heq]
          exact (Prod.mk.inj hy).2
      | deleteMail mailId =>
        simp only [InternalMailWorld.deliver, World.deliverMail] at h
        split at h
        · exact .inl (List.mem_of_mem_filter h)
        · exact .inl h
      | deleteMails userId mailIds => exact .inl (List.mem_of_mem_filter h)
      | _ => exact .inl h
    | deleteInternalMail id =>
      simp only [InternalMailWorld.deliver] at h
      split at h <;> exact .inl h
    | createDelivery id userId mailId =>
      simp only [InternalMailWorld.deliver] at h
      split at h <;> exact .inl h
    | markRecalled id adminUserId reason =>
      simp only [InternalMailWorld.deliver, InternalMailWorld.markRecalled] at h
      by_cases hrow : w.internalMails.any (·.id == id) = true
      · simp only [if_pos hrow] at h
        exact .inl h
      · simp only [if_neg hrow] at h
        exact .inl h
    | markDeleted id adminUserId reason recalls =>
      simp only [InternalMailWorld.deliver, InternalMailWorld.markDeleted] at h
      by_cases hrow : w.internalMails.any (·.id == id) = true
      · simp only [if_pos hrow] at h
        exact .inl h
      · simp only [if_neg hrow] at h
        exact .inl h
    | _ => exact .inl h
  · rw [hexec] at h
    exact .inl h

/-- A delivery that was recalled stays recalled. -/
def Keeps (d d' : InternalMailDelivery) : Prop :=
  d.internalMailId = d'.internalMailId ∧ (d.recalledAt.isSome = true → d'.recalledAt.isSome = true)

theorem recallDeliveries_cases {d' : InternalMailDelivery} (h : d' ∈ w.recallDeliveries id) :
    (∃ d ∈ w.deliveries, Keeps d d') ∧ (d'.internalMailId = id → d'.recalledAt.isSome = true) := by
  rcases mem_updateWhere.mp h with ⟨hmem, hno⟩ | ⟨d, hmem, -, rfl⟩
  · refine ⟨⟨d', hmem, rfl, fun h => h⟩, fun hid => ?_⟩
    cases hrecalled : d'.recalledAt with
    | some t => rfl
    | none => simp [hid, hrecalled] at hno
  · exact ⟨⟨d, hmem, rfl, fun _ => rfl⟩, fun _ => rfl⟩

theorem deliveries_exec {d' : InternalMailDelivery} (h : d' ∈ (w.exec cfg c q).1.deliveries) :
    (∃ d ∈ w.deliveries, Keeps d d') ∨
      ∃ userId mailId, q = .createDelivery d'.internalMailId userId mailId := by
  rcases exec_cases cfg c q w with hexec | hexec
  · rw [hexec] at h
    cases q with
    | mail q =>
      obtain ⟨d, hd, rfl⟩ := List.mem_map.mp h
      exact .inl ⟨d, hd, rfl, fun h => h⟩
    | deleteInternalMail id =>
      simp only [InternalMailWorld.deliver] at h
      split at h
      · exact .inl ⟨d', List.mem_of_mem_filter h, rfl, fun h => h⟩
      · exact .inl ⟨d', h, rfl, fun h => h⟩
    | createDelivery id userId mailId =>
      simp only [InternalMailWorld.deliver] at h
      split at h
      · next deliveries hcreate =>
        unfold InternalMailWorld.createDelivery at hcreate
        split at hcreate
        · split at hcreate
          · cases hcreate
          · rw [← Except.ok.inj hcreate] at h
            rcases List.mem_cons.mp h with rfl | h
            · exact .inr ⟨userId, mailId, rfl⟩
            · exact .inl ⟨d', h, rfl, fun h => h⟩
        · cases hcreate
      · exact .inl ⟨d', h, rfl, fun h => h⟩
    | markRecalled id adminUserId reason =>
      simp only [InternalMailWorld.deliver, InternalMailWorld.markRecalled] at h
      by_cases hrow : w.internalMails.any (·.id == id) = true
      · simp only [if_pos hrow] at h
        exact .inl (recallDeliveries_cases h).1
      · simp only [if_neg hrow] at h
        exact .inl ⟨d', h, rfl, fun h => h⟩
    | markDeleted id adminUserId reason recalls =>
      simp only [InternalMailWorld.deliver, InternalMailWorld.markDeleted] at h
      by_cases hrow : w.internalMails.any (·.id == id) = true
      · simp only [if_pos hrow] at h
        cases recalls with
        | true => exact .inl (recallDeliveries_cases h).1
        | false => exact .inl ⟨d', h, rfl, fun h => h⟩
      · simp only [if_neg hrow] at h
        exact .inl ⟨d', h, rfl, fun h => h⟩
    | _ => exact .inl ⟨d', h, rfl, fun h => h⟩
  · rw [hexec] at h
    exact .inl ⟨d', h, rfl, fun h => h⟩

/-- A transaction that marks an internal mail as recalled marks its deliveries. -/
theorem deliveries_marks (hmarks : marks q = some id) (hok : (w.exec cfg c q).2.isOk = true) :
    ∀ d ∈ (w.exec cfg c q).1.deliveries, d.internalMailId = id → d.recalledAt.isSome = true := by
  rcases exec_cases cfg c q w with hexec | hexec
  · rw [hexec] at hok ⊢
    cases q with
    | markRecalled i adminUserId reason =>
      cases hmarks
      simp only [InternalMailWorld.deliver, InternalMailWorld.markRecalled] at hok ⊢
      by_cases hrow : w.internalMails.any (·.id == id) = true
      · simp only [if_pos hrow]
        exact fun d hd => (recallDeliveries_cases hd).2
      · simp only [if_neg hrow] at hok
        cases hok
    | markDeleted i adminUserId reason recalls =>
      cases recalls with
      | false => cases hmarks
      | true =>
        cases hmarks
        simp only [InternalMailWorld.deliver, InternalMailWorld.markDeleted] at hok ⊢
        by_cases hrow : w.internalMails.any (·.id == id) = true
        · simp only [if_pos hrow]
          exact fun d hd => (recallDeliveries_cases hd).2
        · simp only [if_neg hrow] at hok
          cases hok
    | _ => cases hmarks
  · rw [hexec] at hok
    cases hok

/-- The row of an internal mail after a call: as it was, new, or marked as recalled. -/
theorem rows_exec {mail' : InternalMail} (h : mail' ∈ (w.exec cfg c q).1.internalMails) :
    (∃ mail ∈ w.internalMails, mail.id = mail'.id ∧ mail.recalledAt = mail'.recalledAt) ∨
    (mail'.id = w.world.nextId ∧ ∃ row attachments, q = .createInternalMail row attachments ∧
      mail'.recalledAt = row.recalledAt ∧ w.world.nextId < (w.exec cfg c q).1.world.nextId) ∨
    (∃ mail ∈ w.internalMails, mail.id = mail'.id) ∧ marks q = some mail'.id ∧
      (w.exec cfg c q).2.isOk = true := by
  rcases exec_cases cfg c q w with hexec | hexec
  · rw [hexec] at h ⊢
    cases q with
    | createInternalMail row attachments =>
      rcases List.mem_cons.mp h with rfl | h
      · exact .inr (.inl ⟨rfl, row, attachments, rfl, rfl, Nat.lt_succ_self _⟩)
      · exact .inl ⟨mail', h, rfl, rfl⟩
    | deleteInternalMail id =>
      simp only [InternalMailWorld.deliver] at h
      split at h
      · exact .inl ⟨mail', List.mem_of_mem_filter h, rfl, rfl⟩
      · exact .inl ⟨mail', h, rfl, rfl⟩
    | createDelivery id userId mailId =>
      simp only [InternalMailWorld.deliver] at h
      split at h <;> exact .inl ⟨mail', h, rfl, rfl⟩
    | markRecalled id adminUserId reason =>
      simp only [InternalMailWorld.deliver, InternalMailWorld.markRecalled] at h ⊢
      by_cases hrow : w.internalMails.any (·.id == id) = true
      · simp only [if_pos hrow] at h ⊢
        rcases mem_updateWhere.mp h with ⟨hmem, -⟩ | ⟨mail, hmem, hid, rfl⟩
        · exact .inl ⟨mail', hmem, rfl, rfl⟩
        · exact .inr (.inr ⟨⟨mail, hmem, rfl⟩, congrArg some (beq_iff_eq.mp hid).symm, rfl⟩)
      · simp only [if_neg hrow] at h
        exact .inl ⟨mail', h, rfl, rfl⟩
    | markDeleted id adminUserId reason recalls =>
      simp only [InternalMailWorld.deliver, InternalMailWorld.markDeleted] at h ⊢
      by_cases hrow : w.internalMails.any (·.id == id) = true
      · simp only [if_pos hrow] at h ⊢
        rcases mem_updateWhere.mp h with ⟨hmem, -⟩ | ⟨mail, hmem, hid, rfl⟩
        · exact .inl ⟨mail', hmem, rfl, rfl⟩
        · cases recalls with
          | false => exact .inl ⟨mail, hmem, rfl, rfl⟩
          | true =>
            exact .inr (.inr ⟨⟨mail, hmem, rfl⟩, congrArg some (beq_iff_eq.mp hid).symm, rfl⟩)
      · simp only [if_neg hrow] at h
        exact .inl ⟨mail', h, rfl, rfl⟩
    | _ => exact .inl ⟨mail', h, rfl, rfl⟩
  · rw [hexec] at h
    exact .inl ⟨mail', h, rfl, rfl⟩

theorem nextId_exec (cfg : Config) (c : Delivery) (q : InternalMailRequest)
    (w : InternalMailWorld) : w.world.nextId ≤ (w.exec cfg c q).1.world.nextId := by
  rcases exec_cases cfg c q w with hexec | hexec
  · rw [hexec]
    exact nextId_deliver cfg w q
  · rw [hexec]

/-- A name that a call answers with is the next one. -/
theorem createdOf_exec (h : createdOf ⟨p, q, (w.exec cfg c q).2⟩ = some id) :
    id = w.world.nextId ∧ id < (w.exec cfg c q).1.world.nextId := by
  rcases exec_cases cfg c q w with hexec | hexec
  · rw [hexec] at h ⊢
    cases q with
    | createInternalMail row attachments =>
      cases h
      exact ⟨rfl, Nat.lt_succ_self _⟩
    | _ => cases h
  · rw [hexec] at h
    cases q <;> cases h

theorem copyOf_exec (h : copyOf ⟨p, q, (w.exec cfg c q).2⟩ = some id) :
    (∃ mail, q = .mail (.backend (.statement (.createMail mail)))) ∧
      id < (w.exec cfg c q).1.world.nextId := by
  rcases exec_cases cfg c q w with hexec | hexec
  · rw [hexec] at h ⊢
    cases q with
    | mail q =>
      cases q with
      | backend b =>
        cases b with
        | statement st =>
          cases st with
          | createMail mail =>
            refine ⟨⟨mail, rfl⟩, ?_⟩
            cases hr : (w.world.deliver cfg (.statement (.createMail mail))).2 with
            | error e =>
              have hreply : (w.deliver cfg (.mail (.backend (.statement (.createMail mail))))).2 =
                  .error e := hr
              rw [hreply] at h
              cases h
            | ok i =>
              have hreply : (w.deliver cfg (.mail (.backend (.statement (.createMail mail))))).2 =
                  .ok i := hr
              rw [hreply] at h
              obtain rfl : i = id := Option.some.inj h
              obtain ⟨db', hperform⟩ := World.reply_statement hr
              obtain ⟨y, -, hy⟩ := Database.perform_bind hperform
              have hid : i = w.world.nextId := (Prod.mk.inj hy).2
              have hnext : (w.deliver cfg (.mail (.backend (.statement
                  (.createMail mail))))).1.world.nextId = w.world.nextId + 2 := by
                simp only [InternalMailWorld.deliver, World.deliverMail, World.deliver, hperform]
              rw [hnext, hid]
              exact Nat.lt_add_of_pos_right (by decide)
          | _ => cases h
        | _ => cases h
      | _ => cases h
    | _ => cases h
  · rw [hexec] at h
    cases q with
    | mail q =>
      cases q with
      | backend b =>
        cases b with
        | statement st => cases st <;> cases h
        | _ => cases h
      | _ => cases h
    | _ => cases h

theorem mem_copies_cons {m : Id} : m ∈ copies id (e :: log) ↔
    newestOwn createdOf e.pid log = some id ∧ copyOf e = some m ∨ m ∈ copies id log := by
  rw [copies]
  split
  · next h => simp [h]
  · next h => simp [h]

theorem sent_cons : Sent id (e :: log) ↔ createdOf e = some id ∨ Sent id log :=
  List.exists_mem_cons_iff _ _ _

abbrev After (cfg : Config) (c : Delivery) (p : Nat) (q : InternalMailRequest)
    (s : InternalMailShared) : InternalMailShared :=
  (internalMails cfg).after c p q s

/-- Once the deliveries were read, no copy comes. -/
theorem copies_after (hread : s.log.any (reads id) = true) (hrule : undisturbed s p q c = true)
    {m : Id} (h : m ∈ copies id (After cfg c p q s).log) : m ∈ copies id s.log := by
  rcases mem_copies_cons.mp h with ⟨hcreated, hcopy⟩ | h
  · obtain ⟨⟨mail, rfl⟩, -⟩ := copyOf_exec hcopy
    have hcreated : newestOwn createdOf p s.log = some id := hcreated
    rw [undisturbed, hcreated, Option.all_some, hread] at hrule
    cases hrule
  · exact h

theorem Left.after (h : Left id mailIds s) (hi : Inv s) (hrule : undisturbed s p q c = true) :
    Left id mailIds (After cfg c p q s) where
  read := by
    simp only [After, System.after, List.any_cons, h.read, Bool.or_true]
  copies mail hmail hcopy := by
    have hcopy := copies_after h.read hrule hcopy
    rcases mails_exec hmail with hold | hnew
    · exact h.copies mail hold hcopy
    · exact absurd hnew (Nat.ne_of_lt (hi.copies id mail.id hcopy))

theorem Settled.after (h : Settled id s) (hi : Inv s) (hrule : undisturbed s p q c = true) :
    Settled id (After cfg c p q s) where
  left := h.left.after hi hrule
  deliveries d' hd' hid := by
    rcases deliveries_exec hd' with ⟨d, hd, hsame, hkeeps⟩ | ⟨userId, mailId, rfl⟩
    · exact hkeeps (h.deliveries d hd (hsame.trans hid))
    · rw [undisturbed, hid, h.left.read] at hrule
      cases hrule

/-- Marking an internal mail of which nothing is left settles it. -/
theorem Left.settled (h : Left id [] s) (hi : Inv s) (hrule : undisturbed s p q c = true)
    (hmarks : marks q = some id) (hok : (s.store.exec cfg c q).2.isOk = true) :
    Settled id (After cfg c p q s) :=
  ⟨h.after hi hrule, deliveries_marks hmarks hok⟩

theorem Inv.after (hi : Inv s) (hrule : undisturbed s p q c = true) (hp : pre s p q) :
    Inv (After cfg c p q s) where
  rows mail' hmail' := by
    have hnext := nextId_exec cfg c q s.store
    rcases rows_exec hmail' with ⟨mail, hmail, hid, -⟩ | ⟨hid, -, -, -, -, hlt⟩ |
      ⟨⟨mail, hmail, hid⟩, -, -⟩
    · exact hid ▸ Nat.lt_of_lt_of_le (hi.rows mail hmail) hnext
    · exact hid ▸ hlt
    · exact hid ▸ Nat.lt_of_lt_of_le (hi.rows mail hmail) hnext
  sent id hsent := by
    rcases sent_cons.mp hsent with hcreated | hsent
    · exact (createdOf_exec hcreated).2
    · exact Nat.lt_of_lt_of_le (hi.sent id hsent) (nextId_exec cfg c q s.store)
  copies id m hm := by
    rcases mem_copies_cons.mp hm with ⟨-, hcopy⟩ | hm
    · exact (copyOf_exec hcopy).2
    · exact Nat.lt_of_lt_of_le (hi.copies id m hm) (nextId_exec cfg c q s.store)
  recalled mail' hmail' hrecalled hsent := by
    have hold : ∀ mail ∈ s.store.internalMails, mail.id = mail'.id → Sent mail'.id s.log := by
      intro mail hmail hid
      rcases sent_cons.mp hsent with hcreated | hsent
      · exact absurd (hid.trans (createdOf_exec hcreated).1) (Nat.ne_of_lt (hi.rows mail hmail))
      · exact hsent
    rcases rows_exec hmail' with ⟨mail, hmail, hid, hsame⟩ |
      ⟨-, row, attachments, rfl, hsame, -⟩ | ⟨⟨mail, hmail, hid⟩, hmarks, hok⟩
    · have hsettled := hi.recalled mail hmail (hsame ▸ hrecalled) (hid ▸ hold mail hmail hid)
      exact hid ▸ hsettled.after hi hrule
    · rw [hsame, hp.2 row attachments rfl] at hrecalled
      cases hrecalled
    · exact (hp.1 _ hmarks).settled hi hrule hmarks hok

theorem Left.moved {n : Nat} (h : Left id mailIds s) :
    Left id mailIds ((internalMails cfg).moved n s) :=
  ⟨h.read, h.copies⟩

theorem Settled.moved {n : Nat} (h : Settled id s) : Settled id ((internalMails cfg).moved n s) :=
  ⟨h.left.moved, h.deliveries⟩

theorem undisturbed_of_allowed (h : rules.allows s p q c = true) : undisturbed s p q c = true :=
  h

theorem outline_kept : outline.Kept (internalMails cfg) rules where
  after := fun hi ha hp => Inv.after hi (undisturbed_of_allowed ha) hp
  moved := fun hi _ => ⟨hi.rows, hi.sent, hi.copies, fun mail hmail hrecalled hsent =>
    (hi.recalled mail hmail hrecalled hsent).moved⟩

/-- Nothing is left of the internal mail, or it was there before the run. -/
def Done (id : Id) (s : InternalMailShared) : Prop :=
  Settled id s ∨ id < s.store.world.nextId ∧ ¬ Sent id s.log

theorem Done.after (h : Done id s) (hi : Inv s) (hrule : undisturbed s p q c = true) :
    Done id (After cfg c p q s) := by
  rcases h with hsettled | ⟨hused, hunsent⟩
  · exact .inl (hsettled.after hi hrule)
  · refine .inr ⟨Nat.lt_of_lt_of_le hused (nextId_exec cfg c q s.store), fun hsent => ?_⟩
    rcases sent_cons.mp hsent with hcreated | hsent
    · exact absurd (createdOf_exec hcreated).1 (Nat.ne_of_lt hused)
    · exact hunsent hsent

abbrev Steady (cfg : Config) (p : Nat) (F : InternalMailShared → Prop) : Prop :=
  Stable (internalMails cfg) rules outline p F

theorem steady_left : Steady cfg p (Left id mailIds) := by
  intro s s' h hs
  cases h with
  | other _ hi ha => exact hs.after hi (undisturbed_of_allowed ha)
  | drift => exact hs.moved

theorem steady_done : Steady cfg p (Done id) := by
  intro s s' h hs
  cases h with
  | other _ hi ha => exact hs.after hi (undisturbed_of_allowed ha)
  | drift => exact hs.imp_left Settled.moved

/-- A routine of process `p` that ends in `F` where it returns. -/
abbrev Returns (cfg : Config) (p : Nat) {α : Type} (x : InternalMailRoutine α)
    (F : α → InternalMailShared → Prop) (s : InternalMailShared) : Prop :=
  Meets (internalMails cfg) rules outline p x (fun r t => ∀ a, r = .ok a → F a t) s

section
variable {α β : Type} {x : InternalMailRoutine α} {g : α → InternalMailRoutine β}
  {F : α → InternalMailShared → Prop} {G : β → InternalMailShared → Prop}

theorem Returns.throw (e : Thrown) : Returns cfg p (.throw e : InternalMailRoutine α) F s :=
  Meets.throw (Stable.const True) trivial fun _ _ _ _ h => by cases h

theorem Returns.ret {a : α} (hF : Steady cfg p (F a)) (h : F a s) :
    Returns cfg p (.ret a) F s :=
  Meets.ret hF h fun _ ht _ _ ha => by cases ha; exact ht

theorem Returns.bind (hx : Returns cfg p x F s)
    (hg : ∀ a t, Inv t → F a t → Returns cfg p (g a) G t) : Returns cfg p (x.bind g) G s :=
  Meets.returned hx (fun _ _ _ h => by cases h) hg

/-- A call in front of the rest of a routine. -/
theorem Returns.call {q : InternalMailRequest} {g : q.Answer → InternalMailRoutine β}
    {H : InternalMailShared → Prop} (hH : Steady cfg p H) (hs : H s)
    (h : ∀ t, H t → Inv t → ∀ c, undisturbed t p q c = true → pre t p q ∧
      ∀ a, (t.store.exec cfg c q).2 = .ok a → Returns cfg p (g a) G (After cfg c p q t)) :
    Returns cfg p ((awaitInternal q).bind g) G s :=
  Meets.await hH hs fun t ht hi c ha => ⟨(h t ht hi c (undisturbed_of_allowed ha)).1,
    (h t ht hi c (undisturbed_of_allowed ha)).2, fun e _ => Returns.throw e⟩

end

/-- The calls that mark nothing and create no recalled mail. -/
def Plain (q : InternalMailRequest) : Prop :=
  marks q = none ∧ ∀ row attachments, q = .createInternalMail row attachments →
    row.recalledAt = none

theorem Plain.pre (h : Plain q) (p : Nat) : pre s p q :=
  ⟨fun id hmarks => (by rw [h.1] at hmarks; cases hmarks), h.2⟩

theorem plain_of_ne (hmarks : marks q = none)
    (hcreate : ∀ row attachments, q ≠ .createInternalMail row attachments) : Plain q :=
  ⟨hmarks, fun row attachments h => absurd h (hcreate row attachments)⟩

theorem plain_mail {r : MailRequest} : Plain (.mail r) :=
  plain_of_ne rfl (by simp)

theorem liftMailbox_plain {α : Type} (x : MailRoutine α) : (liftMailbox x).Calls Plain :=
  (Prog.calls_true x).expand fun _ _ => ⟨plain_mail, fun _ => trivial⟩

/-- Plain calls keep what is known of an internal mail. -/
theorem Returns.plain {α : Type} {x : InternalMailRoutine α} {F : InternalMailShared → Prop}
    (hx : x.Calls Plain) (hF : Steady cfg p F)
    (own : ∀ t q c, Inv t → undisturbed t p q c = true → F t → F (After cfg c p q t)) (hs : F s) :
    Returns cfg p x (fun _ => F) s :=
  (Meets.frame hx hF (fun t q c hq hi ha ht =>
    ⟨hq.pre p, own t q c hi (undisturbed_of_allowed ha) ht⟩)
    hs).mono fun _ _ _ ht _ _ => ht

/-- What a lookup of an internal mail finds. -/
structure Found (id : Id) (mail : InternalMail) (s : InternalMailShared) : Prop where
  same : mail.id = id
  recalled : mail.recalledAt.isSome = true → Done id s

theorem steady_found {mail : InternalMail} : Steady cfg p (Found id mail) :=
  fun _ _ h hs => ⟨hs.same, fun hrecalled => steady_done h (hs.recalled hrecalled)⟩

theorem findInternalMailOrThrow_returns :
    Returns cfg p (AdminMailsService.findInternalMailOrThrow id) (fun mail => Found id mail) s := by
  refine Returns.call (Stable.const True) trivial fun t _ hi c hrule =>
    ⟨(plain_of_ne rfl (by simp)).pre p, fun found hfound => ?_⟩
  have hfind : found = t.store.internalMails.find? (·.id == id) := by
    rcases exec_cases cfg c (.findInternalMail id) t.store with hexec | hexec
    · rw [hexec] at hfound
      exact (Except.ok.inj hfound).symm
    · rw [hexec] at hfound
      cases hfound
  cases hmail : found with
  | none => exact Returns.throw _
  | some mail =>
    rw [hmail] at hfind
    have hmem := List.mem_of_find?_eq_some hfind.symm
    have hid : mail.id = id := by simpa using List.find?_some hfind.symm
    refine Returns.ret steady_found ⟨hid, fun hrecalled => ?_⟩
    have hdone : Done id t := by
      subst hid
      by_cases hsent : Sent mail.id t.log
      · exact .inl (hi.recalled mail hmem hrecalled hsent)
      · exact .inr ⟨hi.rows mail hmem, hsent⟩
    exact hdone.after hi hrule

/-- The deletion of one copy. -/
theorem deleteMailRecordById_returns {m : Id} (h : Left id (m :: mailIds) s) :
    Returns cfg p (liftMailbox (MailService.deleteMailRecordById m false))
      (fun _ => Left id mailIds) s := by
  rw [MailService.deleteMailRecordById, Prog.bind_eq, MailBroadcast.liftMailbox_bind,
    MailBroadcast.liftMailbox_await]
  refine Returns.call steady_left h fun t h hi c hrule => ⟨plain_mail.pre p, fun found hfound => ?_⟩
  have hafter : Left id (m :: mailIds) (After cfg c p (.mail (.mailById m)) t) :=
    h.after hi hrule
  have hfind : found = t.store.world.db.mails.find? fun mail => mail.id == m := by
    rcases exec_cases cfg c (.mail (.mailById m)) t.store with hexec | hexec
    · rw [hexec] at hfound
      exact (Except.ok.inj hfound).symm
    · rw [hexec] at hfound
      cases hfound
  cases hmail : found with
  | none =>
    rw [hmail] at hfind
    refine Returns.ret steady_left ⟨hafter.read, fun mail hmem hcopy => ?_⟩
    have hmem' : mail ∈ t.store.world.db.mails := by
      rcases exec_cases cfg c (.mail (.mailById m)) t.store with hexec | hexec
      · have hmem : mail ∈ (t.store.exec cfg c (.mail (.mailById m))).1.world.db.mails := hmem
        rw [hexec] at hmem
        exact hmem
      · rw [hexec] at hfound
        cases hfound
    have hne := List.find?_eq_none.mp hfind.symm mail hmem'
    exact (List.mem_cons.mp (hafter.copies mail hmem hcopy)).resolve_left fun heq =>
      hne (beq_iff_eq.mpr heq)
  | some mail =>
    show Returns cfg p (liftMailbox ((MailService.deleteObjects
      (MailService.storageKeys mail)).bind fun _ => awaitMail (.deleteMail m))) _ _
    rw [MailBroadcast.liftMailbox_bind, MailBroadcast.liftMailbox_await]
    refine Returns.bind (Returns.plain (liftMailbox_plain _) steady_left
      (fun _ _ _ hi hrule ht => ht.after hi hrule) hafter) fun _ t hi h => ?_
    rw [← Prog.bind_ret (awaitInternal _)]
    refine Returns.call steady_left h fun t h hi c hrule => ⟨plain_mail.pre p, fun _ hdeleted => ?_⟩
    have hafter : Left id (m :: mailIds) (After cfg c p (.mail (.deleteMail m)) t) :=
      h.after hi hrule
    refine Returns.ret steady_left ⟨hafter.read, fun mail hmem hcopy => ?_⟩
    refine (List.mem_cons.mp (hafter.copies mail hmem hcopy)).resolve_left fun heq => ?_
    have hmem : mail ∈ (t.store.exec cfg c (.mail (.deleteMail m))).1.world.db.mails := hmem
    rcases exec_cases cfg c (.mail (.deleteMail m)) t.store with hexec | hexec
    · rw [hexec] at hmem hdeleted
      by_cases hany : t.store.world.db.mails.any (·.id == m) = true
      · simp only [InternalMailWorld.deliver, World.deliverMail, if_pos hany] at hmem
        have hkept := (List.mem_filter.mp hmem).2
        simp [heq] at hkept
      · simp only [InternalMailWorld.deliver, World.deliverMail, if_neg hany] at hdeleted
        cases hdeleted
    · rw [hexec] at hdeleted
      cases hdeleted

theorem deleteDelivered_returns (h : Left id mailIds s) :
    Returns cfg p (AdminMailsService.deleteDelivered mailIds) (fun _ => Left id []) s := by
  induction mailIds generalizing s with
  | nil => exact Returns.ret steady_left h
  | cons m mailIds ih =>
    exact Returns.bind (deleteMailRecordById_returns h) fun _ t _ ht => ih ht

theorem recallDeliveredInboxCopies_returns :
    Returns cfg p (AdminMailsService.recallDeliveredInboxCopies id) (fun _ => Left id []) s := by
  refine Returns.call (Stable.const True) trivial fun t _ hi c hrule =>
    ⟨(plain_of_ne rfl (by simp)).pre p, fun mailIds hids => ?_⟩
  have hexec : t.store.exec cfg c (.deliveredMailIds id) =
      t.store.deliver cfg (.deliveredMailIds id) := by
    rcases exec_cases cfg c (.deliveredMailIds id) t.store with hexec | hexec
    · exact hexec
    · rw [hexec] at hids
      cases hids
  have hleft : Left id mailIds (After cfg c p (.deliveredMailIds id) t) := by
    refine ⟨?_, fun mail hmem hcopy => ?_⟩
    · refine List.any_eq_true.mpr ⟨_, List.mem_cons_self, ?_⟩
      have hreply : (internalMails cfg).reply c (.deliveredMailIds id) t = .ok mailIds := hids
      rw [hreply]
      exact beq_self_eq_true id
    · have hcopy : mail.id ∈ copies id t.log := by
        rcases mem_copies_cons.mp hcopy with ⟨-, hnone⟩ | hcopy
        · cases hnone
        · exact hcopy
      have hmem : mail ∈ (t.store.exec cfg c (.deliveredMailIds id)).1.world.db.mails := hmem
      rw [hexec] at hmem hids
      have hall := List.all_eq_true.mp hrule mail.id hcopy
      have hthere : t.store.world.db.mails.any (fun x => x.id == mail.id) = true :=
        List.any_eq_true.mpr ⟨mail, hmem, beq_self_eq_true _⟩
      rw [hthere, Bool.not_true, Bool.false_or] at hall
      obtain ⟨d, hd, hdelivery⟩ := List.any_eq_true.mp hall
      obtain ⟨hid, hmail⟩ := Bool.and_eq_true_iff.mp hdelivery
      rw [← Except.ok.inj hids]
      exact List.mem_filterMap.mpr ⟨d, List.mem_filter.mpr ⟨hd, hid⟩, beq_iff_eq.mp hmail⟩
  exact Returns.bind (deleteDelivered_returns hleft) fun _ t _ ht => Returns.ret steady_left ht

/-- The transaction that records a recall or a deletion, once no copy is left. -/
theorem marks_returns {α : Type} {q : InternalMailRequest} {g : q.Answer → InternalMailRoutine α}
    {G : α → InternalMailShared → Prop} (hmarks : marks q = some id)
    (hcreate : ∀ row attachments, q ≠ .createInternalMail row attachments)
    (hleft : Left id [] s) (hg : ∀ a t, Done id t → Returns cfg p (g a) G t) :
    Returns cfg p ((awaitInternal q).bind g) G s := by
  refine Returns.call steady_left hleft fun t hleft hi c hrule =>
    ⟨⟨fun i hi => ?_, fun row attachments heq => absurd heq (hcreate row attachments)⟩,
      fun a ha => hg a _ (.inl (hleft.settled hi hrule hmarks ?_))⟩
  · cases hmarks.symm.trans hi
    exact hleft
  · rw [ha]
    rfl

theorem recallMail_returns {adminUserId : Id} {reason : String} :
    Returns cfg p (AdminMailsService.recallMail adminUserId id reason) (fun _ => Done id) s := by
  refine Returns.bind findInternalMailOrThrow_returns fun mail t _ hfound => ?_
  obtain ⟨rfl, -⟩ := hfound
  refine Meets.throwIf (fun _ => Returns.throw _) fun _ => ?_
  refine Meets.throwIf (fun _ => Returns.throw _) fun _ => ?_
  refine Returns.bind recallDeliveredInboxCopies_returns fun count t _ hleft => ?_
  exact marks_returns rfl (by simp) hleft fun _ _ hdone =>
    Returns.ret steady_done hdone

/-- Deleting the shared attachments comes after all that matters. -/
theorem deleteStoredAttachments_plain (keys : List Id) :
    (AdminMailsService.deleteStoredAttachments keys).Calls Plain :=
  .forEach fun _ => .handle (.await (plain_of_ne rfl (by simp))) fun _ => trivial

theorem deleteMail_returns {adminUserId : Id} :
    Returns cfg p (AdminMailsService.deleteMail adminUserId id) (fun _ => Done id) s := by
  refine Returns.bind findInternalMailOrThrow_returns fun mail t _ hfound => ?_
  obtain ⟨rfl, hrecalled⟩ := hfound
  refine Meets.throwIf (fun _ => Returns.throw _) fun _ => ?_
  have hrest : ∀ (count : Nat) t, Done mail.id t → Returns cfg p (do
      let keys ← awaitInternal (.sharedKeys mail.id)
      AdminMailsService.deleteStoredAttachments keys
      return count : InternalMailRoutine Nat) (fun _ => Done mail.id) t := by
    intro count t hdone
    refine Returns.plain ?_ steady_done (fun _ _ _ hi hrule ht => ht.after hi hrule) hdone
    exact .bind (.await (plain_of_ne rfl (by simp))) fun keys =>
      .bind (deleteStoredAttachments_plain keys) fun _ => trivial
  cases hnone : mail.recalledAt.isNone with
  | true =>
    simp only [if_true]
    refine Returns.bind recallDeliveredInboxCopies_returns fun count t _ hleft => ?_
    exact marks_returns rfl (by simp) hleft fun _ t hdone => hrest count t hdone
  | false =>
    simp only [Bool.false_eq_true, if_false]
    have hdone : Done mail.id t := hrecalled (by rw [← Option.not_isNone, hnone]; rfl)
    have hplain : Plain (.markDeleted mail.id adminUserId "Deleted by admin" false) :=
      plain_of_ne rfl (by simp)
    have hzero : Returns cfg p (.ret 0) (fun (_ : Nat) => Done mail.id) t :=
      Returns.ret steady_done hdone
    refine Returns.bind hzero fun count t _ hdone => ?_
    refine Returns.call steady_done hdone fun t hdone hi c hrule => ⟨hplain.pre p, fun _ _ => ?_⟩
    exact hrest count _ (hdone.after hi hrule)

/-! Sending marks nothing, and what it creates is not recalled. -/

theorem outcome_plain {α : Type} {x : InternalMailRoutine α} (hx : x.Calls Plain) :
    x.outcome.Calls Plain :=
  .handle (.bind hx fun _ => trivial) fun _ => trivial

theorem await_plain {q : InternalMailRequest} (hq : Plain q) : (awaitInternal q).Calls Plain :=
  .await hq

theorem deleteDelivered_plain (delivered : List Id) :
    (AdminMailsService.deleteDelivered delivered).Calls Plain :=
  .forEach fun _ => liftMailbox_plain _

theorem deleteInternalMail_plain (internalMailId : Id) :
    (AdminMailsService.deleteInternalMail internalMailId).Calls Plain :=
  .handle (await_plain (plain_of_ne rfl (by simp))) fun _ => trivial

theorem storeEach_plain (attachments : List UploadedAttachment)
    (stored : List AttachmentMetadata) :
    (AdminMailsService.storeEach attachments stored).Calls Plain := by
  induction attachments generalizing stored with
  | nil => trivial
  | cons attachment rest ih =>
    refine .ite trivial (.bind (outcome_plain ?_) fun r => ?_)
    · exact .bind (await_plain plain_mail) fun _ =>
        .bind (await_plain (plain_of_ne rfl (by simp))) fun _ => trivial
    · cases r with
      | ok metadata => exact ih _
      | error e => trivial

theorem storeUploadedAttachments_plain (attachments : List UploadedAttachment) :
    (AdminMailsService.storeUploadedAttachments attachments).Calls Plain := by
  refine .bind .throwIf fun _ => .bind (storeEach_plain attachments []) fun r => ?_
  obtain ⟨stored, failure⟩ := r
  cases failure with
  | none => trivial
  | some e => exact .bind (deleteStoredAttachments_plain _) fun _ => trivial

theorem deliverEach_plain (cfg : Config) (internalMailId : Id) (sender : AdminMailSender)
    (subject body : String) (users : List User) (delivered : List Id) :
    (AdminMailsService.deliverEach cfg internalMailId sender subject body users delivered).Calls
      Plain := by
  induction users generalizing delivered with
  | nil => trivial
  | cons user rest ih =>
    refine .bind (outcome_plain (liftMailbox_plain _)) fun r => ?_
    cases r with
    | error e => trivial
    | ok mailId =>
      refine .bind (outcome_plain (await_plain (plain_of_ne rfl (by simp)))) fun r => ?_
      cases r with
      | error e => trivial
      | ok _ => exact ih _

theorem cleanUp_plain (delivered keys : List Id) (internalMailId : Option Id) :
    (AdminMailsService.cleanUp delivered keys internalMailId).Calls Plain := by
  refine .bind (deleteDelivered_plain _) fun _ => .bind (deleteStoredAttachments_plain _) fun _ =>
    ?_
  cases internalMailId with
  | none => trivial
  | some id => exact deleteInternalMail_plain id

theorem undoDeliveries_plain (delivered : List Id) (internalMailId : Id) (e : Thrown) :
    (AdminMailsService.undoDeliveries delivered internalMailId e).Calls Plain := by
  refine .bind (outcome_plain (.bind (deleteDelivered_plain _) fun _ =>
    deleteInternalMail_plain _)) fun r => ?_
  cases r <;> trivial

theorem resolveTargetAddress_plain (cfg : Config) (dto : SendAdminMailDto) :
    (AdminMailsService.resolveTargetAddress cfg dto).Calls Plain := by
  unfold AdminMailsService.resolveTargetAddress
  simp only
  refine .ite trivial (.ite trivial ?_)
  split <;> trivial

theorem sendMail_plain (cfg : Config) (adminUserId : Id) (dto : SendAdminMailDto)
    (attachments : List UploadedAttachment) :
    (AdminMailsService.sendMail cfg adminUserId dto attachments).Calls Plain := by
  refine .bind ?_ fun sender => .bind (resolveTargetAddress_plain cfg dto) fun target =>
    .bind ?_ fun users => .bind .throwIf fun _ =>
      .bind (storeUploadedAttachments_plain attachments) fun stored =>
        .bind (outcome_plain (await_plain ⟨rfl, fun row _ h => by cases h; rfl⟩)) fun created => ?_
  · unfold AdminMailsService.findSenderOrThrow
    split <;> trivial
  · exact .bind (await_plain (plain_of_ne rfl (by simp))) fun _ => .bind .throwIf fun _ => trivial
  · cases created with
    | error e => exact .bind (cleanUp_plain _ _ _) fun _ => trivial
    | ok internalMailId =>
      refine .bind (deliverEach_plain _ _ _ _ _ _ _) fun r => ?_
      obtain ⟨delivered, failure⟩ := r
      cases failure with
      | some e =>
        exact .bind (undoDeliveries_plain _ _ _) fun _ =>
          .bind (cleanUp_plain _ _ _) fun _ => trivial
      | none =>
        refine .bind (outcome_plain (await_plain plain_mail)) fun r => ?_
        cases r with
        | error e => exact .bind (cleanUp_plain _ _ _) fun _ => trivial
        | ok _ => trivial

end

/-- In every run in which each copy has its delivery when the deliveries are read, and none comes
afterwards, an internal mail that was recalled or deleted has no surviving copies. -/
theorem stays_recalled {cfg : Config} {start : InternalMailWorld} {s : InternalMailPool}
    {as : List (Action InternalMailOperation Delivery Nat)}
    (hstart : ∀ mail ∈ start.internalMails, mail.id < start.world.nextId)
    (h : (internalMails cfg).run rules (.initial start) as = some s) : StaysRecalled s := by
  have hinitial : Inv (.initial start) := {
    rows := hstart
    sent := fun _ ⟨_, he, _⟩ => by cases he
    copies := fun _ _ hm => by cases hm
    recalled := fun _ _ _ ⟨_, he, _⟩ => by cases he }
  have hrespects : s.Respects (internalMails cfg) rules outline fun _ op r t =>
      ∀ id, Recalls id op → ∀ a, r = .ok a → Done id t := by
    refine Pool.Respects.run outline_kept (fun t p op _ _ _ => ?_)
      (Pool.Respects.initial hinitial) h
    have hplain : ∀ {x : InternalMailRoutine InternalMailOutcome}, x.Calls Plain →
        (∀ id, ¬ Recalls id op) → Meets (internalMails cfg) rules outline p x (fun r t =>
          ∀ id, Recalls id op → ∀ a, r = .ok a → Done id t) t := by
      intro x hx hno
      exact (Meets.frame hx (Stable.const True) (fun _ _ _ hq _ _ _ => ⟨hq.pre p, trivial⟩)
        trivial).mono fun _ _ _ _ id hid => absurd hid (hno id)
    cases op with
    | sendMail adminUserId dto attachments =>
      exact hplain (.bind (sendMail_plain _ _ _ _) fun _ => trivial) fun _ => id
    | deleteOwnMail userId mailId =>
      exact hplain (.bind (liftMailbox_plain _) fun _ => trivial) fun _ => id
    | recallMail adminUserId id reason =>
      have hdone : Returns cfg p (InternalMailOperation.program cfg
          (.recallMail adminUserId id reason)) (fun _ => Done id) t :=
        Returns.bind recallMail_returns fun _ _ _ ht => Returns.ret steady_done ht
      exact hdone.mono fun r u _ hu i hi a ha => by cases hi; exact hu a ha
    | deleteMail adminUserId id =>
      have hdone : Returns cfg p (InternalMailOperation.program cfg
          (.deleteMail adminUserId id)) (fun _ => Done id) t :=
        Returns.bind deleteMail_returns fun _ _ _ ht => Returns.ret steady_done ht
      exact hdone.mono fun r u _ hu i hi a ha => by cases hi; exact hu a ha
  intro id op count hrecalls hmem hsent _
  obtain ⟨p, hp⟩ := List.getElem?_of_mem hmem
  rcases hrespects.returned hp id hrecalls _ rfl with hsettled | ⟨-, hunsent⟩
  · exact ⟨fun mail hmail hcopy => List.not_mem_nil (hsettled.left.copies mail hmail hcopy),
      hsettled.deliveries⟩
  · exact absurd hsent hunsent

def emptyMailboxes : InternalMailWorld := ⟨demoWorld, [], [], [], ∅⟩

def sendToAlice : Action InternalMailOperation Delivery Nat :=
  .start (.sendMail 2 ⟨"admin", some "alice@redbox.cx", [], false, "News", "Hello", false,
    none, []⟩ [])

def recallSent : Action InternalMailOperation Delivery Nat := .start (.recallMail 2 100 "mistake")

/-- The internal mail is recalled once it is sent. -/
def sentThenRecalled : List (Action InternalMailOperation Delivery Nat) :=
  sendToAlice :: List.replicate 9 (.advance 0 .delivered) ++
    recallSent :: List.replicate 6 (.advance 1 .delivered)

theorem stays_recalled_sent : ∃ s, (internalMails demoConfig).run rules
    (.initial emptyMailboxes) sentThenRecalled = some s ∧ s.idle = true ∧ StaysRecalled s := by
  have key : ((internalMails demoConfig).run rules (.initial emptyMailboxes) sentThenRecalled).any
      Pool.idle = true := by decide +kernel
  obtain ⟨s, hs, hidle⟩ := (Option.any_eq_true _ _).mp key
  exact ⟨s, hs, hidle, stays_recalled (fun _ h => by cases h) hs⟩

/-- The internal mail is recalled after the copy was created and before its delivery is. -/
def recalledBetween : List (Action InternalMailOperation Delivery Nat) :=
  sendToAlice :: List.replicate 7 (.advance 0 .delivered) ++
    recallSent :: List.replicate 3 (.advance 1 .delivered) ++ List.replicate 2 (.advance 0 .delivered)

/-- The process has recalled the internal mail. -/
def hasRecalled (id : Id) : InternalMailOperation × InternalMailRoutine InternalMailOutcome → Bool
  | (.recallMail _ i _, .ret (.recalled _)) => i == id
  | _ => false

theorem eq_of_hasRecalled {id : Id}
    {proc : InternalMailOperation × InternalMailRoutine InternalMailOutcome}
    (h : hasRecalled id proc = true) :
    ∃ op count, Recalls id op ∧ proc = (op, .ret (.recalled count)) := by
  obtain ⟨op, x⟩ := proc
  cases op with
  | recallMail adminUserId i reason =>
    cases x with
    | ret outcome =>
      cases outcome with
      | recalled count => exact ⟨.recallMail adminUserId i reason, count, beq_iff_eq.mp h, rfl⟩
      | _ => cases h
    | _ => cases h
  | _ => cases h

theorem quiet_of_idle {s : InternalMailPool} (h : s.idle = true) (id : Id) : Quiet id s := by
  intro p op q k hp
  have := List.all_eq_true.mp h _ (List.mem_of_getElem? hp)
  cases this

theorem recalled_between_survives : ∃ s, (internalMails demoConfig).run anyOrder
    (.initial emptyMailboxes) recalledBetween = some s ∧ ¬ StaysRecalled s := by
  have key : ((internalMails demoConfig).run anyOrder (.initial emptyMailboxes)
      recalledBetween).any (fun s => s.idle && s.procs.any (hasRecalled 100) &&
        s.shared.log.any (fun e => createdOf e == some 100) &&
        s.shared.store.deliveries.any fun d => d.internalMailId == 100 && d.recalledAt.isNone) =
          true := by
    decide +kernel
  obtain ⟨s, hs, hx⟩ := (Option.any_eq_true _ _).mp key
  simp only [Bool.and_eq_true] at hx
  obtain ⟨⟨⟨hidle, hproc⟩, hsent⟩, hdelivery⟩ := hx
  refine ⟨s, hs, fun hstays => ?_⟩
  obtain ⟨proc, hmem, hproc⟩ := List.any_eq_true.mp hproc
  obtain ⟨op, count, hrecalls, rfl⟩ := eq_of_hasRecalled hproc
  obtain ⟨e, he, hcreated⟩ := List.any_eq_true.mp hsent
  have hrecalled := hstays 100 op count hrecalls hmem ⟨e, he, beq_iff_eq.mp hcreated⟩
    (quiet_of_idle hidle 100)
  obtain ⟨d, hd, hopen⟩ := List.any_eq_true.mp hdelivery
  obtain ⟨hid, hnone⟩ := Bool.and_eq_true_iff.mp hopen
  have hsome := hrecalled.deliveries d hd (beq_iff_eq.mp hid)
  rw [Option.isNone_iff_eq_none.mp hnone] at hsome
  cases hsome

end RecalledMails
end Redbox
