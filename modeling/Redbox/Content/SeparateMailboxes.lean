import Redbox.Content.MailActions
import Mathlib.Data.List.Nodup

/-! Mailboxes are separate: a request changes the mails of its own user and no others, and
these by what it was asked for. -/
namespace Redbox.MailActions
open Interleaving

/-- What identifies a mail, and what never changes of it. -/
structure Card where
  id : Id
  userId : Id
  storageKeys : List Id

def MailRow.card (mail : MailRow) : Card := ⟨mail.id, mail.userId, mail.storageKeys⟩

namespace Mailroom

def cards (s : Mailroom) : List Card := s.mails.map MailRow.card

def mailsOf (s : Mailroom) (userId : Id) : List MailRow := s.mails.filter (·.userId == userId)

end Mailroom

/-- The mails of a user are as they were, and so are the objects that they name. -/
def Untouched (userId : Id) (s t : Mailroom) : Prop :=
  t.mailsOf userId = s.mailsOf userId ∧ ∀ mail ∈ s.mailsOf userId, ∀ key ∈ mail.storageKeys,
    key ∈ s.bucket → key ∈ t.bucket

/-- What a user sees of a mail. -/
structure Entry where
  id : Id
  folder : Folder
  isRead : Bool
  deriving DecidableEq

def MailRow.folder (mail : MailRow) : Folder :=
  if mail.isSpam then .spam else if mail.isArchived then .archive else .inbox

def MailRow.entry (mail : MailRow) : Entry := ⟨mail.id, mail.folder, mail.isRead⟩

/-- What can happen to a mailbox, in the words of its user. -/
inductive Change where
  | receive (id : Id)
  | mark (ids : List Id) (isRead : Bool)
  | move (ids : List Id) (folder : Folder)
  | archive (ids : List Id)
  | remove (ids : List Id)

/-- Mail in the spam folder cannot be archived. -/
def Change.apply : Change → List Entry → List Entry
  | receive id, box => box ++ [⟨id, .inbox, false⟩]
  | mark ids isRead, box => updateWhere (ids.contains ·.id) (fun e => { e with isRead }) box
  | move ids folder, box => updateWhere (ids.contains ·.id) (fun e => { e with folder }) box
  | archive ids, box => updateWhere (fun e => ids.contains e.id && decide (e.folder ≠ .spam))
      (fun e => { e with folder := .archive }) box
  | remove ids, box => box.filter fun e => !ids.contains e.id

def boxOf (userId : Id) (mails : List MailRow) : List Entry :=
  (mails.filter (·.userId == userId)).map MailRow.entry

def Mailroom.box (s : Mailroom) (userId : Id) : List Entry := boxOf userId s.mails

/-- What a request asks for. -/
def MailOperation.Asks : MailOperation → Change → Prop
  | storeMailboxMailForUser _ _ _ _, c => ∃ id, c = .receive id
  | getSingleMail _ mailId, c => c = .mark [mailId] true
  | setReadStatus _ mailId isRead, c => c = .mark [mailId] isRead
  | moveMail _ mailId folder, c => c = .move [mailId] folder
  | deleteMail _ mailId, c => c = .remove [mailId]
  | bulkSetReadStatus _ mailIds isRead, c => c = .mark mailIds isRead
  | bulkMoveMails _ mailIds folder, c => c = .move mailIds folder
  | bulkArchiveMails _ mailIds, c => c = .archive mailIds
  | bulkDeleteMails _ mailIds, c => c = .remove mailIds

/-- In every run each step of a request leaves the mailboxes of the other users alone. -/
def MailboxesSeparate (R : MailRules) : Prop :=
  ∀ as s p d s' op x userId, mailroom.run R (.initial .empty) as = some s →
    s.procs[p]? = some (op, x) → mailroom.step R s (.advance p d) = some s' → userId ≠ op.userId →
    Untouched userId s.shared.store s'.shared.store

/-- In every run each step of a request changes the mailbox of its user as asked for, if at all. -/
def MailboxesObey (R : MailRules) : Prop :=
  ∀ as s p d s' op x, mailroom.run R (.initial .empty) as = some s →
    s.procs[p]? = some (op, x) → mailroom.step R s (.advance p d) = some s' →
    s'.shared.store.box op.userId = s.shared.store.box op.userId ∨
    ∃ c, op.Asks c ∧ s'.shared.store.box op.userId = c.apply (s.shared.store.box op.userId)

namespace MailOperation

/-- What the statement of a request does to the rows that it names. -/
inductive Effect where
  | create
  | update (data : MailUpdate)
  | remove

def mailIds : MailOperation → List Id
  | storeMailboxMailForUser _ _ _ _ => []
  | getSingleMail _ mailId | setReadStatus _ mailId _ | moveMail _ mailId _ | deleteMail _ mailId =>
    [mailId]
  | bulkSetReadStatus _ mailIds _ | bulkMoveMails _ mailIds _ | bulkArchiveMails _ mailIds
  | bulkDeleteMails _ mailIds => mailIds

def effect : MailOperation → Effect
  | storeMailboxMailForUser _ _ _ _ => .create
  | getSingleMail _ _ => .update ⟨some true, none, none⟩
  | setReadStatus _ _ isRead | bulkSetReadStatus _ _ isRead => .update ⟨some isRead, none, none⟩
  | moveMail _ _ folder | bulkMoveMails _ _ folder => .update (MailService.folderData folder)
  | bulkArchiveMails _ _ => .update ⟨none, some true, none⟩
  | deleteMail _ _ | bulkDeleteMails _ _ => .remove

end MailOperation

namespace MailCall

def user : MailCall → Option Id
  | receive userId | create userId _ _ _ _ | findFirst userId _ | findMany userId _
  | updateMany userId _ _ | deleteMany userId _ => some userId
  | _ => none

def ids : MailCall → Option (List Id)
  | findFirst _ mailId | update mailId _ => some [mailId]
  | findMany _ mailIds | updateMany _ mailIds _ | deleteMany _ mailIds => some mailIds
  | _ => none

def effect : MailCall → Option MailOperation.Effect
  | create _ _ _ _ _ => some .create
  | update _ data | updateMany _ _ data => some (.update data)
  | delete _ | deleteMany _ _ => some .remove
  | _ => none

/-- The keys that a new row names. -/
def names : MailCall → List Id
  | create _ _ _ storageKey attachments => storageKey :: attachments
  | _ => []

end MailCall

/-- The calls that a request can make. -/
structure Issues (op : MailOperation) (q : MailCall) : Prop where
  user : ∀ u, q.user = some u → u = op.userId
  ids : ∀ ids, q.ids = some ids → ids = op.mailIds
  effect : ∀ e, q.effect = some e → e = op.effect

section
variable {op : MailOperation} {q : MailCall} {n : Nat} {keys : List Id}

/-- Calls that name neither a user nor a mail. -/
theorem Issues.of_none (hu : q.user = none) (hi : q.ids = none) (he : q.effect = none) :
    Issues op q :=
  ⟨fun _ h => absurd (hu.symm.trans h) nofun, fun _ h => absurd (hi.symm.trans h) nofun,
    fun _ h => absurd (he.symm.trans h) nofun⟩

theorem deleteObjects_issues : (MailService.deleteObjects keys).Calls (Issues op) :=
  .forEach fun _ => .handle (.await (.of_none rfl rfl rfl)) fun _ => trivial

theorem storeAttachments_issues : (MailService.storeAttachments n).Calls (Issues op) := by
  induction n with
  | zero => trivial
  | succ n ih =>
    exact .bind (.await (.of_none rfl rfl rfl)) fun _ =>
      .bind (.await (.of_none rfl rfl rfl)) fun _ => .bind ih fun _ => trivial

theorem updateMail_issues {userId mailId : Id} {data : MailUpdate} (hu : userId = op.userId)
    (hi : [mailId] = op.mailIds) (he : .update data = op.effect) :
    (MailService.updateMail userId mailId data).Calls (Issues op) := by
  refine .bind (.await ⟨?_, ?_, nofun⟩) fun r => ?_
  · rintro u ⟨⟩
    exact hu
  · rintro ids ⟨⟩
    exact hi
  · cases r with
    | none => trivial
    | some mail =>
      refine .await ⟨nofun, ?_, ?_⟩
      · rintro ids ⟨⟩
        exact hi
      · rintro e ⟨⟩
        exact he

theorem updateMany_issues {userId : Id} {ids : List Id} {data : MailUpdate}
    (hu : userId = op.userId) (hi : ids = op.mailIds) (he : .update data = op.effect) :
    (await (.updateMany userId ids data)).Calls (Issues op) := by
  refine .await ⟨?_, ?_, ?_⟩
  · rintro u ⟨⟩
    exact hu
  · rintro ids ⟨⟩
    exact hi
  · rintro e ⟨⟩
    exact he

theorem deleteMailRecordById_issues {mailId : Id} (he : .remove = op.effect) :
    (MailService.deleteMailRecordById mailId).Calls (Issues op) := by
  refine .bind (.await (.of_none rfl rfl rfl)) fun r => ?_
  cases r with
  | none => trivial
  | some mail =>
    refine .bind deleteObjects_issues fun _ => .await ⟨nofun, nofun, ?_⟩
    rintro e ⟨⟩
    exact he

theorem routine_issues (op : MailOperation) : op.routine.Calls (Issues op) := by
  cases op with
  | storeMailboxMailForUser userId subject sender attachments =>
    refine .bind (.bind (.await (.of_none rfl rfl rfl)) fun _ =>
      .bind (.await (.of_none rfl rfl rfl)) fun _ =>
      .bind storeAttachments_issues fun _ => .await ⟨?_, nofun, ?_⟩) fun _ => trivial
    · rintro u ⟨⟩
      rfl
    · rintro e ⟨⟩
      rfl
  | getSingleMail userId mailId =>
    refine .bind (.await (.of_none rfl rfl rfl)) fun r => ?_
    cases r with
    | none => trivial
    | some mail =>
      refine .bind .throwIf fun _ => .ite trivial (.await ⟨nofun, ?_, ?_⟩)
      · rintro ids ⟨⟩
        rfl
      · rintro e ⟨⟩
        rfl
  | setReadStatus userId mailId isRead => exact updateMail_issues rfl rfl rfl
  | moveMail userId mailId folder => exact updateMail_issues rfl rfl rfl
  | deleteMail userId mailId =>
    refine .bind (.await ⟨?_, ?_, nofun⟩) fun r => ?_
    · rintro u ⟨⟩
      rfl
    · rintro ids ⟨⟩
      rfl
    · cases r with
      | none => trivial
      | some mail => exact deleteMailRecordById_issues rfl
  | bulkSetReadStatus userId mailIds isRead =>
    exact .bind (updateMany_issues rfl rfl rfl) fun _ => trivial
  | bulkMoveMails userId mailIds folder =>
    exact .bind (updateMany_issues rfl rfl rfl) fun _ => trivial
  | bulkArchiveMails userId mailIds =>
    exact .bind (updateMany_issues rfl rfl rfl) fun _ => trivial
  | bulkDeleteMails userId mailIds =>
    refine .bind (.bind (.await ⟨?_, ?_, nofun⟩) fun mails =>
      .bind deleteObjects_issues fun _ => .await ⟨?_, ?_, ?_⟩) fun _ => trivial
    · rintro u ⟨⟩
      rfl
    · rintro ids ⟨⟩
      rfl
    · rintro u ⟨⟩
      rfl
    · rintro ids ⟨⟩
      rfl
    · rintro e ⟨⟩
      rfl

theorem program_issues (op : MailOperation) : op.program.Calls (Issues op) := by
  refine .bind (.await ⟨?_, nofun, nofun⟩) fun _ => routine_issues op
  rintro u ⟨⟩
  rfl

end

section
variable {p : Nat} {log : List MailEvent} {e : MailEvent} {s : SharedMail} {q : MailCall}
  {d : Delivery} {key mailId u : Id}

/-- The process serves a request of the user. -/
def Serves (p : Nat) (userId : Id) (log : List MailEvent) : Prop :=
  ∃ e ∈ log, e.pid = p ∧ e.req = .receive userId

/-- It has looked for the mail among those of a user. -/
def Looked (p : Nat) (mailId : Id) (log : List MailEvent) : Prop :=
  ∃ e ∈ log, e.pid = p ∧ ∃ userId, e.req = .findFirst userId mailId

def MailEvent.drawn : MailEvent → Option Id
  | ⟨_, .uuidv4, .ok key⟩ => some key
  | _ => none

def Drew (p : Nat) (key : Id) (log : List MailEvent) : Prop :=
  ∃ e ∈ log, e.pid = p ∧ MailEvent.drawn e = some key

/-- The key stands in a row that somebody has tried to create. -/
def Named (key : Id) (log : List MailEvent) : Prop := ∃ e ∈ log, key ∈ e.req.names

/-- The mail, while it is there, is one of the user. -/
def Belongs (userId mailId : Id) (s : Mailroom) : Prop :=
  mailId < s.nextId ∧ ∀ c ∈ s.cards, c.id = mailId → c.userId = userId

/-- The key stands in no row but one of the user, now and later. -/
def KeyOf (userId key : Id) (s : SharedMail) : Prop :=
  Named key s.log ∧ ∀ c ∈ s.store.cards, key ∈ c.storageKeys → c.userId = userId

/-- The process has drawn the key, and nobody has used it. -/
def Reserved (p : Nat) (key : Id) (s : SharedMail) : Prop :=
  Drew p key s.log ∧ ¬ Named key s.log

structure Inv (s : SharedMail) : Prop where
  ids : (s.store.cards.map Card.id).Nodup
  fresh : ∀ c ∈ s.store.cards, c.id < s.store.nextId
  drawn : ∀ p key, Drew p key s.log → key < s.store.nextId
  once : ∀ p p' key, Drew p key s.log → Drew p' key s.log → p = p'
  used : ∀ key, Named key s.log → key < s.store.nextId
  named : ∀ c ∈ s.store.cards, ∀ key ∈ c.storageKeys, Named key s.log
  own : ∀ c ∈ s.store.cards, ∀ c' ∈ s.store.cards, ∀ key ∈ c.storageKeys, key ∈ c'.storageKeys →
    c = c'

def Pre (s : SharedMail) (p : Nat) : MailCall → Prop
  | .create _ _ _ storageKey attachments => ∀ key ∈ storageKey :: attachments, Reserved p key s
  | .update mailId _ => ∃ userId, Serves p userId s.log ∧ Belongs userId mailId s.store
  | .delete mailId => Looked p mailId s.log ∧ ∃ userId, Serves p userId s.log ∧
    Belongs userId mailId s.store
  | .deleteObject key => ∃ userId, Serves p userId s.log ∧ KeyOf userId key s
  | _ => True

def outline : Outline MailCall MailReply Mailroom := ⟨Inv, Pre⟩

theorem Serves.cons (h : Serves p u log) : Serves p u (e :: log) :=
  h.imp fun _ he => ⟨List.mem_cons_of_mem _ he.1, he.2⟩

theorem Looked.cons (h : Looked p mailId log) : Looked p mailId (e :: log) :=
  h.imp fun _ he => ⟨List.mem_cons_of_mem _ he.1, he.2⟩

theorem Drew.cons (h : Drew p key log) : Drew p key (e :: log) :=
  h.imp fun _ he => ⟨List.mem_cons_of_mem _ he.1, he.2⟩

theorem Named.cons (h : Named key log) : Named key (e :: log) :=
  h.imp fun _ he => ⟨List.mem_cons_of_mem _ he.1, he.2⟩

theorem named_cons : Named key (e :: log) ↔ key ∈ e.req.names ∨ Named key log := by
  simp [Named]

theorem drew_cons : Drew p key (e :: log) ↔ e.pid = p ∧ MailEvent.drawn e = some key ∨
    Drew p key log := by
  simp [Drew]

namespace Mailroom

/-- A call takes effect or none. -/
theorem exec_fst (d : Delivery) (q : MailCall) (s : Mailroom) :
    (s.exec d q).1 = s ∨ (s.exec d q).1 = (s.perform q).1 := by
  cases d with
  | failed => exact .inl rfl
  | delivered => exact .inr rfl
  | lost => exact .inr rfl
  | late => exact .inr rfl

theorem map_card_updateWhere (f : MailRow → Bool) (data : MailUpdate) (rows : List MailRow) :
    (updateWhere f data.apply rows).map MailRow.card = rows.map MailRow.card := by
  rw [updateWhere, List.map_map]
  refine List.map_congr_left fun r _ => ?_
  rw [Function.comp_apply]
  split <;> rfl

/-- Rows are added by `create`, and otherwise only lost. -/
theorem cards_exec (d : Delivery) (q : MailCall) (s : Mailroom) :
    (s.exec d q).1.cards.Sublist s.cards ∨
    ∃ userId subject sender storageKey attachments,
      q = .create userId subject sender storageKey attachments ∧
      (s.exec d q).1.cards = s.cards ++ [⟨s.nextId, userId, storageKey :: attachments⟩] ∧
      (s.exec d q).1.nextId = s.nextId + 1 := by
  rcases exec_fst d q s with h | h
  · rw [h]
    exact .inl (List.Sublist.refl _)
  · rw [h]
    cases q with
    | create userId subject sender storageKey attachments =>
      exact .inr ⟨userId, subject, sender, storageKey, attachments, rfl,
        List.map_append, rfl⟩
    | update mailId data =>
      refine .inl ?_
      unfold perform
      dsimp only
      split
      · rw [cards, map_card_updateWhere]
        exact List.Sublist.refl _
      · exact List.Sublist.refl _
    | updateMany userId mailIds data =>
      refine .inl ?_
      rw [cards, perform, map_card_updateWhere]
      exact List.Sublist.refl _
    | delete mailId =>
      refine .inl ?_
      unfold perform
      dsimp only
      split
      · exact List.filter_sublist.map _
      · exact List.Sublist.refl _
    | deleteMany userId mailIds => exact .inl (List.filter_sublist.map _)
    | _ => exact .inl (List.Sublist.refl _)

theorem nextId_exec (d : Delivery) (q : MailCall) (s : Mailroom) :
    s.nextId ≤ (s.exec d q).1.nextId := by
  rcases exec_fst d q s with h | h
  · rw [h]
  · rw [h]
    cases q with
    | uuidv4 => exact Nat.le_succ _
    | create userId subject sender storageKey attachments => exact Nat.le_succ _
    | update mailId data => unfold perform; dsimp only; split <;> exact Nat.le_refl _
    | delete mailId => unfold perform; dsimp only; split <;> exact Nat.le_refl _
    | _ => exact Nat.le_refl _

end Mailroom

/-- A key that is drawn is the next one. -/
theorem drawn_after (h : MailEvent.drawn ⟨p, q, mailroom.reply d q s⟩ = some key) :
    key = s.store.nextId ∧ (mailroom.after d p q s).store.nextId = s.store.nextId + 1 := by
  cases q with
  | uuidv4 =>
    cases d with
    | failed => cases h
    | lost => cases h
    | delivered => exact ⟨(Option.some.inj h).symm, rfl⟩
    | late => exact ⟨(Option.some.inj h).symm, rfl⟩
  | _ => cases h

theorem Belongs.after (h : Belongs u mailId s.store) :
    Belongs u mailId (mailroom.after d p q s).store := by
  have hnext : s.store.nextId ≤ (mailroom.after d p q s).store.nextId := s.store.nextId_exec d q
  refine ⟨h.1.trans_le hnext, fun c hc hid => ?_⟩
  rcases s.store.cards_exec d q with hsub | ⟨_, _, _, _, _, -, hcards, -⟩
  · exact h.2 c (hsub.subset hc) hid
  · rcases List.mem_append.mp ((congrArg (c ∈ ·) hcards).mp hc) with hc | hc
    · exact h.2 c hc hid
    · obtain rfl := List.mem_singleton.mp hc
      exact absurd hid (Nat.ne_of_gt h.1)

theorem KeyOf.after (hp : Pre s p q) (h : KeyOf u key s) :
    KeyOf u key (mailroom.after d p q s) := by
  refine ⟨h.1.cons, fun c hc hkey => ?_⟩
  rcases s.store.cards_exec d q with hsub | ⟨_, _, _, _, _, rfl, hcards, -⟩
  · exact h.2 c (hsub.subset hc) hkey
  · rcases List.mem_append.mp ((congrArg (c ∈ ·) hcards).mp hc) with hc | hc
    · exact h.2 c hc hkey
    · obtain rfl := List.mem_singleton.mp hc
      exact absurd h.1 (hp key hkey).2

/-- A process names only keys that it has reserved. -/
theorem Pre.reserved (hp : Pre s p q) (hkey : key ∈ q.names) : Reserved p key s := by
  cases q with
  | create userId subject sender storageKey attachments => exact hp key hkey
  | _ => exact absurd hkey List.not_mem_nil

theorem Inv.after (hs : Inv s) (hp : Pre s p q) : Inv (mailroom.after d p q s) := by
  have hnext : s.store.nextId ≤ (mailroom.after d p q s).store.nextId := s.store.nextId_exec d q
  have hnew : ∀ p' key, Drew p' key (mailroom.after d p q s).log → Drew p' key s.log ∨
      p' = p ∧ key = s.store.nextId ∧
      (mailroom.after d p q s).store.nextId = s.store.nextId + 1 := by
    intro p' key h
    rcases drew_cons.mp h with ⟨hpid, hdrawn⟩ | h
    · exact .inr ⟨hpid.symm, drawn_after hdrawn⟩
    · exact .inl h
  have hold : ∀ {p' key}, Drew p' key s.log → key ≠ s.store.nextId :=
    fun h => Nat.ne_of_lt (hs.drawn _ _ h)
  have hdrawn : ∀ p' key, Drew p' key (mailroom.after d p q s).log →
      key < (mailroom.after d p q s).store.nextId := by
    intro p' key h
    rcases hnew p' key h with h | ⟨-, rfl, hsucc⟩
    · exact (hs.drawn _ _ h).trans_le hnext
    · exact Nat.lt_of_lt_of_eq (Nat.lt_succ_self _) hsucc.symm
  have honce : ∀ p₁ p₂ key, Drew p₁ key (mailroom.after d p q s).log →
      Drew p₂ key (mailroom.after d p q s).log → p₁ = p₂ := by
    intro p₁ p₂ key h₁ h₂
    rcases hnew p₁ key h₁ with h₁ | ⟨rfl, hkey, -⟩
    · rcases hnew p₂ key h₂ with h₂ | ⟨-, hkey, -⟩
      · exact hs.once _ _ _ h₁ h₂
      · exact absurd hkey (hold h₁)
    · rcases hnew p₂ key h₂ with h₂ | ⟨rfl, -, -⟩
      · exact absurd hkey (hold h₂)
      · rfl
  have hused : ∀ key, Named key (mailroom.after d p q s).log →
      key < (mailroom.after d p q s).store.nextId := by
    intro key h
    rcases named_cons.mp h with hnames | h
    · exact (hs.drawn _ _ (Pre.reserved hp hnames).1).trans_le hnext
    · exact (hs.used _ h).trans_le hnext
  rcases s.store.cards_exec d q with hsub | ⟨userId, _, _, storageKey, attachments, rfl, hcards,
    hnext'⟩
  · exact ⟨hs.ids.sublist (hsub.map _), fun c hc => (hs.fresh c (hsub.subset hc)).trans_le hnext,
      hdrawn, honce, hused, fun c hc key hkey => (hs.named c (hsub.subset hc) key hkey).cons,
      fun c hc c' hc' => hs.own c (hsub.subset hc) c' (hsub.subset hc')⟩
  · have hunnamed : ∀ c ∈ s.store.cards, ∀ key ∈ c.storageKeys, key ∉ storageKey :: attachments :=
      fun c hc key hkey hmem => (hp key hmem).2 (hs.named c hc key hkey)
    have hcards' : (mailroom.after d p (.create userId _ _ storageKey attachments) s).store.cards =
      _ := hcards
    refine ⟨?_, ?_, hdrawn, honce, hused, ?_, ?_⟩
    · rw [hcards', List.map_append, List.nodup_append]
      refine ⟨hs.ids, List.nodup_singleton _, fun i hi j hj => ?_⟩
      obtain ⟨c, hc, rfl⟩ := List.mem_map.mp hi
      obtain rfl := List.mem_singleton.mp hj
      exact Nat.ne_of_lt (hs.fresh c hc)
    · rw [hcards', List.forall_mem_append]
      refine ⟨fun c hc => (hs.fresh c hc).trans_le hnext, fun c hc => ?_⟩
      obtain rfl := List.mem_singleton.mp hc
      exact Nat.lt_of_lt_of_eq (Nat.lt_succ_self _) hnext'.symm
    · rw [hcards', List.forall_mem_append]
      refine ⟨fun c hc key hkey => (hs.named c hc key hkey).cons, fun c hc key hkey => ?_⟩
      obtain rfl := List.mem_singleton.mp hc
      exact named_cons.mpr (.inl hkey)
    · rw [hcards']
      intro c hc c' hc' key hkey hkey'
      rcases List.mem_append.mp hc with hc | hc
      · rcases List.mem_append.mp hc' with hc' | hc'
        · exact hs.own c hc c' hc' key hkey hkey'
        · obtain rfl := List.mem_singleton.mp hc'
          exact absurd hkey' (hunnamed c hc key hkey)
      · rcases List.mem_append.mp hc' with hc' | hc'
        · obtain rfl := List.mem_singleton.mp hc
          exact absurd hkey (hunnamed c' hc' key hkey')
        · rw [List.mem_singleton.mp hc, List.mem_singleton.mp hc']

theorem outline_kept : outline.Kept mailroom anyRequests :=
  ⟨fun hs _ hp => hs.after hp, fun hs _ => ⟨hs.ids, hs.fresh, hs.drawn, hs.once, hs.used,
    hs.named, hs.own⟩⟩

variable {P : MailCall → Prop} {F : SharedMail → Prop} {mail : MailRow} {keys : List Id}
  {α : Type}

/-- What no call breaks. -/
theorem held (after : ∀ s p' q d, Inv s → Pre s p' q → F s → F (mailroom.after d p' q s))
    (moved : ∀ s n, F s → F (mailroom.moved n s)) :
    Held mailroom anyRequests outline p P F := by
  refine ⟨fun s s' h hs => ?_, fun _ hi _ hp hs => after _ _ _ _ hi hp hs⟩
  cases h with
  | other _ hi _ hp => exact after _ _ _ _ hi hp hs
  | drift => exact moved _ _ hs

theorem serves_held : Held mailroom anyRequests outline p P fun s => Serves p u s.log :=
  held (fun _ _ _ _ _ _ h => h.cons) fun _ _ h => h

theorem looked_held : Held mailroom anyRequests outline p P fun s => Looked p mailId s.log :=
  held (fun _ _ _ _ _ _ h => h.cons) fun _ _ h => h

theorem belongs_held : Held mailroom anyRequests outline p P fun s => Belongs u mailId s.store :=
  held (fun _ _ _ _ _ _ h => h.after) fun _ _ h => h

theorem keyOf_held : Held mailroom anyRequests outline p P (KeyOf u key) :=
  held (fun _ _ _ _ _ hp h => h.after hp) fun _ _ h => h

/-- A key that is drawn stays reserved until its process names it. -/
theorem reserved_held : Held mailroom anyRequests outline p (fun q => q.names = [])
    (Reserved p key) := by
  refine ⟨fun s s' h hs => ?_, fun hq _ _ _ hs => ⟨hs.1.cons, fun h => ?_⟩⟩
  · cases h with
    | other ne hi _ hp =>
      refine ⟨hs.1.cons, fun h => ?_⟩
      rcases named_cons.mp h with hnames | h
      · exact ne (hi.once _ _ _ (Pre.reserved hp hnames).1 hs.1)
      · exact hs.2 h
    | drift => exact hs
  · rcases named_cons.mp h with hnames | h
    · exact absurd (hq ▸ hnames) List.not_mem_nil
    · exact hs.2 h

theorem Inv.belongs (hs : Inv s) (hmail : mail ∈ s.store.mails) :
    Belongs mail.userId mail.id s.store := by
  have hcard : mail.card ∈ s.store.cards := List.mem_map_of_mem hmail
  refine ⟨hs.fresh _ hcard, fun c hc hid => ?_⟩
  rw [List.inj_on_of_nodup_map hs.ids hc hcard hid]
  rfl

theorem Inv.keyOf (hs : Inv s) (hmail : mail ∈ s.store.mails) (hkey : key ∈ mail.storageKeys) :
    KeyOf mail.userId key s := by
  have hcard : mail.card ∈ s.store.cards := List.mem_map_of_mem hmail
  refine ⟨hs.named _ hcard key hkey, fun c hc hkey' => ?_⟩
  rw [hs.own c hc _ hcard key hkey' hkey]
  rfl

/-- What a call that was answered replied. -/
theorem reply_ok {a : q.Answer} (h : mailroom.reply d q s = .ok a) :
    (s.store.perform q).2 = .ok a ∧ (mailroom.after d p q s).store = (s.store.perform q).1 := by
  cases d with
  | failed => cases h
  | lost => cases h
  | delivered => exact ⟨h, rfl⟩
  | late => exact ⟨h, rfl⟩

theorem findFirst_reply (h : mailroom.reply d (.findFirst u mailId) s = .ok (some mail)) :
    mail ∈ s.store.mails ∧ mail.id = mailId ∧ mail.userId = u := by
  have hfound : s.store.mails.find? (fun m => m.id == mailId && m.userId == u) = some mail :=
    Except.ok.inj (reply_ok (p := 0) h).1
  have hmatch := List.find?_some hfound
  rw [Bool.and_eq_true, beq_iff_eq, beq_iff_eq] at hmatch
  exact ⟨List.mem_of_find?_eq_some hfound, hmatch⟩

theorem findUnique_reply (h : mailroom.reply d (.findUnique mailId) s = .ok (some mail)) :
    mail ∈ s.store.mails ∧ mail.id = mailId := by
  have hfound : s.store.mails.find? (·.id == mailId) = some mail :=
    Except.ok.inj (reply_ok (p := 0) h).1
  have hmatch := List.find?_some hfound
  exact ⟨List.mem_of_find?_eq_some hfound, beq_iff_eq.mp hmatch⟩

theorem uuidv4_reply (h : mailroom.reply d .uuidv4 s = .ok key) :
    Drew p key (mailroom.after d p .uuidv4 s).log := by
  refine ⟨⟨p, .uuidv4, mailroom.reply d .uuidv4 s⟩, List.mem_cons_self, rfl, ?_⟩
  rw [h]
  rfl

/-- The key that a process draws is its own. -/
theorem Inv.reserved (hs : Inv s) (h : mailroom.reply d .uuidv4 s = .ok key) :
    Reserved p key (mailroom.after d p .uuidv4 s) := by
  refine ⟨uuidv4_reply h, fun hnamed => ?_⟩
  have hkey : key = s.store.nextId := (Except.ok.inj (reply_ok (p := p) h).1).symm
  rcases named_cons.mp hnamed with hnames | hnamed
  · cases hnames
  · exact Nat.ne_of_lt (hs.used _ hnamed) hkey

/-- The objects of a mail are deleted by its owner's request. -/
theorem deleteObjects_meets {f : Unit → MailRoutine α} (hF : Held mailroom anyRequests outline p
      (fun _ => True) F) (hi : Inv s) (hs : F s)
    (hkeys : ∀ t, F t → ∀ key ∈ keys, ∃ u, Serves p u t.log ∧ KeyOf u key t)
    (hf : ∀ t, Inv t → F t → Follows mailroom anyRequests outline p (f ()) t) :
    Follows mailroom anyRequests outline p ((MailService.deleteObjects keys).bind f) s := by
  have hcalls : (MailService.deleteObjects keys).Calls fun q => ∃ key ∈ keys,
      q = .deleteObject key :=
    .forEachMem fun key hkey => .handle (.await ⟨key, hkey, rfl⟩) fun _ => trivial
  refine Meets.heldBind outline_kept hi hF hcalls (fun _ _ => trivial) ?_ hs (fun _ _ _ => trivial)
    fun _ t hit ht => hf t hit ht
  rintro t _ c ⟨key, hkey, rfl⟩ _ ht _
  exact hkeys t ht key hkey

/-- A call in front of the rest: what its reply says, the process knows from then on. -/
theorem follows_await {f : q.Answer → MailRoutine α}
    (hF : Held mailroom anyRequests outline p (fun q => q.names = []) F) (hq : q.names = [])
    (hpre : ∀ t, Inv t → F t → Pre t p q) (hs : F s)
    (hf : ∀ a t d, Inv t → Inv (mailroom.after d p q t) → F t → F (mailroom.after d p q t) →
      mailroom.reply d q t = .ok a →
      Follows mailroom anyRequests outline p (f a) (mailroom.after d p q t)) :
    Follows mailroom anyRequests outline p ((await q).bind f) s :=
  Follows.await hF.stable hs fun t ht hi d ha => ⟨hpre t hi ht, fun a h =>
    hf a t d hi (hi.after (hpre t hi ht)) ht (hF.own hq hi ha (hpre t hi ht) ht) h⟩

/-- The last call of a routine. -/
theorem follows_last (hF : Stable mailroom anyRequests outline p F)
    (hpre : ∀ t, Inv t → F t → Pre t p q) (hs : F s) :
    Follows mailroom anyRequests outline p (await q) s := by
  rw [← Prog.bind_ret (await q)]
  exact Follows.await hF hs fun t ht hi _ _ => ⟨hpre t hi ht, fun _ _ => .ret⟩

/-- What the process knows of the mail that it works on. -/
theorem work_held : Held mailroom anyRequests outline p P
    fun s => Serves p u s.log ∧ Belongs u mailId s.store :=
  serves_held.and belongs_held

theorem updateMail_follows {data : MailUpdate} (hs : Serves p u s.log) :
    Follows mailroom anyRequests outline p (MailService.updateMail u mailId data) s := by
  refine follows_await serves_held rfl (fun _ _ _ => trivial) hs fun found t d hi hi' _ ht hr => ?_
  cases found with
  | none => exact .throw
  | some mail =>
    obtain ⟨hmail, rfl, rfl⟩ := findFirst_reply hr
    exact follows_last (work_held (P := fun _ => True)).stable (fun t _ h => ⟨_, h⟩)
      ⟨ht, (hi.belongs hmail).after⟩

theorem getSingleMail_follows (hs : Serves p u s.log) :
    Follows mailroom anyRequests outline p (MailService.getSingleMail u mailId) s := by
  refine follows_await serves_held rfl (fun _ _ _ => trivial) hs fun found t d hi hi' _ ht hr => ?_
  cases found with
  | none => exact .throw
  | some mail =>
    obtain ⟨hmail, rfl⟩ := findUnique_reply hr
    refine .throwIf fun howner => .ite (fun _ => .ret) fun _ => ?_
    obtain rfl := not_not.mp howner
    exact follows_last (work_held (P := fun _ => True)).stable (fun t _ h => ⟨_, h⟩)
      ⟨ht, (hi.belongs hmail).after⟩

theorem deleteMailRecordById_follows (hs : Serves p u s.log ∧ Belongs u mailId s.store ∧
      Looked p mailId s.log) :
    Follows mailroom anyRequests outline p (MailService.deleteMailRecordById mailId) s := by
  have hF : ∀ P, Held mailroom anyRequests outline p P fun s => Serves p u s.log ∧
      Belongs u mailId s.store ∧ Looked p mailId s.log :=
    fun _ => serves_held.and (belongs_held.and looked_held)
  refine follows_await (hF _) rfl (fun _ _ _ => trivial) hs fun found t d hi hi' ht ht' hr => ?_
  cases found with
  | none => exact .throw
  | some mail =>
    obtain ⟨hmail, rfl⟩ := findUnique_reply hr
    have howner : mail.userId = u := ht.2.1.2 mail.card (List.mem_map_of_mem hmail) rfl
    have hkeys : ∀ key : {key // key ∈ mail.storageKeys},
        KeyOf u key (mailroom.after d p (.findUnique mail.id) t) := by
      intro key
      have hkey : KeyOf mail.userId key t := hi.keyOf hmail key.2
      exact howner ▸ hkey.after trivial
    refine deleteObjects_meets ((hF _).and (Held.all fun _ => keyOf_held)) hi'
      ⟨ht', hkeys⟩ (fun t ht key hkey => ⟨u, ht.1.1, ht.2 ⟨key, hkey⟩⟩) fun t hi ht => ?_
    exact follows_last (hF (fun _ => True)).stable
      (fun t _ h => ⟨h.2.2, u, h.1, h.2.1⟩) ht.1

theorem deleteMail_follows (hs : Serves p u s.log) :
    Follows mailroom anyRequests outline p (MailService.deleteMail u mailId) s := by
  refine follows_await serves_held rfl (fun _ _ _ => trivial) hs fun found t d hi hi' _ ht hr => ?_
  cases found with
  | none => exact .throw
  | some mail =>
    obtain ⟨hmail, rfl, rfl⟩ := findFirst_reply hr
    exact deleteMailRecordById_follows ⟨ht, (hi.belongs hmail).after,
      ⟨p, _, _⟩, List.mem_cons_self, rfl, _, rfl⟩

theorem bulkDeleteMails_follows {ids : List Id} (hs : Serves p u s.log) :
    Follows mailroom anyRequests outline p (MailService.bulkDeleteMails u ids) s := by
  refine follows_await serves_held rfl (fun _ _ _ => trivial) hs fun mails t d hi hi' _ ht hr => ?_
  have hmails : t.store.mails.filter (Mailroom.isAmong u ids) = mails :=
    Except.ok.inj (reply_ok (p := p) hr).1
  have hkeys : ∀ key : {key // key ∈ mails.flatMap MailRow.storageKeys},
      KeyOf u key (mailroom.after d p (.findMany u ids) t) := by
    rintro ⟨key, hkey⟩
    obtain ⟨mail, hmail, hkey⟩ := List.mem_flatMap.mp hkey
    obtain ⟨hmem, hamong⟩ := List.mem_filter.mp (hmails ▸ hmail)
    have howner : mail.userId = u := beq_iff_eq.mp (Bool.and_eq_true_iff.mp hamong).2
    exact howner ▸ (hi.keyOf hmem hkey).after trivial
  exact deleteObjects_meets (serves_held.and (Held.all fun _ => keyOf_held)) hi' ⟨ht, hkeys⟩
    (fun t ht key hkey => ⟨u, ht.1, ht.2 ⟨key, hkey⟩⟩)
    fun t _ _ => follows_last (Stable.const True) (fun _ _ _ => trivial) trivial

/-- The keys of the attachments are reserved one after the other. -/
theorem storeAttachments_follows {n : Nat} {f : List Id → MailRoutine α}
    (hF : Held mailroom anyRequests outline p (fun q => q.names = []) F) (hs : F s)
    (hf : ∀ keys t, F t → (∀ key : {key // key ∈ keys}, Reserved p key t) →
      Follows mailroom anyRequests outline p (f keys) t) :
    Follows mailroom anyRequests outline p ((MailService.storeAttachments n).bind f) s := by
  induction n generalizing F f s with
  | zero => exact hf [] s hs fun key => absurd key.2 List.not_mem_nil
  | succ n ih =>
    rw [MailService.storeAttachments, Prog.bind_eq, Prog.bind_assoc]
    refine follows_await hF rfl (fun _ _ _ => trivial) hs fun key t d hi hi' _ ht hr => ?_
    rw [Prog.bind_eq, Prog.bind_assoc]
    refine follows_await (hF.and reserved_held) rfl (fun _ _ _ => trivial)
      ⟨ht, hi.reserved hr⟩ fun _ t d _ _ _ ht _ => ?_
    rw [Prog.bind_eq, Prog.bind_assoc]
    refine ih (hF.and reserved_held) ht fun keys t ht hkeys => hf (key :: keys) t ht.1 ?_
    rintro ⟨key', hkey'⟩
    rcases List.mem_cons.mp hkey' with rfl | hkey'
    · exact ht.2
    · exact hkeys ⟨key', hkey'⟩

theorem storeMailboxMailForUser_follows {subject sender : String} {n : Nat}
    (hs : Serves p u s.log) :
    Follows mailroom anyRequests outline p
      (MailService.storeMailboxMailForUser u subject sender n) s := by
  refine follows_await serves_held rfl (fun _ _ _ => trivial) hs fun key t d hi _ _ ht hr => ?_
  refine follows_await reserved_held rfl (fun _ _ _ => trivial) (hi.reserved hr)
    fun _ t d _ _ _ ht _ => ?_
  refine storeAttachments_follows reserved_held ht fun keys t ht hkeys => ?_
  refine follows_last (F := fun t => ∀ k : {k // k ∈ key :: keys}, Reserved p k t)
    (Stable.all fun _ => reserved_held.stable) (fun t _ h k hk => h ⟨k, hk⟩) ?_
  rintro ⟨k, hk⟩
  rcases List.mem_cons.mp hk with rfl | hk
  · exact ht
  · exact hkeys ⟨k, hk⟩

/-- A routine of calls that need no care. -/
theorem follows_calls {x : MailRoutine α} (hx : x.Calls fun q => ∀ t, Pre t p q) :
    Follows mailroom anyRequests outline p x s :=
  Meets.frame hx (Stable.const True) (fun _ _ _ hq _ _ _ => ⟨hq _, trivial⟩) trivial

/-- The routine in front of a result that is dropped. -/
theorem follows_dropped {x : MailRoutine α} (hi : Inv s)
    (h : Follows mailroom anyRequests outline p x s) :
    Follows mailroom anyRequests outline p (x.bind fun _ => .ret ()) s :=
  Follows.bind (F := fun _ => True) outline_kept hi h fun _ _ _ _ => .ret

theorem routine_follows (op : MailOperation) (hi : Inv s) (hs : Serves p op.userId s.log) :
    Follows mailroom anyRequests outline p op.routine s := by
  cases op with
  | storeMailboxMailForUser userId subject sender n =>
    exact follows_dropped hi (storeMailboxMailForUser_follows hs)
  | getSingleMail userId mailId => exact getSingleMail_follows hs
  | setReadStatus userId mailId isRead => exact updateMail_follows hs
  | moveMail userId mailId folder => exact updateMail_follows hs
  | deleteMail userId mailId => exact deleteMail_follows hs
  | bulkSetReadStatus userId mailIds isRead =>
    exact follows_dropped hi (follows_calls (.await fun _ => trivial))
  | bulkMoveMails userId mailIds folder =>
    exact follows_dropped hi (follows_calls (.await fun _ => trivial))
  | bulkArchiveMails userId mailIds =>
    exact follows_dropped hi (follows_calls (.await fun _ => trivial))
  | bulkDeleteMails userId mailIds => exact follows_dropped hi (bulkDeleteMails_follows hs)

theorem program_safe (op : MailOperation) : Safe mailroom anyRequests outline op.program := by
  intro p s hi
  refine follows_await (Held.const True) rfl (fun _ _ _ => trivial) trivial
    fun _ t d _ hi' _ _ _ => routine_follows op hi' ?_
  exact ⟨⟨p, _, _⟩, List.mem_cons_self, rfl, rfl⟩

theorem inv_initial : Inv (.initial .empty) := by
  refine ⟨List.nodup_nil, fun c hc => ?_, fun _ _ h => ?_, fun _ _ _ h => ?_, fun _ h => ?_,
    fun c hc => ?_, fun c hc => ?_⟩
  · cases hc
  · obtain ⟨e, he, -⟩ := h
    cases he
  · obtain ⟨e, he, -⟩ := h
    cases he
  · obtain ⟨e, he, -⟩ := h
    cases he
  · cases hc
  · cases hc

end

/-- The mails that a request is about. -/
structure Targets (op : MailOperation) (mails : List MailRow) (f : MailRow → Bool) : Prop where
  own : ∀ mail ∈ mails, f mail = true → mail.userId = op.userId
  named : ∀ mail ∈ mails, mail.userId = op.userId → f mail = op.mailIds.contains mail.id

/-- All that a call of a request can do to the table. -/
inductive Acts (op : MailOperation) (mails : List MailRow) : List MailRow → Prop where
  | none : Acts op mails mails
  | create {mail : MailRow} (effect : op.effect = .create) (user : mail.userId = op.userId)
      (fresh : mail.folder = .inbox ∧ mail.isRead = false) : Acts op mails (mails ++ [mail])
  | update {data : MailUpdate} {f : MailRow → Bool} (effect : op.effect = .update data)
      (targets : Targets op mails f) : Acts op mails (updateWhere f data.apply mails)
  | remove {f : MailRow → Bool} (effect : op.effect = .remove) (targets : Targets op mails f) :
      Acts op mails (mails.filter fun mail => !f mail)

section
variable {op : MailOperation} {p : Nat} {q : MailCall} {d : Delivery} {s : SharedMail}
  {mails mails' : List MailRow} {f : MailRow → Bool} {userId : Id}

/-- What the history says of the process of a request. -/
structure Serving (op : MailOperation) (p : Nat) (log : List MailEvent) : Prop where
  user : ∀ u, Serves p u log → u = op.userId
  mail : ∀ mailId, Looked p mailId log → [mailId] = op.mailIds

theorem Targets.one {mailId : Id} (hids : [mailId] = op.mailIds)
    (h : Belongs op.userId mailId s.store) : Targets op s.store.mails (·.id == mailId) := by
  refine ⟨fun mail hmail hid => ?_, fun mail _ _ => ?_⟩
  · exact h.2 mail.card (List.mem_map_of_mem hmail) (beq_iff_eq.mp hid)
  · rw [← hids, List.contains_cons]
    simp

theorem Targets.many : Targets op mails (Mailroom.isAmong op.userId op.mailIds) := by
  refine ⟨fun mail _ h => ?_, fun mail _ h => ?_⟩
  · exact beq_iff_eq.mp (Bool.and_eq_true_iff.mp h).2
  · rw [Mailroom.isAmong, h, beq_self_eq_true, Bool.and_true]

theorem acts_after (hp : Pre s p q) (hq : Issues op q) (hl : Serving op p s.log) :
    Acts op s.store.mails (mailroom.after d p q s).store.mails := by
  have hstore : (mailroom.after d p q s).store = (s.store.exec d q).1 := rfl
  rw [hstore]
  rcases s.store.exec_fst d q with h | h
  · rw [h]
    exact .none
  · rw [h]
    cases q with
    | create u subject sender storageKey attachments =>
      exact .create (hq.effect _ rfl).symm (hq.user u rfl) ⟨rfl, rfl⟩
    | update mailId data =>
      obtain ⟨u, hserves, hbelongs⟩ := hp
      unfold Mailroom.perform
      dsimp only
      split
      · exact .update (hq.effect _ rfl).symm (.one (hq.ids _ rfl) (hl.user u hserves ▸ hbelongs))
      · exact .none
    | updateMany u mailIds data =>
      obtain rfl := hq.user u rfl
      obtain rfl := hq.ids mailIds rfl
      exact .update (hq.effect _ rfl).symm .many
    | delete mailId =>
      obtain ⟨hlooked, u, hserves, hbelongs⟩ := hp
      unfold Mailroom.perform
      dsimp only
      split
      · exact .remove (hq.effect _ rfl).symm (.one (hl.mail _ hlooked)
          (hl.user u hserves ▸ hbelongs))
      · exact .none
    | deleteMany u mailIds =>
      obtain rfl := hq.user u rfl
      obtain rfl := hq.ids mailIds rfl
      exact .remove (hq.effect _ rfl).symm .many
    | _ => exact .none

/-- An object goes only when it is deleted. -/
theorem bucket_after {key : Id} (hkey : key ∈ s.store.bucket) :
    key ∈ (mailroom.after d p q s).store.bucket ∨ q = .deleteObject key := by
  have hstore : (mailroom.after d p q s).store = (s.store.exec d q).1 := rfl
  rw [hstore]
  rcases s.store.exec_fst d q with h | h
  · rw [h]
    exact .inl hkey
  · rw [h]
    cases q with
    | putObject k => exact .inl (List.mem_cons_of_mem _ hkey)
    | deleteObject k =>
      by_cases hk : key = k
      · exact .inr (hk ▸ rfl)
      · exact .inl (List.mem_filter.mpr ⟨hkey, bne_iff_ne.mpr hk⟩)
    | update mailId data => unfold Mailroom.perform; dsimp only; split <;> exact .inl hkey
    | delete mailId => unfold Mailroom.perform; dsimp only; split <;> exact .inl hkey
    | _ => exact .inl hkey

/-- An update of rows that are none of the user's. -/
theorem filter_updateWhere_other {data : MailUpdate}
    (h : ∀ mail ∈ mails, f mail = true → mail.userId ≠ userId) :
    (updateWhere f data.apply mails).filter (·.userId == userId) =
      mails.filter (·.userId == userId) := by
  induction mails with
  | nil => rfl
  | cons mail mails ih =>
    rw [List.forall_mem_cons] at h
    have hrest := ih h.2
    rw [updateWhere] at hrest ⊢
    rw [List.map_cons]
    by_cases hf : f mail = true
    · have hne : (mail.userId == userId) = false := beq_false_of_ne (h.1 hf)
      have hne' : ((data.apply mail).userId == userId) = false := hne
      rw [if_pos hf, List.filter_cons_of_neg (by rw [hne']; exact Bool.false_ne_true),
        List.filter_cons_of_neg (by rw [hne]; exact Bool.false_ne_true), hrest]
    · rw [if_neg hf, List.filter_cons, List.filter_cons, hrest]

theorem Acts.other (h : Acts op mails mails') (hne : userId ≠ op.userId) :
    mails'.filter (·.userId == userId) = mails.filter (·.userId == userId) := by
  cases h with
  | none => rfl
  | @create mail _ hu _ =>
    rw [List.filter_append, List.filter_singleton, hu, beq_false_of_ne hne.symm]
    exact List.append_nil _
  | update _ ht =>
    exact filter_updateWhere_other fun mail hmail hf => (ht.own mail hmail hf).symm ▸ hne.symm
  | @remove f _ ht =>
    rw [List.filter_filter]
    refine List.filter_congr fun mail hmail => ?_
    cases hf : f mail with
    | false => exact Bool.and_true _
    | true =>
      rw [ht.own mail hmail hf, beq_false_of_ne hne.symm]
      rfl

end

/-- A step of a request, with all that is known of it. -/
theorem step_issued {as : List (Action MailOperation Delivery Nat)} {s s' : MailPool} {p : Nat}
    {d : Delivery} {op : MailOperation} {x : MailRoutine Unit}
    (h : mailroom.run anyRequests (.initial .empty) as = some s) (hp : s.procs[p]? = some (op, x))
    (hstep : mailroom.step anyRequests s (.advance p d) = some s') :
    ∃ q, s'.shared = mailroom.after d p q s.shared ∧ Inv s.shared ∧ Pre s.shared p q ∧
      Issues op q ∧ Serving op p s.shared.log := by
  have hr : s.Respects mailroom anyRequests outline fun _ _ _ _ => True :=
    Safe.run outline_kept program_safe inv_initial h
  have hc : s.Called Issues := Pool.Called.run program_issues h
  obtain ⟨_, ha, -⟩ | ⟨_, _, op', q, k, ha, hp', hallowed, rfl⟩ | ⟨_, ha, -⟩ :=
    System.step_cases hstep
  · cases ha
  · cases ha
    obtain ⟨rfl, rfl⟩ := Prod.mk.inj (Option.some.inj (hp.symm.trans hp'))
    have hmade : ∀ e ∈ s.shared.log, e.pid = p → Issues op e.req := by
      intro e he hpid
      obtain ⟨op', _, hop', hissues⟩ := hc.made e he
      obtain ⟨rfl, -⟩ := Prod.mk.inj (Option.some.inj (hp.symm.trans (hpid ▸ hop')))
      exact hissues
    refine ⟨q, rfl, hr.inv, hr.call hp hallowed, (hc.left p op _ hp).1, ?_, ?_⟩
    · rintro u ⟨e, he, hpid, hreq⟩
      exact (hmade e he hpid).user u (by rw [hreq]; rfl)
    · rintro mailId ⟨e, he, hpid, u, hreq⟩
      exact (hmade e he hpid).ids _ (by rw [hreq]; rfl)
  · cases ha

/-- A request leaves the mailboxes of all other users as they are, with their objects. -/
theorem mailboxes_separate : MailboxesSeparate anyRequests := by
  intro as s p d s' op x userId h hp hstep hne
  obtain ⟨q, hs', hi, hpre, hissues, hserving⟩ := step_issued h hp hstep
  rw [hs']
  refine ⟨(acts_after hpre hissues hserving).other hne, fun mail hmail key hkey hbucket => ?_⟩
  rcases bucket_after (p := p) (q := q) (d := d) hbucket with h | rfl
  · exact h
  · obtain ⟨u, hserves, hkeyOf⟩ := hpre
    obtain ⟨hmem, howner⟩ := List.mem_filter.mp hmail
    have hu : mail.userId = u := hkeyOf.2 mail.card (List.mem_map_of_mem hmem) hkey
    exact absurd ((beq_iff_eq.mp howner).symm.trans (hu.trans (hserving.user u hserves))) hne

section
variable {op : MailOperation} {mails mails' : List MailRow} {f : MailRow → Bool} {userId : Id}
  {data : MailUpdate} {isRead : Bool} {folder : Folder} {ids : List Id}

/-- An update of rows as their owner sees it. -/
theorem boxOf_updateWhere {c : Entry → Bool} {g : Entry → Entry}
    (h : ∀ mail ∈ mails, mail.userId = userId →
      (if f mail then data.apply mail else mail).entry =
      if c mail.entry then g mail.entry else mail.entry) :
    boxOf userId (updateWhere f data.apply mails) = updateWhere c g (boxOf userId mails) := by
  induction mails with
  | nil => rfl
  | cons mail mails ih =>
    rw [List.forall_mem_cons] at h
    have hrest := ih h.2
    have hsame : (if f mail then data.apply mail else mail).userId = mail.userId := by
      split <;> rfl
    unfold boxOf updateWhere at hrest ⊢
    rw [List.map_cons, List.filter_cons, List.filter_cons, hsame]
    by_cases howner : mail.userId = userId
    · rw [if_pos (beq_iff_eq.mpr howner), if_pos (beq_iff_eq.mpr howner), List.map_cons,
        List.map_cons, List.map_cons, hrest, h.1 howner]
    · rw [if_neg (mt beq_iff_eq.mp howner), if_neg (mt beq_iff_eq.mp howner), hrest]

theorem Targets.mark (ht : Targets op mails f) :
    boxOf op.userId (updateWhere f (MailUpdate.apply ⟨some isRead, none, none⟩) mails) =
      (Change.mark op.mailIds isRead).apply (boxOf op.userId mails) := by
  refine boxOf_updateWhere fun mail hmail howner => ?_
  rw [ht.named mail hmail howner]
  show _ = if op.mailIds.contains mail.id then _ else _
  split <;> rfl

theorem folder_move (folder : Folder) (mail : MailRow) :
    ((MailService.folderData folder).apply mail).folder = folder := by
  cases folder <;> rfl

theorem Targets.move (ht : Targets op mails f) :
    boxOf op.userId (updateWhere f (MailService.folderData folder).apply mails) =
      (Change.move op.mailIds folder).apply (boxOf op.userId mails) := by
  refine boxOf_updateWhere fun mail hmail howner => ?_
  rw [ht.named mail hmail howner]
  show _ = if op.mailIds.contains mail.id then _ else _
  split
  · rw [MailRow.entry, folder_move]
    rfl
  · rfl

theorem Targets.archive (ht : Targets op mails f) :
    boxOf op.userId (updateWhere f (MailUpdate.apply ⟨none, some true, none⟩) mails) =
      (Change.archive op.mailIds).apply (boxOf op.userId mails) := by
  refine boxOf_updateWhere fun mail hmail howner => ?_
  rw [ht.named mail hmail howner]
  show _ = if op.mailIds.contains mail.id && decide (mail.folder ≠ .spam) then _ else _
  cases hspam : mail.isSpam with
  | true => split <;> simp [MailRow.entry, MailRow.folder, MailUpdate.apply, hspam]
  | false =>
    have hfolder : mail.folder ≠ .spam := by
      unfold MailRow.folder
      rw [hspam]
      cases mail.isArchived <;> decide
    rw [decide_eq_true hfolder, Bool.and_true]
    split <;> simp [MailRow.entry, MailRow.folder, MailUpdate.apply, hspam]

theorem Targets.remove (ht : Targets op mails f) :
    boxOf op.userId (mails.filter fun mail => !f mail) =
      (Change.remove op.mailIds).apply (boxOf op.userId mails) := by
  show (List.filter _ (List.filter _ mails)).map _ =
    ((mails.filter _).map MailRow.entry).filter fun e => !op.mailIds.contains e.id
  rw [List.filter_filter, List.filter_map, List.filter_filter]
  refine congrArg _ (List.filter_congr fun mail hmail => ?_)
  cases howner : mail.userId == op.userId with
  | false => rw [Bool.false_and, Bool.and_false]
  | true =>
    rw [ht.named mail hmail (beq_iff_eq.mp howner), Bool.true_and, Bool.and_true]
    rfl

/-- What a call does to the table is what its request asks for. -/
theorem Acts.asked (h : Acts op mails mails') : boxOf op.userId mails' = boxOf op.userId mails ∨
    ∃ c, op.Asks c ∧ boxOf op.userId mails' = c.apply (boxOf op.userId mails) := by
  cases h with
  | none => exact .inl rfl
  | @create mail effect user fresh =>
    refine .inr ⟨.receive mail.id, ?_, ?_⟩
    · cases op with
      | storeMailboxMailForUser => exact ⟨_, rfl⟩
      | _ => cases effect
    · rw [boxOf, List.filter_append, List.map_append, List.filter_singleton, user, beq_self_eq_true]
      show _ ++ [(⟨mail.id, mail.folder, mail.isRead⟩ : Entry)] = _
      rw [fresh.1, fresh.2]
      rfl
  | update effect ht =>
    cases op with
    | storeMailboxMailForUser => cases effect
    | getSingleMail => cases effect; exact .inr ⟨_, rfl, ht.mark⟩
    | setReadStatus => cases effect; exact .inr ⟨_, rfl, ht.mark⟩
    | moveMail => cases effect; exact .inr ⟨_, rfl, ht.move⟩
    | deleteMail => cases effect
    | bulkSetReadStatus => cases effect; exact .inr ⟨_, rfl, ht.mark⟩
    | bulkMoveMails => cases effect; exact .inr ⟨_, rfl, ht.move⟩
    | bulkArchiveMails => cases effect; exact .inr ⟨_, rfl, ht.archive⟩
    | bulkDeleteMails => cases effect
  | remove effect ht =>
    cases op with
    | deleteMail => exact .inr ⟨_, rfl, ht.remove⟩
    | bulkDeleteMails => exact .inr ⟨_, rfl, ht.remove⟩
    | _ => cases effect

end

/-- A request changes the mailbox of its user, if at all, by what it asks for. -/
theorem mailboxes_obey : MailboxesObey anyRequests := by
  intro as s p d s' op x h hp hstep
  obtain ⟨q, hs', -, hpre, hissues, hserving⟩ := step_issued h hp hstep
  rw [hs']
  exact (acts_after hpre hissues hserving).asked

end Redbox.MailActions
