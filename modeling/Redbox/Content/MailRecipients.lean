import Redbox.Backend.Commits
import Redbox.Content.MailAliases
import Redbox.Interleaving.Sequential

/-! Whose mailbox an incoming mail is stored in, and for which envelopes that is the recipient's. -/
namespace Redbox
open Interleaving Text

section
variable (env : MailEnv) (primary : Option String)

/-- An alias of the forwarding administrator other than the own address. -/
def Forwards (address : String) : Prop :=
  some address ≠ primary ∧ address ∈ getAdminForwardAliases env

/-- The header's address goes before the envelope's. -/
def HeaderTaken (header envelope : String) : Prop :=
  header ≠ "" ∧ (envelope = "" ∨ Forwards env primary header ∨
    ¬ Forwards env primary envelope ∧ (header ∈ getAdminForwardAliases env ∨
      envelope ∉ getAdminForwardAliases env ∧
        (isFullEmailAddress header = true ∨ isFullEmailAddress envelope = false)))

instance (address : String) : Decidable (Forwards env primary address) :=
  inferInstanceAs (Decidable (_ ∧ _))
instance (header envelope : String) : Decidable (HeaderTaken env primary header envelope) :=
  inferInstanceAs (Decidable (_ ∧ _))

def takenAddress (header envelope : String) : String :=
  if HeaderTaken env primary header envelope then header else orElse (some envelope) "unknown"

end

/-- Of one candidate and of two, the first that the first criterion finds is taken, else by the
second and the third. -/
theorem preferred_one (f g k : String → Bool) (a : String) :
    (([a].find? f).or (([a].find? g).or ([a].find? k))).getD a = a := by
  cases hf : f a <;> cases hg : g a <;> cases hk : k a <;> simp [hf, hg, hk]

theorem preferred_two (f g k : String → Bool) (a b : String) :
    (([a, b].find? f).or (([a, b].find? g).or ([a, b].find? k))).getD a =
      if f a = true ∨ ¬ f b = true ∧ (g a = true ∨ ¬ g b = true ∧ (k a = true ∨ k b = false)) then a
        else b := by
  simp only [List.find?_cons, List.find?_nil]
  cases f a <;> cases f b <;> cases g a <;> cases g b <;> cases k a <;> cases k b <;> rfl

/-- The order of preference between one address of the header and one of the envelope. -/
theorem resolveIncomingRecipientAddress_eq {env : MailEnv} {forward : Option String}
    (h : getAdminForwardUsername env = .ok forward) (header envelope : Option String) :
    resolveIncomingRecipientAddress env [header, envelope] =
      .ok (takenAddress env (forward.map (· ++ "@redbox.cx")) (extractMailAddress env header)
        (extractMailAddress env envelope)) := by
  rw [resolveIncomingRecipientAddress, List.map_cons, List.map_cons, List.map_nil, h, takenAddress]
  generalize extractMailAddress env header = a
  generalize extractMailAddress env envelope = b
  by_cases ha : a = ""
  · by_cases hb : b = ""
    · subst ha hb
      rfl
    · have hfilter : [a, b].filter (· ≠ "") = [b] := by simp [ha, hb]
      have htaken : ¬ HeaderTaken env (forward.map (· ++ "@redbox.cx")) a b := fun ht => ht.1 ha
      rw [hfilter, if_neg htaken]
      change Except.ok _ = _
      rw [preferred_one, orElse, Option.filter_some, if_pos (decide_eq_true hb)]
      rfl
  · by_cases hb : b = ""
    · have hfilter : [a, b].filter (· ≠ "") = [a] := by simp [ha, hb]
      rw [hfilter, if_pos ⟨ha, .inl hb⟩]
      change Except.ok _ = _
      rw [preferred_one]
    · have hfilter : [a, b].filter (· ≠ "") = [a, b] := by simp [ha, hb]
      have horElse : orElse (some b) "unknown" = b := by
        rw [orElse, Option.filter_some, if_pos (decide_eq_true hb)]
        rfl
      rw [hfilter, horElse]
      change Except.ok _ = _
      rw [preferred_two]
      simp only [HeaderTaken, Forwards, ha, hb, ne_eq, not_false_eq_true, true_and, false_or,
        Bool.and_eq_true,
        decide_eq_true_eq, List.contains_eq_mem]

/-- Any call may fail, before or after it took effect. -/
def mayFail : BackendRules := ⟨fun _ _ => true, fun _ _ _ d => decide (d ≠ .late), fun _ _ => true⟩

namespace MailService

/-- The mailbox of the user takes the mail. -/
structure Accepts (cfg : Config) (mail : IncomingMail) (db : Database) (user : User) : Prop where
  single : mail.username.toList.contains '*' = false
  found : db.findUsername cfg.sameName mail.username = some user
  active : user.status = .active
  unblocked : (db.blockedSenders.find? fun b =>
    b.userId == user.id && mail.senderEmails.any (cfg.sameName b.email)) = none
  fits : db.mailStorageUsed user.id + (mail.contentSize + (mail.attachments.map (·.2.2)).sum) ≤
    getMailQuotaLimitForUsername cfg user.username

/-- Nothing is stored, or one mail for a user who takes it. -/
def Stored (cfg : Config) (mail : IncomingMail) (db db' : Database) : Prop :=
  db' = db ∨ ∃ user m, Accepts cfg mail db user ∧ m.userId = user.id ∧ db'.mails = m :: db.mails

variable {cfg : Config} {forward : Option String} {mail : IncomingMail} {db : Database} {p : Nat}
  {u : SharedWorld} {α : Type}

theorem stored_stable : Stable (backend cfg) mayFail (.alone p) p fun t =>
    Stored (cfg.forwardingTo forward) mail db t.store.db := .alone fun _ _ _ h => h

theorem untouched : Stable (backend cfg) mayFail (.alone p) p fun t => t.store.db = db :=
  .alone fun _ _ _ h => h

/-- A call that writes nothing to the database. -/
theorem await_untouched {q : Request} {f : q.Answer → Routine α} (hq : ∀ w, q ≠ .statement w)
    (hu : u.store.db = db) (h : ∀ (t : SharedWorld) (w : World) a, t.store.db = db → w.db = db →
      (w.deliver cfg q).2 = .ok a →
      Meets (backend cfg) mayFail (.alone p) p (f a) (fun _ t =>
        Stored (cfg.forwardingTo forward) mail db t.store.db) t) :
    Meets (backend cfg) mayFail (.alone p) p ((await q).bind f) (fun _ t =>
      Stored (cfg.forwardingTo forward) mail db t.store.db) u := by
  refine Meets.await untouched hu fun t ht _ d hd => ?_
  have hdb : (t.store.deliver cfg q).1.db = db := by
    rcases World.deliver_db cfg t.store q with heq | ⟨w, _, _, hw, _⟩
    · exact heq.trans ht
    · exact absurd hw (hq w)
  cases d with
  | delivered =>
    exact ⟨rfl, fun a ha => h _ t.store a hdb ht ha,
      fun e _ => Meets.throw stored_stable (.inl hdb) fun _ h _ => h⟩
  | failed =>
    exact ⟨rfl, fun a ha => (by cases ha),
      fun e _ => Meets.throw stored_stable (.inl ht) fun _ h _ => h⟩
  | lost =>
    exact ⟨rfl, fun a ha => (by cases ha),
      fun e _ => Meets.throw stored_stable (.inl hdb) fun _ h _ => h⟩
  | late => cases hd

theorem storeAttachments_stored {xs : List (String × String × Nat)}
    {f : List MailAttachment → Routine α} (hu : u.store.db = db)
    (h : ∀ (t : SharedWorld) as, t.store.db = db →
      Meets (backend cfg) mayFail (.alone p) p (f as) (fun _ t =>
        Stored (cfg.forwardingTo forward) mail db t.store.db) t) :
    Meets (backend cfg) mayFail (.alone p) p ((storeAttachments xs).bind f) (fun _ t =>
      Stored (cfg.forwardingTo forward) mail db t.store.db) u := by
  induction xs generalizing f u with
  | nil => exact h u [] hu
  | cons x xs ih =>
    rw [storeAttachments, Prog.bind_eq, Prog.bind_assoc]
    refine await_untouched (fun w hw => by cases hw) hu fun t _ storageKey ht _ _ => ?_
    simp only [Prog.bind_eq, Prog.bind_assoc]
    refine await_untouched (fun w hw => by cases hw) ht fun t _ _ ht _ _ => ?_
    exact ih ht fun t as ht => h t _ ht

theorem deliver_createMail (w : World) (m : Mail) :
    (w.deliver cfg (.statement (.createMail m))).1.db = w.db ∨
    ∃ m', m'.userId = m.userId ∧ (w.deliver cfg (.statement (.createMail m))).1.db.mails = m' ::
      w.db.mails := by
  simp only [World.deliver, Database.perform, Database.owned]
  by_cases h : (w.db.findUser m.userId).isSome = true
  · exact .inr ⟨{ m with id := w.nextId }, rfl, by rw [if_pos h]; rfl⟩
  · exact .inl (by rw [if_neg h]; rfl)

theorem createMail_stored {user : User} {m : Mail}
    (haccepts : Accepts (cfg.forwardingTo forward) mail db user) (hm : m.userId = user.id)
    (hu : u.store.db = db) (d : Delivery) :
    Stored (cfg.forwardingTo forward) mail db
      ((backend cfg).after d p (.statement (.createMail m)) u).store.db := by
  have hdelivered : Stored (cfg.forwardingTo forward) mail db
      (u.store.deliver cfg (.statement (.createMail m))).1.db := by
    rcases deliver_createMail u.store m with heq | ⟨m', hm', heq⟩
    · exact .inl (heq.trans hu)
    · exact .inr ⟨user, m', haccepts, hm'.trans hm, heq.trans (by rw [hu])⟩
  cases d with
  | failed => exact .inl hu
  | _ => exact hdelivered

theorem storeMailboxMailForUser_stored {user : User} (hu : u.store.db = db)
    (haccepts : Accepts (cfg.forwardingTo forward) mail db user) {f : Id → Routine α}
    (hf : ∀ a, ∃ b, f a = .ret b) :
    Meets (backend cfg) mayFail (.alone p) p
      ((storeMailboxMailForUser (cfg.forwardingTo forward) user mail).bind f)
      (fun _ t => Stored (cfg.forwardingTo forward) mail db t.store.db) u := by
  rw [storeMailboxMailForUser, Prog.bind_eq, Prog.bind_assoc]
  refine await_untouched (fun w hw => by cases hw) hu fun t _ storageKey ht _ _ => ?_
  simp only [Prog.bind_eq, Prog.bind_assoc]
  refine await_untouched (fun w hw => by cases hw) ht fun t _ mailKey ht _ _ => ?_
  refine await_untouched (fun w hw => by cases hw) ht fun t _ mailIv ht _ _ => ?_
  refine await_untouched (fun w hw => by cases hw) ht fun t _ _ ht _ _ => ?_
  refine storeAttachments_stored ht fun t attachments ht => ?_
  refine Meets.await untouched ht fun t ht _ d _ => ⟨rfl, fun a _ => ?_, fun e _ =>
    Meets.throw stored_stable (createMail_stored haccepts (by rfl) ht d) fun _ h _ => h⟩
  obtain ⟨b, hb⟩ := hf a
  rw [hb]
  exact Meets.ret stored_stable (createMail_stored haccepts (by rfl) ht d) fun _ h _ => h

theorem processIncomingMail_stored (hu : u.store.db = db) :
    Meets (backend cfg) mayFail (.alone p) p (processIncomingMail (cfg.forwardingTo forward) mail)
      (fun _ t => Stored (cfg.forwardingTo forward) mail db t.store.db) u := by
  have ignored : ∀ (r : IncomingMailResult) (t : SharedWorld), t.store.db = db →
    Meets (backend cfg) mayFail (.alone p) p
      (.ret r) (fun _ t => Stored (cfg.forwardingTo forward) mail db t.store.db) t :=
    fun r t ht => Meets.ret stored_stable (.inl ht) fun _ h _ => h
  unfold processIncomingMail
  split
  · exact ignored _ _ hu
  rename_i hsingle
  simp only [Prog.bind_eq, Prog.pure_eq]
  refine await_untouched (fun w hw => by cases hw) hu fun t w found ht hw hfound => ?_
  cases hfound
  rw [hw]
  cases hfound : db.findUsername cfg.sameName mail.username with
  | none => exact ignored _ _ ht
  | some user =>
    simp only
    split
    · exact ignored _ _ ht
    rename_i hactive
    refine await_untouched (fun w hw => by cases hw) ht fun t w blocked ht hw hblocked => ?_
    cases hblocked
    rw [hw]
    split
    · exact ignored _ _ ht
    rename_i hunblocked
    refine await_untouched (fun w hw => by cases hw) ht fun t w used ht hw hused => ?_
    cases hused
    rw [hw]
    split
    · exact ignored _ _ ht
    rename_i hfits
    have haccepts : Accepts (cfg.forwardingTo forward) mail db user :=
      ⟨Bool.eq_false_iff.mpr hsingle, hfound, not_not.mp hactive,
        Option.not_isSome_iff_eq_none.mp hunblocked, Nat.not_lt.mp hfits⟩
    exact storeMailboxMailForUser_stored ht haccepts fun a => ⟨_, rfl⟩

/-! What is accepted is stored where every call is delivered. -/
section
variable (cfg)

/-- With each call delivered, the routine leaves a database in which `Q` holds. -/
def Leaves (x : Routine α) (Q : Database → Prop) (u : SharedWorld) : Prop :=
  Q ((backend cfg).finish .delivered 0 x u).2.store.db

end

variable {Q : Database → Prop}

theorem Leaves.await {q : Request} {a : q.Answer} {f : q.Answer → Routine α}
    (ha : (u.store.deliver cfg q).2 = .ok a)
    (h : Leaves cfg (f a) Q ((backend cfg).after .delivered 0 q u)) :
    Leaves cfg ((await q).bind f) Q u := by
  have hreply : (backend cfg).reply .delivered q u = .ok a := ha
  simp only [Leaves, Redbox.await, Prog.await, Prog.call_bind, System.finish, hreply, Prog.ret_bind]
  exact h

theorem Leaves.storeAttachments {xs : List (String × String × Nat)}
    {f : List MailAttachment → Routine α} (hu : u.store.db = db)
    (h : ∀ (t : SharedWorld) as, t.store.db = db → Leaves cfg (f as) Q t) :
    Leaves cfg ((storeAttachments xs).bind f) Q u := by
  induction xs generalizing f u with
  | nil => exact h u [] hu
  | cons x xs ih =>
    rw [MailService.storeAttachments, Prog.bind_eq, Prog.bind_assoc]
    refine .await rfl ?_
    simp only [Prog.bind_eq, Prog.bind_assoc]
    refine .await rfl ?_
    exact ih hu fun t as ht => h t _ ht

theorem Leaves.storeMailboxMailForUser {user : User} (hu : u.store.db = db)
    (huser : (db.findUser user.id).isSome = true) {f : Id → Routine α}
    (hf : ∀ a, ∃ b, f a = .ret b) :
    Leaves cfg ((storeMailboxMailForUser (cfg.forwardingTo forward) user mail).bind f)
      (fun db' => ∃ m, m.userId = user.id ∧ db'.mails = m :: db.mails) u := by
  rw [MailService.storeMailboxMailForUser, Prog.bind_eq, Prog.bind_assoc]
  refine .await rfl ?_
  simp only [Prog.bind_eq, Prog.bind_assoc]
  refine .await rfl (.await rfl (.await rfl ?_))
  refine .storeAttachments hu fun t attachments ht => ?_
  have hcreated : ∀ m : Mail, m.userId = user.id →
      (t.store.deliver cfg (.statement (.createMail m))).2 = .ok t.store.nextId ∧
      (t.store.deliver cfg (.statement (.createMail m))).1.db = { db with mails :=
        { m with id := t.store.nextId } :: db.mails } := by
    intro m hm
    rw [← hm, ← ht] at huser
    simp only [World.deliver, Database.perform, Database.owned, if_pos huser, ← ht]
    exact ⟨rfl, rfl⟩
  refine .await (hcreated _ rfl).1 ?_
  obtain ⟨b, hb⟩ := hf t.store.nextId
  rw [hb]
  exact ⟨_, rfl, congrArg Database.mails (hcreated _ rfl).2⟩

theorem processIncomingMail_leaves {user : User} (hu : u.store.db = db)
    (huser : (db.findUser user.id).isSome = true)
    (h : Accepts (cfg.forwardingTo forward) mail db user) :
    Leaves cfg (processIncomingMail (cfg.forwardingTo forward) mail)
      (fun db' => ∃ m, m.userId = user.id ∧ db'.mails = m :: db.mails) u := by
  unfold processIncomingMail
  rw [if_neg (by rw [h.single]; decide)]
  simp only [Prog.bind_eq, Prog.pure_eq]
  subst hu
  refine .await (congrArg Except.ok h.found) ?_
  simp only [h.active, ne_eq, not_true_eq_false, reduceIte]
  refine .await (congrArg Except.ok h.unblocked) ?_
  simp only [Option.isSome_none, Bool.false_eq_true, reduceIte]
  refine .await (a := u.store.db.mailStorageUsed user.id) rfl ?_
  rw [if_neg (Nat.not_lt.mpr h.fits)]
  refine Leaves.storeMailboxMailForUser (?_ : _ = u.store.db) huser fun a => ⟨_, rfl⟩
  rfl

end MailService

/-- The address that is preferred among those of header and envelope. -/
def preferredAddress (env : MailEnv) (forward : Option String) (dto : IncomingMailDto)
    (parsed : ParsedMail) : String :=
  takenAddress env (forward.map (· ++ "@redbox.cx"))
    (extractMailAddress env (MailService.parsedRecipient parsed.recipients))
      (extractMailAddress env (some dto.recipient))

section
variable (cfg : Config) (env : MailEnv) (dto : IncomingMailDto) (parsed : ParsedMail)

/-- A mail that `processIncomingMail` stores belongs to the user whom the envelope names, and
whom the rate limit was charged to. -/
def GoesToEnvelope (s : World) : Prop :=
  ∀ (r : Except Thrown IncomingMailResult) (t : SharedWorld) (m : Mail),
    Ends (backend cfg) mayFail 0 (MailService.receiveIncomingMail cfg env dto parsed)
      (.initial s) r t →
    t.store.db.mails = m :: s.db.mails →
    ∃ user ∈ s.db.users, user.id = m.userId ∧
      resolveIncomingMailboxUsername env (some dto.recipient) = .ok user.username ∧
      RateLimitGuard.mailRecipient env (some dto.recipient) =
        .ok ("mail-recipient:" ++ user.username)

/-- The envelope names the user whose mailbox takes the mail for the preferred address. -/
def EnvelopeNamed (db : Database) : Prop :=
  ∀ forward name user, getAdminForwardUsername env = .ok forward →
    resolveIncomingMailboxUsername env (some (preferredAddress env forward dto parsed)) = .ok name →
    MailService.Accepts (cfg.forwardingTo forward)
      (MailService.incomingMail env dto parsed (preferredAddress env forward dto parsed) name) db
        user →
    resolveIncomingMailboxUsername env (some dto.recipient) = .ok user.username

end

section
variable {cfg : Config} {env : MailEnv} {dto : IncomingMailDto} {parsed : ParsedMail} {s : World}
  {forward : Option String}
  {name : String}

theorem readIncomingMail_eq (hforward : getAdminForwardUsername env = .ok forward) :
    MailService.readIncomingMail env dto parsed =
      (resolveIncomingMailboxUsername env (some (preferredAddress env forward dto parsed))).map
        (MailService.incomingMail env dto parsed (preferredAddress env forward dto parsed)) := by
  rw [MailService.readIncomingMail, resolveIncomingRecipientAddress_eq hforward]
  rfl

/-- Once the names are known, the message is processed. -/
theorem receiveIncomingMail_eq (hforward : getAdminForwardUsername env = .ok forward)
    (hname : resolveIncomingMailboxUsername env (some (preferredAddress env forward dto parsed)) =
      .ok name) :
    MailService.receiveIncomingMail cfg env dto parsed = MailService.processIncomingMail
      (cfg.forwardingTo forward)
      (MailService.incomingMail env dto parsed (preferredAddress env forward dto parsed) name) := by
  rw [MailService.receiveIncomingMail, readIncomingMail_eq hforward, hforward, hname]
  rfl

/-- Names that cannot be made out stop the request. -/
theorem receiveIncomingMail_throws
    (h : ∀ forward name, getAdminForwardUsername env = .ok forward →
      resolveIncomingMailboxUsername env (some (preferredAddress env forward dto parsed)) ≠
        .ok name) :
    ∃ e, MailService.receiveIncomingMail cfg env dto parsed = .throw e := by
  rw [MailService.receiveIncomingMail]
  cases hforward : getAdminForwardUsername env with
  | error e => cases MailService.readIncomingMail env dto parsed <;> exact ⟨_, rfl⟩
  | ok forward =>
    rw [readIncomingMail_eq hforward]
    cases hname : resolveIncomingMailboxUsername env
      (some (preferredAddress env forward dto parsed)) with
    | ok name => exact absurd hname (h forward name hforward)
    | error e => exact ⟨e, rfl⟩

/-- What is accepted can be stored. -/
theorem stored_of_accepts {user : User} (hforward : getAdminForwardUsername env = .ok forward)
    (hname : resolveIncomingMailboxUsername env (some (preferredAddress env forward dto parsed)) =
      .ok name) (haccepts : MailService.Accepts (cfg.forwardingTo forward)
      (MailService.incomingMail env dto parsed (preferredAddress env forward dto parsed) name)
        s.db user) :
    user ∈ s.db.users ∧ ∃ r t m, m.userId = user.id ∧ t.store.db.mails = m :: s.db.mails ∧
      Ends (backend cfg) mayFail 0 (MailService.receiveIncomingMail cfg env dto parsed)
        (.initial s) r t := by
  have hmem := List.mem_of_find?_eq_some haccepts.found
  have huser : (s.db.findUser user.id).isSome = true := by
    rw [Database.findUser, List.find?_isSome]
    exact ⟨user, hmem, beq_self_eq_true _⟩
  obtain ⟨m, hm, hmails⟩ := MailService.processIncomingMail_leaves (u :=
    .initial s) rfl huser haccepts
  rw [receiveIncomingMail_eq hforward hname]
  exact ⟨hmem, _, _, m, hm, hmails, Ends.finish (c := Delivery.delivered) (fun _ _ => rfl) _ _⟩

/-- A run of the webhook leaves the database alone or stores one mail for a user who takes it. -/
theorem receiveIncomingMail_ends {r : Except Thrown IncomingMailResult} {t : SharedWorld}
    (hends : Ends (backend cfg) mayFail 0 (MailService.receiveIncomingMail cfg env dto parsed)
      (.initial s) r t) :
    t.store.db = s.db ∨ ∃ forward name user m, getAdminForwardUsername env = .ok forward ∧
      resolveIncomingMailboxUsername env (some (preferredAddress env forward dto parsed)) =
        .ok name ∧
      MailService.Accepts (cfg.forwardingTo forward)
        (MailService.incomingMail env dto parsed (preferredAddress env forward dto parsed) name)
          s.db user ∧
      m.userId = user.id ∧ t.store.db.mails = m :: s.db.mails := by
  by_cases hnames : ∃ forward name, getAdminForwardUsername env = .ok forward ∧
      resolveIncomingMailboxUsername env (some (preferredAddress env forward dto parsed)) = .ok name
  · obtain ⟨forward, name, hforward, hname⟩ := hnames
    rw [receiveIncomingMail_eq hforward hname] at hends
    rcases (MailService.processIncomingMail_stored rfl).ends hends with hsame | ⟨user, m, haccepts,
      hid, hmails⟩
    · exact .inl hsame
    · exact .inr ⟨forward, name, user, m, hforward, hname, haccepts, hid, hmails⟩
  · obtain ⟨e, he⟩ := receiveIncomingMail_throws fun forward name hf hn =>
      hnames ⟨forward, name, hf, hn⟩
    rw [he] at hends
    exact .inl (Meets.ends (Q := fun _ t => t.store.db = s.db)
      (Meets.throw MailService.untouched rfl fun _ h _ => h) hends)

/-- A stored mail goes to the envelope's recipient if and only if the envelope names the owner
of the mailbox that the preferred address leads to. -/
theorem goes_to_envelope_iff (hkeys : ∀ u ∈ s.db.users, ∀ v ∈ s.db.users, u.id = v.id → u = v) :
    GoesToEnvelope cfg env dto parsed s ↔ EnvelopeNamed cfg env dto parsed s.db := by
  constructor
  · intro h forward name user hforward hname haccepts
    obtain ⟨hmem, r, t, m, hm, hmails, hends⟩ := stored_of_accepts hforward hname haccepts
    obtain ⟨owner, howner, hid, hnamed, -⟩ := h r t m hends hmails
    rwa [hkeys owner howner user hmem (hid.trans hm)] at hnamed
  · intro h r t m hends hm
    rcases receiveIncomingMail_ends hends with hsame | ⟨forward, name, user, m', hforward, hname,
      haccepts, hid, hmails⟩
    · exact absurd (hsame ▸ hm) (List.cons_ne_self _ _).symm
    · have hnamed := h forward name user hforward hname haccepts
      obtain rfl := (List.cons.inj (hm.symm.trans hmails)).1
      refine ⟨user, List.mem_of_find?_eq_some haccepts.found, hid.symm, hnamed, ?_⟩
      rw [RateLimitGuard.mailRecipient, hnamed]
      rfl

end

/-- No forwarding administrator. The example's addresses are in lower case. -/
def demoMailEnv : MailEnv := ⟨none, none, id⟩

/-- A message for mallory in its envelope and for alice in its header. -/
def redirectedMail : IncomingMailDto :=
  ⟨"eve@example.org", "mallory@redbox.cx", none, "To: alice@redbox.cx"⟩

def redirectedText : ParsedMail := ⟨none, .one "alice@redbox.cx", none, none, none, none, []⟩

theorem redirected_accepted : MailService.Accepts (demoConfig.forwardingTo none)
    (MailService.incomingMail demoMailEnv redirectedMail redirectedText
      (preferredAddress demoMailEnv none redirectedMail redirectedText) "alice")
        demoWorld.db demoUser :=
  ⟨by decide, rfl, rfl, rfl, by decide +kernel⟩

/-- The header redirects a message to the mailbox of another user. -/
theorem header_redirects_mail : ¬ GoesToEnvelope demoConfig demoMailEnv redirectedMail
      redirectedText demoWorld := by
  intro h
  have hname : resolveIncomingMailboxUsername demoMailEnv
    (some (preferredAddress demoMailEnv none redirectedMail redirectedText)) =
      .ok "alice" := by decide +kernel
  have hmallory : resolveIncomingMailboxUsername demoMailEnv (some redirectedMail.recipient) =
      .ok "mallory" := by decide +kernel
  obtain ⟨-, r, t, m, hm, hmails, hends⟩ := stored_of_accepts rfl hname redirected_accepted
  obtain ⟨owner, howner, -, hnamed, -⟩ := h r t m hends hmails
  obtain rfl := List.mem_singleton.mp howner
  exact absurd (Except.ok.inj (hmallory.symm.trans hnamed)) (by decide)

/-- The same message with alice in its envelope. -/
def addressedMail : IncomingMailDto := { redirectedMail with recipient := "alice@redbox.cx" }

theorem goes_to_envelope_iff_demo :
    GoesToEnvelope demoConfig demoMailEnv addressedMail redirectedText demoWorld := by
  refine (goes_to_envelope_iff fun u hu v hv _ => ?_).mpr
    fun forward name user hforward hname haccepts => ?_
  · rw [List.mem_singleton.mp hu, List.mem_singleton.mp hv]
  · have hfound := haccepts.found
    have halice : resolveIncomingMailboxUsername demoMailEnv (some addressedMail.recipient) =
        .ok "alice" := by decide +kernel
    rw [halice, List.mem_singleton.mp (List.mem_of_find?_eq_some hfound)]
    rfl

end Redbox
