import Redbox.Backend.Transactions
import Redbox.Bytes.ByteStrings
import Redbox.Interleaving.Sequential

/-! `storeMailboxMailForUser` with the objects that it puts into the bucket, and what is left of
them when one of its calls fails. -/
namespace Redbox.MailStorage
open Bytes Interleaving

structure MailboxUser where
  id : String
  publicKey : String

structure MailboxAttachmentInput where
  content : ByteString
  filename : String
  mimetype : String
  size : Nat
  storageKey : Option String

structure StoredMailboxMailInput where
  sender : String
  recipient : String
  subject : String
  content : String
  attachments : Option (List MailboxAttachmentInput)

structure MailAttachment where
  filename : String
  mimetype : String
  size : Nat
  storageKey : String

structure MailRow where
  sender : String
  recipient : String
  subject : String
  storageKey : String
  userId : String
  encryptedMailKey : ByteString
  mailKeyIv : ByteString
  contentSize : Nat
  attachments : List MailAttachment

def MailRow.storageKeys (row : MailRow) : List String :=
  row.storageKey :: row.attachments.map (·.storageKey)

/-- What the routine asks of others; only the last three can fail. -/
inductive StorageCall where
  | uuidv4
  | randomBytes (size : Nat)
  | putObject (key : String) (body : ByteString)
  | publicEncrypt (publicKey : String) (data : ByteString)
  | createMail (row : MailRow)

@[reducible] def StorageCall.Answer : StorageCall → Type
  | uuidv4 => String
  | randomBytes _ | publicEncrypt _ _ => ByteString
  | putObject _ _ => Unit
  | createMail _ => MailRow

abbrev StorageReply (q : StorageCall) := Except Thrown q.Answer
abbrev Storing (α : Type) := Prog StorageCall StorageReply Thrown α

def await (q : StorageCall) : Storing q.Answer := Prog.await id q

/-- The place of a call that fails among those that can, and whether it took effect all the same. -/
structure FailingCall where
  place : Nat
  carriedOut : Bool

structure StorageEnv where
  uuidv4 : Nat → String
  randomBytes : Nat → Nat → ByteString
  aes256Cbc : ByteString → ByteString → ByteString → ByteString
  publicEncrypt : String → ByteString → ByteString
  failing : Option FailingCall

def storeAttachment (env : StorageEnv) (mailKey mailIv : ByteString)
    (attachment : MailboxAttachmentInput) :
    Storing MailAttachment := do
  let attachmentStorageKey ← match attachment.storageKey.filter (· ≠ "") with
    | some storageKey => pure storageKey
    | none =>
      let id ← await .uuidv4
      pure s!"mail_att_{id}.bin"
  await (.putObject attachmentStorageKey (env.aes256Cbc mailKey mailIv attachment.content))
  return ⟨attachment.filename, attachment.mimetype, attachment.size, attachmentStorageKey⟩

def storeAttachments (env : StorageEnv) (mailKey mailIv : ByteString) :
    List MailboxAttachmentInput → Storing (List MailAttachment)
  | [] => return []
  | attachment :: rest => do
    let row ← storeAttachment env mailKey mailIv attachment
    return row :: (← storeAttachments env mailKey mailIv rest)

def storeMailboxMailForUser (env : StorageEnv) (user : MailboxUser)
    (input : StoredMailboxMailInput) : Storing MailRow := do
  let storageKey := s!"mail_{← await .uuidv4}.bin"
  let attachments := input.attachments.getD []
  let contentSize := input.content.utf8ByteSize
  let mailKey ← await (.randomBytes 32)
  let mailIv ← await (.randomBytes 16)
  await (.putObject storageKey (env.aes256Cbc mailKey mailIv input.content.toUTF8.toList))
  let attachmentData ← storeAttachments env mailKey mailIv attachments
  let encryptedMailKey ← await (.publicEncrypt user.publicKey mailKey)
  await (.createMail
    { sender := input.sender, recipient := input.recipient, subject :=
      input.subject, storageKey := storageKey
      userId := user.id, encryptedMailKey := encryptedMailKey, mailKeyIv :=
        mailIv, contentSize := contentSize
      attachments := attachmentData })

/-- An object, and whether the routine under consideration has written it. -/
structure StoredObject where
  body : ByteString
  written : Bool

structure Storage where
  bucket : String → Option StoredObject
  mails : List MailRow
  calls : Nat
  drawn : Nat

namespace Storage

/-- The bucket and the table before the routine starts. -/
def before (bucket : String → Option ByteString) (mails : List MailRow) : Storage :=
  ⟨fun key => (bucket key).map fun body => ⟨body, false⟩, mails, 0, 0⟩

def put (key : String) (body : ByteString) (s : Storage) : Storage :=
  { s with bucket := Function.update s.bucket key (some ⟨body, true⟩) }

def insert (row : MailRow) (s : Storage) : Storage := { s with mails := row :: s.mails }

def count (s : Storage) : Storage := { s with calls := s.calls + 1 }

def draw (s : Storage) : Storage := { s with drawn := s.drawn + 1 }

/-- The routine has written an object with this key, and it is there. -/
def Holds (s : Storage) (key : String) : Prop := ∃ body, s.bucket key = some ⟨body, true⟩

/-- Makes a call that can fail. -/
def attempt {α : Type} (env : StorageEnv) (effect : Storage → Storage) (a : α)
    (s : Storage) : Storage × Except Thrown α :=
  match env.failing.filter fun f => f.place = s.calls with
  | some f => (if f.carriedOut then (effect s).count else s.count, .error (.fault .unavailable))
  | none => ((effect s).count, .ok a)

def exec (env : StorageEnv) (_ : Unit) (q : StorageCall) (s : Storage) : Storage × StorageReply q :=
  match q with
  | .uuidv4 => (s.draw, .ok (env.uuidv4 s.drawn))
  | .randomBytes size => (s.draw, .ok (env.randomBytes s.drawn size))
  | .putObject key body => s.attempt env (put key body) ()
  | .publicEncrypt publicKey data => s.attempt env id (env.publicEncrypt publicKey data)
  | .createMail row => s.attempt env (insert row) row

end Storage

/-- The bucket and the tables with the one routine that uses them. -/
def storage (env : StorageEnv) :
    System StorageCall StorageReply Thrown MailRow Storage (MailboxUser × StoredMailboxMailInput)
      Unit Unit where
  exec := Storage.exec env
  drift := fun _ s => s
  program := fun x => storeMailboxMailForUser env x.1 x.2

/-- What the storing of a mail leaves behind, however it ends. -/
structure CleansUp (before after : Storage) (r : Except Thrown MailRow) : Prop where
  thrown : ∀ e, r = .error e → (∀ key, ¬ after.Holds key) ∧ after.mails = before.mails
  returned : ∀ row, r = .ok row → after.mails = row :: before.mails ∧ ∀ key ∈ row.storageKeys,
    after.Holds key

abbrev SharedStorage := Shared StorageCall StorageReply Storage

variable {env : StorageEnv} {s t : Storage} {α β : Type} {key : String}

/-- Runs a routine to its end, with nothing else going on. -/
abbrev perform (env : StorageEnv) (x : Storing α) (u : SharedStorage) :
    Except Thrown α × SharedStorage :=
  (storage env).finish () 0 x u

def StorageEnv.FailsAt (env : StorageEnv) (place : Nat) : Prop := ∃ f, env.failing = some f ∧
    f.place = place

theorem StorageEnv.FailsAt.unique {m n : Nat} (hm : env.FailsAt m) (hn : env.FailsAt n) :
    m = n := by
  obtain ⟨f, hf, rfl⟩ := hm
  obtain ⟨g, hg, rfl⟩ := hn
  rw [Option.some.inj (hf.symm.trans hg)]

/-- No object that the routine has written gets lost. -/
def Keeps (s t : Storage) : Prop := ∀ key, s.Holds key → t.Holds key

namespace Storage

@[simp] theorem holds_count : s.count.Holds key ↔ s.Holds key := Iff.rfl
@[simp] theorem holds_draw : s.draw.Holds key ↔ s.Holds key := Iff.rfl
@[simp] theorem holds_insert {row : MailRow} : (s.insert row).Holds key ↔ s.Holds key := Iff.rfl

theorem holds_put (key : String) (body : ByteString) (s : Storage) : (s.put key body).Holds key :=
  ⟨body, Function.update_self ..⟩

theorem keeps_put (key : String) (body : ByteString) (s : Storage) : Keeps s (s.put key body) := by
  intro key' h
  by_cases he : key' = key
  · subst he
    exact holds_put ..
  · obtain ⟨body', hb⟩ := h
    exact ⟨body', (Function.update_of_ne he ..).trans hb⟩

theorem not_holds_before (bucket : String → Option ByteString) (mails : List MailRow)
    (key : String) :
    ¬ (before bucket mails).Holds key := by
  rintro ⟨body, h⟩
  obtain ⟨_, -, h⟩ := Option.map_eq_some_iff.mp h
  cases h

variable {effect : Storage → Storage} {a : α}

theorem attempt_ok (h : ¬ env.FailsAt s.calls) :
    s.attempt env effect a = ((effect s).count, .ok a) := by
  have hnone : (env.failing.filter fun f => f.place = s.calls) = none := by
    rw [Option.filter_eq_none_iff]
    intro f hf
    simpa using fun hp => h ⟨f, hf, hp⟩
  rw [attempt, hnone]

theorem attempt_fails {f : FailingCall} (hf : env.failing = some f) (hp : f.place = s.calls) :
    s.attempt env effect a = (if f.carriedOut then (effect s).count else s.count,
      .error (.fault .unavailable)) := by
  have hsome : (env.failing.filter fun f => f.place = s.calls) = some f := by simp [hf, hp]
  rw [attempt, hsome]

end Storage

/-- The routine makes so many calls that can fail; if none does, it ends as described. -/
structure Makes (env : StorageEnv) (n : Nat) (x : Storing α) (P : Storage → α → Storage → Prop) :
    Prop where
  returns : ∀ u, (∀ i, i < n → ¬ env.FailsAt (u.store.calls + i)) → ∃ a t,
    perform env x u = (.ok a, t) ∧
    Keeps u.store t.store ∧ t.store.calls = u.store.calls + n ∧ P u.store a t.store
  throws : ∀ u i, i < n → env.FailsAt (u.store.calls + i) → ∃ e t, perform env x u = (.error e, t) ∧
    Keeps u.store t.store

section
variable {m n : Nat} {x : Storing α} {f : α → Storing β} {P : Storage → α → Storage →
  Prop} {Q : Storage → β → Storage → Prop}

theorem perform_ok {u t : SharedStorage} {a : α} (h : (storage env).finish () 0 x u = (.ok a, t)) :
    perform env (x.bind f) u = perform env (f a) t := by
  rw [perform, System.finish_bind, h]

theorem perform_error {u t : SharedStorage} {e : Thrown}
    (h : (storage env).finish () 0 x u = (.error e, t)) :
    perform env (x.bind f) u = (.error e, t) := by
  rw [perform, System.finish_bind, h]

theorem Makes.ret {a : α} (h : ∀ s, P s a s) : Makes env 0 (.ret a) P where
  returns u _ := ⟨a, u, rfl, fun _ h => h, rfl, h u.store⟩
  throws _ i hi := absurd hi (Nat.not_lt_zero i)

theorem Makes.bind (hx : Makes env m x P)
    (hf : ∀ a, Makes env n (f a) (fun s b t => ∀ s₀, P s₀ a s → Q s₀ b t)) :
    Makes env (m + n) (x.bind f) Q where
  returns u h := by
    obtain ⟨a, t, hrun, hkeep, hcalls, hP⟩ := hx.returns u fun i hi => h i (Nat.lt_add_right n hi)
    have hrest : ∀ i, i < n → ¬ env.FailsAt (t.store.calls + i) := by
      intro i hi
      rw [hcalls, Nat.add_assoc]
      exact h (m + i) (Nat.add_lt_add_left hi m)
    obtain ⟨b, t', hrun', hkeep', hcalls', hQ⟩ := (hf a).returns t hrest
    exact ⟨b, t', (perform_ok hrun).trans hrun', fun key h => hkeep' key (hkeep key h),
      by rw [hcalls', hcalls, Nat.add_assoc], hQ u.store hP⟩
  throws u i hi hfail := by
    by_cases him : i < m
    · obtain ⟨e, t, hrun, hkeep⟩ := hx.throws u i him hfail
      exact ⟨e, t, perform_error hrun, hkeep⟩
    · have hfirst : ∀ j, j < m → ¬ env.FailsAt (u.store.calls + j) := fun j hj hfail' => by
        have := hfail.unique hfail'
        omega
      obtain ⟨a, t, hrun, hkeep, hcalls, -⟩ := hx.returns u hfirst
      have hfail' : env.FailsAt (t.store.calls + (i - m)) := by
        rw [hcalls, Nat.add_assoc, Nat.add_sub_cancel' (Nat.le_of_not_lt him)]
        exact hfail
      obtain ⟨e, t', hrun', hkeep'⟩ := (hf a).throws t (i - m) (by omega) hfail'
      exact ⟨e, t', (perform_ok hrun).trans hrun', fun key h => hkeep' key (hkeep key h)⟩

theorem Makes.mono {P' : Storage → α → Storage → Prop} (hx : Makes env n x P)
    (h : ∀ s a t, P s a t → P' s a t) :
    Makes env n x P' where
  returns u hu := by
    obtain ⟨a, t, hrun, hkeep, hcalls, hP⟩ := hx.returns u hu
    exact ⟨a, t, hrun, hkeep, hcalls, h _ _ _ hP⟩
  throws := hx.throws

/-- What was written before a part of the routine is there after it. -/
theorem Makes.keeps (hx : Makes env n x P) : Makes env n x (fun s a t => Keeps s t ∧ P s a t) where
  returns u hu := by
    obtain ⟨a, t, hrun, hkeep, hcalls, hP⟩ := hx.returns u hu
    exact ⟨a, t, hrun, hkeep, hcalls, hkeep, hP⟩
  throws := hx.throws

theorem perform_await_ok {q : StorageCall} {u : SharedStorage} {a : q.Answer}
    (h : (u.store.exec env () q).2 = .ok a) :
    perform env (await q) u = (.ok a, (storage env).after () 0 q u) := by
  have hreply : (storage env).reply () q u = .ok a := h
  simp only [perform, await, Prog.await, System.finish, hreply]

theorem perform_await_error {q : StorageCall} {u : SharedStorage} {e : Thrown}
    (h : (u.store.exec env () q).2 = .error e) :
    perform env (await q) u = (.error e, (storage env).after () 0 q u) := by
  have hreply : (storage env).reply () q u = .error e := h
  simp only [perform, await, Prog.await, System.finish, hreply, id]

/-- A call that can fail. -/
theorem Makes.attempt {q : StorageCall} {effect : Storage → Storage} {a : q.Answer}
    (hq : ∀ s : Storage, s.exec env () q = s.attempt env effect a) (hkeep : ∀ s, Keeps s (effect s))
    (hcalls : ∀ s, (effect s).calls = s.calls) :
    Makes env 1 (await q) (fun s b t => b = a ∧ t = (effect s).count) where
  returns u h := by
    have hok : u.store.exec env () q = ((effect u.store).count, .ok a) :=
      (hq u.store).trans (Storage.attempt_ok (h 0 Nat.one_pos))
    have hstore : ((storage env).after () 0 q u).store = (effect u.store).count :=
      congrArg Prod.fst hok
    refine ⟨a, (storage env).after () 0 q u, perform_await_ok (congrArg Prod.snd hok), ?_, ?_,
      rfl, hstore⟩
    · rw [hstore]
      exact hkeep u.store
    · rw [hstore, Storage.count, hcalls]
  throws u i hi hfail := by
    obtain ⟨f, hf, hp⟩ := hfail
    obtain rfl : i = 0 := by omega
    have herror := (hq u.store).trans (Storage.attempt_fails hf hp)
    refine ⟨_, (storage env).after () 0 q u, perform_await_error (congrArg Prod.snd herror), ?_⟩
    have hstore : ((storage env).after () 0 q u).store = if f.carriedOut then (effect u.store).count
        else u.store.count :=
      congrArg Prod.fst herror
    rw [hstore]
    split
    · exact hkeep u.store
    · exact fun key h => h

/-- A draw cannot fail. -/
theorem Makes.draw {q : StorageCall} (hq : ∀ s : Storage, ∃ a, s.exec env () q = (s.draw, .ok a)) :
    Makes env 0 (await q) (fun s _ t => t.mails = s.mails) where
  returns u _ := by
    obtain ⟨a, ha⟩ := hq u.store
    have hstore : ((storage env).after () 0 q u).store = u.store.draw := congrArg Prod.fst ha
    refine ⟨a, (storage env).after () 0 q u, perform_await_ok (congrArg Prod.snd ha), ?_, ?_, ?_⟩
    · rw [hstore]
      exact fun key h => h
    · rw [hstore]
      rfl
    · rw [hstore]
      rfl
  throws _ i hi := absurd hi (Nat.not_lt_zero i)

theorem Makes.putObject (key : String) (body : ByteString) :
    Makes env 1 (await (.putObject key body)) (fun s _ t => t.mails = s.mails ∧ t.Holds key) :=
  (Makes.attempt (fun _ => rfl) (Storage.keeps_put key body) fun _ => rfl).mono fun s _ t h => by
    rw [h.2]
    exact ⟨rfl, Storage.holds_put key body s⟩

theorem Makes.publicEncrypt (publicKey : String) (data : ByteString) :
    Makes env 1 (await (.publicEncrypt publicKey data))
    (fun s _ t => Keeps s t ∧ t.mails = s.mails) :=
  have hq : ∀ s : Storage, s.exec env () (.publicEncrypt publicKey data) =
    s.attempt env id (env.publicEncrypt publicKey data) := fun _ => rfl
  (Makes.attempt hq (fun _ _ h => h) fun _ => rfl).keeps.mono fun s _ t h => by
      refine ⟨h.1, ?_⟩
      rw [h.2.2]
      rfl

theorem Makes.createMail (row : MailRow) :
    Makes env 1 (await (.createMail row))
    (fun s a t => Keeps s t ∧ a = row ∧ t.mails = row :: s.mails) :=
  have hq : ∀ s : Storage, s.exec env () (.createMail row) = s.attempt env (.insert row) row :=
    fun _ => rfl
  (Makes.attempt hq (fun _ _ h => h) fun _ => rfl).keeps.mono fun s a t h => by
    refine ⟨h.1, h.2.1, ?_⟩
    rw [h.2.2]
    rfl

end

section
variable (env : StorageEnv) (mailKey mailIv : ByteString)

theorem storeAttachment_makes (attachment : MailboxAttachmentInput) :
    Makes env 1 (storeAttachment env mailKey mailIv attachment)
      (fun s row t => t.mails = s.mails ∧ t.Holds row.storageKey) := by
  have hstore : ∀ storageKey, Makes env 1
      ((await (.putObject storageKey (env.aes256Cbc mailKey mailIv attachment.content))).bind
        fun _ =>
        .ret (⟨attachment.filename, attachment.mimetype, attachment.size,
          storageKey⟩ : MailAttachment))
      (fun s row t => t.mails = s.mails ∧ t.Holds row.storageKey) := by
    intro storageKey
    exact (Makes.putObject _ _).bind fun _ => .ret fun s s₀ h => h
  rw [storeAttachment]
  cases attachment.storageKey.filter (· ≠ "") with
  | some storageKey => exact hstore storageKey
  | none =>
    exact (Makes.draw fun s => ⟨_, rfl⟩).bind fun id =>
      (hstore s!"mail_att_{id}.bin").mono fun s row t h s₀ hs => by
      rw [h.1, hs]
      exact ⟨rfl, h.2⟩

theorem storeAttachments_makes (attachments : List MailboxAttachmentInput) :
    Makes env attachments.length (storeAttachments env mailKey mailIv attachments)
      (fun s rows t => t.mails = s.mails ∧ ∀ row ∈ rows, t.Holds row.storageKey) := by
  induction attachments with
  | nil => exact .ret fun s => ⟨rfl, by simp⟩
  | cons attachment rest ih =>
    rw [List.length_cons, Nat.add_comm]
    refine (storeAttachment_makes env mailKey mailIv attachment).bind fun row => ?_
    refine ih.keeps.bind fun rows => .ret fun s s₁ ⟨hkeep, hmails, hrows⟩ s₀ ⟨hmails₀, hrow⟩ =>
      ⟨hmails.trans hmails₀, ?_⟩
    intro row' hrow'
    rcases List.mem_cons.mp hrow' with rfl | hrow'
    · exact hkeep _ hrow
    · exact hrows row' hrow'

/-- All that follows the put of the content. -/
def storeRest (user : MailboxUser) (input : StoredMailboxMailInput) (storageKey : String) :
    Storing MailRow := do
  let attachmentData ← storeAttachments env mailKey mailIv (input.attachments.getD [])
  let encryptedMailKey ← await (.publicEncrypt user.publicKey mailKey)
  await (.createMail
    { sender := input.sender, recipient := input.recipient, subject :=
      input.subject, storageKey := storageKey
      userId := user.id, encryptedMailKey := encryptedMailKey, mailKeyIv := mailIv
      contentSize := input.content.utf8ByteSize, attachments := attachmentData })

theorem storeRest_makes (user : MailboxUser) (input : StoredMailboxMailInput)
    (storageKey : String) :
    Makes env ((input.attachments.getD []).length + (1 + 1))
    (storeRest env mailKey mailIv user input storageKey)
      (fun s row t => s.Holds storageKey → t.mails = row :: s.mails ∧ ∀ key ∈ row.storageKeys,
        t.Holds key) := by
  refine (storeAttachments_makes env mailKey mailIv _).keeps.bind fun rows => ?_
  refine (Makes.publicEncrypt user.publicKey mailKey).bind fun encryptedMailKey => ?_
  refine (Makes.createMail _).mono fun s₂ row t ⟨hkeep₂, hrow, hmails₂⟩ s₁ ⟨hkeep₁,
    hmails₁⟩ s₀ ⟨hkeep₀, hmails₀, hrows⟩ hheld => ?_
  subst hrow
  refine ⟨by rw [hmails₂, hmails₁, hmails₀], fun key hkey => ?_⟩
  rcases List.mem_cons.mp hkey with rfl | hkey
  · exact hkeep₂ _ (hkeep₁ _ (hkeep₀ _ hheld))
  · obtain ⟨attachment, hmem, rfl⟩ := List.mem_map.mp hkey
    exact hkeep₂ _ (hkeep₁ _ (hrows attachment hmem))

end

section
variable (env : StorageEnv) (user : MailboxUser) (input : StoredMailboxMailInput) (bucket : String →
  Option ByteString)
  (mails : List MailRow)

/-- How the routine ends, and the bucket and the table then. -/
def stored : Except Thrown MailRow × Storage :=
  let o := perform env (storeMailboxMailForUser env user input) (.initial (.before bucket mails))
  (o.1, o.2.store)

def contentKey : String := s!"mail_{env.uuidv4 0}.bin"

def contentBody : ByteString :=
  env.aes256Cbc (env.randomBytes 1 32) (env.randomBytes 2 16) input.content.toUTF8.toList

/-- The routine is its put of the content and the rest. -/
theorem stored_eq : ∃ u : SharedStorage, u.store = (Storage.before bucket mails).draw.draw.draw ∧
    stored env user input bucket mails =
      let o := perform env ((await (.putObject (contentKey env) (contentBody env input))).bind
        fun _ =>
        storeRest env (env.randomBytes 1 32) (env.randomBytes 2 16) user input (contentKey env)) u
      (o.1, o.2.store) :=
  ⟨_, rfl, rfl⟩

end

/-- The number of calls behind the put of the content that can fail. -/
def callsAfterContent (input : StoredMailboxMailInput) : Nat :=
  (input.attachments.getD []).length + 2

section
variable (user : MailboxUser) (input : StoredMailboxMailInput) (bucket : String →
  Option ByteString) (mails : List MailRow)

/-- A put of the content that fails is all that the routine has done. -/
theorem stored_content_fails {f : FailingCall} (hf : env.failing = some f) (hp : f.place = 0) :
    ∃ e, (stored env user input bucket mails).1 = .error e ∧
    (stored env user input bucket mails).2.mails = mails ∧
      ((∃ key, (stored env user input bucket mails).2.Holds key) ↔ f.carriedOut = true) := by
  obtain ⟨u, hu, heq⟩ := stored_eq env user input bucket mails
  have hexec : u.store.exec env () (.putObject (contentKey env) (contentBody env input)) = _ :=
    Storage.attempt_fails hf (hp.trans (congrArg Storage.calls hu).symm)
  have hput := perform_await_error (congrArg Prod.snd hexec)
  rw [heq, perform_error hput]
  have hstore : ((storage env).after () 0 (.putObject (contentKey env) (contentBody env input))
    u).store = _ :=
    congrArg Prod.fst hexec
  refine ⟨_, rfl, ?_, ?_⟩
  · dsimp only
    rw [hstore]
    split <;> rw [hu] <;> rfl
  · dsimp only
    rw [hstore]
    split
    · rename_i hc
      exact ⟨fun _ => hc, fun _ => ⟨_, Storage.holds_put ..⟩⟩
    · rename_i hc
      rw [hu]
      exact ⟨fun ⟨key, h⟩ => absurd h (Storage.not_holds_before bucket mails key),
        fun h => absurd h hc⟩

/-- Where the content is stored, it is never deleted again. -/
theorem stored_later_fails {i : Nat} (hi : i < callsAfterContent input)
    (hfail : env.FailsAt (i + 1)) :
    ∃ e, (stored env user input bucket mails).1 = .error e ∧ ∃ key,
      (stored env user input bucket mails).2.Holds key := by
  obtain ⟨u, hu, heq⟩ := stored_eq env user input bucket mails
  have hzero : u.store.calls = 0 := congrArg Storage.calls hu
  obtain ⟨_, t, hput, -, hcalls, -, hheld⟩ :=
    (Makes.putObject (contentKey env) (contentBody env input)).returns u fun j hj hfail' => by
    have := hfail.unique hfail'
    omega
  obtain ⟨e, t', hrest, hkeep⟩ :=
    (storeRest_makes env (env.randomBytes 1 32) (env.randomBytes 2 16) user input
      (contentKey env)).throws t i hi (by
      rw [hcalls, hzero, Nat.zero_add, Nat.add_comm]
      exact hfail)
  rw [heq, perform_ok hput, hrest]
  exact ⟨e, rfl, _, hkeep _ hheld⟩

theorem stored_returns (h : ∀ i, i ≤ callsAfterContent input → ¬ env.FailsAt i) :
    ∃ row, (stored env user input bucket mails).1 = .ok row ∧
    (stored env user input bucket mails).2.mails = row :: mails ∧
      ∀ key ∈ row.storageKeys, (stored env user input bucket mails).2.Holds key := by
  obtain ⟨u, hu, heq⟩ := stored_eq env user input bucket mails
  have hzero : u.store.calls = 0 := congrArg Storage.calls hu
  obtain ⟨_, t, hput, -, hcalls, hmails, hheld⟩ :=
    (Makes.putObject (contentKey env) (contentBody env input)).returns u fun j hj => h _ (by omega)
  obtain ⟨row, t', hrest, -, -, hrow⟩ :=
    (storeRest_makes env (env.randomBytes 1 32) (env.randomBytes 2 16) user input
      (contentKey env)).returns t fun i hi => by
      rw [hcalls, hzero]
      exact h _ (by unfold callsAfterContent; omega)
  obtain ⟨hmails', hkeys⟩ := hrow hheld
  rw [heq, perform_ok hput, hrest]
  refine ⟨row, rfl, ?_, hkeys⟩
  rw [hmails', hmails, hu]
  rfl

variable {user input bucket mails}

/-- The condition, where the call that fails is made at all. -/
theorem CleansUp.content_not_stored (h : CleansUp (.before bucket mails)
      (stored env user input bucket mails).2 (stored env user input bucket mails).1)
    {f : FailingCall} (hf : env.failing = some f) (hplace : f.place ≤ callsAfterContent input) :
    f.place = 0 ∧ f.carriedOut = false := by
  rcases Nat.eq_zero_or_pos f.place with hzero | hpos
  · obtain ⟨e, he, -, hiff⟩ := stored_content_fails user input bucket mails hf hzero
    refine ⟨hzero, Bool.eq_false_iff.mpr fun hc => ?_⟩
    obtain ⟨key, hkey⟩ := hiff.mpr hc
    exact (h.thrown e he).1 key hkey
  · obtain ⟨i, hi⟩ := Nat.exists_eq_succ_of_ne_zero hpos.ne'
    obtain ⟨e, he, key, hkey⟩ := stored_later_fails user input bucket mails
      (Nat.lt_of_succ_le (hi ▸ hplace)) ⟨f, hf, hi⟩
    exact absurd hkey ((h.thrown e he).1 key)

/-- The routine cleans up after itself exactly when no call that it makes fails, save a put of the
content that is not carried out. -/
theorem cleansUp_iff (env : StorageEnv) (user : MailboxUser) (input : StoredMailboxMailInput)
    (bucket : String → Option ByteString) (mails : List MailRow) :
    CleansUp (.before bucket mails)
    (stored env user input bucket mails).2 (stored env user input bucket mails).1 ↔
      ∀ f, env.failing = some f → f.place ≤ callsAfterContent input → f.place = 0 ∧
        f.carriedOut = false := by
  constructor
  · intro h f hf hplace
    exact h.content_not_stored hf hplace
  · intro h
    by_cases hfail : ∃ i, i ≤ callsAfterContent input ∧ env.FailsAt i
    · obtain ⟨i, hi, f, hf, rfl⟩ := hfail
      obtain ⟨hzero, hc⟩ := h f hf hi
      obtain ⟨e, he, hmails, hiff⟩ := stored_content_fails user input bucket mails hf hzero
      refine ⟨fun _ _ => ⟨fun key hkey => ?_, hmails⟩, fun row hrow => ?_⟩
      · rw [hiff.mp ⟨key, hkey⟩] at hc
        cases hc
      · rw [he] at hrow
        cases hrow
    · obtain ⟨row, hrow, hmails, hkeys⟩ :=
        stored_returns user input bucket mails fun i hi hf => hfail ⟨i, hi, hf⟩
      refine ⟨fun e he => ?_, fun row' hrow' => ?_⟩
      · rw [he] at hrow
        cases hrow
      · obtain rfl := Except.ok.inj (hrow.symm.trans hrow')
        exact ⟨hmails, hkeys⟩

end

/-- A mail with one attachment, and a storage that refuses the second object. -/
def note : StoredMailboxMailInput :=
  ⟨"bob@example.org", "alice@redbox.cx", "Notes", "See below.",
    some [⟨[1, 2, 3], "a.bin", "application/octet-stream", 3, none⟩]⟩

def refusing : StorageEnv :=
  ⟨fun _ => "0", fun _ n => List.replicate n 0, fun _ _ body => body, fun _ body => body,
    some ⟨1, false⟩⟩

theorem stored_residue : ¬ ∀ (env : StorageEnv) (user : MailboxUser) (input :
      StoredMailboxMailInput) (bucket : String → Option ByteString) (mails : List MailRow),
    CleansUp (.before bucket mails)
    (stored env user input bucket mails).2 (stored env user input bucket mails).1 := by
  intro h
  have := (h refusing ⟨"1", "public"⟩ note (fun _ => none) []).content_not_stored rfl (by decide)
  cases this.1

end Redbox.MailStorage
