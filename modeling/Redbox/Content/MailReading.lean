import Redbox.Backend.World
import Redbox.Bytes.Utf8Text
import Redbox.Content.MailStorage

/-! Reading what `storeMailboxMailForUser` has stored: `getSingleMail` and `downloadAttachment`. -/
namespace Redbox.MailReading
open Bytes Interleaving MailStorage

/-- Node's decryption. It throws for some of the data that was not encrypted for it. -/
structure Decryption where
  aes256Cbc : ByteString → ByteString → ByteString → Option ByteString
  privateDecrypt : String → ByteString → Option ByteString

structure User where
  encryptedPrivateKey : ByteString
  privateKeyIv : ByteString

structure InternalMailAttachment where
  id : String
  name : String
  type : String
  size : Nat
  storageKey : Option String

/-- A row, the ids that the database gave to it and to its attachments, and the attachments of the
internal mail that it was delivered from. -/
structure Mail where
  id : String
  row : MailRow
  attachmentIds : List String
  sharedAttachments : List InternalMailAttachment
  isRead : Bool

def Mail.attachments (mail : Mail) : List (String × MailStorage.MailAttachment) :=
  mail.attachmentIds.zip mail.row.attachments

/-- Columns and cached keys are in hexadecimal; here they are the bytes. -/
structure Mailbox where
  users : String → Option User
  mails : List Mail
  masterKeys : String → Option ByteString
  bucket : String → Option ByteString

structure AttachmentInfo where
  id : String
  filename : String
  mimetype : String
  size : Nat
  isSharedInternal : Bool
  deriving DecidableEq

/-- The attachments of an internal mail, as the recipients are shown them. -/
def Mail.sharedInfos (mail : Mail) : List AttachmentInfo :=
  (mail.sharedAttachments.filter (·.storageKey.isSome)).map fun a =>
    ⟨a.id, a.name, a.type, a.size, true⟩

structure SingleMail where
  id : String
  userId : String
  sender : String
  recipient : String
  subject : String
  contentSize : Nat
  isRead : Bool
  content : String
  attachments : List AttachmentInfo
  deriving DecidableEq

structure Attachment where
  buffer : ByteString
  filename : String
  mimetype : String
  size : Nat
  deriving DecidableEq

namespace Mailbox

def findMail (s : Mailbox) (mailId : String) : Option Mail := s.mails.find? (·.id == mailId)

def markRead (s : Mailbox) (mailId : String) : Mailbox :=
  { s with
    mails := updateWhere (·.id == mailId) (fun mail => { mail with isRead := true }) s.mails }

end Mailbox

def orThrow {α : Type} (e : Thrown) : Option α → Except Thrown α
  | some a => .ok a
  | none => .error e

namespace MailService
variable (dec : Decryption) (s : Mailbox)

/-- The key of a mail, under the private key of its user, under his master key. -/
def mailKey (userId : String) (user : User) (mail : Mail) : Except Thrown ByteString := do
  let rawMasterKey ← orThrow (unauthorized "MasterKey not found in cache. Please re-login.")
    ((s.masterKeys userId).filter (· ≠ []))
  let privateKeyPem ← orThrow .typeError
    (dec.aes256Cbc rawMasterKey user.privateKeyIv user.encryptedPrivateKey)
  orThrow .typeError (dec.privateDecrypt (toText privateKeyPem) mail.row.encryptedMailKey)

def downloadStorageObjectByKey (storageKey : String) : Except Thrown ByteString :=
  orThrow (notFound "Stored mail object not found") (s.bucket storageKey)

def getSingleMail (userId mailId : String) : Except Thrown (SingleMail × Mailbox) := do
  let (mail, user) ← match s.findMail mailId, s.users userId with
    | some mail, some user =>
      if mail.row.userId ≠ userId then .error (notFound "Mail not found") else .ok (mail, user)
    | _, _ => .error (notFound "Mail not found")
  let key ← mailKey dec s userId user mail
  let encryptedContent ← orThrow (.fault .noSuchKey) (s.bucket mail.row.storageKey)
  let content ← orThrow .typeError (dec.aes256Cbc key mail.row.mailKeyIv encryptedContent)
  let own := mail.attachments.map fun (id, a) => ⟨id, a.filename, a.mimetype, a.size, false⟩
  let shared := (mail.sharedAttachments.filter (·.storageKey.isSome)).map fun a =>
    ⟨a.id, a.name, a.type, a.size, true⟩
  return (⟨mail.id, mail.row.userId, mail.row.sender, mail.row.recipient, mail.row.subject,
    mail.row.contentSize, mail.isRead, toText content, own ++ shared⟩,
    if mail.isRead then s else s.markRead mailId)

def downloadAttachment (userId mailId attachmentId : String) : Except Thrown Attachment := do
  let (mail, user) ← match s.users userId, s.findMail mailId with
    | some user, some mail =>
      if mail.row.userId ≠ userId then .error (notFound "Attachment not found or access denied")
        else .ok (mail, user)
    | _, _ => .error (notFound "Attachment not found or access denied")
  match mail.attachments.find? (·.1 == attachmentId) with
  | some (_, attachment) =>
    let key ← mailKey dec s userId user mail
    let encrypted ← downloadStorageObjectByKey s attachment.storageKey
    let buffer ← orThrow .typeError (dec.aes256Cbc key mail.row.mailKeyIv encrypted)
    return ⟨buffer, attachment.filename, attachment.mimetype, attachment.size⟩
  | none =>
    let shared := mail.sharedAttachments.filter fun a => a.id == attachmentId && a.storageKey.isSome
    match shared.head?.bind fun a => (a.storageKey.filter (· ≠ "")).map (a, ·) with
    | some (a, storageKey) =>
      let buffer ← downloadStorageObjectByKey s storageKey
      return ⟨buffer, a.name, a.type, a.size⟩
    | none => .error (notFound "Attachment not found or access denied")

end MailService

/-- What the services rely on: random bytes are as many as asked for, and decryption undoes
encryption, with the private key that belongs to the public one. -/
structure Deciphers (env : StorageEnv) (dec : Decryption) (publicKey privateKey : String) :
    Prop where
  randomBytes : ∀ n size, (env.randomBytes n size).length = size
  aes256Cbc : ∀ key iv data, key.length = 32 → iv.length = 16 →
    dec.aes256Cbc key iv (env.aes256Cbc key iv data) = some data
  privateDecrypt : ∀ data, data.length = 32 →
    dec.privateDecrypt privateKey (env.publicEncrypt publicKey data) = some data

/-- The user has the private key under his master key, which is in the cache. -/
def LoggedIn (env : StorageEnv) (s : Mailbox) (userId privateKey : String) : Prop :=
  ∃ masterKey iv, masterKey.length = 32 ∧ iv.length = 16 ∧ s.masterKeys userId = some masterKey ∧
    s.users userId = some ⟨env.aes256Cbc masterKey iv (ofText privateKey), iv⟩

/-- The mail is the one that was stored, and its objects are as they were written. -/
structure Holds (s : Mailbox) (mail : Mail) (bucket : String → Option StoredObject) : Prop where
  found : s.findMail mail.id = some mail
  ids : mail.attachmentIds.Nodup ∧ mail.attachmentIds.length = mail.row.attachments.length
  objects : ∀ key ∈ mail.row.storageKeys, s.bucket key = (bucket key).map (·.body)

/-- Its user reads the content and each attachment as they came in, and is the only one who does.
Reading marks the mail. -/
structure ReadsBack (dec : Decryption) (s : Mailbox) (user : MailboxUser)
    (input : StoredMailboxMailInput) (mail : Mail) : Prop where
  content : MailService.getSingleMail dec s user.id mail.id =
    .ok (⟨mail.id, user.id, input.sender, input.recipient, input.subject,
      input.content.utf8ByteSize,
      mail.isRead, input.content, ((mail.attachmentIds.zip (input.attachments.getD [])).map fun a =>
        ⟨a.1, a.2.filename, a.2.mimetype, a.2.size, false⟩) ++ mail.sharedInfos⟩,
      if mail.isRead then s else s.markRead mail.id)
  attachment : ∀ (i : Nat) attachment id, (input.attachments.getD [])[i]? = some attachment →
    mail.attachmentIds[i]? = some id → MailService.downloadAttachment dec s user.id mail.id id =
      .ok ⟨attachment.content, attachment.filename, attachment.mimetype, attachment.size⟩
  others : ∀ userId id, userId ≠ user.id →
    MailService.getSingleMail dec s userId mail.id = .error (notFound "Mail not found") ∧
    MailService.downloadAttachment dec s userId mail.id id =
      .error (notFound "Attachment not found or access denied")

section
variable {env : StorageEnv} {α β : Type} {x : Storing α} {f : α → Storing β}
  {P : Storage → α → Storage → Prop} {Q : Storage → β → Storage → Prop}

/-- What holds of a routine whenever it returns. -/
def Yields (env : StorageEnv) (x : Storing α) (P : Storage → α → Storage → Prop) : Prop :=
  ∀ u a t, perform env x u = (.ok a, t) → P u.store a t.store

theorem Yields.ret {a : α} (h : ∀ s, P s a s) : Yields env (.ret a) P := by
  rintro u a' t ⟨⟩
  exact h u.store

theorem Yields.bind (hx : Yields env x P)
    (hf : ∀ a, Yields env (f a) fun s b t => ∀ s₀, P s₀ a s → Q s₀ b t) :
    Yields env (x.bind f) Q := by
  intro u b t h
  cases hrun : perform env x u with
  | mk r t' =>
    cases r with
    | ok a =>
      rw [perform_ok hrun] at h
      exact hf a t' b t h u.store (hx u a t' hrun)
    | error e =>
      rw [perform_error hrun] at h
      cases h

theorem Yields.mono {P' : Storage → α → Storage → Prop} (hx : Yields env x P)
    (h : ∀ s a t, P s a t → P' s a t) : Yields env x P' :=
  fun u a t hrun => h _ _ _ (hx u a t hrun)

/-- A call that returns. -/
theorem yields_await {q : StorageCall} {P : Storage → q.Answer → Storage → Prop}
    (h : ∀ (s : Storage) a, (s.exec env () q).2 = .ok a → P s a (s.exec env () q).1) :
    Yields env (MailStorage.await q) P := by
  intro u a t hrun
  cases hreply : (u.store.exec env () q).2 with
  | ok b =>
    rw [perform_await_ok hreply] at hrun
    cases hrun
    exact h u.store a hreply
  | error e =>
    rw [perform_await_error hreply] at hrun
    cases hrun

theorem attempt_returns (effect : Storage → Storage) {a b : α} {s : Storage}
    (h : (s.attempt env effect a).2 = .ok b) :
    b = a ∧ (s.attempt env effect a).1 = (effect s).count := by
  unfold Storage.attempt at h ⊢
  split at h
  · cases h
  · exact ⟨(Except.ok.inj h).symm, rfl⟩

/-- Nothing is written but objects with these keys. -/
def Spares (keys : List String) (s t : Storage) : Prop :=
  ∀ key, key ∉ keys → t.bucket key = s.bucket key

theorem yields_put (key : String) (body : ByteString) :
    Yields env (MailStorage.await (.putObject key body)) fun s _ t =>
      Spares [key] s t ∧ t.bucket key = some ⟨body, true⟩ := by
  apply yields_await
  intro s a h
  have hexec : (s.exec env () (.putObject key body)).1 = ((s.put key body)).count :=
    (attempt_returns _ h).2
  rw [hexec]
  refine ⟨fun key' hne => ?_, Function.update_self ..⟩
  exact Function.update_of_ne (List.ne_of_not_mem_cons hne) ..

theorem yields_encrypt (publicKey : String) (data : ByteString) :
    Yields env (MailStorage.await (.publicEncrypt publicKey data)) fun s a t =>
      t.bucket = s.bucket ∧ a = env.publicEncrypt publicKey data := by
  apply yields_await
  intro s a h
  obtain ⟨ha, hs⟩ := attempt_returns id h
  have hexec : (s.exec env () (.publicEncrypt publicKey data)).1 = s.count := hs
  rw [hexec]
  exact ⟨rfl, ha⟩

theorem yields_create (row : MailRow) :
    Yields env (MailStorage.await (.createMail row)) fun s a t =>
      t.bucket = s.bucket ∧ a = row := by
  apply yields_await
  intro s a h
  obtain ⟨ha, hs⟩ := attempt_returns (Storage.insert row) h
  have hexec : (s.exec env () (.createMail row)).1 = (s.insert row).count := hs
  rw [hexec]
  exact ⟨rfl, ha⟩

/-- The object of an attachment, and the row that describes it. -/
structure Put (env : StorageEnv) (key iv : ByteString) (attachment : MailboxAttachmentInput)
    (row : MailStorage.MailAttachment) (t : Storage) : Prop where
  described : row.filename = attachment.filename ∧ row.mimetype = attachment.mimetype ∧
    row.size = attachment.size
  object : t.bucket row.storageKey = some ⟨env.aes256Cbc key iv attachment.content, true⟩

variable (key iv : ByteString)

theorem storeAttachment_yields (attachment : MailboxAttachmentInput) :
    Yields env (storeAttachment env key iv attachment) fun s row t =>
      Spares [row.storageKey] s t ∧ Put env key iv attachment row t := by
  have hput : ∀ storageKey, Yields env
      ((MailStorage.await (.putObject storageKey (env.aes256Cbc key iv attachment.content))).bind
        fun _ => .ret (⟨attachment.filename, attachment.mimetype, attachment.size,
          storageKey⟩ : MailStorage.MailAttachment))
      fun s row t => Spares [row.storageKey] s t ∧ Put env key iv attachment row t := by
    intro storageKey
    refine (yields_put _ _).bind fun _ => ?_
    exact .ret fun s s₀ h => ⟨h.1, ⟨rfl, rfl, rfl⟩, h.2⟩
  rw [storeAttachment]
  cases attachment.storageKey.filter (· ≠ "") with
  | some storageKey => exact hput storageKey
  | none =>
    have hdraw : Yields env (MailStorage.await .uuidv4) fun s _ t => t.bucket = s.bucket :=
      yields_await fun _ _ _ => rfl
    refine hdraw.bind fun id => (hput s!"mail_att_{id}.bin").mono fun s row t h s₀ hs => ⟨?_, h.2⟩
    intro key hkey
    rw [h.1 key hkey, hs]

theorem storeAttachments_yields (attachments : List MailboxAttachmentInput) :
    Yields env (storeAttachments env key iv attachments) fun s rows t =>
      Spares (rows.map (·.storageKey)) s t ∧ ((rows.map (·.storageKey)).Nodup →
        List.Forall₂ (fun attachment row => Put env key iv attachment row t) attachments rows) := by
  induction attachments with
  | nil => exact .ret fun s => ⟨fun _ _ => rfl, fun _ => .nil⟩
  | cons attachment rest ih =>
    refine (storeAttachment_yields key iv attachment).bind fun row => ?_
    refine ih.bind fun rows => ?_
    apply Yields.ret
    intro s s₁ ⟨hspares, hrows⟩ s₀ ⟨hspares₀, hrow⟩
    refine ⟨fun key' hkey => ?_, fun hnodup => ?_⟩
    · obtain ⟨hne, hrest⟩ := not_or.mp (mt List.mem_cons.mpr hkey)
      exact (hspares key' hrest).trans (hspares₀ key' (by simpa using hne))
    · obtain ⟨hfresh, hnodup⟩ := List.nodup_cons.mp hnodup
      refine .cons ⟨hrow.described, ?_⟩ (hrows hnodup)
      rw [hspares _ hfresh]
      exact hrow.object

/-- A mail as it is stored: the rows, the key, and the objects. -/
structure Written (env : StorageEnv) (user : MailboxUser) (input : StoredMailboxMailInput)
    (key iv : ByteString) (row : MailRow) (t : Storage) : Prop where
  userId : row.userId = user.id
  shown : row.sender = input.sender ∧ row.recipient = input.recipient ∧
    row.subject = input.subject ∧ row.contentSize = input.content.utf8ByteSize
  mailKey : row.encryptedMailKey = env.publicEncrypt user.publicKey key
  mailIv : row.mailKeyIv = iv
  content : t.bucket row.storageKey =
    some ⟨env.aes256Cbc key iv (ofText input.content), true⟩
  attachments : List.Forall₂ (fun attachment row => Put env key iv attachment row t)
    (input.attachments.getD []) row.attachments

theorem storeRest_yields (user : MailboxUser) (input : StoredMailboxMailInput)
    (storageKey : String) :
    Yields env ((MailStorage.await (.putObject storageKey
        (env.aes256Cbc key iv (ofText input.content)))).bind fun _ =>
      storeRest env key iv user input storageKey) fun _ row t =>
        row.storageKeys.Nodup → Written env user input key iv row t := by
  refine (yields_put _ _).bind fun _ => ?_
  refine (storeAttachments_yields key iv _).bind fun rows => ?_
  refine (yields_encrypt user.publicKey key).bind fun encryptedMailKey => ?_
  refine (yields_create _).mono ?_
  rintro s₃ row t ⟨hs₃, rfl⟩ s₂ ⟨hs₂, hkey⟩ s₁ ⟨hspares, hrows⟩ s₀ ⟨-, hcontent⟩ hnodup
  obtain ⟨hfresh, hnodup⟩ := List.nodup_cons.mp hnodup
  have hbucket : t.bucket = s₂.bucket := hs₃.trans hs₂
  refine ⟨rfl, ⟨rfl, rfl, rfl, rfl⟩, hkey, rfl, ?_, ?_⟩
  · rw [hbucket, hspares _ hfresh, hcontent]
  · apply (hrows hnodup).imp
    intro attachment row h
    exact ⟨h.described, hbucket ▸ h.object⟩

/-- What the routine leaves when it returns. -/
theorem stored_yields (user : MailboxUser) (input : StoredMailboxMailInput)
    (bucket : String → Option ByteString) (mails : List MailRow) {row : MailRow}
    (h : (stored env user input bucket mails).1 = .ok row) (hnodup : row.storageKeys.Nodup) :
    Written env user input (env.randomBytes 1 32) (env.randomBytes 2 16) row
      (stored env user input bucket mails).2 := by
  obtain ⟨u, -, heq⟩ := stored_eq env user input bucket mails
  rw [heq] at h ⊢
  exact storeRest_yields _ _ user input (contentKey env) u row _ (Prod.ext h rfl) hnodup

end

section
variable {env : StorageEnv} {dec : Decryption} {s : Mailbox} {user : MailboxUser}
  {privateKey : String}
  {input : StoredMailboxMailInput} {mail : Mail} {key iv : ByteString} {t : Storage}

theorem ok_bind {α β : Type} (a : α) (f : α → Except Thrown β) : (Except.ok a >>= f) = f a := rfl

theorem orThrow_some {α : Type} (e : Thrown) (a : α) : orThrow e (some a) = .ok a := rfl

/-- The rows describe the attachments. -/
theorem infos_eq {attachments : List MailboxAttachmentInput}
    {rows : List MailStorage.MailAttachment}
    (h : List.Forall₂ (fun attachment row => Put env key iv attachment row t) attachments rows)
    (ids : List String) :
    (ids.zip rows).map (fun a => AttachmentInfo.mk a.1 a.2.filename a.2.mimetype a.2.size false) =
      (ids.zip attachments).map fun a => ⟨a.1, a.2.filename, a.2.mimetype, a.2.size, false⟩ := by
  induction h generalizing ids with
  | nil => rw [List.zip_nil_right, List.zip_nil_right]; rfl
  | cons hput _ ih =>
    cases ids with
    | nil => rfl
    | cons id ids =>
      obtain ⟨hfilename, hmimetype, hsize⟩ := hput.described
      simp only [List.zip_cons_cons, List.map_cons, hfilename, hmimetype, hsize, ih]

theorem mailKey_written (crypto : Deciphers env dec user.publicKey privateKey)
    (hw : Written env user input key iv mail.row t) (hkey : key.length = 32) {u : User}
    (hlogin : LoggedIn env s user.id privateKey) (hu : s.users user.id = some u) :
    MailService.mailKey dec s user.id u mail = .ok key := by
  obtain ⟨masterKey, iv', hlength, hlength', hcached, huser⟩ := hlogin
  cases huser.symm.trans hu
  have hne : masterKey ≠ [] := by
    rintro rfl
    cases hlength
  have hfilter : (s.masterKeys user.id).filter (· ≠ []) = some masterKey := by
    rw [hcached, Option.filter_some, if_pos (decide_eq_true hne)]
  simp only [MailService.mailKey, hfilter, crypto.aes256Cbc masterKey iv' _ hlength hlength',
    toText_ofText, hw.mailKey, crypto.privateDecrypt key hkey, orThrow_some, ok_bind]

/-- Ids that are distinct lead to their rows. -/
theorem find?_zip {α : Type} {ids : List String} {rows : List α} {i : Nat} {id : String} {row : α}
    (hids : ids.Nodup) (hid : ids[i]? = some id) (hrow : rows[i]? = some row) :
    (ids.zip rows).find? (·.1 == id) = some (id, row) := by
  induction ids generalizing rows i with
  | nil => cases hid
  | cons id' ids ih =>
    obtain ⟨hfresh, hids⟩ := List.nodup_cons.mp hids
    cases rows with
    | nil => cases hrow
    | cons row' rows =>
      rw [List.zip_cons_cons]
      cases i with
      | zero =>
        cases hid
        cases hrow
        exact List.find?_cons_of_pos (beq_self_eq_true id)
      | succ i =>
        have hne : id' ≠ id := by
          rintro rfl
          exact hfresh (List.mem_of_getElem? hid)
        rw [List.find?_cons_of_neg (by simpa using hne)]
        exact ih hids hid hrow

theorem content_read (crypto : Deciphers env dec user.publicKey privateKey)
    (hw : Written env user input key iv mail.row t) (hkey : key.length = 32) (hiv : iv.length = 16)
    (hholds : Holds s mail t.bucket) (hlogin : LoggedIn env s user.id privateKey) :
    MailService.getSingleMail dec s user.id mail.id =
      .ok (⟨mail.id, user.id, input.sender, input.recipient, input.subject,
        input.content.utf8ByteSize, mail.isRead, input.content,
        ((mail.attachmentIds.zip (input.attachments.getD [])).map fun a =>
          ⟨a.1, a.2.filename, a.2.mimetype, a.2.size, false⟩) ++ mail.sharedInfos⟩,
        if mail.isRead then s else s.markRead mail.id) := by
  obtain ⟨u, hu⟩ : ∃ u, s.users user.id = some u := by
    obtain ⟨_, _, -, -, -, h⟩ := hlogin
    exact ⟨_, h⟩
  have hmailKey := mailKey_written crypto hw hkey hlogin hu
  have hobject : s.bucket mail.row.storageKey =
      some (env.aes256Cbc key iv (ofText input.content)) := by
    rw [hholds.objects _ List.mem_cons_self, hw.content]
    rfl
  obtain ⟨hsender, hrecipient, hsubject, hsize⟩ := hw.shown
  simp only [MailService.getSingleMail, hholds.found, hu, hw.userId, ne_eq, not_true_eq_false,
    if_false, hmailKey, hobject, hw.mailIv, hsender, hrecipient, hsubject, hsize, orThrow_some,
    ok_bind, crypto.aes256Cbc key iv _ hkey hiv, toText_ofText, Mail.attachments,
    infos_eq hw.attachments mail.attachmentIds]
  rfl

theorem attachment_read (crypto : Deciphers env dec user.publicKey privateKey)
    (hw : Written env user input key iv mail.row t) (hkey : key.length = 32) (hiv : iv.length = 16)
    (hholds : Holds s mail t.bucket) (hlogin : LoggedIn env s user.id privateKey) {i : Nat}
    {attachment : MailboxAttachmentInput} {id : String}
    (hi : (input.attachments.getD [])[i]? = some attachment)
    (hid : mail.attachmentIds[i]? = some id) :
    MailService.downloadAttachment dec s user.id mail.id id =
      .ok ⟨attachment.content, attachment.filename, attachment.mimetype, attachment.size⟩ := by
  obtain ⟨u, hu⟩ : ∃ u, s.users user.id = some u := by
    obtain ⟨_, _, -, -, -, h⟩ := hlogin
    exact ⟨_, h⟩
  have hmailKey := mailKey_written crypto hw hkey hlogin hu
  obtain ⟨row, hrow, hput⟩ : ∃ row, mail.row.attachments[i]? = some row ∧
      Put env key iv attachment row t := by
    obtain ⟨hlength, hput⟩ := List.forall₂_iff_get.mp hw.attachments
    obtain ⟨hlt, rfl⟩ := List.getElem?_eq_some_iff.mp hi
    exact ⟨_, List.getElem?_eq_getElem (hlength ▸ hlt), hput i hlt (hlength ▸ hlt)⟩
  have hfind : mail.attachments.find? (·.1 == id) = some (id, row) :=
    find?_zip hholds.ids.1 hid hrow
  have hobject : s.bucket row.storageKey = some (env.aes256Cbc key iv attachment.content) := by
    rw [hholds.objects _ (List.mem_cons_of_mem _ (List.mem_map_of_mem (List.mem_of_getElem? hrow))),
      hput.object]
    rfl
  obtain ⟨hfilename, hmimetype, hsize⟩ := hput.described
  simp only [MailService.downloadAttachment, hholds.found, hu, hw.userId, ne_eq, not_true_eq_false,
    if_false, ok_bind, hfind, hmailKey, MailService.downloadStorageObjectByKey, hobject,
    hw.mailIv, orThrow_some, crypto.aes256Cbc key iv _ hkey hiv, hfilename, hmimetype, hsize]
  rfl

theorem others_refused (hholds : s.findMail mail.id = some mail) {userId : String}
    (hne : userId ≠ mail.row.userId) (id : String) :
    MailService.getSingleMail dec s userId mail.id = .error (notFound "Mail not found") ∧
    MailService.downloadAttachment dec s userId mail.id id =
      .error (notFound "Attachment not found or access denied") := by
  simp only [MailService.getSingleMail, MailService.downloadAttachment, hholds]
  cases s.users userId with
  | none => exact ⟨rfl, rfl⟩
  | some u =>
    simp only [ne_eq, Ne.symm hne, not_false_eq_true, if_true]
    exact ⟨rfl, rfl⟩

end

def plainEnv : StorageEnv :=
  ⟨fun n => if n = 0 then "a" else "b", fun _ size => List.replicate size 0, fun _ _ body => body,
    fun _ body => body, none⟩

def plainDecryption : Decryption := ⟨fun _ _ body => some body, fun _ body => some body⟩

def alice : MailboxUser := ⟨"alice", "public"⟩

def noteRow : MailRow :=
  { sender := "bob@example.org", recipient := "alice@redbox.cx", subject := "Notes"
    storageKey := "mail_a.bin", userId := "alice", encryptedMailKey := List.replicate 32 0
    mailKeyIv := List.replicate 16 0, contentSize := 10
    attachments := [⟨"a.bin", "application/octet-stream", 3, "mail_att_b.bin"⟩] }

def aliceMailbox : Mailbox :=
  { users := fun id => if id = "alice" then some ⟨ofText "private", List.replicate 16 0⟩ else none
    mails := [⟨"7", noteRow, ["8"], [], false⟩]
    masterKeys := fun id => if id = "alice" then some (List.replicate 32 1) else none
    bucket := fun key => if key = "mail_a.bin" then some (ofText "See below.")
      else if key = "mail_att_b.bin" then some [1, 2, 3] else none }

end Redbox.MailReading
