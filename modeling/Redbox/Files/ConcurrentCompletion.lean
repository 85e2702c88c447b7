import Redbox.Files.UploadState
import Redbox.Interleaving.Outline

/-! Any number of calls of `finalizeUpload` for one upload. S3 may answer a completion of an
upload that it has completed already as if it were the first. -/
namespace Redbox
open Interleaving

namespace Redis
variable {r r' : Redis} {now now' : Time} {key : RedisKey} {value : RedisValue} {x : Id}

theorem get_of_later (hle : now ≤ now') (h : r.get now' key = some value) :
    r.get now key = some value := by
  have hlive : (r.live now' key).isSome = true := by
    obtain ⟨e, he, -⟩ := Option.map_eq_some_iff.mp h
    rw [he]
    rfl
  rw [← get_later hle hlive]
  exact h

theorem smembers_congr (h : r'.lookup key = r.lookup key) :
    r'.smembers now key = r.smembers now key := by
  rw [smembers, smembers, get_congr h]

theorem mem_smembers_of_later (hle : now ≤ now') (h : x ∈ r.smembers now' key) :
    x ∈ r.smembers now key := by
  unfold smembers at h ⊢
  split at h
  · next ids hget =>
    rw [get_of_later hle hget]
    exact h
  · cases h

/-- The sets of the store have no member twice. -/
def Nodup (r : Redis) (key : RedisKey) : Prop :=
  ∀ ids t, r.lookup key = some ⟨.members ids, t⟩ → ids.Nodup

theorem Nodup.smembers (h : r.Nodup key) : (r.smembers now key).Nodup := by
  unfold Redis.smembers
  split
  · next ids hget =>
    obtain ⟨e, he, hvalue⟩ := Option.map_eq_some_iff.mp hget
    have hlookup := (Option.filter_eq_some_iff.mp he).1
    exact h ids e.expiresAt (by rw [hlookup, ← hvalue])
  · exact List.nodup_nil

/-- What taking a member out of a set leaves: the set without it, or no set. -/
theorem lookup_srem_cases (r : Redis) (now : Time) (key : RedisKey) (x : Id) :
    (r.write now (.srem key x)).lookup key = r.lookup key ∧
      r.live now key = none ∨
    (r.write now (.srem key x)).lookup key = none ∨
    ∃ t, (r.write now (.srem key x)).lookup key =
      some ⟨.members ((r.smembers now key).erase x), t⟩ := by
  cases hlive : r.live now key with
  | none => exact .inl ⟨by simp only [write, hlive], rfl⟩
  | some e =>
    cases herase : (r.smembers now key).erase x with
    | nil =>
      refine .inr (.inl ?_)
      simp only [write, hlive, herase]
      exact AList.lookup_erase key r
    | cons y ys =>
      refine .inr (.inr ⟨e.expiresAt, ?_⟩)
      simp only [write, hlive, herase]
      exact AList.lookup_insert r

theorem Nodup.srem (h : r.Nodup key) : (r.write now (.srem key x)).Nodup key := by
  intro ids t hids
  rcases lookup_srem_cases r now key x with ⟨hsame, -⟩ | hnone | ⟨t', hset⟩
  · exact h ids t (hsame ▸ hids)
  · rw [hnone] at hids
    cases hids
  · rw [hset] at hids
    cases hids
    exact h.smembers.erase x

theorem not_mem_smembers_srem (h : r.Nodup key) :
    x ∉ (r.write now (.srem key x)).smembers now key := by
  intro hx
  obtain ⟨ids, t, hids, hmem⟩ := mem_of_mem_smembers hx
  rcases lookup_srem_cases r now key x with ⟨hsame, hlive⟩ | hnone | ⟨t', hset⟩
  · rw [smembers_congr hsame, smembers, get, hlive] at hx
    cases hx
  · rw [hnone] at hids
    cases hids
  · rw [hset] at hids
    cases hids
    exact h.smembers.not_mem_erase hmem

end Redis

namespace ConcurrentCompletion

/-- Calls arrive and their replies arrive. A completion may be answered again. -/
inductive Turn where
  | delivered | again
  deriving DecidableEq

def exec (cfg : Config) (c : Turn) (q : Request) (w : World) : World × Reply q :=
  match c, q with
  | .again, .s3 .files (.completeMultipartUpload _ _ _) => (w, .ok ())
  | _, q => w.deliver cfg q

def completions (cfg : Config) (userId uploadId : Id) :
    System Request Reply Thrown File World CompleteUploadDto Turn Nat where
  exec := exec cfg
  drift := World.tick
  program := FilesService.finalizeUpload cfg userId uploadId

def isCompletion (key : Id) (s3UploadId : Option Id) : BackendEvent → Bool
  | ⟨_, .s3 .files (.completeMultipartUpload k i _), .ok _⟩ => k == key && i == s3UploadId
  | _ => false

/-- S3 has completed the upload. -/
def Completed (key : Id) (s3UploadId : Option Id) (s : SharedWorld) : Prop :=
  ∃ e ∈ s.log, isCompletion key s3UploadId e = true

abbrev CompletionRules := Rules Request Reply World CompleteUploadDto Turn Nat

/-- An answer is repeated only after a first one. -/
def anyCompletion : CompletionRules where
  starts := fun _ _ => true
  allows := fun s _ q c => decide (c = .delivered) || match q with
    | .s3 .files (.completeMultipartUpload key s3UploadId _) =>
      s.log.any (isCompletion key s3UploadId)
    | _ => false
  drifts := fun _ _ => true

/-- No call deletes the object of a file that is stored. -/
def sparesFiles (s : SharedWorld) (_ : Nat) (q : Request) (_ : Turn) : Bool :=
  match q with
  | .s3 .files (.deleteObject key) => !(s.store.db.files.any fun f => f.storageName == key)
  | _ => true

def rules : CompletionRules := anyCompletion.also sparesFiles

/-- The row of a file has been inserted. -/
def creates : BackendEvent → Bool
  | ⟨_, .statement (.createFile _ _ _ _ _ _), .ok _⟩ => true
  | _ => false

theorem creates_cases {e : BackendEvent} (h : creates e = true) :
    ∃ p user name mimetype state key iv file,
      e = ⟨p, .statement (.createFile user name mimetype state key iv), .ok file⟩ := by
  obtain ⟨p, q, r⟩ := e
  cases q with
  | statement w =>
    cases w with
    | createFile user name mimetype state key iv =>
      cases r with
      | ok file => exact ⟨p, user, name, mimetype, state, key, iv, file, rfl⟩
      | error _ => cases h
    | _ => cases h
  | _ => cases h

/-- What is left of an upload. -/
structure Forgotten (userId uploadId : Id) (state : UploadMeta) (w : World) : Prop where
  uploadMeta : w.redis.lookup (.uploadMeta userId uploadId) = none
  index : ∀ id, state.s3UploadId = some id → w.redis.lookup (.uploadIndex id) = none
  active : uploadId ∉ w.redis.smembers w.clock (.uploadActive userId)

/-- At most one file is stored, its object is there, and once all calls have ended nothing else is
left of the upload. -/
structure Safe (userId uploadId : Id) (start : World)
    (s : Pool Request Reply Thrown File World CompleteUploadDto) : Prop where
  single : (s.shared.log.filter creates).length ≤ 1
  stored : ∀ p user name mimetype state key iv file,
    ⟨p, .statement (.createFile user name mimetype state key iv), .ok file⟩ ∈ s.shared.log →
    file ∈ s.shared.store.db.files ∧
      (s.shared.store.filesBucket.objects.lookup file.storageName).isSome
  forgotten : s.idle = true → s.shared.log.any creates = true →
    ∀ state, start.uploadMeta userId uploadId = some (.upload state) →
      Forgotten userId uploadId state s.shared.store

/-- No file is stored under the key. -/
def Unstored (key : Id) (db : Database) : Prop := ∀ f ∈ db.files, f.storageName ≠ key

/-- The length of the object that the parts of the upload make. -/
def assembled (start : World) (state : UploadMeta) : Option Nat :=
  match start.filesBucket.complete state.storageKey state.s3UploadId
      (FilesService.sortedParts state) with
  | .ok b => b.objects.lookup state.storageKey
  | .error _ => none

/-- The object has the length that the size of the file asks for. -/
def Fits (start : World) (state : UploadMeta) : Prop :=
  ∃ size, assembled start state = some size ∧
    FilesService.getExpectedEncryptedSize state.fileSize = .ok size

/-- The first call that comes to its transaction will store the file. -/
structure Storable (cfg : Config) (userId : Id) (start : World) (state : UploadMeta) : Prop where
  allowed : start.db.checkUploadAllowance cfg userId state.fileSize = .ok ()
  unused : Unstored state.storageKey start.db
  fits : Fits start state

section
variable (cfg : Config) (userId uploadId : Id) (start : World) (state : UploadMeta)

/-- The one row that is created, and the event that it was created in. -/
def CreatedOnce (s : SharedWorld) : Prop :=
  ∃ p user name mimetype key iv file,
    s.log.filter creates = [⟨p, .statement (.createFile user name mimetype state key iv),
      .ok file⟩] ∧
    s.store.db = { start.db with files := file :: start.db.files } ∧
    file.storageName = state.storageKey

structure Inv (s : SharedWorld) : Prop where
  tracked : ∀ value, s.store.uploadMeta userId uploadId = some value →
    start.uploadMeta userId uploadId = some value
  sets : s.store.redis.Nodup (.uploadActive userId)
  rows : s.log.filter creates = [] ∧ s.store.db = start.db ∨
    CreatedOnce start state s ∧ Storable cfg userId start state ∧
      Completed state.storageKey state.s3UploadId s
  pending : ∀ id u, state.s3UploadId = some id →
    s.store.filesBucket.upload state.storageKey id = some u →
    start.filesBucket.upload state.storageKey id = some u ∧
      ¬ Completed state.storageKey state.s3UploadId s
  object : Completed state.storageKey state.s3UploadId s →
    (∃ size, assembled start state = some size ∧
      s.store.filesBucket.objects.lookup state.storageKey = some size) ∨
    s.store.filesBucket.objects.lookup state.storageKey = none ∧
      ¬ Storable cfg userId start state

/-- The writes that forget the upload. -/
def forgets (w : RedisWrite) : Prop :=
  w = .del (.uploadMeta userId uploadId) ∨ (∃ id, w = .del (.uploadIndex id)) ∨
    w = .srem (.uploadActive userId) uploadId

/-- What a process knows when it makes a call. -/
def pre (s : SharedWorld) (_ : Nat) : Request → Prop
  | .random | .redis (.get _) | .s3 .files (.headObject _)
  | .s3 .files (.abortMultipartUpload _ _) => True
  | .redis (.write w) => forgets userId uploadId w
  | .s3 .files (.completeMultipartUpload key s3UploadId parts) =>
    key = state.storageKey ∧ s3UploadId = state.s3UploadId ∧
      parts = FilesService.sortedParts state
  | .s3 .files (.deleteObject key) => key = state.storageKey ∧
    Completed state.storageKey state.s3UploadId s ∧
      (¬ Storable cfg userId start state ∨ s.log.filter creates ≠ [])
  | .statement (.createFile user _ _ uploadMeta _ _) => user = userId ∧ uploadMeta = state ∧
    Completed state.storageKey state.s3UploadId s ∧ Fits start state
  | _ => False

def outline : Outline Request Reply World :=
  ⟨Inv cfg userId uploadId start state, pre cfg userId uploadId start state⟩

end

section
variable {cfg : Config} {userId uploadId : Id} {start : World} {state : UploadMeta}
  {s : SharedWorld} {w : World} {c : Turn} {q : Request}

theorem exec_eq (cfg : Config) (w : World)
    (h : ∀ key i parts, q ≠ .s3 .files (.completeMultipartUpload key i parts)) :
    exec cfg c q w = w.deliver cfg q := by
  cases c with
  | delivered => rfl
  | again =>
    cases q with
    | s3 name r =>
      cases name with
      | mails => rfl
      | files =>
        cases r with
        | completeMultipartUpload key i parts => exact absurd rfl (h key i parts)
        | _ => rfl
    | _ => rfl

theorem Completed.cons {key : Id} {i : Option Id} (h : Completed key i s) (e : BackendEvent) :
    Completed key i ⟨w, e :: s.log⟩ := by
  obtain ⟨x, hx, hcompletes⟩ := h
  exact ⟨x, List.mem_cons_of_mem e hx, hcompletes⟩

theorem completed_cons {key : Id} {i : Option Id} {e : BackendEvent} :
    Completed key i ⟨w, e :: s.log⟩ ↔ isCompletion key i e = true ∨ Completed key i s :=
  List.exists_mem_cons_iff _ _ _

/-- A call that neither stores a file nor touches objects, and at most forgets the upload. -/
theorem Inv.quiet (h : Inv cfg userId uploadId start state s) {e : BackendEvent}
    (hdb : w.db = s.store.db)
    (hobjects : w.filesBucket.objects = s.store.filesBucket.objects)
    (huploads : ∀ id u, w.filesBucket.upload state.storageKey id = some u →
      s.store.filesBucket.upload state.storageKey id = some u)
    (htracked : ∀ value, w.uploadMeta userId uploadId = some value →
      s.store.uploadMeta userId uploadId = some value)
    (hsets : w.redis.Nodup (.uploadActive userId)) (hcreates : creates e = false)
    (hcompletes : isCompletion state.storageKey state.s3UploadId e = false) :
    Inv cfg userId uploadId start state ⟨w, e :: s.log⟩ where
  tracked value hvalue := h.tracked value (htracked value hvalue)
  sets := hsets
  rows := by
    have hlog : (e :: s.log).filter creates = s.log.filter creates := by
      rw [List.filter_cons_of_neg (by simp [hcreates])]
    rcases h.rows with ⟨hnone, hstart⟩ | ⟨⟨p, user, name, mimetype, key, iv, file, hone,
      hfiles, hname⟩,
      hstorable, hcompleted⟩
    · exact .inl ⟨hlog.trans hnone, hdb.trans hstart⟩
    · exact .inr ⟨⟨p, user, name, mimetype, key, iv, file, hlog.trans hone,
        hdb.trans hfiles, hname⟩,
        hstorable, hcompleted.cons e⟩
  pending id u hid hu := by
    obtain ⟨hstart, hnot⟩ := h.pending id u hid (huploads id u hu)
    refine ⟨hstart, fun hcompleted => ?_⟩
    rcases completed_cons.mp hcompleted with hnow | hbefore
    · rw [hcompletes] at hnow
      cases hnow
    · exact hnot hbefore
  object hcompleted := by
    rw [hobjects]
    rcases completed_cons.mp hcompleted with hnow | hbefore
    · rw [hcompletes] at hnow
      cases hnow
    · exact h.object hbefore

/-- A write that forgets the upload, or a read. -/
theorem Inv.write (h : Inv cfg userId uploadId start state s) {r : RedisWrite}
    (hr : forgets userId uploadId r) {e : BackendEvent} (hcreates : creates e = false)
    (hcompletes : isCompletion state.storageKey state.s3UploadId e = false) :
    Inv cfg userId uploadId start state
      ⟨{ s.store with redis := s.store.redis.write s.store.clock r }, e :: s.log⟩ := by
  refine h.quiet rfl rfl (fun _ _ hu => hu) ?_ ?_ hcreates hcompletes
  · intro value hvalue
    by_cases hkey : RedisKey.uploadMeta userId uploadId = r.key
    · obtain rfl : r = .del (.uploadMeta userId uploadId) := by
        rcases hr with rfl | ⟨id, rfl⟩ | rfl
        · rfl
        · cases hkey
        · cases hkey
      obtain ⟨t, ht⟩ := Redis.lookup_of_get hvalue
      rw [Redis.lookup_del] at ht
      cases ht
    · rw [← hvalue]
      exact (Redis.get_congr (Redis.lookup_write hkey)).symm
  · by_cases hkey : RedisKey.uploadActive userId = r.key
    · obtain rfl : r = .srem (.uploadActive userId) uploadId := by
        rcases hr with rfl | ⟨id, rfl⟩ | rfl
        · cases hkey
        · cases hkey
        · rfl
      exact h.sets.srem
    · intro ids t hids
      rw [Redis.lookup_write hkey] at hids
      exact h.sets ids t hids

/-- The bucket and the counter of names after a request to S3. -/
def withBucket (w : World) (b : Bucket) : World :=
  { w with filesBucket := b, nextId := w.nextId + 1 }

theorem deliver_s3 (cfg : Config) (w : World) (r : S3Request) :
    (∃ b a, w.filesBucket.perform w.nextId r = .ok (b, a) ∧
      w.deliver cfg (.s3 .files r) = (withBucket w b, .ok a)) ∨
    ∃ e, w.filesBucket.perform w.nextId r = .error e ∧
      w.deliver cfg (.s3 .files r) = (w, .error e) := by
  cases h : w.filesBucket.perform w.nextId r with
  | ok b =>
    refine .inl ⟨b.1, b.2, rfl, ?_⟩
    simp only [World.deliver, World.bucket, h]
    rfl
  | error e =>
    refine .inr ⟨e, rfl, ?_⟩
    simp only [World.deliver, World.bucket, h]

theorem Inv.same (h : Inv cfg userId uploadId start state s) {e : BackendEvent}
    (hcreates : creates e = false)
    (hcompletes : isCompletion state.storageKey state.s3UploadId e = false) :
    Inv cfg userId uploadId start state ⟨s.store, e :: s.log⟩ :=
  h.quiet rfl rfl (fun _ _ hu => hu) (fun _ hv => hv) h.sets hcreates hcompletes

theorem Inv.headObject (h : Inv cfg userId uploadId start state s) (p : Nat) (key : Id) :
    Inv cfg userId uploadId start state
      ((completions cfg userId uploadId).after c p (.s3 .files (.headObject key)) s) := by
  have hexec := exec_eq cfg s.store (c := c) (q := .s3 .files (.headObject key)) (by simp)
  simp only [System.after, completions, hexec]
  rcases deliver_s3 cfg s.store (.headObject key) with ⟨b, a, hb, hdeliver⟩ | ⟨e, -, hdeliver⟩
  · have hsame : b = s.store.filesBucket := by
      simp only [Bucket.perform] at hb
      split at hb
      · exact (Prod.mk.inj (Except.ok.inj hb)).1.symm
      · cases hb
    rw [hdeliver, hsame]
    exact h.quiet rfl rfl (fun _ _ hu => hu) (fun _ hv => hv) h.sets rfl rfl
  · rw [hdeliver]
    exact h.same rfl rfl

theorem Inv.abort (h : Inv cfg userId uploadId start state s) (p : Nat) (key : Id)
    (s3UploadId : Option Id) :
    Inv cfg userId uploadId start state ((completions cfg userId uploadId).after c p
      (.s3 .files (.abortMultipartUpload key s3UploadId)) s) := by
  have hexec := exec_eq cfg s.store (c := c) (q :=
    .s3 .files (.abortMultipartUpload key s3UploadId))
    (by simp)
  simp only [System.after, completions, hexec]
  rcases deliver_s3 cfg s.store (.abortMultipartUpload key s3UploadId) with
    ⟨b, a, hb, hdeliver⟩ | ⟨e, -, hdeliver⟩
  · rw [hdeliver]
    cases hab : s.store.filesBucket.abort key s3UploadId with
    | error e => simp [Bucket.perform, hab, bind, Except.bind] at hb
    | ok b' =>
      obtain ⟨i, u, rfl, -, rfl⟩ := Bucket.abort_ok hab
      simp only [Bucket.perform, hab, bind, Except.bind, pure, Except.pure, Except.ok.injEq,
        Prod.mk.injEq] at hb
      obtain ⟨rfl, -⟩ := hb
      refine h.quiet rfl rfl (fun id u hu => ?_) (fun _ hv => hv) h.sets rfl rfl
      obtain ⟨hlookup, hkey⟩ := Bucket.upload_eq_some.mp hu
      refine Bucket.upload_eq_some.mpr ⟨?_, hkey⟩
      by_cases hid : id = i
      · subst hid
        rw [withBucket, AList.lookup_erase] at hlookup
        cases hlookup
      · rwa [withBucket, AList.lookup_erase_ne hid] at hlookup
  · rw [hdeliver]
    exact h.same rfl rfl

theorem complete_same {b done : Bucket} (b' : Bucket) {key : Id} {s3UploadId : Option Id}
    {parts : List UploadPart}
    (hupload : ∀ id, s3UploadId = some id → b'.upload key id = b.upload key id)
    (hdone : b.complete key s3UploadId parts = .ok done) :
    ∃ done' size, b'.complete key s3UploadId parts = .ok done' ∧
      done'.objects.lookup key = some size ∧ done.objects.lookup key = some size ∧
      ∀ id, s3UploadId = some id → done.upload key id = none := by
  cases s3UploadId with
  | none => cases hdone
  | some id =>
    simp only [Bucket.complete] at hdone ⊢
    rw [hupload id rfl]
    split at hdone
    · cases hdone
    · split at hdone
      · cases hdone
      · next size _ =>
        split at hdone
        · cases hdone
        · next hne =>
          obtain rfl := Except.ok.inj hdone
          rw [if_neg hne]
          refine ⟨_, size, rfl, AList.lookup_insert _, AList.lookup_insert _, ?_⟩
          rintro _ ⟨⟩
          rw [Bucket.upload, AList.lookup_erase]
          rfl

/-- The first completion makes the object; a repeated answer changes nothing. -/
theorem Inv.complete (h : Inv cfg userId uploadId start state s) (p : Nat)
    (hallowed : c = .again → Completed state.storageKey state.s3UploadId s) :
    Inv cfg userId uploadId start state ((completions cfg userId uploadId).after c p
      (.s3 .files (.completeMultipartUpload state.storageKey state.s3UploadId
        (FilesService.sortedParts state))) s) := by
  have hrows : ∀ (w : World) e, w.db = s.store.db → creates e = false →
      (⟨w, e :: s.log⟩ : SharedWorld).log.filter creates = [] ∧ w.db = start.db ∨
        CreatedOnce start state ⟨w, e :: s.log⟩ ∧ Storable cfg userId start state ∧
          Completed state.storageKey state.s3UploadId ⟨w, e :: s.log⟩ := by
    intro w e hdb hcreates
    have hlog : (e :: s.log).filter creates = s.log.filter creates := by
      rw [List.filter_cons_of_neg (by simp [hcreates])]
    rcases h.rows with ⟨hnone, hstart⟩ | ⟨⟨p, user, name, mimetype, key, iv, file, hone,
      hfiles, hname⟩,
      hstorable, hcompleted⟩
    · exact .inl ⟨hlog.trans hnone, hdb.trans hstart⟩
    · exact .inr ⟨⟨p, user, name, mimetype, key, iv, file, hlog.trans hone,
        hdb.trans hfiles, hname⟩,
        hstorable, hcompleted.cons e⟩
  cases c with
  | again =>
    have hcompleted := hallowed rfl
    exact {
      tracked := h.tracked
      sets := h.sets
      rows := hrows _ _ rfl rfl
      pending := fun id u hid hu => absurd hcompleted (h.pending id u hid hu).2
      object := fun _ => h.object hcompleted }
  | delivered =>
    simp only [System.after, completions, exec, System.reply]
    rcases deliver_s3 cfg s.store (.completeMultipartUpload state.storageKey state.s3UploadId
        (FilesService.sortedParts state)) with ⟨b, a, hb, hdeliver⟩ | ⟨e, -, hdeliver⟩
    · rw [hdeliver]
      cases hdone : s.store.filesBucket.complete state.storageKey state.s3UploadId
          (FilesService.sortedParts state) with
      | error e => simp [Bucket.perform, hdone, bind, Except.bind] at hb
      | ok b' =>
        simp only [Bucket.perform, hdone, bind, Except.bind, pure, Except.pure, Except.ok.injEq,
          Prod.mk.injEq] at hb
        obtain ⟨rfl, -⟩ := hb
        obtain ⟨id, u, size, hid, hu, -, -⟩ := Bucket.complete_ok hdone
        have hpending := (h.pending id u hid hu).1
        obtain ⟨first, size, hfirst, hsize, hsame, hgone⟩ := complete_same
          start.filesBucket (fun i hi => by
            obtain rfl : i = id := Option.some.inj (hi.symm.trans hid)
            rw [hpending, hu]) hdone
        have hassembled : assembled start state = some size := by
          rw [assembled, hfirst]
          exact hsize
        exact {
          tracked := h.tracked
          sets := h.sets
          rows := hrows _ _ rfl rfl
          pending := fun i v hi hv => by
            have hnone : (withBucket s.store b').filesBucket.upload state.storageKey i = none :=
              hgone i hi
            rw [hnone] at hv
            cases hv
          object := fun _ => .inl ⟨size, hassembled, hsame⟩ }
    · rw [hdeliver]
      exact h.same rfl rfl

theorem Inv.delete (h : Inv cfg userId uploadId start state s) (p : Nat)
    (hcompleted : Completed state.storageKey state.s3UploadId s)
    (hno : ¬ Storable cfg userId start state) :
    Inv cfg userId uploadId start state ((completions cfg userId uploadId).after c p
      (.s3 .files (.deleteObject state.storageKey)) s) := by
  have hexec := exec_eq cfg s.store (c := c) (q := .s3 .files (.deleteObject state.storageKey))
    (by simp)
  simp only [System.after, completions, hexec]
  exact {
    tracked := h.tracked
    sets := h.sets
    rows := by
      rcases h.rows with ⟨hnone, hstart⟩ | ⟨-, hstorable, -⟩
      · refine .inl ⟨?_, hstart⟩
        rw [List.filter_cons_of_neg (by simp [creates])]
        exact hnone
      · exact absurd hstorable hno
    pending := fun id u hid hu => absurd hcompleted (h.pending id u hid hu).2
    object := fun _ => .inr ⟨AList.lookup_erase _ _, hno⟩ }

/-- What a transaction that stores the file has checked. -/
theorem createFile_ok {db db' : Database} {name mimetype key : String} {iv fresh : Id} {now : Time}
    {file : File}
    (h : db.createFile cfg userId name mimetype state key iv now fresh = .ok (db', file)) :
    db.checkUploadAllowance cfg userId state.fileSize = .ok () ∧ Unstored state.storageKey db ∧
      db' = { db with files := file :: db.files } ∧ file.storageName = state.storageKey := by
  unfold Database.createFile at h
  cases hallowed : db.checkUploadAllowance cfg userId state.fileSize with
  | error e => simp [hallowed, bind, Except.bind] at h
  | ok _ =>
    simp only [hallowed, bind, Except.bind] at h
    split at h
    · cases h
    · next hunused =>
      simp only [pure, Except.pure, Except.ok.injEq, Prod.mk.injEq] at h
      obtain ⟨rfl, rfl⟩ := h
      refine ⟨rfl, fun f hf hkey => hunused ?_, rfl, rfl⟩
      exact List.any_eq_true.mpr ⟨f, hf, beq_iff_eq.mpr hkey⟩

theorem Inv.createFile (h : Inv cfg userId uploadId start state s) (p : Nat)
    (hcompleted : Completed state.storageKey state.s3UploadId s) (hfits : Fits start state)
    (name mimetype key : String) (iv : Id) :
    Inv cfg userId uploadId start state ((completions cfg userId uploadId).after c p
      (.statement (.createFile userId name mimetype state key iv)) s) := by
  have hexec := exec_eq cfg s.store (c := c)
    (q := .statement (.createFile userId name mimetype state key iv)) (by simp)
  simp only [System.after, System.reply, completions, hexec]
  cases hcreate : s.store.db.createFile cfg userId name mimetype state key iv s.store.clock
      s.store.nextId with
  | error e =>
    have hdeliver : s.store.deliver cfg
      (.statement (.createFile userId name mimetype state key iv)) =
        (s.store, .error e) := by
      simp only [World.deliver, Database.perform, hcreate]
    rw [hdeliver]
    exact h.same rfl rfl
  | ok r =>
    obtain ⟨db, file⟩ := r
    have hdeliver : s.store.deliver cfg
      (.statement (.createFile userId name mimetype state key iv)) =
        ({ s.store with db := db, nextId := s.store.nextId + 2 }, .ok file) := by
      simp only [World.deliver, Database.perform, hcreate]
    obtain ⟨hallowed, hunused, rfl, hname⟩ := createFile_ok hcreate
    rw [hdeliver]
    rcases h.rows with ⟨hnone, hstart⟩ | ⟨⟨_, _, _, _, _, _, f, _, hfiles, hkey⟩, _, _⟩
    · have hstorable : Storable cfg userId start state :=
        ⟨hstart ▸ hallowed, hstart ▸ hunused, hfits⟩
      exact {
        tracked := h.tracked
        sets := h.sets
        rows := by
          refine .inr ⟨⟨p, userId, name, mimetype, key, iv, file, ?_, ?_, hname⟩, hstorable,
            hcompleted.cons _⟩
          · rw [List.filter_cons_of_pos rfl, hnone]
          · rw [hstart]
        pending := fun id u hid hu => absurd hcompleted (h.pending id u hid hu).2
        object := fun _ => h.object hcompleted }
    · rw [hfiles] at hunused
      exact absurd hkey (hunused f List.mem_cons_self)

theorem Inv.moved (h : Inv cfg userId uploadId start state s) (n : Nat) :
    Inv cfg userId uploadId start state ((completions cfg userId uploadId).moved n s) where
  tracked value hvalue := h.tracked value (Redis.get_of_later (Nat.le_add_right _ n) hvalue)
  sets := h.sets
  rows := h.rows
  pending := h.pending
  object := h.object

theorem allowed_cases {p : Nat} (h : rules.allows s p q c = true) :
    (c = .again → ∃ key i parts, q = .s3 .files (.completeMultipartUpload key i parts) ∧
      Completed key i s) ∧ sparesFiles s p q c = true := by
  obtain ⟨hany, hspares⟩ := Bool.and_eq_true_iff.mp h
  refine ⟨?_, hspares⟩
  rintro rfl
  cases q with
  | s3 name r =>
    cases name with
    | mails => cases hany
    | files =>
      cases r with
      | completeMultipartUpload key i parts => exact ⟨key, i, parts, rfl, List.any_eq_true.mp hany⟩
      | _ => cases hany
  | _ => cases hany

/-- Where a row was created, its name is taken. -/
theorem Inv.created (h : Inv cfg userId uploadId start state s) (hne : s.log.filter creates ≠ []) :
    CreatedOnce start state s ∧ Storable cfg userId start state ∧
      Completed state.storageKey state.s3UploadId s :=
  h.rows.resolve_left fun hnone => hne hnone.1

theorem outline_kept : (outline cfg userId uploadId start state).Kept
    (completions cfg userId uploadId) rules where
  after := by
    intro s p q c hi ha hp
    obtain ⟨hagain, hspares⟩ := allowed_cases ha
    cases q with
    | random =>
      have hexec := exec_eq cfg s.store (c := c) (q := .random) (by simp)
      simp only [outline, System.after, completions, hexec]
      exact Inv.quiet hi rfl rfl (fun _ _ hu => hu) (fun _ hv => hv) hi.sets rfl rfl
    | redis command =>
      have hexec := exec_eq cfg s.store (c := c) (q := .redis command) (by simp)
      cases command with
      | get key =>
        simp only [outline, System.after, completions, hexec]
        exact Inv.same hi rfl rfl
      | write w =>
        simp only [outline, System.after, completions, hexec]
        exact Inv.write hi hp rfl rfl
      | _ => exact hp.elim
    | s3 name r =>
      cases name with
      | mails => exact hp.elim
      | files =>
        cases r with
        | headObject key => exact Inv.headObject hi p key
        | abortMultipartUpload key i => exact Inv.abort hi p key i
        | completeMultipartUpload key i parts =>
          obtain ⟨rfl, rfl, rfl⟩ := hp
          refine Inv.complete hi p fun hc => ?_
          obtain ⟨_, _, _, heq, hcompleted⟩ := hagain hc
          cases heq
          exact hcompleted
        | deleteObject key =>
          obtain ⟨rfl, hcompleted, hreason⟩ := hp
          refine Inv.delete hi p hcompleted (hreason.resolve_right fun hne => ?_)
          obtain ⟨⟨_, _, _, _, _, _, file, _, hfiles, hname⟩, -⟩ := hi.created hne
          have hstored : (s.store.db.files.any fun f => f.storageName == state.storageKey) =
              true := by
            rw [hfiles]
            exact List.any_eq_true.mpr ⟨file, List.mem_cons_self, beq_iff_eq.mpr hname⟩
          simp [sparesFiles, hstored] at hspares
        | _ => exact hp.elim
    | statement w =>
      cases w with
      | createFile user name mimetype uploadMeta key iv =>
        obtain ⟨rfl, rfl, hcompleted, hfits⟩ := hp
        exact Inv.createFile hi p hcompleted hfits name mimetype key iv
      | _ => exact hp.elim
    | _ => exact hp.elim
  moved := fun hi _ => Inv.moved hi _

end

section
variable {cfg : Config} {userId uploadId : Id} {start : World} {state : UploadMeta}
  {s : SharedWorld} {p : Nat}

/-- The process has created no row. -/
def NoRow (p : Nat) (s : SharedWorld) : Prop := ∀ e ∈ s.log, e.pid = p → creates e = false

def Created (s : SharedWorld) : Prop := s.log.filter creates ≠ []

/-- The moves of the others. -/
abbrev Steady (cfg : Config) (userId uploadId : Id) (start : World) (state : UploadMeta) (p : Nat)
    (F : SharedWorld → Prop) : Prop :=
  Stable (completions cfg userId uploadId) rules (outline cfg userId uploadId start state) p F

theorem steady_noRow : Steady cfg userId uploadId start state p (NoRow p) := by
  intro s s' h hs
  cases h with
  | other ne =>
    intro e he hpid
    rcases List.mem_cons.mp he with rfl | he
    · exact absurd hpid ne
    · exact hs e he hpid
  | drift => exact hs

theorem steady_completed {key : Id} {i : Option Id} :
    Steady cfg userId uploadId start state p (Completed key i) := by
  intro s s' h hs
  cases h with
  | other => exact hs.cons _
  | drift => exact hs

theorem Created.cons (h : Created s) (w : World) (e : BackendEvent) : Created ⟨w, e :: s.log⟩ := by
  obtain ⟨x, hx⟩ := List.exists_mem_of_ne_nil _ h
  obtain ⟨hmem, hcreates⟩ := List.mem_filter.mp hx
  exact List.ne_nil_of_mem (List.mem_filter.mpr ⟨List.mem_cons_of_mem e hmem, hcreates⟩)

theorem steady_created : Steady cfg userId uploadId start state p Created := by
  intro s s' h hs
  cases h with
  | other => exact hs.cons _ _
  | drift => exact hs

/-- A call of its own that creates no row. -/
theorem NoRow.own (h : NoRow p s) {c : Turn} {q : Request}
    (hq : creates ⟨p, q, (completions cfg userId uploadId).reply c q s⟩ = false) :
    NoRow p ((completions cfg userId uploadId).after c p q s) := by
  intro e he hpid
  rcases List.mem_cons.mp he with rfl | he
  · exact hq
  · exact h e he hpid

/-- Calls touch Redis by the writes that forget the upload alone. -/
theorem after_redis {c : Turn} {q : Request} (hp : pre cfg userId uploadId start state s p q) :
    let after := (completions cfg userId uploadId).after c p q s
    after.store.clock = s.store.clock ∧ (after.store.redis = s.store.redis ∨
      ∃ w, forgets userId uploadId w ∧
        after.store.redis = s.store.redis.write s.store.clock w) := by
  have hs3 : ∀ r, ((completions cfg userId uploadId).after c p (.s3 .files r) s).store.clock =
      s.store.clock ∧
      ((completions cfg userId uploadId).after c p (.s3 .files r) s).store.redis =
        s.store.redis := by
    intro r
    have hdeliver : (s.store.deliver cfg (.s3 .files r)).1.clock = s.store.clock ∧
        (s.store.deliver cfg (.s3 .files r)).1.redis = s.store.redis := by
      rcases deliver_s3 cfg s.store r with ⟨b, a, -, h⟩ | ⟨e, -, h⟩ <;> rw [h] <;> exact ⟨rfl, rfl⟩
    cases c with
    | delivered => exact hdeliver
    | again =>
      cases r with
      | completeMultipartUpload key i parts => exact ⟨rfl, rfl⟩
      | _ => exact hdeliver
  cases q with
  | random =>
    have hexec := exec_eq cfg s.store (c := c) (q := .random) (by simp)
    simp only [System.after, completions, hexec]
    exact ⟨rfl, .inl rfl⟩
  | redis command =>
    have hexec := exec_eq cfg s.store (c := c) (q := .redis command) (by simp)
    cases command with
    | get key =>
      simp only [System.after, completions, hexec]
      exact ⟨rfl, .inl rfl⟩
    | write w =>
      simp only [System.after, completions, hexec]
      exact ⟨rfl, .inr ⟨w, hp, rfl⟩⟩
    | _ => exact hp.elim
  | s3 name r =>
    cases name with
    | mails => exact hp.elim
    | files => exact ⟨(hs3 r).1, .inl (hs3 r).2⟩
  | statement w =>
    have hexec := exec_eq cfg s.store (c := c) (q := .statement w) (by simp)
    simp only [System.after, completions, hexec, World.deliver]
    split <;> exact ⟨rfl, .inl rfl⟩
  | _ => exact hp.elim

/-- A key that is gone stays away. -/
theorem lookup_forgets {w : RedisWrite} (hw : forgets userId uploadId w) {r : Redis} {now : Time}
    {key : RedisKey} (h : r.lookup key = none) : (r.write now w).lookup key = none := by
  by_cases hkey : key = w.key
  · rcases hw with rfl | ⟨id, rfl⟩ | rfl
    · rw [hkey]
      exact Redis.lookup_del
    · rw [hkey]
      exact Redis.lookup_del
    · have hlive : r.live now (.uploadActive userId) = none := by
        rw [Redis.live, show RedisKey.uploadActive userId = key from hkey.symm, h]
        rfl
      simp only [Redis.write, hlive]
      exact h
  · exact (Redis.lookup_write hkey).trans h

theorem steady_lookup {key : RedisKey} : Steady cfg userId uploadId start state p
    fun s => s.store.redis.lookup key = none := by
  intro s s' h hs
  cases h with
  | other _ _ _ hpre =>
    obtain ⟨-, hsame | ⟨w, hw, hwrite⟩⟩ := after_redis hpre
    · exact (congrArg (·.lookup key) hsame).trans hs
    · exact (congrArg (·.lookup key) hwrite).trans (lookup_forgets hw hs)
  | drift => exact hs

def Inactive (userId uploadId : Id) (s : SharedWorld) : Prop :=
  uploadId ∉ s.store.redis.smembers s.store.clock (.uploadActive userId)

theorem steady_inactive : Steady cfg userId uploadId start state p (Inactive userId uploadId) := by
  intro s s' h hs
  cases h with
  | other _ hi _ hpre =>
    obtain ⟨hclock, hsame | ⟨w, hw, hwrite⟩⟩ := after_redis hpre
    · rw [Inactive, hclock, hsame]
      exact hs
    · rw [Inactive, hclock, hwrite]
      by_cases hkey : RedisKey.uploadActive userId = w.key
      · obtain rfl : w = .srem (.uploadActive userId) uploadId := by
          rcases hw with rfl | ⟨id, rfl⟩ | rfl
          · cases hkey
          · cases hkey
          · rfl
        exact Redis.not_mem_smembers_srem hi.sets
      · rw [Redis.smembers_congr (Redis.lookup_write hkey)]
        exact hs
  | drift => exact fun hmem => hs (Redis.mem_smembers_of_later (Nat.le_add_right _ _) hmem)

/-- Nothing is left, or the process has created no row. -/
def Post (userId uploadId : Id) (state : UploadMeta) (p : Nat) (s : SharedWorld) : Prop :=
  NoRow p s ∨ Forgotten userId uploadId state s.store

theorem steady_post :
    Steady cfg userId uploadId start state p (Post userId uploadId state p) := by
  intro s s' h hs
  rcases hs with hrow | hforgotten
  · exact .inl (steady_noRow h hrow)
  · exact .inr ⟨steady_lookup h hforgotten.uploadMeta,
      fun id hid => steady_lookup h (hforgotten.index id hid), steady_inactive h hforgotten.active⟩

abbrev Ends (cfg : Config) (userId uploadId : Id) (start : World) (state : UploadMeta) (p : Nat)
    (x : Routine File) (s : SharedWorld) : Prop :=
  Meets (completions cfg userId uploadId) rules (outline cfg userId uploadId start state) p x
    (fun _ t => Post userId uploadId state p t) s

theorem Ends.throw (h : NoRow p s) (e : Thrown) :
    Ends cfg userId uploadId start state p (.throw e) s :=
  Meets.throw steady_noRow h fun _ ht _ => .inl ht

/-- Why a call that has completed the upload does not store its file. -/
def Lost (cfg : Config) (userId : Id) (start : World) (state : UploadMeta) (s : SharedWorld) :
    Prop := ¬ Storable cfg userId start state ∨ Created s

theorem steady_lost : Steady cfg userId uploadId start state p (Lost cfg userId start state) := by
  intro s s' h hs
  exact hs.imp_right fun hcreated => steady_created h hcreated

/-- What is known where the `try` block ends. -/
def Stored (cfg : Config) (userId uploadId : Id) (start : World) (state : UploadMeta) (p : Nat)
    (r : Except Thrown File) (s : SharedWorld) : Prop :=
  match r with
  | .ok _ => Post userId uploadId state p s
  | .error _ => NoRow p s ∧ Completed state.storageKey state.s3UploadId s ∧
    Lost cfg userId start state s

/-- A reply of Redis. -/
theorem reply_redis {c : Turn} {command : RedisCommand} :
    (completions cfg userId uploadId).reply c (.redis command) s =
      .ok (s.store.redis.perform s.store.clock command).2 := by
  rw [System.reply, show (completions cfg userId uploadId).exec = exec cfg from rfl,
    exec_eq cfg s.store (by simp)]
  rfl

theorem after_write {c : Turn} {w : RedisWrite} :
    ((completions cfg userId uploadId).after c p (.redis (.write w)) s).store =
      { s.store with redis := s.store.redis.write s.store.clock w } := by
  rw [System.after, show (completions cfg userId uploadId).exec = exec cfg from rfl,
    exec_eq cfg s.store (by simp)]
  rfl

/-- Own writes keep what the writes of the others keep. -/
theorem lookup_own {c : Turn} {w : RedisWrite} {key : RedisKey} (hw : forgets userId uploadId w)
    (h : s.store.redis.lookup key = none) :
    ((completions cfg userId uploadId).after c p (.redis (.write w)) s).store.redis.lookup key =
      none := by
  rw [after_write]
  exact lookup_forgets hw h

abbrev EndsStored (cfg : Config) (userId uploadId : Id) (start : World) (state : UploadMeta)
    (p : Nat) (x : Routine File) (s : SharedWorld) : Prop :=
  Meets (completions cfg userId uploadId) rules (outline cfg userId uploadId start state) p x
    (Stored cfg userId uploadId start state p) s

/-- The end of the `try` block forgets the upload. -/
theorem forgetUpload_meets (file : File) (s : SharedWorld) :
    EndsStored cfg userId uploadId start state p
      ((FilesService.forgetUpload userId uploadId state).bind fun _ => .ret file) s := by
  have release : ∀ s : SharedWorld, s.store.redis.lookup (.uploadMeta userId uploadId) = none →
      (∀ id, state.s3UploadId = some id → s.store.redis.lookup (.uploadIndex id) = none) →
      EndsStored cfg userId uploadId start state p
        ((FilesService.releaseActiveUpload userId uploadId).bind fun _ => .ret file) s := by
    intro s hmeta hindex
    refine Meets.await (steady_lookup.and (Stable.all fun id => Stable.all fun _ => steady_lookup))
      ⟨hmeta, hindex⟩ fun t ht hi c ha => ⟨.inr (.inr rfl), fun _ _ => ?_, fun e he => ?_⟩
    · refine Meets.ret (steady_lookup.and ((Stable.all fun id => Stable.all fun _ =>
        steady_lookup).and steady_inactive))
        ⟨lookup_own (.inr (.inr rfl)) ht.1,
          fun id hid => lookup_own (.inr (.inr rfl)) (ht.2 id hid),
          ?_⟩ fun u hu _ => .inr ⟨hu.1, hu.2.1, hu.2.2⟩
      rw [Inactive, after_write]
      exact Redis.not_mem_smembers_srem hi.sets
    · rw [reply_redis] at he
      cases he
  rw [FilesService.forgetUpload, Prog.bind_eq, Prog.bind_assoc]
  refine Meets.await (Stable.const True) trivial fun t _ _ c _ =>
    ⟨(Or.inl rfl : forgets userId uploadId _), fun _ _ => ?_, fun e he => ?_⟩
  · have hmeta : ((completions cfg userId uploadId).after c p
        (.redis (.write (.del (.uploadMeta userId uploadId)))) t).store.redis.lookup
          (.uploadMeta userId uploadId) = none := by
      rw [after_write]
      exact AList.lookup_erase _ _
    cases hs3 : state.s3UploadId with
    | none => exact release _ hmeta fun id hid => by rw [hs3] at hid; cases hid
    | some id =>
      change EndsStored cfg userId uploadId start state p
        (((FilesService.delUploadIndex (some id)).bind
        fun _ => FilesService.releaseActiveUpload userId uploadId).bind fun _ => .ret file) _
      rw [Prog.bind_assoc]
      refine Meets.await steady_lookup hmeta fun u hu _ d _ =>
        ⟨(Or.inr (.inl ⟨id, rfl⟩) : forgets userId uploadId _), fun _ _ => ?_, fun e he => ?_⟩
      · refine release _ (lookup_own (.inr (.inl ⟨id, rfl⟩)) hu) fun id' hid => ?_
        obtain rfl : id' = id := by
          rw [hs3] at hid
          exact (Option.some.inj hid).symm
        rw [after_write]
        exact AList.lookup_erase _ _
      · rw [reply_redis] at he
        cases he
  · rw [reply_redis] at he
    cases he

/-- The `catch` block, where its removal is allowed. -/
theorem undoFinalize_meets (hi : Inv cfg userId uploadId start state s) {removal : Routine Unit}
    (h : Meets (completions cfg userId uploadId) rules (outline cfg userId uploadId start state) p
      removal (fun _ t => NoRow p t) s) (e : Thrown) :
    Ends cfg userId uploadId start state p
      (FilesService.undoFinalize userId uploadId state removal e) s := by
  have hforget : (FilesService.forgetUpload userId uploadId state).Calls fun q =>
      ∃ w, q = .redis (.write w) ∧ forgets userId uploadId w := by
    refine .bind (.await ⟨_, rfl, .inl rfl⟩) fun _ => .bind ?_ fun _ =>
      .await ⟨_, rfl, .inr (.inr rfl)⟩
    cases state.s3UploadId with
    | none => trivial
    | some id => exact .await ⟨_, rfl, .inr (.inl ⟨id, rfl⟩)⟩
  have hrest : ∀ t, Inv cfg userId uploadId start state t → NoRow p t →
      Ends cfg userId uploadId start state p
        ((FilesService.forgetUpload userId uploadId state).bind fun _ =>
          .throw (FilesService.finalizeError e)) t := by
    intro t hit ht
    refine .bind hit outline_kept ((Meets.frame hforget steady_noRow ?_ ht).mono fun r u _ hu => ?_)
    · rintro u q c ⟨w, rfl, hw⟩ - - hu
      exact ⟨hw, hu.own rfl⟩
    · cases r with
      | ok _ => exact Ends.throw hu _
      | error _ => exact Ends.throw hu _
  have hignored : Meets (completions cfg userId uploadId) rules
      (outline cfg userId uploadId start state) p (FilesService.ignoring removal)
      (fun _ t => NoRow p t) s := by
    refine .handle hi outline_kept (h.mono fun r t _ ht => ?_)
    cases r with
    | ok _ => exact .ret steady_noRow ht fun _ hu _ => hu
    | error _ => exact .ret steady_noRow ht fun _ hu _ => hu
  refine .bind hi outline_kept (hignored.mono fun r t hit ht => ?_)
  cases r with
  | ok _ => exact hrest t hit ht
  | error _ => exact Ends.throw ht _

theorem Stored.throw (hrow : NoRow p s) (hcompleted : Completed state.storageKey state.s3UploadId s)
    (hlost : Lost cfg userId start state s) (e : Thrown) :
    EndsStored cfg userId uploadId start state p (.throw e) s :=
  Meets.throw (steady_noRow.and (steady_completed.and steady_lost)) ⟨hrow, hcompleted, hlost⟩
    fun _ hu _ => hu

/-- The transaction fails where a file is stored, or always. -/
theorem createFile_lost {c : Turn} {name mimetype key : String} {iv : Id} {e : Thrown}
    (hi : Inv cfg userId uploadId start state s)
    (he : (completions cfg userId uploadId).reply c
      (.statement (.createFile userId name mimetype state key iv)) s = .error e) :
    Lost cfg userId start state s := by
  by_cases hcreated : Created s
  · exact .inr hcreated
  · refine .inl fun hstorable => ?_
    have hdb : s.store.db = start.db := by
      rcases hi.rows with ⟨-, hdb⟩ | ⟨⟨_, _, _, _, _, _, _, hone, _⟩, -⟩
      · exact hdb
      · exact absurd (by rw [Created, hone]; exact List.cons_ne_nil _ _) hcreated
    have hcreate : (s.store.db.createFile cfg userId name mimetype state key iv s.store.clock
        s.store.nextId).isOk = true := by
      have hunused : (start.db.files.any fun f => f.storageName == state.storageKey) = false := by
        refine Bool.eq_false_iff.mpr fun hany => ?_
        obtain ⟨f, hf, hkey⟩ := List.any_eq_true.mp hany
        exact hstorable.unused f hf (beq_iff_eq.mp hkey)
      rw [hdb, Database.createFile, hstorable.allowed]
      simp only [bind, Except.bind, hunused]
      rfl
    rw [System.reply, show (completions cfg userId uploadId).exec = exec cfg from rfl,
      exec_eq cfg s.store (by simp)] at he
    simp only [World.deliver, Database.perform] at he
    cases hr : s.store.db.createFile cfg userId name mimetype state key iv s.store.clock
        s.store.nextId with
    | ok r =>
      rw [hr] at he
      cases he
    | error e =>
      rw [hr] at hcreate
      cases hcreate

/-- What the length of the object says. -/
theorem headObject_fits {c : Turn} (hi : Inv cfg userId uploadId start state s)
    (hcompleted : Completed state.storageKey state.s3UploadId s) :
    (∃ size, (completions cfg userId uploadId).reply c (.s3 .files (.headObject state.storageKey))
      s =
      .ok size ∧ assembled start state = some size) ∨
    (∃ e, (completions cfg userId uploadId).reply c (.s3 .files (.headObject state.storageKey)) s =
      .error e) ∧ ¬ Storable cfg userId start state := by
  have hreply : (completions cfg userId uploadId).reply c
      (.s3 .files (.headObject state.storageKey)) s =
        (s.store.deliver cfg (.s3 .files (.headObject state.storageKey))).2 := by
    rw [System.reply, show (completions cfg userId uploadId).exec = exec cfg from rfl,
      exec_eq cfg s.store (by simp)]
  rcases hi.object hcompleted with ⟨size, hassembled, hlookup⟩ | ⟨hlookup, hno⟩
  · refine .inl ⟨size, ?_, hassembled⟩
    rw [hreply]
    simp only [World.deliver, World.bucket, Bucket.perform, hlookup]
  · refine .inr ⟨⟨.fault .noSuchKey, ?_⟩, hno⟩
    rw [hreply]
    simp only [World.deliver, World.bucket, Bucket.perform, hlookup]

theorem storeCompletedUpload_meets {dto : CompleteUploadDto} {key : String} {iv : Id}
    (hrow : NoRow p s) (hcompleted : Completed state.storageKey state.s3UploadId s) :
    EndsStored cfg userId uploadId start state p
      (FilesService.storeCompletedUpload userId uploadId dto state key iv) s := by
  refine Meets.await (steady_noRow.and steady_completed) ⟨hrow, hcompleted⟩
    fun t ⟨hrow, hcompleted⟩ hi c _ => ⟨trivial, fun size hsize => ?_, fun e he => ?_⟩
  · have hassembled : assembled start state = some size := by
      rcases headObject_fits (c := c) hi hcompleted with ⟨n, hn, hassembled⟩ | ⟨⟨e, he⟩, -⟩
      · obtain rfl := Except.ok.inj (hn.symm.trans hsize)
        exact hassembled
      · rw [he] at hsize
        cases hsize
    have hrow' : NoRow p ((completions cfg userId uploadId).after c p
        (.s3 .files (.headObject state.storageKey)) t) := hrow.own rfl
    have hcompleted' : Completed state.storageKey state.s3UploadId
        ((completions cfg userId uploadId).after c p
          (.s3 .files (.headObject state.storageKey)) t) := hcompleted.cons _
    cases hexpected : FilesService.getExpectedEncryptedSize state.fileSize with
    | error e =>
      refine Stored.throw hrow' hcompleted' (.inl fun hstorable => ?_) e
      obtain ⟨n, -, hn⟩ := hstorable.fits
      rw [hexpected] at hn
      cases hn
    | ok expected =>
      refine Meets.throwIf (fun hne => ?_) fun heq => ?_
      · refine Stored.throw hrow' hcompleted' (.inl fun hstorable => hne ?_) _
        obtain ⟨n, hn, hfits⟩ := hstorable.fits
        rw [hassembled] at hn
        rw [hexpected] at hfits
        cases hn
        cases hfits
        rfl
      · have hfits : Fits start state := by
          obtain rfl : size = expected := Decidable.not_not.mp heq
          exact ⟨size, hassembled, hexpected⟩
        refine Meets.await (steady_noRow.and steady_completed) ⟨hrow', hcompleted'⟩
          fun u ⟨hrow, hcompleted⟩ hi d _ => ⟨⟨rfl, rfl, hcompleted, hfits⟩, fun file _ => ?_,
            fun e he => ?_⟩
        · exact forgetUpload_meets file _
        · refine Stored.throw (hrow.own ?_) (hcompleted.cons _)
            ((createFile_lost hi he).imp_right fun h => h.cons _ _) e
          rw [he]
          rfl
  · refine Stored.throw (hrow.own rfl) (hcompleted.cons _) (.inl ?_) e
    rcases headObject_fits (c := c) hi hcompleted with ⟨n, hn, -⟩ | ⟨-, hno⟩
    · rw [hn] at he
      cases he
    · exact hno

/-- The deletion of the object, where the call knows that its file will not be stored. -/
theorem deleteObject_meets (hrow : NoRow p s)
    (hcompleted : Completed state.storageKey state.s3UploadId s)
    (hlost : Lost cfg userId start state s) :
    Meets (completions cfg userId uploadId) rules (outline cfg userId uploadId start state) p
      (await (.s3 .files (.deleteObject state.storageKey))) (fun _ t => NoRow p t) s := by
  refine Meets.call (steady_noRow.and (steady_completed.and steady_lost)) ⟨hrow, hcompleted, hlost⟩
    fun t ⟨hrow, hcompleted, hlost⟩ _ c _ => ⟨⟨rfl, hcompleted, hlost⟩, ?_⟩
  cases (completions cfg userId uploadId).reply c (.s3 .files (.deleteObject state.storageKey))
    t with
  | ok _ => exact .ret steady_noRow (hrow.own rfl) fun _ hu _ => hu
  | error _ => exact .throw steady_noRow (hrow.own rfl) fun _ hu _ => hu

theorem abort_meets (hrow : NoRow p s) :
    Meets (completions cfg userId uploadId) rules (outline cfg userId uploadId start state) p
      (FilesService.abortMultipartUpload state.storageKey state.s3UploadId) (fun _ t => NoRow p t)
      s := by
  refine Meets.call steady_noRow hrow fun t hrow _ c _ => ⟨trivial, ?_⟩
  cases (completions cfg userId uploadId).reply c
      (.s3 .files (.abortMultipartUpload state.storageKey state.s3UploadId)) t with
  | ok _ => exact .ret steady_noRow (hrow.own rfl) fun _ hu _ => hu
  | error _ => exact .throw steady_noRow (hrow.own rfl) fun _ hu _ => hu

theorem completeMultipartUpload_meets (hrow : NoRow p s) :
    Meets (completions cfg userId uploadId) rules (outline cfg userId uploadId start state) p
      (FilesService.completeMultipartUpload state) (fun r t => NoRow p t ∧
        (r = .ok (.ok ()) → Completed state.storageKey state.s3UploadId t)) s := by
  refine Meets.call steady_noRow hrow fun t hrow _ c _ => ⟨⟨rfl, rfl, rfl⟩, ?_⟩
  cases hr : (completions cfg userId uploadId).reply c (.s3 .files (.completeMultipartUpload
      state.storageKey state.s3UploadId (FilesService.sortedParts state))) t with
  | ok a =>
    have hcompleted : Completed state.storageKey state.s3UploadId
        ((completions cfg userId uploadId).after c p (.s3 .files (.completeMultipartUpload
          state.storageKey state.s3UploadId (FilesService.sortedParts state))) t) := by
      refine ⟨_, List.mem_cons_self, ?_⟩
      rw [hr]
      simp [isCompletion]
    exact .ret (steady_noRow.and steady_completed) ⟨hrow.own rfl, hcompleted⟩
      fun _ hu _ => ⟨hu.1, fun _ => hu.2⟩
  | error e => exact .ret steady_noRow (hrow.own rfl) fun _ hu _ => ⟨hu, fun h => by cases h⟩

theorem finalizeChecked_meets {dto : CompleteUploadDto} {key : String} {iv : Id}
    (hi : Inv cfg userId uploadId start state s) (hrow : NoRow p s) :
    Ends cfg userId uploadId start state p
      (FilesService.finalizeChecked userId uploadId dto state key iv) s := by
  refine .bind hi outline_kept ((completeMultipartUpload_meets hrow).mono
    fun r t hit ⟨hrow, hcompleted⟩ => ?_)
  rcases r with e | (e | _)
  · exact Ends.throw hrow e
  · exact undoFinalize_meets hit (abort_meets hrow) e
  · refine .handle hit outline_kept ((storeCompletedUpload_meets hrow (hcompleted rfl)).mono
      fun r u hiu hu => ?_)
    cases r with
    | ok file => exact .ret steady_post hu fun _ hv _ => hv
    | error e => exact undoFinalize_meets hiu (deleteObject_meets hu.1 hu.2.1 hu.2.2) e

theorem finalizeUpload_meets {dto : CompleteUploadDto}
    (hstate : ∀ found, start.uploadMeta userId uploadId = some (.upload found) → found = state)
    (hi : Inv cfg userId uploadId start state s) (hrow : NoRow p s) :
    Ends cfg userId uploadId start state p (FilesService.finalizeUpload cfg userId uploadId dto)
      s := by
  have hmaster : (FilesService.getMasterKeyForUser userId).Calls fun q =>
      ∃ key, q = .redis (.get key) := by
    refine .bind (.await ⟨_, rfl⟩) fun value => ?_
    split <;> trivial
  refine .bind hi outline_kept ((Meets.frame hmaster steady_noRow ?_ hrow).mono
    fun r t _ hrow => ?_)
  · rintro t q c ⟨key, rfl⟩ - - hrow
    exact ⟨trivial, hrow.own rfl⟩
  cases r with
  | error e => exact Ends.throw hrow e
  | ok masterKey =>
    refine Meets.await steady_noRow hrow fun t hrow _ c _ => ⟨trivial, fun iv _ => ?_,
      fun e _ => Ends.throw (hrow.own rfl) e⟩
    refine Meets.await steady_noRow (hrow.own rfl) fun t hrow hi d ha =>
      ⟨trivial, fun value hvalue => ?_,
      fun e _ => Ends.throw (hrow.own rfl) e⟩
    have hrow' : NoRow p ((completions cfg userId uploadId).after d p
        (.redis (.get (.uploadMeta userId uploadId))) t) := hrow.own rfl
    rw [reply_redis] at hvalue
    obtain rfl := Except.ok.inj hvalue
    cases hfound : (t.store.redis.perform t.store.clock
        (.get (.uploadMeta userId uploadId))).2 with
    | none => exact Ends.throw hrow' _
    | some value =>
      have hstart : start.uploadMeta userId uploadId = some value := hi.tracked value hfound
      cases value with
      | upload found =>
        obtain rfl := hstate found hstart
        refine Meets.throwIf (fun _ => Ends.throw hrow' _) fun _ => ?_
        refine Meets.throwIf (fun _ => Ends.throw hrow' _) fun _ => ?_
        exact finalizeChecked_meets (outline_kept.after hi ha trivial) hrow'
      | _ => exact Ends.throw hrow' _

end

/-- One upload whose metadata may have been read. -/
theorem exists_state (start : World) (userId uploadId : Id) : ∃ state : UploadMeta,
    ∀ found, start.uploadMeta userId uploadId = some (.upload found) → found = state := by
  cases h : start.uploadMeta userId uploadId with
  | none => exact ⟨⟨0, 0, 0, none, "", 0, none, [], 0, 0⟩, fun _ hfound => by cases hfound⟩
  | some value =>
    cases value with
    | upload state => exact ⟨state, fun _ hfound => by cases hfound; rfl⟩
    | _ => exact ⟨⟨0, 0, 0, none, "", 0, none, [], 0, 0⟩, fun _ hfound => by cases hfound⟩

theorem inv_initial (cfg : Config) {userId uploadId : Id} {start : World} (state : UploadMeta)
    (hsets : start.redis.Nodup (.uploadActive userId)) :
    Inv cfg userId uploadId start state (.initial start) where
  tracked _ h := h
  sets := hsets
  rows := .inl ⟨rfl, rfl⟩
  pending id u _ hu := ⟨hu, fun ⟨_, he, _⟩ => by cases he⟩
  object := fun ⟨_, he, _⟩ => by cases he

/-- In every run in which no call deletes the object of a stored file, concurrent completions are
safe. -/
theorem completions_safe {cfg : Config} {userId uploadId : Id} {start : World}
    {s : Pool Request Reply Thrown File World CompleteUploadDto}
    {as : List (Action CompleteUploadDto Turn Nat)}
    (hsets : start.redis.Nodup (.uploadActive userId))
    (h : (completions cfg userId uploadId).run rules (.initial start) as = some s) :
    Safe userId uploadId start s := by
  obtain ⟨state, hstate⟩ := exists_state start userId uploadId
  have hrespects : s.Respects (completions cfg userId uploadId) rules
      (outline cfg userId uploadId start state) fun p _ _ t => Post userId uploadId state p t := by
    refine Pool.Respects.run outline_kept (fun t p dto hi _ hnew => ?_)
      (Pool.Respects.initial (inv_initial cfg state hsets)) h
    exact finalizeUpload_meets hstate hi fun e he hpid => absurd hpid (hnew e he)
  have hinv : Inv cfg userId uploadId start state s.shared := hrespects.inv
  constructor
  · rcases hinv.rows with ⟨hnone, -⟩ | ⟨⟨_, _, _, _, _, _, _, hone, _⟩, -⟩
    · rw [hnone]
      exact Nat.zero_le _
    · rw [hone]
      exact Nat.le_refl _
  · intro p user name mimetype uploadMeta key iv file hmem
    have hfilter := List.mem_filter.mpr ⟨hmem, show creates _ = true from rfl⟩
    obtain ⟨⟨_, _, _, _, _, _, made, hone, hfiles, hname⟩, hstorable, hcompleted⟩ :=
      hinv.created (List.ne_nil_of_mem hfilter)
    rw [hone] at hfilter
    obtain rfl : file = made := by
      cases List.mem_singleton.mp hfilter
      rfl
    refine ⟨hfiles ▸ List.mem_cons_self, ?_⟩
    rcases hinv.object hcompleted with ⟨size, -, hlookup⟩ | ⟨-, hno⟩
    · rw [hname, hlookup]
      rfl
    · exact absurd hstorable hno
  · intro hidle hany found hfound
    obtain rfl := hstate found hfound
    obtain ⟨e, he, hcreates⟩ := List.any_eq_true.mp hany
    have hlt := hrespects.known e he
    obtain ⟨⟨dto, x⟩, hproc⟩ : ∃ proc, s.procs[e.pid]? = some proc :=
      ⟨_, List.getElem?_eq_getElem hlt⟩
    have hended := List.all_eq_true.mp hidle _ (List.mem_of_getElem? hproc)
    have hmeets := hrespects.meets e.pid dto x hproc
    have hpost : Post userId uploadId found e.pid s.shared := by
      cases x with
      | ret file => exact hmeets s.shared .refl hinv
      | throw error => exact hmeets s.shared .refl hinv
      | call q k => cases hended
    rcases hpost with hrow | hforgotten
    · have := hrow e he rfl
      rw [hcreates] at this
      cases this
    · exact hforgotten

/-- An upload of one chunk, which S3 holds. -/
def uploadedWorld : World :=
  { demoWorld with
    redis := (((demoWorld.redis.insert (.masterKey 1) ⟨.text "master", none⟩).insert
      (.uploadMeta 1 50) ⟨.upload ⟨1, 1, 1000, none, "30d", 70, some 60, [⟨1, 7⟩], 0, 0⟩,
        none⟩).insert
      (.uploadActive 1) ⟨.members [50], none⟩).insert
      (.uploadIndex 60) ⟨.index ⟨.uploadMeta 1 50, .uploadActive 1, 50⟩, none⟩
    filesBucket := { demoWorld.filesBucket with
      uploads := demoWorld.filesBucket.uploads.insert 60 ⟨70, [(1, ⟨1028, 7⟩)]⟩ } }

def finalize : Action CompleteUploadDto Turn Nat := .start ⟨"a.txt", "text/plain", "key", 1⟩

/-- Two calls read the metadata before either of them completes the upload. -/
def bothRead : List (Action CompleteUploadDto Turn Nat) :=
  finalize :: finalize :: List.replicate 3 (.advance 0 .delivered) ++
    List.replicate 3 (.advance 1 .delivered)

/-- One call completes the upload and stores the file, and the completion of the other is refused.
-/
def refused : List (Action CompleteUploadDto Turn Nat) :=
  bothRead ++ List.replicate 6 (.advance 0 .delivered) ++ List.replicate 5 (.advance 1 .delivered)

theorem uploaded_nodup : uploadedWorld.redis.Nodup (.uploadActive 1) := by
  intro ids t h
  cases h
  exact List.nodup_singleton _

theorem completions_safe_refused : ∃ s, (completions demoConfig 1 50).run rules
    (.initial uploadedWorld) refused = some s ∧ s.idle = true ∧ Safe 1 50 uploadedWorld s := by
  have key : ((completions demoConfig 1 50).run rules (.initial uploadedWorld) refused).any
      Pool.idle = true := by decide +kernel
  obtain ⟨s, hs, hidle⟩ := (Option.any_eq_true _ _).mp key
  exact ⟨s, hs, hidle, completions_safe uploaded_nodup hs⟩

/-- As before, but S3 answers the second completion like the first. The insert of the second call
meets the row of the first, and its `catch` block deletes the object of that row. -/
def repeated : List (Action CompleteUploadDto Turn Nat) :=
  bothRead ++ List.replicate 6 (.advance 0 .delivered) ++
    .advance 1 .again :: List.replicate 6 (.advance 1 .delivered)

theorem repeated_completion_loses : ∃ s, (completions demoConfig 1 50).run anyCompletion
    (.initial uploadedWorld) repeated = some s ∧ ¬ Safe 1 50 uploadedWorld s := by
  have key : ((completions demoConfig 1 50).run anyCompletion (.initial uploadedWorld) repeated).any
      (fun s => s.shared.log.any creates &&
        s.shared.store.db.files.all fun file =>
          (s.shared.store.filesBucket.objects.lookup file.storageName).isNone) = true := by
    decide +kernel
  obtain ⟨s, hs, hx⟩ := (Option.any_eq_true _ _).mp key
  rw [Bool.and_eq_true] at hx
  obtain ⟨hcreated, hmissing⟩ := hx
  refine ⟨s, hs, fun hsafe => ?_⟩
  obtain ⟨e, he, hcreates⟩ := List.any_eq_true.mp hcreated
  obtain ⟨p, user, name, mimetype, state, key, iv, file, rfl⟩ := creates_cases hcreates
  obtain ⟨hmem, hsome⟩ := hsafe.stored p user name mimetype state key iv file he
  have hnone := List.all_eq_true.mp hmissing file hmem
  rw [Option.isNone_iff_eq_none.mp hnone] at hsome
  cases hsome

end ConcurrentCompletion
end Redbox
