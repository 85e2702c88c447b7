import Redbox.Files.UploadAdmission
import Redbox.Accounts.DeletionPaths
import Redbox.Interleaving.Serial

/-! The chunk requests of one upload, one at a time, whatever calls fail. -/
namespace Redbox
open Interleaving

/-- What a chunk request carries. -/
structure ChunkRequest where
  file : Blob
  chunkIndex : Nat

/-- The chunk requests of one upload. -/
def chunkRequests (cfg : Config) (userId uploadId : Id) :
    System Request Reply Thrown Unit World ChunkRequest Delivery Nat where
  exec := World.exec cfg
  drift := World.tick
  program r := FilesService.handleChunk userId uploadId r.file r.chunkIndex

/-- Any request may come, any call may fail, before or after it took effect, and any time may pass.
-/
def anyFailure : Rules Request Reply World ChunkRequest Delivery Nat where
  starts := fun _ _ => true
  allows := fun _ _ _ _ => true
  drifts := fun _ _ => true

/-- The plaintext of a file between two multiples of the chunk size. -/
def sliceLength (fileSize chunkIndex : Nat) : Nat :=
  min (chunkIndex * plaintextChunkSizeBytes + plaintextChunkSizeBytes) fileSize - chunkIndex *
    plaintextChunkSizeBytes

/-- The metadata lists the chunks that were accepted, in order, as S3 holds them. -/
structure InStep (state : UploadMeta) (u : MultipartUpload) : Prop where
  inOrder : state.parts.map (·.partNumber) = (List.range state.nextExpectedChunk).map (· + 1)
  stored : ∀ x ∈ state.parts, ∃ body, u.part x.partNumber = some body ∧ x.eTag = body.digest ∧
    body.size = sliceLength state.fileSize (x.partNumber - 1) + 28

/-- If Redis has metadata of the upload, it is in step with S3, and the parts make an object of the
expected length once there are as many as the upload has chunks. -/
def KeepsStep (userId uploadId : Id) (fileSize : Nat) (w : World) : Prop :=
  ∀ value, w.uploadMeta userId uploadId = some value → ∃ state s3UploadId u, value = .upload state ∧
    state.fileSize = fileSize ∧ state.s3UploadId = some s3UploadId ∧
    w.filesBucket.upload state.storageKey s3UploadId = some u ∧ InStep state u ∧
    (state.parts.length = state.totalChunks →
      BrowserUpload.ChecksPass userId uploadId state.totalChunks w)

namespace SerialChunks
open BrowserUpload

/-- S3 holds the first `i` frames. -/
def Parts (b : BrowserUpload) (key sid : Id) (i : Nat) (bucket : Bucket) : Prop :=
  ∃ u, bucket.upload key sid = some u ∧ ∀ j < i, u.part (j + 1) = some (b.frame j)

/-- Redis has forgotten the upload, or it and S3 hold what the first chunks of some file made. -/
def Kept (userId uploadId key sid : Id) (fileSize : Nat) (s : SharedWorld) : Prop :=
  s.store.uploadMeta userId uploadId = none ∨
    ∃ b i, b.fileSize = fileSize ∧ Uploaded b userId uploadId key sid i s

/-- The file whose chunk `i` has the digest `d` instead. -/
def withDigest (b : BrowserUpload) (i : Nat) (d : Id) : BrowserUpload :=
  { b with digest := Function.update b.digest i d }

section
variable {b : BrowserUpload} {i n : Nat} {key sid userId uploadId : Id} {state : UploadMeta}
  {file : Blob}

@[simp] theorem digest_withDigest_self {d : Id} : (withDigest b i d).digest i = d :=
  Function.update_self ..

theorem frame_withDigest_self (h : file.size = (b.frame i).size) :
    (withDigest b i file.digest).frame i = file := by
  obtain ⟨size, digest⟩ := file
  simp only [frame, digest_withDigest_self] at h ⊢
  exact congrArg (Blob.mk · digest) h.symm

theorem frame_withDigest_of_ne {j : Nat} {d : Id} (h : j ≠ i) :
    (withDigest b i d).frame j = b.frame j := by
  have hd : (withDigest b i d).digest j = b.digest j := Function.update_of_ne h ..
  simp only [frame]
  rw [hd]
  rfl

/-- The digest of a chunk that is not accepted yet does not matter. -/
theorem accepted_withDigest {d : Id} (h : Accepted b key sid i state) :
    Accepted (withDigest b i d) key sid i state where
  totalChunks := h.totalChunks
  fileSize := h.fileSize
  nextExpectedChunk := h.nextExpectedChunk
  storageKey := h.storageKey
  s3UploadId := h.s3UploadId
  parts := by
    rw [h.parts]
    refine List.map_congr_left fun j hj => ?_
    have hne : j ≠ i := Nat.ne_of_lt (List.mem_range.mp hj)
    exact congrArg (UploadPart.mk (j + 1)) (Function.update_of_ne hne ..).symm

/-- A body of the right size is the next frame of some file. -/
theorem parts_putPart {u : MultipartUpload} (hu : ∀ j < i, u.part (j + 1) = some (b.frame j))
    (hsize : file.size = (b.frame i).size) :
    ∀ j < i + 1, (u.putPart (i + 1) file).part (j + 1) =
      some ((withDigest b i file.digest).frame j) := by
  intro j hj
  by_cases hji : j = i
  · rw [hji, MultipartUpload.part_putPart, frame_withDigest_self hsize]
  · rw [MultipartUpload.part_putPart_of_ne (by omega), frame_withDigest_of_ne hji]
    exact hu j (by omega)

/-- A body that `handleChunk` takes is that of the next chunk, and has the size of its frame. -/
theorem checkChunk_cases (h : Accepted b key sid i state) (file : Blob) (chunkIndex : Nat) :
    (∃ e, FilesService.checkChunk state file chunkIndex = .throw e) ∨
    (FilesService.checkChunk state file chunkIndex = .ret sid ∧ chunkIndex = i ∧
      file.size = (b.frame i).size) := by
  simp only [FilesService.checkChunk, h.s3UploadId, Prog.throwIf, Prog.bind_eq, Prog.pure_eq]
  by_cases horder : chunkIndex ≠ state.nextExpectedChunk
  · exact .inl ⟨_, by rw [if_pos horder]; rfl⟩
  rw [if_neg horder]
  have hi : chunkIndex = i := (not_not.mp horder).trans h.nextExpectedChunk
  by_cases htotal : state.totalChunks ≤ chunkIndex
  · exact .inl ⟨_, by rw [if_pos htotal]; rfl⟩
  rw [if_neg htotal]
  by_cases hsize : (file.size : Int) ≠ FilesService.expectedPlaintextSize state chunkIndex +
    encryptedChunkOverheadBytes
  · exact .inl ⟨_, by rw [if_pos hsize]; rfl⟩
  rw [if_neg hsize]
  refine .inr ⟨rfl, hi, ?_⟩
  subst hi
  rw [h.totalChunks, Nat.not_le] at htotal
  exact Int.ofNat.inj ((not_not.mp hsize).trans (size_frame h htotal).symm)

end
section
variable {cfg : Config} {p : Nat} {b : BrowserUpload} {i : Nat} {key sid userId uploadId : Id}
  {fileSize : Nat}
  {state : UploadMeta} {s : SharedWorld} {c : Delivery}

/-- Chunk request `p` goes on without breaking the invariant. -/
abbrev Goes (cfg : Config) (userId uploadId key sid : Id) (fileSize p : Nat) {α : Type}
    (x : Routine α) (s : SharedWorld) : Prop :=
  Meets (chunkRequests cfg userId uploadId) anyFailure
    (.serial (chunkRequests cfg userId uploadId) anyFailure (Kept userId uploadId key sid fileSize)
      p) p x (fun _ _ => True) s

theorem Goes.throw {α : Type} {e : Thrown} :
    Goes cfg userId uploadId key sid fileSize p (.throw e : Routine α) s :=
  Meets.throw (Stable.const True) trivial fun _ _ _ => trivial

/-- One call in front of the rest of a request. -/
theorem Goes.await {α : Type} {q : Request} {f : q.Answer → Routine α} {F : SharedWorld → Prop}
    (hF : ∀ t n, F t → F ((chunkRequests cfg userId uploadId).moved n t)) (hs : F s)
    (h : ∀ t, F t → Kept userId uploadId key sid fileSize t → ∀ c,
      Kept userId uploadId key sid fileSize ((chunkRequests cfg userId uploadId).after c p q t) ∧
      ∀ a, (chunkRequests cfg userId uploadId).reply c q t = .ok a →
        Goes cfg userId uploadId key sid fileSize p (f a)
          ((chunkRequests cfg userId uploadId).after c p q t)) :
    Goes cfg userId uploadId key sid fileSize p ((await q).bind f) s := by
  refine Meets.await (Stable.solo fun t n _ ht => hF t n ht) hs fun t ht hi c _ => ?_
  exact ⟨⟨rfl, fun c _ => (h t ht hi c).1⟩, (h t ht hi c).2, fun _ _ => Goes.throw⟩

/-- The invariant is one of the store. -/
theorem Kept.congr {t : SharedWorld}
    (hu : t.store.uploadMeta userId uploadId = s.store.uploadMeta userId uploadId)
    (hb : t.store.filesBucket = s.store.filesBucket) (h : Kept userId uploadId key sid fileSize s) :
    Kept userId uploadId key sid fileSize t := by
  rcases h with hnone | ⟨b, i, hsize, state, u, hh, hacc, hparts⟩
  · exact .inl (hu.trans hnone)
  · exact .inr ⟨b, i, hsize, state, u, ⟨hu.trans hh.1, by rw [hb]; exact hh.2⟩, hacc, hparts⟩

/-- Time only makes Redis forget. -/
theorem uploadMeta_tick_cases (w : World) (n : Nat) : (w.tick n).uploadMeta userId uploadId = none ∨
    (w.tick n).uploadMeta userId uploadId = w.uploadMeta userId uploadId := by
  by_cases hlive : (w.redis.live (w.clock + n) (.uploadMeta userId uploadId)).isSome = true
  · exact .inr (Redis.get_later (Nat.le_add_right _ n) hlive)
  · refine .inl ?_
    rw [World.uploadMeta, Redis.get]
    exact congrArg (Option.map _) (Option.not_isSome_iff_eq_none.mp hlive)

theorem Kept.moved (n : Nat) (h : Kept userId uploadId key sid fileSize s) :
    Kept userId uploadId key sid fileSize ((chunkRequests cfg userId uploadId).moved n s) := by
  rcases uploadMeta_tick_cases s.store n with hnone | hsame
  · exact .inl hnone
  · exact h.congr hsame rfl

/-- A call that only reads changes nothing. -/
theorem store_read {q : Request} (hq : (s.store.deliver cfg q).1 = s.store)
    (hlate : World.exec cfg .late q s.store = s.store.deliver cfg q) :
    ((chunkRequests cfg userId uploadId).after c p q s).store = s.store := by
  cases c with
  | delivered => exact hq
  | failed => rfl
  | lost => exact hq
  | late => exact (congrArg Prod.fst hlate).trans hq

theorem Kept.read {q : Request} (hq : (s.store.deliver cfg q).1 = s.store)
    (hlate : World.exec cfg .late q s.store = s.store.deliver cfg q)
    (h : Kept userId uploadId key sid fileSize s) :
    Kept userId uploadId key sid fileSize ((chunkRequests cfg userId uploadId).after c p q s) :=
  h.congr (congrArg (World.uploadMeta · userId uploadId) (store_read hq hlate))
    (congrArg World.filesBucket (store_read hq hlate))

/-- Metadata that fits the parts, written at once or not at all. -/
theorem Kept.refresh (hb : b.fileSize = fileSize) (hacc : Accepted b key sid i state)
    (hparts : Parts b key sid i s.store.filesBucket) (h : Kept userId uploadId key sid fileSize s) :
    Kept userId uploadId key sid fileSize ((chunkRequests cfg userId uploadId).after c p
      (.redis (.multi (FilesService.refreshTransaction userId uploadId state))) s) := by
  obtain ⟨u, hu, hframes⟩ := hparts
  have hwritten : ∀ log, Kept userId uploadId key sid fileSize ⟨(s.store.deliver cfg (.redis (.multi
      (FilesService.refreshTransaction userId uploadId state)))).1, log⟩ := fun log =>
    .inr ⟨b, i, hb, state, u, ⟨World.uploadMeta_refresh cfg, hu⟩, hacc, hframes⟩
  cases c with
  | failed => exact h.congr rfl rfl
  | delivered | lost | late => exact hwritten _

/-- A part is stored or not; whoever gets its digest knows that it is. -/
theorem uploadPart_cases (cfg : Config) (p : Nat) (userId uploadId : Id) (n : Nat) (file : Blob)
    (c : Delivery) {u : MultipartUpload} (hu : s.store.filesBucket.upload key sid = some u) :
    ((chunkRequests cfg userId uploadId).after c p (.s3 .files (.uploadPart key sid n file))
      s).store = s.store ∧
      (∀ eTag, (chunkRequests cfg userId uploadId).reply c (.s3 .files (.uploadPart key sid n file))
        s ≠ .ok eTag) ∨
    ((chunkRequests cfg userId uploadId).after c p (.s3 .files (.uploadPart key sid n file))
      s).store.uploadMeta userId uploadId =
        s.store.uploadMeta userId uploadId ∧
      ((chunkRequests cfg userId uploadId).after
        c p (.s3 .files (.uploadPart key sid n file)) s).store.filesBucket.upload key sid =
        some (u.putPart n file) ∧
      ∀ eTag, (chunkRequests cfg userId uploadId).reply c (.s3 .files (.uploadPart key sid n file)) s = .ok eTag →
        eTag = file.digest := by
  have hok : s.store.filesBucket.uploadPart key sid n file =
      .ok { s.store.filesBucket with uploads := s.store.filesBucket.uploads.insert sid (u.putPart n file) } := by
    simp only [Bucket.uploadPart, hu]
  have hput : ({ s.store.filesBucket with uploads := s.store.filesBucket.uploads.insert sid (u.putPart n file) } :
      Bucket).upload key sid = some (u.putPart n file) :=
    (Bucket.upload_uploadPart hok).trans (by rw [hu, Option.map_some])
  have hdeliver : s.store.deliver cfg (.s3 .files (.uploadPart key sid n file)) =
      ({ s.store with
          filesBucket := { s.store.filesBucket with uploads := s.store.filesBucket.uploads.insert sid (u.putPart n file) }
          nextId := s.store.nextId + 1 }, .ok file.digest) := by
    simp only [World.deliver, World.bucket, Bucket.perform, hok]
    rfl
  have hlate : s.store.filesBucket.uploadLatePart key sid n file =
      { s.store.filesBucket with uploads :=
        s.store.filesBucket.uploads.insert sid (u.putPart n file) } := by
    rw [Bucket.uploadLatePart, hu]
    rfl
  cases c with
  | failed => exact .inl ⟨rfl, fun _ h => by cases h⟩
  | delivered =>
    refine .inr ⟨?_, ?_, fun eTag h => ?_⟩
    · exact congrArg (fun x => World.uploadMeta x.1 userId uploadId) hdeliver
    · exact (congrArg (fun x => Bucket.upload (World.filesBucket x.1) key sid) hdeliver).trans hput
    · cases (congrArg Prod.snd hdeliver).symm.trans h
      rfl
  | lost =>
    refine .inr ⟨?_, ?_, fun eTag h => by cases h⟩
    · exact congrArg (fun x => World.uploadMeta x.1 userId uploadId) hdeliver
    · exact (congrArg (fun x => Bucket.upload (World.filesBucket x.1) key sid) hdeliver).trans hput
  | late =>
    refine .inr ⟨rfl, ?_, fun eTag h => by cases h; rfl⟩
    exact (congrArg (Bucket.upload · key sid) hlate).trans hput

/-- Aborting leaves Redis alone. -/
theorem uploadMeta_abort {k : Id} {id : Option Id} (c : Delivery) :
    ((chunkRequests cfg userId uploadId).after c p (.s3 .files (.abortMultipartUpload k id))
      s).store.uploadMeta userId uploadId =
      s.store.uploadMeta userId uploadId := by
  cases c with
  | failed => rfl
  | delivered | lost | late =>
    show (s.store.deliver cfg (.s3 .files (.abortMultipartUpload k id))).1.uploadMeta userId
      uploadId = _
    simp only [World.deliver, World.bucket, Bucket.perform]
    cases s.store.filesBucket.abort k id <;> rfl

/-- An answer from Redis is what it holds. -/
theorem reply_get {value : Option RedisValue} (h : (chunkRequests cfg userId uploadId).reply c
    (.redis (.get (.uploadMeta userId uploadId))) s = .ok value) :
    s.store.uploadMeta userId uploadId = value := by
  cases c <;> cases h <;> rfl

theorem reply_exists (h : (chunkRequests cfg userId uploadId).reply c
    (.redis (.exists (.uploadMeta userId uploadId))) s = .ok false) :
    s.store.uploadMeta userId uploadId = none := by
  have hlive : (s.store.redis.live s.store.clock (.uploadMeta userId uploadId)).isSome = false := by
    cases c <;> first | exact Except.ok.inj h | cases h
  rw [World.uploadMeta, Redis.get, Option.isSome_eq_false_iff.mp hlive |>
    Option.isNone_iff_eq_none.mp]
  rfl

end
section
variable {cfg : Config} {p : Nat} {key sid userId uploadId : Id} {fileSize : Nat} {s : SharedWorld}

/-- S3 holds the parts that are listed, and Redis the metadata or nothing. -/
def Stored (userId uploadId key sid : Id) (b : BrowserUpload) (i : Nat) (state : UploadMeta)
    (s : SharedWorld) : Prop :=
  Parts b key sid i s.store.filesBucket ∧
    (s.store.uploadMeta userId uploadId = none ∨
      s.store.uploadMeta userId uploadId = some (.upload state))

theorem Stored.moved {b : BrowserUpload} {i n : Nat} {state : UploadMeta}
    (h : Stored userId uploadId key sid b i state s) :
    Stored userId uploadId key sid b i state ((chunkRequests cfg userId uploadId).moved n s) :=
  ⟨h.1, (uploadMeta_tick_cases s.store n).elim .inl fun hsame => h.2.imp hsame.trans hsame.trans⟩

theorem Stored.kept {b : BrowserUpload} {i : Nat} {state : UploadMeta}
    (hacc : Accepted b key sid i state) (h : Stored userId uploadId key sid b i state s) :
    Kept userId uploadId key sid b.fileSize s := by
  obtain ⟨⟨u, hu, hframes⟩, hmeta⟩ := h
  exact hmeta.imp id fun hsome => ⟨b, i, rfl, state, u, ⟨hsome, hu⟩, hacc, hframes⟩

/-- The metadata was written. -/
theorem Stored.refresh {b : BrowserUpload} {i : Nat} {state : UploadMeta} {c : Delivery}
    (hparts : Parts b key sid i s.store.filesBucket)
    (hr : (chunkRequests cfg userId uploadId).reply c
      (.redis (.multi (FilesService.refreshTransaction userId uploadId state))) s = .ok ()) :
    Stored userId uploadId key sid b i state ((chunkRequests cfg userId uploadId).after c p
      (.redis (.multi (FilesService.refreshTransaction userId uploadId state))) s) := by
  have hmeta : (s.store.deliver cfg
    (.redis (.multi (FilesService.refreshTransaction userId uploadId state)))).1.uploadMeta
      userId uploadId = some (.upload state) := World.uploadMeta_refresh cfg
  cases c with
  | failed | lost => cases hr
  | delivered | late => exact ⟨hparts, .inr hmeta⟩

/-- Without the upload in Redis the parts are given up. -/
theorem abort_goes {k : Id} (hs : s.store.uploadMeta userId uploadId = none) :
    Goes cfg userId uploadId key sid fileSize p (do
      FilesService.ignoring (FilesService.abortMultipartUpload k (some sid))
      throw (badRequest "Upload was cancelled") : Routine Unit) s := by
  have hcalls : (do
      FilesService.ignoring (FilesService.abortMultipartUpload k (some sid))
      throw (badRequest "Upload was cancelled") : Routine Unit).Calls
      fun q => q = .s3 .files (.abortMultipartUpload k (some sid)) :=
    .bind (.handle (.await rfl) fun _ => trivial) fun _ => trivial
  refine (Meets.frame hcalls (F := fun t => t.store.uploadMeta userId uploadId = none) ?_ ?_
    hs).mono fun _ _ _ _ => trivial
  · exact Stable.solo fun t n _ ht => (uploadMeta_tick_cases t.store n).elim id fun hsame =>
      hsame.trans ht
  · rintro t q c rfl _ _ ht
    exact ⟨⟨rfl, fun c _ => .inl ((uploadMeta_abort c).trans ht)⟩, (uploadMeta_abort c).trans ht⟩

/-- The end of a chunk request: the part is stored, and listed if the upload is still there. -/
theorem storePart_goes {b : BrowserUpload} {i : Nat} {state : UploadMeta} {file : Blob}
    (hacc : Accepted b key sid i state) (hsize : file.size = (b.frame i).size)
    (hs : Stored userId uploadId key sid b i state s) :
    Goes cfg userId uploadId key sid b.fileSize p (do
      let eTag ← await (.s3 .files (.uploadPart key sid (i + 1) file))
      let tracked ← await (.redis (.exists (.uploadMeta userId uploadId)))
      if tracked = false then
        FilesService.ignoring (FilesService.abortMultipartUpload key (some sid))
        throw (badRequest "Upload was cancelled")
      let now ← await .now
      FilesService.refreshUploadState userId uploadId
        (FilesService.acceptPart state (i + 1) eTag now)) s := by
  refine Goes.await (fun _ _ h => h.moved) hs fun t ht hi c => ?_
  obtain ⟨⟨u, hu, hframes⟩, hmeta⟩ := ht
  rcases uploadPart_cases cfg p userId uploadId (i + 1) file c hu with ⟨hsame,
    hno⟩ | ⟨hsame, hput, htag⟩
  · exact ⟨hi.congr (by rw [hsame]) (by rw [hsame]), fun eTag heq => absurd heq (hno eTag)⟩
  -- the part that is overwritten is none of those that are listed
  have hold : ∀ j < i, (u.putPart (i + 1) file).part (j + 1) = some (b.frame j) := by
    intro j hj
    rw [MultipartUpload.part_putPart_of_ne (by omega)]
    exact hframes j hj
  have hstored : Stored userId uploadId key sid b i state
    ((chunkRequests cfg userId uploadId).after c p
      (.s3 .files (.uploadPart key sid (i + 1) file)) t) :=
    ⟨⟨_, hput, hold⟩, hmeta.imp hsame.trans hsame.trans⟩
  refine ⟨hstored.kept hacc, fun eTag heq => ?_⟩
  obtain rfl := htag eTag heq
  have hnext : Parts (withDigest b i file.digest) key sid (i + 1)
      ((chunkRequests cfg userId uploadId).after c p (.s3 .files (.uploadPart key sid (i + 1) file))
        t).store.filesBucket :=
    ⟨_, hput, parts_putPart hframes hsize⟩
  refine Goes.await (q := .redis (.exists (.uploadMeta userId uploadId)))
    (F := fun t => Stored userId uploadId key sid b i state t ∧
      Parts (withDigest b i file.digest) key sid (i + 1) t.store.filesBucket)
    (fun _ _ h => ⟨h.1.moved, h.2⟩) ⟨hstored, hnext⟩ fun t ht hi c =>
      ⟨hi.read rfl rfl, fun tracked htracked => ?_⟩
  have hsame : ((chunkRequests cfg userId uploadId).after c p
    (.redis (.exists (.uploadMeta userId uploadId))) t).store =
      t.store := store_read rfl rfl
  cases tracked with
  | false =>
    refine abort_goes ?_
    rw [hsame]
    exact reply_exists htracked
  | true =>
    refine Goes.await (q := .now)
      (F := fun t => Parts (withDigest b i file.digest) key sid (i + 1) t.store.filesBucket)
      (fun _ _ h => h) (by rw [hsame]; exact ht.2) fun t ht hi c =>
        ⟨hi.read rfl rfl, fun now _ => ?_⟩
    rw [FilesService.refreshUploadState, ← Prog.bind_ret (await _)]
    refine Goes.await (F := fun t => Parts (withDigest b i file.digest) key sid (i + 1)
      t.store.filesBucket)
      (fun _ _ h => h) (by rw [store_read rfl rfl]; exact ht) fun t ht hi c =>
        ⟨?_, fun _ _ => Meets.ret (Stable.const True) trivial fun _ _ _ => trivial⟩
    refine hi.refresh (b := withDigest b i file.digest) rfl ?_ ht
    have haccept : Accepted (withDigest b i file.digest) key sid (i + 1)
        (FilesService.acceptPart state (i + 1) ((withDigest b i file.digest).digest i) now) :=
          (accepted_withDigest hacc).next
    rwa [digest_withDigest_self] at haccept

/-- The invariant outlasts a chunk request, whatever it carries and whatever fails. -/
theorem handleChunk_goes (file : Blob) (chunkIndex : Nat) :
    Goes cfg userId uploadId key sid fileSize p
      (FilesService.handleChunk userId uploadId file chunkIndex) s := by
  refine Goes.await (F := fun _ => True) (fun _ _ _ => trivial) trivial fun t _ hi c =>
    ⟨hi.read rfl rfl, fun value hget => ?_⟩
  have hvalue := reply_get hget
  have hsame : ((chunkRequests cfg userId uploadId).after c p
    (.redis (.get (.uploadMeta userId uploadId))) t).store =
      t.store := store_read rfl rfl
  rcases hi with hnone | ⟨b, i, rfl, state, u, hh, hacc, hframes⟩
  · cases hnone.symm.trans hvalue
    exact Goes.throw
  cases hh.1.symm.trans hvalue
  obtain rfl : state.storageKey = key := hacc.storageKey
  have hparts : Parts b state.storageKey sid i ((chunkRequests cfg userId uploadId).after c p
      (.redis (.get (.uploadMeta userId uploadId))) t).store.filesBucket := by
    rw [hsame]
    exact ⟨u, hh.2, hframes⟩
  rcases checkChunk_cases hacc file chunkIndex with ⟨e, he⟩ | ⟨hcheck, rfl, hsize⟩
  · simp only [FilesService.parseUploadMeta, Prog.pure_eq, Prog.bind_eq, Prog.ret_bind, he,
      Prog.throw_bind]
    exact Goes.throw
  simp only [FilesService.parseUploadMeta, Prog.pure_eq, Prog.bind_eq, Prog.ret_bind, hcheck]
  -- from here on the metadata may run out, but nothing touches the parts that were accepted
  refine Goes.await (q := .now) (F :=
    fun t => Parts b state.storageKey sid chunkIndex t.store.filesBucket) (fun _ _ h => h) hparts
    fun t ht hi c => ⟨hi.read rfl rfl, fun now _ => ?_⟩
  have hstart : Accepted b state.storageKey sid chunkIndex { state with updatedAt := now } :=
    hacc.updatedAt
  generalize ({ state with updatedAt := now } : UploadMeta) = started at hstart ⊢
  refine Goes.await (q := .redis (.multi (FilesService.refreshTransaction userId uploadId started)))
    (F := fun t => Parts b state.storageKey sid chunkIndex t.store.filesBucket) (fun _ _ h => h)
    (by rw [store_read rfl rfl]; exact ht) fun t ht hi c =>
      ⟨hi.refresh rfl hstart ht, fun _ hr => ?_⟩
  exact storePart_goes hstart hsize (Stored.refresh ht hr)

end
/-- Files of the sizes that are accepted make objects of the expected length. -/
theorem Kept.keepsStep {key sid userId uploadId : Id} {fileSize : Nat} {s : SharedWorld}
    (h : Kept userId uploadId key sid fileSize s) (hpos : 1 ≤ fileSize)
    (hle : fileSize ≤ adminMaxFileSizeBytes) :
    KeepsStep userId uploadId fileSize s.store := by
  intro value hvalue
  rcases h with hnone | ⟨b, i, rfl, state, u, hh, hacc, hframes⟩
  · cases hnone.symm.trans hvalue
  cases hh.1.symm.trans hvalue
  refine ⟨state, sid, u, rfl, hacc.fileSize, hacc.s3UploadId, by
    rw [hacc.storageKey]; exact hh.2, ⟨?_, fun x hx => ?_⟩, fun hall => ?_⟩
  · rw [hacc.parts, hacc.nextExpectedChunk, List.map_map]
    rfl
  · rw [hacc.parts] at hx
    obtain ⟨j, hj, rfl⟩ := List.mem_map.mp hx
    refine ⟨b.frame j, hframes j (List.mem_range.mp hj), rfl, ?_⟩
    rw [hacc.fileSize]
    rfl
  · have hcount : i = chunkCount b.fileSize := by
      rw [hacc.parts, hacc.totalChunks, List.length_map, List.length_range] at hall
      exact hall
    subst hcount
    rw [hacc.totalChunks]
    exact checksPass_of_uploaded ⟨state, u, hh, hacc, hframes⟩ hpos hle

end SerialChunks

/-- An upload of which no chunk has been sent. -/
structure Begun (userId uploadId : Id) (dto : InitUploadDto) (w : World) : Prop where
  valid : dto.valid = true
  stored : ∃ state s3UploadId u, w.uploadMeta userId uploadId = some (.upload state) ∧
    w.filesBucket.upload state.storageKey s3UploadId = some u ∧ state.s3UploadId = some s3UploadId ∧
    state.fileSize = dto.fileSize ∧ state.totalChunks = chunkCount dto.fileSize ∧
      state.nextExpectedChunk = 0 ∧ state.parts = []

section
variable {cfg : Config} {userId uploadId : Id} {dto : InitUploadDto} {w : World}

/-- That is what `initializeUpload` leaves. -/
theorem Begun.of_initialized {s : SharedWorld} (hw : Drawn userId w) (hv : dto.valid = true)
    (h : BrowserUpload.Initialized cfg userId uploadId dto w s) :
    Begun userId uploadId dto s.store := by
  obtain ⟨_, key, sid, state, u, hh, hacc, _⟩ := h.uploaded (b := ⟨dto.fileSize, id⟩) hw rfl
  refine ⟨hv, state, sid, u, hh.1, ?_, hacc.s3UploadId, hacc.fileSize, hacc.totalChunks,
    hacc.nextExpectedChunk, hacc.parts⟩
  rw [hacc.storageKey]
  exact hh.2

theorem SerialChunks.Kept.of_begun (h : Begun userId uploadId dto w) :
    ∃ key sid, SerialChunks.Kept userId uploadId key sid dto.fileSize (.initial w) := by
  obtain ⟨state, sid, u, hmeta, hu, hsid, hsize, htotal, hnext, hparts⟩ := h.stored
  refine ⟨state.storageKey, sid, .inr ⟨⟨dto.fileSize, id⟩, 0, rfl, state, u, ⟨hmeta, hu⟩, ?_,
    fun j hj => absurd hj (Nat.not_lt_zero j)⟩⟩
  exact ⟨htotal, hsize, hnext, rfl, hsid, hparts⟩

/-- In every state that chunk requests reach, one at a time, metadata and storage are in step. -/
theorem serial_chunks_in_step (hw : Begun userId uploadId dto w)
    {as : List (Action ChunkRequest Delivery Nat)}
    {t : Pool Request Reply Thrown Unit World ChunkRequest}
    (h : (chunkRequests cfg userId uploadId).runAlone anyFailure (.initial w) as = some t) :
    KeepsStep userId uploadId dto.fileSize t.shared.store := by
  obtain ⟨key, sid, hkept⟩ := SerialChunks.Kept.of_begun hw
  have hsizes : 1 ≤ dto.fileSize ∧ dto.fileSize ≤ adminMaxFileSizeBytes := by
    have hv := hw.valid
    simp only [InitUploadDto.valid, Bool.and_eq_true, decide_eq_true_eq] at hv
    exact ⟨hv.1.1.1.1.1, hv.1.1.1.1.2⟩
  have hrun : t.Serial (chunkRequests cfg userId uploadId) anyFailure
      (SerialChunks.Kept userId uploadId key sid dto.fileSize) :=
    Pool.Serial.run (fun _ n _ hs => hs.moved n)
      (fun _ _ op _ _ => SerialChunks.handleChunk_goes op.file op.chunkIndex) (.initial hkept) h
  exact hrun.inv.keepsStep hsizes.1 hsizes.2

end

/-- The first chunk twice, as its metadata is not written the first time, and then the second. -/
def retriedChunks : List (Action ChunkRequest Delivery Nat) :=
  .start ⟨⟨52428828, 7⟩, 0⟩ :: List.replicate 6 (.advance 0 .delivered) ++ .advance 0 .failed ::
    .start ⟨⟨52428828, 8⟩, 0⟩ :: List.replicate 7 (.advance 1 .delivered) ++
      .start ⟨⟨7571228, 9⟩, 1⟩ :: List.replicate 7 (.advance 2 .delivered)

theorem serial_chunks_in_step_demo :
    ∃ t, (chunkRequests BrowserUpload.forwardConfig 1 100).runAlone anyFailure
      (.initial (BrowserUpload.forwardRun ⟨60000000, 2, none, none⟩).2.store) retriedChunks =
        some t ∧
    (t.shared.store.filesBucket.uploads.lookup 104).map (·.parts) = some [(2, ⟨7571228, 9⟩),
      (1, ⟨52428828, 8⟩)] ∧
    KeepsStep 1 100 60000000 t.shared.store := by
  have key : (((chunkRequests BrowserUpload.forwardConfig 1 100).runAlone anyFailure
      (.initial (BrowserUpload.forwardRun ⟨60000000, 2, none, none⟩).2.store) retriedChunks).any
        fun t =>
      decide ((t.shared.store.filesBucket.uploads.lookup 104).map (·.parts) =
        some [(2, ⟨7571228, 9⟩), (1, ⟨52428828, 8⟩)])) = true := by decide +kernel
  obtain ⟨t, ht, hx⟩ := (Option.any_eq_true _ _).mp key
  have hbegun : Begun 1 100 ⟨60000000, 2, none,
    none⟩ (BrowserUpload.forwardRun ⟨60000000, 2, none, none⟩).2.store :=
    .of_initialized BrowserUpload.forwardWorld_drawn (by
      decide) (BrowserUpload.forwardRun_initialized (by decide +kernel))
  exact ⟨t, ht, of_decide_eq_true hx, serial_chunks_in_step hbegun ht⟩

end Redbox
