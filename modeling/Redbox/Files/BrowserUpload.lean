import Redbox.Files.UploadState
import Redbox.Download.FileCryptoFormat

/-! The upload of a file by the browser, chunk by chunk, against the checks of the server. -/
namespace Redbox
open Interleaving

/-- A file as the upload form sends it: its length, and the digests of its frames. -/
structure BrowserUpload where
  fileSize : Nat
  digest : Nat → Id

namespace BrowserUpload

/-- The frame of one round of the loop in `handleUpload`: the slice, its IV and its tag. -/
def frame (b : BrowserUpload) (i : Nat) : Blob :=
  let start := i * fileChunkSize
  ⟨min (start + fileChunkSize) b.fileSize - start + fileEncryptionOverhead, b.digest i⟩

/-- One chunk request, with the checks of the validation pipe. -/
def sendChunk (b : BrowserUpload) (userId uploadId : Id) (i : Nat) : Routine Unit := do
  Prog.throwIf (UploadChunkDto.valid i = false) (badRequest "Validation failed")
  FilesService.handleChunk userId uploadId (b.frame i) i

/-- The loop of `handleUpload`. -/
def sendChunks (b : BrowserUpload) (userId uploadId : Id) (chunks : Nat) : Routine Unit :=
  Prog.forEach (List.range chunks) fun i => b.sendChunk userId uploadId i

/-- Every call is delivered, and the metadata of the upload does not run out. -/
def undisturbed (userId uploadId : Id) : BackendRules where
  starts := fun _ _ => true
  allows := fun _ _ _ d => decide (d = .delivered)
  drifts := keepsUpload userId uploadId

/-- The check of the chunk count and the check of the stored length, as `finalizeUpload` makes them.
-/
def ChecksPass (userId uploadId : Id) (totalChunks : Nat) (w : World) : Prop :=
  ∃ state bucket size, w.uploadMeta userId uploadId = some (.upload state) ∧
    state.parts.length = state.totalChunks ∧ totalChunks = state.totalChunks ∧
    w.filesBucket.complete state.storageKey state.s3UploadId (FilesService.sortedParts state) =
      .ok bucket ∧
    bucket.objects.lookup state.storageKey = some size ∧
    FilesService.getExpectedEncryptedSize state.fileSize = .ok size

/-- The metadata after the first `i` chunks have been accepted. -/
structure Accepted (b : BrowserUpload) (key s3UploadId : Id) (i : Nat) (state : UploadMeta) :
    Prop where
  totalChunks : state.totalChunks = chunkCount b.fileSize
  fileSize : state.fileSize = b.fileSize
  nextExpectedChunk : state.nextExpectedChunk = i
  storageKey : state.storageKey = key
  s3UploadId : state.s3UploadId = some s3UploadId
  parts : state.parts = (List.range i).map fun j => ⟨j + 1, b.digest j⟩

/-- The metadata and the multipart upload are as given. -/
def Holds (userId uploadId key s3UploadId : Id) (state : UploadMeta) (u : MultipartUpload)
    (s : SharedWorld) : Prop :=
  s.store.uploadMeta userId uploadId = some (.upload state) ∧
    s.store.filesBucket.upload key s3UploadId = some u

section
variable {b : BrowserUpload} {i n : Nat} {key sid : Id} {state : UploadMeta}

/-- The frame has the size that the server expects of the chunk. -/
theorem size_frame (h : Accepted b key sid i state) (hi : i < chunkCount b.fileSize) :
    ((b.frame i).size : Int) = FilesService.expectedPlaintextSize state i +
      encryptedChunkOverheadBytes := by
  rw [FilesService.expectedPlaintextSize, h.totalChunks, h.fileSize]
  rcases Nat.lt_or_ge (i + 1) (chunkCount b.fileSize) with hlt | hge
  · rw [if_pos hlt]
    simp only [frame, chunkCount, plaintextChunkSizeBytes, fileChunkSize, fileEncryptionOverhead,
      fileIvLength,
      fileGcmTagLength, encryptedChunkOverheadBytes] at hlt ⊢
    omega
  · rw [if_neg (Nat.not_lt.mpr hge)]
    simp only [frame, chunkCount, plaintextChunkSizeBytes, fileChunkSize, fileEncryptionOverhead,
      fileIvLength,
      fileGcmTagLength, encryptedChunkOverheadBytes] at hi hge ⊢
    omega

/-- The first frames make so many bytes. -/
theorem sum_frames (b : BrowserUpload) (n : Nat) :
    ((List.range n).map fun i => (b.frame i).size).sum =
    min (n * fileChunkSize) b.fileSize + n * fileEncryptionOverhead := by
  induction n with
  | zero => simp
  | succ n ih =>
    rw [List.range_succ, List.map_append, List.sum_append, ih]
    simp only [frame, List.map_cons, List.map_nil, List.sum_cons, List.sum_nil, Nat.succ_mul]
    omega

theorem sum_all_frames (b : BrowserUpload) :
    ((List.range (chunkCount b.fileSize)).map fun i => (b.frame i).size).sum =
    b.fileSize + chunkCount b.fileSize * encryptedChunkOverheadBytes := by
  have hle : b.fileSize ≤ chunkCount b.fileSize * fileChunkSize := by
    simp only [chunkCount, plaintextChunkSizeBytes, fileChunkSize]
    omega
  rw [sum_frames, Nat.min_eq_right hle]
  rfl

/-- A pass over a list that succeeds everywhere. -/
theorem mapM_some {α β : Type} {f : α → Option β} {g : α → β} {l : List α}
    (h : ∀ x ∈ l, f x = some (g x)) :
    l.mapM f = some (l.map g) := by
  induction l with
  | nil => rfl
  | cons x xs ih =>
    rw [List.mapM_cons, h x List.mem_cons_self, ih fun y hy => h y (List.mem_cons_of_mem x hy)]
    rfl

/-- The parts make one object of all frames. -/
theorem assemble_frames {u : MultipartUpload} (hu : ∀ j < n, u.part (j + 1) = some (b.frame j)) :
    u.assemble ((List.range n).map fun j => ⟨j + 1, b.digest j⟩) =
      some ((List.range n).map fun j => (b.frame j).size).sum := by
  have hmap : ((List.range n).map fun j => (⟨j + 1, b.digest j⟩ : UploadPart)).mapM
      (fun x => ((u.part x.partNumber).filter fun b => b.digest == x.eTag).map (·.size)) =
      some ((List.range n).map fun j => (b.frame j).size) := by
    rw [List.mapM_map]
    refine mapM_some fun j hj => ?_
    simp [hu j (List.mem_range.mp hj), frame]
  rw [MultipartUpload.assemble, hmap]
  rfl

/-- The parts are in order. -/
theorem sortedParts_eq (h : Accepted b key sid i state) :
    FilesService.sortedParts state = state.parts := by
  rw [FilesService.sortedParts]
  apply List.mergeSort_of_pairwise
  rw [h.parts, List.pairwise_map]
  refine List.pairwise_lt_range.imp fun hlt => ?_
  simpa using Nat.le_of_lt hlt

end
section
variable {cfg : Config} {p : Nat} {α : Type} {userId uploadId key sid : Id} {state : UploadMeta}
  {u : MultipartUpload}
  {s : SharedWorld} {F : SharedWorld → Prop} {Q : Except Thrown α → SharedWorld → Prop}

theorem delivered {q : Request} {d : Delivery}
    (h : (undisturbed userId uploadId).allows s p q d = true) : d = .delivered :=
  of_decide_eq_true h

/-- A call that is answered, in front of the rest of a routine. -/
theorem served {q : Request} {f : q.Answer → Routine α}
    (hF : Stable (backend cfg) (undisturbed userId uploadId) (.alone p) p F) (hs : F s)
    (h : ∀ t, F t → ∃ a, (t.store.deliver cfg q).2 = .ok a ∧
      Meets (backend cfg) (undisturbed userId uploadId) (.alone p) p (f a) Q
        ((backend cfg).after .delivered p q t)) :
    Meets (backend cfg) (undisturbed userId uploadId) (.alone p) p ((await q).bind f) Q s := by
  refine Meets.await hF hs fun t ht _ d ha => ?_
  cases delivered ha
  obtain ⟨a, hr, hrest⟩ := h t ht
  refine ⟨rfl, fun a' hr' => ?_, fun e hr' => ?_⟩
  · cases hr.symm.trans hr'
    exact hrest
  · cases hr.symm.trans hr'

theorem Holds.stable : Stable (backend cfg) (undisturbed userId uploadId) (.alone p) p
    (Holds userId uploadId key sid state u) := by
  refine Stable.alone fun t n hn ht => ⟨?_, ht.2⟩
  exact (World.uploadMeta_tick hn (by rw [ht.1]; rfl)).trans ht.1

theorem Holds.tracked (h : Holds userId uploadId key sid state u s) :
    (s.store.redis.live s.store.clock (.uploadMeta userId uploadId)).isSome = true := by
  have hget : (s.store.uploadMeta userId uploadId).isSome = true := by rw [h.1]; rfl
  simpa [World.uploadMeta, Redis.get] using hget

theorem Holds.refresh {state' : UploadMeta} (h : Holds userId uploadId key sid state u s) :
    Holds userId uploadId key sid state' u ((backend cfg).after .delivered p
      (.redis (.multi (FilesService.refreshTransaction userId uploadId state'))) s) :=
  ⟨World.uploadMeta_refresh cfg, h.2⟩

theorem Holds.uploadPart (cfg : Config) (p n : Nat) (body : Blob) (h : Holds userId uploadId key sid state u s) :
    (s.store.deliver cfg (.s3 .files (.uploadPart key sid n body))).2 = .ok body.digest ∧
      Holds userId uploadId key sid state (u.putPart n body)
        ((backend cfg).after .delivered p (.s3 .files (.uploadPart key sid n body)) s) := by
  have hok : s.store.filesBucket.uploadPart key sid n body =
      .ok { s.store.filesBucket with uploads := s.store.filesBucket.uploads.insert sid (u.putPart n body) } := by
    simp only [Bucket.uploadPart, h.2]
  have hdeliver : s.store.deliver cfg (.s3 .files (.uploadPart key sid n body)) =
      ({ s.store with
          filesBucket := { s.store.filesBucket with uploads := s.store.filesBucket.uploads.insert sid (u.putPart n body) }
          nextId := s.store.nextId + 1 }, .ok body.digest) := by
    simp only [World.deliver, World.bucket, Bucket.perform, hok]
    rfl
  refine ⟨by rw [hdeliver], ?_⟩
  rw [Holds, after_delivered, hdeliver]
  exact ⟨h.1, (Bucket.upload_uploadPart hok).trans (by rw [h.2, Option.map_some])⟩

/-- Redis and S3 hold what the first `i` chunks have made. -/
def Uploaded (b : BrowserUpload) (userId uploadId key sid : Id) (i : Nat)
    (s : SharedWorld) : Prop :=
  ∃ state u, Holds userId uploadId key sid state u s ∧ Accepted b key sid i state ∧
    ∀ j < i, u.part (j + 1) = some (b.frame j)

/-- Refreshing the time changes nothing else. -/
theorem Accepted.updatedAt {b : BrowserUpload} {i : Nat} {now : Time}
    (h : Accepted b key sid i state) :
    Accepted b key sid i { state with updatedAt := now } :=
  ⟨h.totalChunks, h.fileSize, h.nextExpectedChunk, h.storageKey, h.s3UploadId, h.parts⟩

theorem Accepted.next {b : BrowserUpload} {i : Nat} {now : Time} (h : Accepted b key sid i state) :
    Accepted b key sid (i + 1) (FilesService.acceptPart state (i + 1) (b.digest i) now) where
  totalChunks := h.totalChunks
  fileSize := h.fileSize
  nextExpectedChunk := congrArg (· + 1) h.nextExpectedChunk
  storageKey := h.storageKey
  s3UploadId := h.s3UploadId
  parts := by
    rw [FilesService.acceptPart, h.parts, List.range_succ, List.map_append]
    rfl

/-- The checks of `handleChunk` pass for the next frame. -/
theorem checkChunk_accepted {b : BrowserUpload} {i : Nat} (h : Accepted b key sid i state)
    (hi : i < chunkCount b.fileSize) : FilesService.checkChunk state (b.frame i) i = .ret sid := by
  have horder : ¬ i ≠ state.nextExpectedChunk := not_not.mpr h.nextExpectedChunk.symm
  have htotal : ¬ state.totalChunks ≤ i := Nat.not_le.mpr (h.totalChunks ▸ hi)
  have hsize : ¬ ((b.frame i).size : Int) ≠ FilesService.expectedPlaintextSize state i +
      encryptedChunkOverheadBytes :=
    not_not.mpr (size_frame h hi)
  simp only [FilesService.checkChunk, h.s3UploadId, Prog.throwIf, if_neg horder, if_neg htotal,
    if_neg hsize,
    Prog.bind_eq, Prog.ret_bind, Prog.pure_eq]

/-- One accepted chunk makes the next one acceptable. -/
theorem handleChunk_uploaded {b : BrowserUpload} {i : Nat}
    (hs : Uploaded b userId uploadId key sid i s) (hi : i < chunkCount b.fileSize) :
    Meets (backend cfg) (undisturbed userId uploadId) (.alone p) p
      (FilesService.handleChunk userId uploadId (b.frame i) i)
      (fun r t => r = .ok () ∧ Uploaded b userId uploadId key sid (i + 1) t) s := by
  obtain ⟨state, u, hh, hacc, hparts⟩ := hs
  have hkey : state.storageKey = key := hacc.storageKey
  subst hkey
  have hcheck : FilesService.checkChunk state (b.frame i) i = .ret sid :=
    checkChunk_accepted hacc hi
  refine served Holds.stable hh fun t ht => ⟨some (.upload state), congrArg Except.ok ht.1, ?_⟩
  simp only [FilesService.parseUploadMeta, Prog.pure_eq, Prog.bind_eq, Prog.ret_bind, hcheck]
  refine served (q := .now) Holds.stable ht fun t ht => ⟨t.store.clock, rfl, ?_⟩
  have hstart : Accepted b state.storageKey sid i { state with updatedAt := t.store.clock } :=
    hacc.updatedAt
  generalize ({ state with updatedAt := t.store.clock } : UploadMeta) = started at hstart ⊢
  refine served (q := .redis (.multi (FilesService.refreshTransaction userId uploadId started)))
    Holds.stable ht
    fun t ht => ⟨(), rfl, ?_⟩
  refine served (q := .s3 .files (.uploadPart state.storageKey sid (i + 1) (b.frame i)))
    Holds.stable
    (Holds.refresh ht) fun t ht => ?_
  have hput := Holds.uploadPart cfg p (i + 1) (b.frame i) ht
  refine ⟨b.digest i, hput.1, ?_⟩
  refine served (q := .redis (.exists (.uploadMeta userId uploadId))) Holds.stable hput.2
    fun t ht => ⟨true, ?_, ?_⟩
  · exact congrArg Except.ok ht.tracked
  refine served (q := .now) Holds.stable ht fun t ht => ⟨t.store.clock, rfl, ?_⟩
  have haccept : Accepted b state.storageKey sid (i + 1)
      (FilesService.acceptPart started (i + 1) (b.digest i) t.store.clock) := hstart.next
  generalize FilesService.acceptPart started (i + 1) (b.digest i) t.store.clock =
    accepted at haccept ⊢
  rw [FilesService.refreshUploadState, ← Prog.bind_ret (await _)]
  refine served (q := .redis (.multi (FilesService.refreshTransaction userId uploadId accepted)))
    Holds.stable ht
    fun t ht => ⟨(), rfl, ?_⟩
  refine Meets.ret Holds.stable (Holds.refresh ht) fun t ht _ => ⟨rfl, accepted, _, ht, haccept,
    fun j hj => ?_⟩
  by_cases hji : j = i
  · rw [hji, MultipartUpload.part_putPart]
  · rw [MultipartUpload.part_putPart_of_ne (by omega)]
    exact hparts j (by omega)

/-- The largest index that the validation pipe lets pass is 204. -/
theorem valid_iff {i : Nat} : UploadChunkDto.valid i = true ↔ i < 205 := by
  simp [UploadChunkDto.valid]
  omega

theorem sendChunk_uploaded {b : BrowserUpload} {i : Nat}
    (hs : Uploaded b userId uploadId key sid i s) (hi : i < chunkCount b.fileSize) (hv : i < 205) :
    Meets (backend cfg) (undisturbed userId uploadId) (.alone p) p (b.sendChunk userId uploadId i)
      (fun r t => r = .ok () ∧ Uploaded b userId uploadId key sid (i + 1) t) s :=
  Meets.throwIf (fun hno => absurd (valid_iff.mpr hv) (by simp [hno])) fun _ =>
    handleChunk_uploaded hs hi

/-- Within the bound all chunks are accepted, one after another. -/
theorem sendAll_uploaded {b : BrowserUpload} {n : Nat} : ∀ {i : Nat} {s : SharedWorld},
    Uploaded b userId uploadId key sid i s → i + n ≤ chunkCount b.fileSize → i + n ≤ 205 →
    Meets (backend cfg) (undisturbed userId uploadId) (.alone p) p
      (Prog.forEach (List.range' i n) fun j => b.sendChunk userId uploadId j)
      (fun r t => r = .ok () ∧ Uploaded b userId uploadId key sid (i + n) t) s := by
  induction n with
  | zero =>
    intro i s hs _ _
    obtain ⟨state, u, hh, hacc, hparts⟩ := hs
    exact Meets.ret Holds.stable hh fun t ht _ => ⟨rfl, state, u, ht, hacc, hparts⟩
  | succ n ih =>
    intro i s hs hcount hv
    refine Meets.bind trivial Outline.alone_kept
      ((sendChunk_uploaded hs (by omega) (by omega)).mono fun r t _ ht => ?_)
    obtain ⟨rfl, ht⟩ := ht
    have hrest := ih ht (by omega) (by omega)
    rw [Nat.add_right_comm] at hrest
    exact hrest

/-- Beyond it the chunk with index 205 is rejected. -/
theorem sendAll_rejected {b : BrowserUpload} {n : Nat} : ∀ {i : Nat} {s : SharedWorld},
    Uploaded b userId uploadId key sid i s → i + n ≤ chunkCount b.fileSize → i ≤ 205 → 205 < i + n →
    Meets (backend cfg) (undisturbed userId uploadId) (.alone p) p
      (Prog.forEach (List.range' i n) fun j => b.sendChunk userId uploadId j) (fun r _ =>
        r ≠ .ok ()) s := by
  induction n with
  | zero =>
    intro i s _ _ hle hlt
    omega
  | succ n ih =>
    intro i s hs hcount hle hlt
    rcases Nat.lt_or_ge i 205 with hv | hv
    · refine Meets.bind trivial Outline.alone_kept
        ((sendChunk_uploaded hs (by omega) hv).mono fun r t _ ht => ?_)
      obtain ⟨rfl, ht⟩ := ht
      exact ih ht (by omega) (by omega) (by omega)
    · have hbad : UploadChunkDto.valid i = false := by
        rw [← Bool.not_eq_true, valid_iff]
        omega
      have hsend : b.sendChunk userId uploadId i = .throw (badRequest "Validation failed") := by
        simp only [sendChunk, Prog.throwIf, hbad, if_true, Prog.bind_eq, Prog.throw_bind]
      rw [List.range'_succ, Prog.forEach, hsend]
      exact Meets.throw (Stable.const True) trivial fun _ _ _ => by simp

/-- After the last chunk the checks of `finalizeUpload` pass. -/
theorem checksPass_of_uploaded {b : BrowserUpload}
    (hs : Uploaded b userId uploadId key sid (chunkCount b.fileSize) s) (hpos : 1 ≤ b.fileSize)
    (hle : b.fileSize ≤ adminMaxFileSizeBytes) :
    ChecksPass userId uploadId (chunkCount b.fileSize) s.store := by
  obtain ⟨state, u, hh, hacc, hparts⟩ := hs
  have hassemble : u.assemble state.parts =
      some (b.fileSize + chunkCount b.fileSize * encryptedChunkOverheadBytes) := by
    rw [hacc.parts, assemble_frames hparts, sum_all_frames]
  have hne : state.parts ≠ [] := by
    rw [hacc.parts, ← List.length_pos_iff_ne_nil, List.length_map, List.length_range]
    simp only [chunkCount, plaintextChunkSizeBytes]
    omega
  have hcomplete : s.store.filesBucket.complete state.storageKey state.s3UploadId
    (FilesService.sortedParts state) =
      .ok ⟨s.store.filesBucket.objects.insert state.storageKey
        (b.fileSize + chunkCount b.fileSize * encryptedChunkOverheadBytes),
          s.store.filesBucket.uploads.erase sid⟩ := by
    simp only [Bucket.complete, hacc.s3UploadId, hacc.storageKey, hh.2, sortedParts_eq hacc,
      hassemble, if_neg hne]
  refine ⟨state, _, _, hh.1, ?_, hacc.totalChunks.symm, hcomplete, AList.lookup_insert _, ?_⟩
  · rw [hacc.parts, hacc.totalChunks, List.length_map, List.length_range]
  · rw [hacc.fileSize, FilesService.getExpectedEncryptedSize, if_neg (by omega)]

end
end BrowserUpload
end Redbox
