import Redbox.Download.StreamingDownloadService

/-! Streaming decryption is exact and tamper-evident, however the network cuts the
stream into pieces. -/
namespace Redbox
open Bytes

namespace FrameReader
variable {r r' : FrameReader} {encryptedSize expectedLength : Nat} {frame : ByteString}

/-- The bytes that are still to be read. -/
def unread (r : FrameReader) : ByteString :=
  (r.current.elim [] fun chunk => chunk.drop r.networkOffset) ++ r.pieces.flatten

theorem unread_none (h : r.current = none) : r.unread = r.pieces.flatten := by
  simp [unread, h]

theorem unread_some {chunk : ByteString} (h : r.current = some chunk) :
    r.unread = chunk.drop r.networkOffset ++ r.pieces.flatten := by
  simp [unread, h]

theorem current_some {chunk : ByteString} (h : r.current = some chunk) :
    r.networkChunk = some chunk ∧ r.networkOffset < chunk.length := by
  simpa using Option.filter_eq_some_iff.mp h

/-- Bytes beyond the offset of the piece that is being read. -/
theorem unread_of_chunk {chunk : ByteString} (h : r.networkChunk = some chunk) :
    r.unread = chunk.drop r.networkOffset ++ r.pieces.flatten := by
  by_cases hlt : r.networkOffset < chunk.length
  · exact unread_some (by simp [current, h, hlt])
  · have hnone : r.current = none := by simpa [current, h] using hlt
    rw [unread_none hnone, List.drop_of_length_le (Nat.not_lt.mp hlt), List.nil_append]

@[simp] theorem unread_settle : r.settle.unread = r.unread := by
  unfold settle
  split
  · rename_i h
    rw [unread_none (Option.isNone_iff_eq_none.mp h), unread_none rfl]
  · rfl

@[simp] theorem receivedBytes_settle : r.settle.receivedBytes = r.receivedBytes := by
  unfold settle
  split <;> rfl

/-- The loop fills the frame with what comes next, if enough comes; how it is cut does not matter.
-/
theorem fill_cases (hle : frame.length ≤ expectedLength)
    (hroom : r.receivedBytes + (expectedLength - frame.length) ≤ encryptedSize) :
    (∃ r', fill encryptedSize expectedLength frame r =
        .ok (frame ++ r.unread.take (expectedLength - frame.length), r') ∧
      expectedLength - frame.length ≤ r.unread.length ∧
      r'.unread = r.unread.drop (expectedLength - frame.length) ∧
      r'.receivedBytes = r.receivedBytes + (expectedLength - frame.length)) ∨
    ∃ e, fill encryptedSize expectedLength frame r = .error e ∧
      r.unread.length < expectedLength - frame.length := by
  fun_induction fill encryptedSize expectedLength frame r with
  | case1 frame r hlt hcur hp =>
    refine .inr ⟨_, rfl, ?_⟩
    rw [unread_none hcur, hp]
    exact Nat.sub_pos_of_lt hlt
  | case2 frame r hlt hcur piece pieces hp hempty ih =>
    have hun : r.unread = ({ r with pieces := pieces } : FrameReader).unread := by
      have hrest : ({ r with pieces := pieces } : FrameReader).unread = pieces.flatten :=
        unread_none hcur
      rw [hrest, unread_none hcur, hp, List.flatten_cons,
        List.length_eq_zero_iff.mp hempty, List.nil_append]
    rw [hun]
    exact ih hle hroom
  | case3 frame r hlt hcur piece pieces hp hne ih =>
    have hun : r.unread = ({ r with pieces := pieces, networkChunk := some piece, networkOffset :=
      0 } :
        FrameReader).unread := by
      have hrest : ({ r with pieces := pieces, networkChunk := some piece, networkOffset := 0 } :
          FrameReader).unread = piece ++ pieces.flatten := unread_of_chunk rfl
      rw [hrest, unread_none hcur, hp, List.flatten_cons]
    rw [hun]
    exact ih hle hroom
  | case4 frame r hlt chunk hcur bytesToCopy receivedBytes hbig =>
    have hcopy : bytesToCopy ≤ expectedLength - frame.length := Nat.min_le_left _ _
    exact absurd hbig (by omega)
  | case5 frame r hlt chunk hcur bytesToCopy receivedBytes _ ih =>
    obtain ⟨hchunk, hoff⟩ := current_some hcur
    have hcopy : bytesToCopy ≤ expectedLength - frame.length := Nat.min_le_left _ _
    have hlen : ((chunk.drop r.networkOffset).take bytesToCopy).length = bytesToCopy := by
      rw [List.length_take, List.length_drop]
      exact Nat.min_eq_left (Nat.min_le_right _ _)
    have hnext : ({ r with networkOffset := r.networkOffset + bytesToCopy, receivedBytes :=
      receivedBytes } :
        FrameReader).unread = (chunk.drop r.networkOffset).drop bytesToCopy ++
          r.pieces.flatten := by
      rw [List.drop_drop]
      exact unread_of_chunk hchunk
    have hun : r.unread = (chunk.drop r.networkOffset).take bytesToCopy ++
        ({ r with networkOffset := r.networkOffset + bytesToCopy, receivedBytes := receivedBytes } :
          FrameReader).unread := by
      rw [hnext, ← List.append_assoc, List.take_append_drop, unread_some hcur]
    have hreceived : receivedBytes = r.receivedBytes + bytesToCopy := rfl
    generalize (chunk.drop r.networkOffset).take bytesToCopy = copied at ih hlen hun ⊢
    clear_value receivedBytes bytesToCopy
    have hneed : expectedLength - frame.length = copied.length +
        (expectedLength - (frame ++ copied).length) := by
      clear ih
      rw [List.length_append]
      omega
    have hle' : (frame ++ copied).length ≤ expectedLength := by
      clear ih
      rw [List.length_append]
      omega
    have hroom' : receivedBytes + (expectedLength - (frame ++ copied).length) ≤ encryptedSize := by
      clear ih
      omega
    have hsum : ∀ bytes : ByteString, (copied ++ bytes).length = copied.length + bytes.length := by
      intro bytes
      exact List.length_append
    rw [hun, hneed]
    rcases ih hle' hroom' with ⟨r', hfill, henough, hun', hrec⟩ | ⟨e, hfill, hshort⟩
    · refine .inl ⟨r', ?_, ?_, ?_, ?_⟩
      · rw [hfill, List.take_length_add_append, List.append_assoc]
      · rw [hsum]
        exact Nat.add_le_add_left henough _
      · rw [hun', List.drop_length_add_append]
      · rw [hrec, hreceived, hlen, Nat.add_assoc]
    · refine .inr ⟨e, hfill, ?_⟩
      rw [hsum]
      exact Nat.add_lt_add_left hshort _
  | case6 frame r hge =>
    have hzero : expectedLength - frame.length = 0 := by omega
    exact .inl ⟨r, by simp [hzero], by simp [hzero], by simp [hzero], by simp [hzero]⟩

/-- A read of a frame takes what comes next, or nothing of that length comes. -/
theorem readFrame_cases {metadata : DownloadMetadata}
    (hroom : r.receivedBytes + expectedLength ≤ metadata.encryptedSize) :
    (∃ frame r', r.readFrame metadata expectedLength = .ok (frame, r') ∧
      r.unread = frame ++ r'.unread ∧
      frame.length = expectedLength ∧ r'.receivedBytes = r.receivedBytes + expectedLength) ∨
    ∃ e, r.readFrame metadata expectedLength = .error e ∧ r.unread.length < expectedLength := by
  have hnil : ([] : ByteString).length ≤ expectedLength := Nat.zero_le expectedLength
  rcases fill_cases hnil hroom with ⟨r', hfill, henough, hun, hrec⟩ | ⟨e, hfill, hshort⟩
  · refine .inl ⟨r.unread.take expectedLength, r'.settle, ?_, ?_, ?_, ?_⟩
    · rw [readFrame, hfill]
      rfl
    · rw [unread_settle, hun]
      exact (List.take_append_drop _ _).symm
    · rw [List.length_take]
      exact Nat.min_eq_left henough
    · rw [receivedBytes_settle, hrec]
      rfl
  · refine .inr ⟨e, ?_, hshort⟩
    rw [readFrame, hfill]
    rfl

end FrameReader
/-- What the loop needs of a file format: chunks and frames of the right lengths, and
frames that decrypt in any mode that the format has not ruled out. -/
structure FrameFormat (cipher : FileCipher) (made : List Sealing) (metadata : DownloadMetadata)
    (mode : EncryptionMode) (chunk frame : Nat → ByteString) : Prop where
  length_chunk : ∀ i, (chunk i).length =
    min metadata.chunkSize (metadata.plaintextSize - i * metadata.chunkSize)
  length_frame : ∀ i, (frame i).length = (chunk i).length + metadata.encryptionOverhead
  decrypts : ∀ i < metadata.chunkCount, ∀ m, m = .unknown ∨ m = mode →
    decryptFrame cipher made (frame i) metadata i (chunk i).length m = .ok (chunk i, mode)

/-- Only the right frame decrypts at each place. -/
def FrameFormat.Authentic (cipher : FileCipher) (made : List Sealing) (metadata : DownloadMetadata)
    (mode : EncryptionMode) (chunk frame : Nat → ByteString) : Prop :=
  ∀ i < metadata.chunkCount, ∀ m, m = .unknown ∨ m = mode → ∀ f x, f.length = (frame i).length →
    decryptFrame cipher made f metadata i (chunk i).length m = .ok x → f = frame i

/-- `n` frames or chunks from the `i`-th on, side by side. -/
def sideBySide (part : Nat → ByteString) (i n : Nat) : ByteString :=
  ((List.range' i n).map part).flatten

@[simp] theorem sideBySide_zero (part : Nat → ByteString) (i : Nat) :
    sideBySide part i 0 = [] := rfl

theorem sideBySide_succ (part : Nat → ByteString) (i n : Nat) :
    sideBySide part i (n + 1) = part i ++ sideBySide part (i + 1) n := rfl

namespace StreamState
variable {cipher : FileCipher} {made : List Sealing} {metadata : DownloadMetadata}
  {mode : EncryptionMode}
  {chunk frame : Nat → ByteString} {s s' : StreamState} {i n : Nat} {rest : ByteString}

/-- With `n` chunks to go from the `i`-th on, the counts leave room for just these. -/
structure Ready (metadata : DownloadMetadata) (mode : EncryptionMode)
    (chunk frame : Nat → ByteString) (i n : Nat) (s : StreamState) : Prop where
  last : i + n = metadata.chunkCount
  received : s.reader.receivedBytes + (sideBySide frame i n).length = metadata.encryptedSize
  written : s.writtenBytes + (sideBySide chunk i n).length = metadata.plaintextSize
  mode : s.encryptionMode = .unknown ∨ s.encryptionMode = mode

/-- A round has read the `i`-th frame and written the `i`-th chunk. -/
structure Advanced (mode : EncryptionMode) (chunk frame : Nat → ByteString) (i : Nat)
    (s s' : StreamState) :
    Prop where
  unread : s.reader.unread = frame i ++ s'.reader.unread
  received : s'.reader.receivedBytes = s.reader.receivedBytes + (frame i).length
  written : s'.written = s.written ++ [chunk i]
  writtenBytes : s'.writtenBytes = s.writtenBytes + (chunk i).length
  mode : s'.encryptionMode = mode

theorem Ready.next (h : Ready metadata mode chunk frame i (n + 1) s)
    (ha : Advanced mode chunk frame i s s') :
    Ready metadata mode chunk frame (i + 1) n s' where
  last := by
    have := h.last
    omega
  received := by
    have := h.received
    rw [sideBySide_succ, List.length_append] at this
    rw [ha.received]
    omega
  written := by
    have := h.written
    rw [sideBySide_succ, List.length_append] at this
    rw [ha.writtenBytes]
    omega
  mode := .inr ha.mode

variable (fmt : FrameFormat cipher made metadata mode chunk frame)
include fmt

/-- Everything one round can do: it throws without having found its frame, or it reads a frame that
decrypts. -/
theorem decryptChunk_cases (h : Ready metadata mode chunk frame i (n + 1) s) :
    (∃ f r, s.reader.unread = f ++ r.unread ∧ f.length = (frame i).length ∧
      r.receivedBytes = s.reader.receivedBytes + (frame i).length ∧
      s.decryptChunk cipher made metadata i = (do
        let (plaintext, m) ← decryptFrame cipher made f metadata i (chunk i).length s.encryptionMode
        if plaintext.length ≠ (chunk i).length then
          .error (.error ("Decrypted chunk " ++ toString i ++ " has an invalid size."))
        else return ⟨r, s.written ++ [plaintext], s.writtenBytes + plaintext.length, m⟩)) ∨
    ∃ e, s.decryptChunk cipher made metadata i = .error e ∧
      s.reader.unread.length < (frame i).length := by
  have hroom : s.reader.receivedBytes + (frame i).length ≤ metadata.encryptedSize := by
    have := h.received
    rw [sideBySide_succ, List.length_append] at this
    omega
  rcases FrameReader.readFrame_cases hroom with ⟨f, r, hread, hun, hlen, hrec⟩ | ⟨e, hread, hshort⟩
  · refine .inl ⟨f, r, hun, hlen, hrec, ?_⟩
    rw [decryptChunk, ← fmt.length_chunk, ← fmt.length_frame, hread]
    rfl
  · refine .inr ⟨e, ?_, hshort⟩
    rw [decryptChunk, ← fmt.length_chunk, ← fmt.length_frame, hread]
    rfl

/-- When its frame comes next, the round goes through. -/
theorem decryptChunk_own (h : Ready metadata mode chunk frame i (n + 1) s)
    (hun : s.reader.unread = frame i ++ rest) :
    ∃ s', s.decryptChunk cipher made metadata i = .ok s' ∧ Advanced mode chunk frame i s s' ∧
      s'.reader.unread = rest := by
  have hi : i < metadata.chunkCount := by
    have := h.last
    omega
  rcases decryptChunk_cases fmt h with ⟨f, r, hf, hlen, hrec, hround⟩ | ⟨e, _, hshort⟩
  · obtain ⟨rfl, hrest⟩ := List.append_inj (hf.symm.trans hun) hlen
    refine ⟨_, by rw [hround, fmt.decrypts i hi _ h.mode]; exact if_neg (by simp), ?_, hrest⟩
    exact ⟨hf, hrec, rfl, rfl, rfl⟩
  · rw [hun, List.length_append] at hshort
    omega

/-- The run lemma for a stream that starts with the right frames. -/
theorem decryptChunks_own (h : Ready metadata mode chunk frame i n s)
    (hun : s.reader.unread = sideBySide frame i n ++ rest) :
    ∃ s', decryptChunks cipher made metadata n i s = (s', .ok ()) ∧
      Ready metadata mode chunk frame (i + n) 0 s' ∧ s'.reader.unread = rest ∧
      s'.written = s.written ++ (List.range' i n).map chunk := by
  induction n generalizing i s with
  | zero => exact ⟨s, rfl, h, hun, by simp⟩
  | succ n ih =>
    rw [sideBySide_succ, List.append_assoc] at hun
    obtain ⟨s₁, hround, hadv, hrest⟩ := decryptChunk_own fmt h hun
    obtain ⟨s', hrun, hready, hun', hwritten⟩ := ih (h.next hadv) hrest
    refine ⟨s', ?_, ?_, hun', ?_⟩
    · rw [decryptChunks, hround]
      exact hrun
    · rw [← Nat.add_assoc, Nat.add_right_comm]
      exact hready
    · rw [hwritten, hadv.written, List.append_assoc]
      rfl

/-- A round that goes through has read its frame, if the format is authentic. -/
theorem decryptChunk_authentic (auth : FrameFormat.Authentic cipher made metadata mode chunk frame)
    (h : Ready metadata mode chunk frame i (n + 1) s)
    (hs : s.decryptChunk cipher made metadata i = .ok s') :
    Advanced mode chunk frame i s s' := by
  have hi : i < metadata.chunkCount := by
    have := h.last
    omega
  rcases decryptChunk_cases fmt h with ⟨f, r, hf, hlen, hrec, hround⟩ | ⟨e, herr, _⟩
  · cases hd : decryptFrame cipher made f metadata i (chunk i).length s.encryptionMode with
    | error e =>
      rw [hround, hd] at hs
      cases hs
    | ok x =>
      have hframe := auth i hi _ h.mode f x hlen hd
      subst hframe
      rw [fmt.decrypts i hi _ h.mode] at hd
      cases hd
      rw [hround, fmt.decrypts i hi _ h.mode] at hs
      have hs' : s' = ⟨r, s.written ++ [chunk i], s.writtenBytes + (chunk i).length, mode⟩ :=
        (Except.ok.inj ((if_neg (by simp)).symm.trans hs)).symm
      rw [hs']
      exact ⟨hf, hrec, rfl, rfl, rfl⟩
  · rw [herr] at hs
    cases hs

/-- The run lemma for any stream: some of the chunks have been written, and all of them
only after all frames. -/
theorem decryptChunks_authentic (auth : FrameFormat.Authentic cipher made metadata mode chunk frame)
    (h : Ready metadata mode chunk frame i n s) :
    ∃ s' k, (decryptChunks cipher made metadata n i s).1 = s' ∧ k ≤ n ∧
      s'.written = s.written ++ (List.range' i k).map chunk ∧
      ((decryptChunks cipher made metadata n i s).2 = .ok () →
        s.reader.unread = sideBySide frame i n ++ s'.reader.unread) := by
  induction n generalizing i s with
  | zero => exact ⟨s, 0, rfl, Nat.le_refl 0, by simp, fun _ => rfl⟩
  | succ n ih =>
    rw [decryptChunks]
    cases hround : s.decryptChunk cipher made metadata i with
    | error e => exact ⟨s, 0, rfl, Nat.zero_le _, by simp, fun he => by cases he⟩
    | ok s₁ =>
      have hadv := decryptChunk_authentic fmt auth h hround
      obtain ⟨s', k, hs', hk, hwritten, hok⟩ := ih (h.next hadv)
      refine ⟨s', k + 1, hs', Nat.succ_le_succ hk, ?_, fun he => ?_⟩
      · rw [hwritten, hadv.written, List.append_assoc]
        rfl
      · rw [hadv.unread, hok he, sideBySide_succ, List.append_assoc]

omit fmt in
/-- The end of the stream has been reached when nothing is left to read. -/
theorem unread_eq_nil : s.reader.unread = [] ↔
    s.reader.current.isSome = false ∧
    (s.reader.pieces.any fun piece => decide (0 < piece.length)) = false := by
  cases hcur : s.reader.current with
  | none =>
    rw [FrameReader.unread_none hcur]
    simp
  | some chunk =>
    obtain ⟨_, hoff⟩ := FrameReader.current_some hcur
    rw [FrameReader.unread_some hcur]
    simp [Nat.not_le.mpr hoff]

omit fmt in
theorem finish_ok (h : Ready metadata mode chunk frame i 0 s) (hun : s.reader.unread = []) :
    s.finish metadata = .ok () := by
  obtain ⟨hcur, hpieces⟩ := unread_eq_nil.mp hun
  have hrec : s.reader.receivedBytes = metadata.encryptedSize := h.received
  have hwritten : s.writtenBytes = metadata.plaintextSize := h.written
  simp [finish, hcur, hpieces, hrec, hwritten]

omit fmt in
theorem unread_of_finish (h : s.finish metadata = .ok ()) : s.reader.unread = [] := by
  unfold finish at h
  split at h
  · cases h
  split at h
  · cases h
  rename_i hcur hpieces
  exact unread_eq_nil.mpr ⟨Bool.not_eq_true _ ▸ hcur, Bool.not_eq_true _ ▸ hpieces⟩

end StreamState

section
variable {cipher : FileCipher} {made : List Sealing} {metadata : DownloadMetadata}
  {mode : EncryptionMode}
  {chunk frame : Nat → ByteString} {source : List ByteString}
  (fmt : FrameFormat cipher made metadata mode chunk frame)
  (hreceived : (sideBySide frame 0 metadata.chunkCount).length = metadata.encryptedSize)
  (hwritten : (sideBySide chunk 0 metadata.chunkCount).length = metadata.plaintextSize)
include fmt hreceived hwritten

omit fmt in
theorem ready_start (source : List ByteString) :
    StreamState.Ready metadata mode chunk frame 0 metadata.chunkCount
    { reader := ⟨source, none, 0, 0⟩, written := [], writtenBytes := 0, encryptionMode :=
      .unknown } :=
  ⟨Nat.zero_add _, by rw [Nat.zero_add, hreceived], by rw [Nat.zero_add, hwritten], .inl rfl⟩

/-- The right frames in any pieces give all chunks. -/
theorem streamDecryptToFile_own (h : source.flatten = sideBySide frame 0 metadata.chunkCount) :
    streamDecryptToFile cipher made metadata source = ((List.range metadata.chunkCount).map chunk,
      .ok ()) := by
  have hun : source.flatten = sideBySide frame 0 metadata.chunkCount ++ [] := by
    rw [h, List.append_nil]
  obtain ⟨s', hrun, hready, hrest, hout⟩ :=
    StreamState.decryptChunks_own fmt (ready_start hreceived hwritten source) hun
  rw [streamDecryptToFile, hrun]
  simp only [StreamState.finish_ok hready hrest, hout, List.nil_append, List.range_eq_range']

/-- An authentic format gives some of the chunks and throws on every other stream. -/
theorem streamDecryptToFile_other (auth : FrameFormat.Authentic cipher made metadata mode chunk
      frame) (h : source.flatten ≠ sideBySide frame 0 metadata.chunkCount) :
    ∃ k ≤ metadata.chunkCount, ∃ e,
      streamDecryptToFile cipher made metadata source = ((List.range k).map chunk, .error e) := by
  obtain ⟨s', k, hrun, hk, hout, hok⟩ :=
    StreamState.decryptChunks_authentic fmt auth (ready_start hreceived hwritten source)
  refine ⟨k, hk, ?_⟩
  rw [List.nil_append, ← List.range_eq_range'] at hout
  rw [streamDecryptToFile]
  split
  · rename_i t _ heq
    rw [heq] at hrun hok
    cases hrun
    cases hfin : t.finish metadata with
    | error e => exact ⟨e, by rw [hout]⟩
    | ok _ =>
      refine absurd ((hok rfl).trans ?_) h
      rw [StreamState.unread_of_finish hfin, List.append_nil]
  · rename_i t e heq
    rw [heq] at hrun
    cases hrun
    exact ⟨e, by rw [hout]⟩

end
/-- Frames are longer than chunks by the overhead of each. -/
theorem length_sideBySide_frames {chunk frame : Nat → ByteString} {overhead : Nat}
    (h : ∀ i, (frame i).length = (chunk i).length + overhead) (i n : Nat) :
    (sideBySide frame i n).length = (sideBySide chunk i n).length + n * overhead := by
  induction n generalizing i with
  | zero => simp
  | succ n ih =>
    rw [sideBySide_succ, sideBySide_succ, List.length_append, List.length_append, ih, h,
      Nat.succ_mul]
    omega

theorem sideBySide_range (part : Nat → ByteString) (n : Nat) :
    sideBySide part 0 n = ((List.range n).map part).flatten := by
  rw [sideBySide, List.range_eq_range']

section
variable (cipher : FileCipher) (ivs : Nat → FileIv) (file : ByteString)

/-- The frames of the upload, one by one. -/
def uploadFrame (aad : Nat → Option ByteString) (i : Nat) : ByteString :=
  CryptoService.encryptChunk cipher (ivs i) (uploadChunk file i) (aad i)

/-- Authenticated files: each chunk has its place and the geometry as additional data. -/
def authenticatedAad (i : Nat) : Option ByteString := some (uploadAad file i)

/-- Legacy files have no additional data. -/
def legacyAad (_ : Nat) : Option ByteString := none

variable {file} (hpos : 1 ≤ file.length) (hle : file.length ≤ maxPlaintextFileSize)

theorem uploadChunk_pos {i : Nat} (h : i < fileChunks file.length) :
    1 ≤ (uploadChunk file i).length := by
  have hlt := lt_of_lt_fileChunks h
  rw [length_uploadChunk]
  simp only [fileChunkSize] at hlt ⊢
  omega

theorem mem_uploadSealings {aad : Nat → Option ByteString} {i : Nat}
    (h : i < fileChunks file.length) :
    ⟨(ivs i).bytes, (aad i).getD [], uploadChunk file i⟩ ∈ uploadSealings ivs aad file :=
  List.mem_map.mpr ⟨i, List.mem_range.mpr h, rfl⟩

include hle in
theorem uploadAad_fits {i : Nat} (h : i < fileChunks file.length) :
    FileChunkAadParams.Fits
      { fileSize := file.length, chunkSize := fileChunkSize, totalChunks := fileChunks file.length
        chunkIndex := i, plaintextChunkLength := (uploadChunk file i).length } := by
  have hlen := length_uploadChunk file i
  constructor <;> simp only [fileChunks, fileChunkSize, maxPlaintextFileSize] at * <;> omega

include hle in
/-- The additional data tells the places of the chunks apart. -/
theorem uploadAad_inj {i j : Nat} (hi : i < fileChunks file.length)
    (hj : j < fileChunks file.length) (h : uploadAad file i = uploadAad file j) : i = j :=
  congrArg FileChunkAadParams.chunkIndex
    (createFileChunkAad_inj (uploadAad_fits hle hi) (uploadAad_fits hle hj) h)

theorem authenticated_format : FrameFormat cipher (uploadSealings ivs (authenticatedAad file) file)
    (.ofSize file.length hpos hle) .authenticatedV2 (uploadChunk file)
    (uploadFrame cipher ivs file (authenticatedAad file)) where
  length_chunk := length_uploadChunk file
  length_frame := fun _ => CryptoService.length_encryptChunk
  decrypts := by
    intro i hi m hm
    have hown : CryptoService.decryptChunk cipher (uploadSealings ivs (authenticatedAad file) file)
        (uploadFrame cipher ivs file (authenticatedAad file) i) (some (uploadAad file i)) =
          .ok (uploadChunk file i) :=
      CryptoService.decryptChunk_encryptChunk (mem_uploadSealings ivs hi) (uploadChunk_pos hi)
    unfold uploadAad at hown
    rcases hm with rfl | rfl
    · simp only [decryptFrame, DownloadMetadata.ofSize, hown]
    · simp only [decryptFrame, DownloadMetadata.ofSize, hown]
      rfl

theorem authenticated_authentic : FrameFormat.Authentic cipher
      (uploadSealings ivs (authenticatedAad file) file)
    (.ofSize file.length hpos hle) .authenticatedV2 (uploadChunk file)
    (uploadFrame cipher ivs file (authenticatedAad file)) := by
  intro i hi m hm f x _ hd
  have own {p : ByteString} (h : CryptoService.decryptChunk cipher
    (uploadSealings ivs (authenticatedAad file) file)
      f (some (uploadAad file i)) = .ok p) :
        f = uploadFrame cipher ivs file (authenticatedAad file) i := by
    obtain ⟨y, hy, haad, _, hf⟩ := CryptoService.decryptChunk_ok h
    obtain ⟨j, hj, rfl⟩ := List.mem_map.mp hy
    have hij : j = i := uploadAad_inj hle (List.mem_range.mp hj) hi haad
    subst hij
    exact hf
  unfold uploadAad at own
  -- No frame was sealed without additional data, so the fallback of the first frame fails.
  have none_fails {p : ByteString} (h : CryptoService.decryptChunk cipher
      (uploadSealings ivs (authenticatedAad file) file) f none = .ok p) : False := by
    obtain ⟨y, hy, haad, _⟩ := CryptoService.decryptChunk_ok h
    obtain ⟨j, _, rfl⟩ := List.mem_map.mp hy
    exact createFileChunkAad_ne_nil haad
  rcases hm with rfl | rfl
  · simp only [decryptFrame, DownloadMetadata.ofSize] at hd
    split at hd
    · rename_i h
      exact own h
    · cases h : CryptoService.decryptChunk cipher (uploadSealings ivs (authenticatedAad file) file)
        f none with
      | ok p => exact (none_fails h).elim
      | error e =>
        rw [h] at hd
        cases hd
    · cases hd
  · simp only [decryptFrame, DownloadMetadata.ofSize] at hd
    cases h : CryptoService.decryptChunk cipher (uploadSealings ivs (authenticatedAad file) file) f
      (some (uploadAad file i)) with
    | ok p => exact own h
    | error e =>
      unfold uploadAad at h
      rw [h] at hd
      cases hd

theorem legacy_format : FrameFormat cipher (uploadSealings ivs legacyAad file)
    (.ofSize file.length hpos hle) .legacyV1 (uploadChunk file)
    (uploadFrame cipher ivs file legacyAad) where
  length_chunk := length_uploadChunk file
  length_frame := fun _ => CryptoService.length_encryptChunk
  decrypts := by
    intro i hi m hm
    have hown : CryptoService.decryptChunk cipher (uploadSealings ivs legacyAad file)
        (uploadFrame cipher ivs file legacyAad i) none = .ok (uploadChunk file i) :=
      CryptoService.decryptChunk_encryptChunk (mem_uploadSealings ivs hi) (uploadChunk_pos hi)
    have hbound : fileIvLength + 16 < (uploadFrame cipher ivs file legacyAad i).length := by
      rw [uploadFrame, CryptoService.length_encryptChunk]
      have := uploadChunk_pos hi
      simp only [fileIvLength, fileEncryptionOverhead, fileGcmTagLength]
      omega
    have hother (params : FileChunkAadParams) :
      CryptoService.decryptChunk cipher (uploadSealings ivs legacyAad file)
        (uploadFrame cipher ivs file legacyAad i) (some (createFileChunkAad params)) =
          .error .operationError := by
      refine CryptoService.decryptChunk_unmade (fun y hy => ?_) hbound
      obtain ⟨j, _, rfl⟩ := List.mem_map.mp hy
      exact createFileChunkAad_ne_nil.symm
    rcases hm with rfl | rfl
    · simp only [decryptFrame, hother, hown]
      rfl
    · simp only [decryptFrame, hown]
      rfl

end
/-- The download of a file whose frames were sealed with the given additional data. -/
def download (cipher : FileCipher) (ivs : Nat → FileIv) (aad : Nat → Option ByteString)
    (file : ByteString) (hpos : 1 ≤ file.length) (hle : file.length ≤ maxPlaintextFileSize)
    (source : List ByteString) :
    List ByteString × Except DownloadError Unit :=
  streamDecryptToFile cipher (uploadSealings ivs aad file) (.ofSize file.length hpos hle) source

/-- The download has finished and has written the file. -/
def Exact (file : ByteString) (d : List ByteString × Except DownloadError Unit) : Prop :=
  d.2 = .ok () ∧ d.1.flatten = file

/-- The download has thrown and has written whole chunks from the beginning of the file. -/
def Refused (file : ByteString) (d : List ByteString × Except DownloadError Unit) : Prop :=
  (∃ e, d.2 = .error e) ∧ (∃ k ≤ fileChunks file.length,
    d.1 = (List.range k).map (uploadChunk file)) ∧
    d.1.flatten <+: file

section
variable (cipher : FileCipher) (ivs : Nat → FileIv) {file : ByteString} (hpos : 1 ≤ file.length)
  (hle : file.length ≤ maxPlaintextFileSize) {source : List ByteString}

theorem length_frames (aad : Nat → Option ByteString) :
    (sideBySide (uploadFrame cipher ivs file aad) 0 (fileChunks file.length)).length =
      file.length + fileChunks file.length * fileEncryptionOverhead := by
  have hlen : ∀ i, (uploadFrame cipher ivs file aad i).length = (uploadChunk file i).length +
      fileEncryptionOverhead :=
    fun _ => CryptoService.length_encryptChunk
  rw [length_sideBySide_frames hlen, sideBySide_range, flatten_uploadChunks]

theorem length_chunks : (sideBySide (uploadChunk file) 0 (fileChunks file.length)).length =
      file.length := by
  rw [sideBySide_range, flatten_uploadChunks]

theorem frames_flatten (aad : Nat → Option ByteString) :
    (uploadFrames cipher ivs aad file).flatten =
    sideBySide (uploadFrame cipher ivs file aad) 0 (fileChunks file.length) :=
  (sideBySide_range _ _).symm

theorem download_exact {aad : Nat → Option ByteString} {mode : EncryptionMode}
    (fmt : FrameFormat cipher (uploadSealings ivs aad file)
      (.ofSize file.length hpos hle) mode (uploadChunk file)
      (uploadFrame cipher ivs file aad))
    (h : source.flatten = (uploadFrames cipher ivs aad file).flatten) :
    Exact file (download cipher ivs aad file hpos hle source) := by
  rw [frames_flatten] at h
  rw [download, streamDecryptToFile_own fmt (length_frames cipher ivs aad) length_chunks h]
  exact ⟨rfl, flatten_uploadChunks file⟩

theorem chunks_prefix (k : Nat) : ((List.range k).map (uploadChunk file)).flatten <+: file := by
  have hchunk : uploadChunk file = Bytes.segment file fileChunkSize := funext (uploadChunk_eq file)
  rw [hchunk, flatten_segments]
  exact List.take_prefix _ _

theorem download_refused
    (h : source.flatten ≠ (uploadFrames cipher ivs (authenticatedAad file) file).flatten) :
    Refused file (download cipher ivs (authenticatedAad file) file hpos hle source) := by
  rw [frames_flatten] at h
  obtain ⟨k, hk, e, hd⟩ := streamDecryptToFile_other (authenticated_format cipher ivs hpos hle)
    (length_frames cipher ivs _) length_chunks (authenticated_authentic cipher ivs hpos hle) h
  rw [download, hd]
  exact ⟨⟨e, rfl⟩, ⟨k, hk, rfl⟩, chunks_prefix k⟩

end

/-- A download is exact for the frames of the upload however they are cut into pieces,
throws on every other stream after whole chunks, and is exact for legacy files. -/
theorem streaming_decryption (cipher : FileCipher) (ivs : Nat → FileIv) (file : ByteString)
    (hpos : 1 ≤ file.length) (hle : file.length ≤ maxPlaintextFileSize) (source : List ByteString) :
    (source.flatten = (uploadFrames cipher ivs (authenticatedAad file) file).flatten →
      Exact file (download cipher ivs (authenticatedAad file) file hpos hle source)) ∧
    (source.flatten ≠ (uploadFrames cipher ivs (authenticatedAad file) file).flatten →
      Refused file (download cipher ivs (authenticatedAad file) file hpos hle source)) ∧
    (source.flatten = (uploadFrames cipher ivs legacyAad file).flatten →
      Exact file (download cipher ivs legacyAad file hpos hle source)) :=
  ⟨download_exact cipher ivs hpos hle (authenticated_format cipher ivs hpos hle),
    download_refused cipher ivs hpos hle,
    download_exact cipher ivs hpos hle (legacy_format cipher ivs hpos hle)⟩

/-- The frame of a file of three bytes. -/
def demoFrame : ByteString :=
  (uploadFrames (.transparent _) (fun _ => ⟨List.replicate 12 7, rfl⟩) (authenticatedAad [1, 2, 3])
    [1, 2, 3]).flatten

/-- The frame arrives in pieces of one byte with empty pieces between them, and once more
without its last byte. -/
theorem streaming_decryption_demo :
    Exact [1, 2, 3] (download (.transparent _) (fun _ => ⟨List.replicate 12 7, rfl⟩)
      (authenticatedAad [1, 2, 3])
      [1, 2, 3] (by decide) (by decide) (demoFrame.flatMap fun b => [[b], []])) ∧
    Refused [1, 2, 3] (download (.transparent _) (fun _ => ⟨List.replicate 12 7, rfl⟩)
      (authenticatedAad [1, 2, 3])
      [1, 2, 3] (by decide) (by decide) [demoFrame.dropLast]) := by
  constructor
  · apply (streaming_decryption _ _ [1, 2, 3] (by decide) (by decide) _).1
    decide +kernel
  · apply (streaming_decryption _ _ [1, 2, 3] (by decide) (by decide) _).2.1
    decide +kernel

end Redbox
