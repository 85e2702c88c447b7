import Redbox.Bytes.IdealAead

/-! The encrypted file format of `FileCryptoFormat.ts`, with `CryptoService` and the chunk
loop of the upload form that use it. -/
namespace Redbox
open Bytes

def fileChunkSize : Nat := 50 * 1024 * 1024
def fileIvLength : Nat := 12
def fileGcmTagLength : Nat := 16
def fileEncryptionOverhead : Nat := fileIvLength + fileGcmTagLength
def maxPlaintextFileSize : Nat := 50 * 1024 * 1024 * 1024

/-- `Math.ceil(size / FILE_CHUNK_SIZE)` -/
def fileChunks (size : Nat) : Nat := (size + fileChunkSize - 1) / fileChunkSize

def aadMagic : ByteString := "redbox-file-v2".toUTF8.data.toList

structure FileChunkAadParams where
  fileSize : Nat
  chunkSize : Nat
  totalChunks : Nat
  chunkIndex : Nat
  plaintextChunkLength : Nat
  deriving DecidableEq

/-- `setBigUint64` and `setUint32` keep the last 8 and 4 bytes of a number. -/
def createFileChunkAad (params : FileChunkAadParams) : ByteString :=
  aadMagic ++ (bigEndian 8 params.fileSize ++ (bigEndian 4 params.chunkSize ++
    (bigEndian 4 params.totalChunks ++ (bigEndian 4 params.chunkIndex ++
      bigEndian 4 params.plaintextChunkLength))))

/-- Every parameter fits its field. -/
structure FileChunkAadParams.Fits (params : FileChunkAadParams) : Prop where
  fileSize : params.fileSize < 256 ^ 8
  chunkSize : params.chunkSize < 256 ^ 4
  totalChunks : params.totalChunks < 256 ^ 4
  chunkIndex : params.chunkIndex < 256 ^ 4
  plaintextChunkLength : params.plaintextChunkLength < 256 ^ 4

/-- The layout tells all parameters apart that fit it. -/
theorem createFileChunkAad_inj {a b : FileChunkAadParams} (ha : a.Fits) (hb : b.Fits)
    (h : createFileChunkAad a = createFileChunkAad b) : a = b := by
  obtain ⟨hsize, h⟩ := bigEndian_append_inj ha.fileSize hb.fileSize (List.append_cancel_left h)
  obtain ⟨hchunk, h⟩ := bigEndian_append_inj ha.chunkSize hb.chunkSize h
  obtain ⟨htotal, h⟩ := bigEndian_append_inj ha.totalChunks hb.totalChunks h
  obtain ⟨hindex, h⟩ := bigEndian_append_inj ha.chunkIndex hb.chunkIndex h
  have hlength := bigEndian_inj ha.plaintextChunkLength hb.plaintextChunkLength h
  cases a
  cases b
  simp_all

/-- Additional data is never empty. -/
theorem createFileChunkAad_ne_nil {params : FileChunkAadParams} :
    createFileChunkAad params ≠ [] := by
  intro h
  have := congrArg List.length h
  simp [createFileChunkAad] at this

/-- `crypto.getRandomValues(new Uint8Array(FILE_IV_LENGTH))` -/
structure FileIv where
  bytes : ByteString
  length_eq : bytes.length = fileIvLength

/-- AES-GCM under the key of one file. -/
abbrev FileCipher := IdealAead fileGcmTagLength

/-- What a download can throw. -/
inductive DownloadError where
  | error (message : String)
  | operationError
  deriving DecidableEq

namespace CryptoService

/-- AES-GCM without additional data is AES-GCM with empty additional data. -/
def encryptChunk (cipher : FileCipher) (iv : FileIv) (chunkBuffer : ByteString)
    (additionalData : Option ByteString) : ByteString :=
  iv.bytes ++ cipher.encrypt ⟨iv.bytes, additionalData.getD [], chunkBuffer⟩

def decryptChunk (cipher : FileCipher) (made : List Sealing) (encryptedWithIv : ByteString)
    (additionalData : Option ByteString) : Except DownloadError ByteString :=
  if encryptedWithIv.length ≤ fileIvLength + 16 then .error (.error "Encrypted chunk is too small.")
  else
    let iv := encryptedWithIv.take fileIvLength
    let ciphertext := encryptedWithIv.drop fileIvLength
    match cipher.decrypt made iv (additionalData.getD []) ciphertext with
    | some plaintext => .ok plaintext
    | none => .error .operationError

variable {cipher : FileCipher} {made : List Sealing} {iv : FileIv} {chunk frame : ByteString}
  {aad : Option ByteString}

@[simp] theorem length_encryptChunk :
    (encryptChunk cipher iv chunk aad).length = chunk.length + fileEncryptionOverhead := by
  simp only [encryptChunk, List.length_append, iv.length_eq, cipher.length_encrypt,
    fileEncryptionOverhead]
  omega

/-- Decryption inverts an encryption that was made. -/
theorem decryptChunk_encryptChunk (h : ⟨iv.bytes, aad.getD [], chunk⟩ ∈ made)
    (hc : 1 ≤ chunk.length) :
    decryptChunk cipher made (encryptChunk cipher iv chunk aad) aad = .ok chunk := by
  have hlen : ¬ (encryptChunk cipher iv chunk aad).length ≤ fileIvLength + 16 := by
    rw [length_encryptChunk, fileEncryptionOverhead, fileGcmTagLength]
    omega
  simp only [decryptChunk, hlen, if_false]
  rw [encryptChunk, List.take_left' iv.length_eq, List.drop_left' iv.length_eq,
    cipher.decrypt_encrypt h]

/-- What decrypts is the frame of an encryption that was made with the additional data. -/
theorem decryptChunk_ok (h : decryptChunk cipher made frame aad = .ok chunk) :
    ∃ x ∈ made, x.aad = aad.getD [] ∧ x.plaintext = chunk ∧ frame = x.iv ++ cipher.encrypt x := by
  simp only [decryptChunk] at h
  split at h
  · cases h
  · split at h
    · rename_i plaintext hd
      cases h
      obtain ⟨hmem, hc⟩ := cipher.decrypt_eq_some.mp hd
      refine ⟨_, hmem, rfl, rfl, ?_⟩
      rw [hc, List.take_append_drop]
    · cases h

/-- Without such an encryption it fails as WebCrypto does. -/
theorem decryptChunk_unmade (h : ∀ x ∈ made, x.aad ≠ aad.getD [])
    (hf : fileIvLength + 16 < frame.length) :
    decryptChunk cipher made frame aad = .error .operationError := by
  simp only [decryptChunk, Nat.not_le.mpr hf, if_false, cipher.decrypt_none h]

end CryptoService

/-- `Blob.slice` -/
def sliceBlob (file : ByteString) (start stop : Nat) : ByteString := (file.take stop).drop start

/-- The buffer of one round of the loop in `handleUpload`. -/
def uploadChunk (file : ByteString) (i : Nat) : ByteString :=
  let start := i * fileChunkSize
  sliceBlob file start (min (start + fileChunkSize) file.length)

/-- The additional data of that round. -/
def uploadAad (file : ByteString) (i : Nat) : ByteString :=
  createFileChunkAad
    { fileSize := file.length, chunkSize := fileChunkSize, totalChunks := fileChunks file.length
      chunkIndex := i, plaintextChunkLength := (uploadChunk file i).length }

/-- The frames that `handleUpload` sends, in order. Files from before the second format
were sealed without additional data. -/
def uploadFrames (cipher : FileCipher) (ivs : Nat → FileIv) (aad : Nat → Option ByteString)
    (file : ByteString) : List ByteString :=
  (List.range (fileChunks file.length)).map fun i =>
    CryptoService.encryptChunk cipher (ivs i) (uploadChunk file i) (aad i)

/-- The encryptions under the key of the file, which is used for nothing else. -/
def uploadSealings (ivs : Nat → FileIv) (aad : Nat → Option ByteString) (file : ByteString) :
    List Sealing :=
  (List.range (fileChunks file.length)).map fun i => ⟨(ivs i).bytes, (aad i).getD [],
    uploadChunk file i⟩

theorem uploadChunk_eq (file : ByteString) (i : Nat) :
    uploadChunk file i = Bytes.segment file fileChunkSize i := by
  simp only [uploadChunk, sliceBlob, Bytes.segment, List.drop_take]
  rw [List.take_eq_take_iff, List.length_drop]
  omega

theorem length_uploadChunk (file : ByteString) (i : Nat) :
    (uploadChunk file i).length = min fileChunkSize (file.length - i * fileChunkSize) := by
  rw [uploadChunk_eq, length_segment]

/-- The chunks side by side are the file. -/
theorem flatten_uploadChunks (file : ByteString) :
    ((List.range (fileChunks file.length)).map (uploadChunk file)).flatten = file := by
  have hchunk : uploadChunk file = Bytes.segment file fileChunkSize := funext (uploadChunk_eq file)
  rw [hchunk]
  apply flatten_segments_all
  simp only [fileChunks, fileChunkSize]
  omega

/-- No chunk is empty. -/
theorem lt_of_lt_fileChunks {size i : Nat} (h : i < fileChunks size) :
    i * fileChunkSize < size := by
  simp only [fileChunks, fileChunkSize] at h ⊢
  omega

end Redbox
