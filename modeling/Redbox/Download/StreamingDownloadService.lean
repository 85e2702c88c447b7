import Redbox.Download.FileCryptoFormat

/-! The streaming decryption of `StreamingDownloadService.ts`, for a download that
nobody cancels and a body that ends. -/
namespace Redbox
open Bytes

/-- The sizes of a file as `validateDownloadMetadata` lets them pass. -/
structure DownloadMetadata where
  plaintextSize : Nat
  encryptedSize : Nat
  chunkSize : Nat
  chunkCount : Nat
  encryptionOverhead : Nat
  plaintextSize_pos : 1 ≤ plaintextSize
  plaintextSize_le : plaintextSize ≤ maxPlaintextFileSize
  chunkSize_eq : chunkSize = fileChunkSize
  encryptionOverhead_eq : encryptionOverhead = fileEncryptionOverhead
  chunkCount_eq : chunkCount = fileChunks plaintextSize
  encryptedSize_eq : encryptedSize = plaintextSize + chunkCount * encryptionOverhead

/-- The geometry of a file of the given size. -/
def DownloadMetadata.ofSize (size : Nat) (hpos : 1 ≤ size) (hle : size ≤ maxPlaintextFileSize) :
    DownloadMetadata where
  plaintextSize := size
  encryptedSize := size + fileChunks size * fileEncryptionOverhead
  chunkSize := fileChunkSize
  chunkCount := fileChunks size
  encryptionOverhead := fileEncryptionOverhead
  plaintextSize_pos := hpos
  plaintextSize_le := hle
  chunkSize_eq := rfl
  encryptionOverhead_eq := rfl
  chunkCount_eq := rfl
  encryptedSize_eq := rfl

inductive EncryptionMode where
  | unknown | authenticatedV2 | legacyV1
  deriving DecidableEq

/-- What the network still has to deliver, and the piece that is being read. -/
structure FrameReader where
  pieces : List ByteString
  networkChunk : Option ByteString
  networkOffset : Nat
  receivedBytes : Nat

namespace FrameReader

/-- `!networkChunk || networkOffset >= networkChunk.byteLength` negated, with the chunk. -/
def current (r : FrameReader) : Option ByteString :=
  r.networkChunk.filter fun chunk => decide (r.networkOffset < chunk.length)

/-- The loop of `readFrame`. A round that gets a new piece copies from it in the next one. -/
def fill (encryptedSize expectedLength : Nat) (frame : ByteString) (r : FrameReader) :
    Except DownloadError (ByteString × FrameReader) :=
  if frame.length < expectedLength then
    match _ : r.current with
    | none =>
      match _ : r.pieces with
      | [] => .error (.error "Encrypted download ended before the expected file size.")
      | piece :: pieces =>
        if piece.length = 0 then fill encryptedSize expectedLength frame { r with pieces := pieces }
        else fill encryptedSize expectedLength frame
          { r with pieces := pieces, networkChunk := some piece, networkOffset := 0 }
    | some chunk =>
      let bytesToCopy := min (expectedLength - frame.length) (chunk.length - r.networkOffset)
      let receivedBytes := r.receivedBytes + bytesToCopy
      if encryptedSize < receivedBytes then .error
        (.error "Encrypted download is larger than expected.")
      else fill encryptedSize expectedLength
        (frame ++ (chunk.drop r.networkOffset).take bytesToCopy)
        { r with networkOffset := r.networkOffset + bytesToCopy, receivedBytes := receivedBytes }
  else .ok (frame, r)
termination_by r.pieces.length + (expectedLength - frame.length)
decreasing_by
  · rename_i hp _
    simp only [hp, List.length_cons]
    omega
  · rename_i hp _
    simp only [hp, List.length_cons]
    omega
  · rename_i hcur _
    have hoff := (Option.filter_eq_some_iff.mp hcur).2
    simp only [decide_eq_true_eq] at hoff
    simp only [List.length_append, List.length_take, List.length_drop]
    omega

/-- Forget a piece that has been read to its end. -/
def settle (r : FrameReader) : FrameReader :=
  if r.current.isNone then { r with networkChunk := none, networkOffset := 0 } else r

def readFrame (metadata : DownloadMetadata) (expectedLength : Nat) (r : FrameReader) :
    Except DownloadError (ByteString × FrameReader) := do
  let (frame, r) ← fill metadata.encryptedSize expectedLength [] r
  return (frame, r.settle)

end FrameReader

def decryptFrame (cipher : FileCipher) (made : List Sealing) (frame : ByteString)
    (metadata : DownloadMetadata) (chunkIndex plaintextChunkLength : Nat) (mode : EncryptionMode) :
    Except DownloadError (ByteString × EncryptionMode) :=
  let aad := createFileChunkAad
    { fileSize := metadata.plaintextSize, chunkSize := metadata.chunkSize
      totalChunks := metadata.chunkCount, chunkIndex := chunkIndex
      plaintextChunkLength := plaintextChunkLength }
  match mode with
  | .authenticatedV2 =>
    do return (← CryptoService.decryptChunk cipher made frame (some aad), .authenticatedV2)
  | .legacyV1 => do return (← CryptoService.decryptChunk cipher made frame none, .legacyV1)
  | .unknown => match CryptoService.decryptChunk cipher made frame (some aad) with
    | .ok plaintext => .ok (plaintext, .authenticatedV2)
    | .error .operationError =>
      do return (← CryptoService.decryptChunk cipher made frame none, .legacyV1)
    | .error e => .error e

/-- The variables of `streamDecryptToFile`, with what the writable has been given. -/
structure StreamState where
  reader : FrameReader
  written : List ByteString
  writtenBytes : Nat
  encryptionMode : EncryptionMode

namespace StreamState

/-- One round of the `for` loop. The write comes last, so a round that throws has written nothing.
-/
def decryptChunk (cipher : FileCipher) (made : List Sealing) (metadata : DownloadMetadata)
    (chunkIndex : Nat) (s : StreamState) : Except DownloadError StreamState := do
  let plaintextChunkLength := min metadata.chunkSize (metadata.plaintextSize - chunkIndex *
    metadata.chunkSize)
  let encryptedChunkLength := plaintextChunkLength + metadata.encryptionOverhead
  let (encryptedFrame, reader) ← s.reader.readFrame metadata encryptedChunkLength
  let (plaintext, mode) ←
    decryptFrame cipher made encryptedFrame metadata chunkIndex plaintextChunkLength
      s.encryptionMode
  if plaintext.length ≠ plaintextChunkLength then
    .error (.error ("Decrypted chunk " ++ toString chunkIndex ++ " has an invalid size."))
  else
    return { reader := reader, written := s.written ++ [plaintext]
             writtenBytes := s.writtenBytes + plaintext.length, encryptionMode := mode }

/-- The `for` loop over the last `n` chunks, the first of which has the given index. -/
def decryptChunks (cipher : FileCipher) (made : List Sealing) (metadata : DownloadMetadata) :
    (n chunkIndex : Nat) → StreamState → StreamState × Except DownloadError Unit
  | 0, _, s => (s, .ok ())
  | n + 1, chunkIndex, s => match s.decryptChunk cipher made metadata chunkIndex with
    | .ok s => decryptChunks cipher made metadata n (chunkIndex + 1) s
    | .error e => (s, .error e)

/-- The checks at the end of the stream. -/
def finish (metadata : DownloadMetadata) (s : StreamState) : Except DownloadError Unit :=
  if s.reader.current.isSome then .error (.error "Encrypted download contains trailing data.")
  else if s.reader.pieces.any fun piece => decide (0 < piece.length) then
    .error (.error "Encrypted download contains trailing data.")
  else if s.reader.receivedBytes ≠ metadata.encryptedSize then
    .error (.error "Encrypted download size does not match metadata.")
  else if s.writtenBytes ≠ metadata.plaintextSize then
    .error (.error "Decrypted file size does not match metadata.")
  else .ok ()

end StreamState

/-- What has been written in the end, and how the routine ended. -/
def streamDecryptToFile (cipher : FileCipher) (made : List Sealing) (metadata : DownloadMetadata)
    (source : List ByteString) : List ByteString × Except DownloadError Unit :=
  let start : StreamState :=
    { reader := ⟨source, none, 0, 0⟩, written := [], writtenBytes := 0, encryptionMode := .unknown }
  match StreamState.decryptChunks cipher made metadata metadata.chunkCount 0 start with
  | (s, .ok _) => (s.written, s.finish metadata)
  | (s, .error e) => (s.written, .error e)

end Redbox
