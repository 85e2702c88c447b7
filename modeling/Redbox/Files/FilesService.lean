import Redbox.Backend.World

/-! The routines of `files.service.ts` that upload, finish, cancel and delete a
file, with the guard that lets one chunk request of an upload in at a time. -/
namespace Redbox
open Interleaving

def uploadMetaTtlSeconds : Nat := 86400
def uploadInitLockTtlSeconds : Nat := 120
def uploadRequestLockSeconds : Nat := 60 * 60
def maxActiveUploadsPerUser : Nat := 1
def plaintextChunkSizeBytes : Nat := 50 * 1024 * 1024
def encryptedChunkOverheadBytes : Nat := 12 + 16

/-- `Math.ceil(size / PLAINTEXT_CHUNK_SIZE_BYTES)` -/
def chunkCount (size : Nat) : Nat := (size + plaintextChunkSizeBytes - 1) / plaintextChunkSizeBytes

structure InitUploadDto where
  fileSize : Nat
  totalChunks : Nat
  password : Option String
  expiresIn : Option String

namespace InitUploadDto

def fileExpiryOptions : List String := ["1h", "24h", "7d", "30d"]

/-- The checks of the validation pipe. -/
def valid (dto : InitUploadDto) : Bool :=
  decide (1 ≤ dto.fileSize) && decide (dto.fileSize ≤ 53687091200) &&
    decide (1 ≤ dto.totalChunks) &&
  decide (dto.totalChunks ≤ 1024) &&
    dto.password.all (fun p => decide (1 ≤ p.length ∧ p.length ≤ 100)) &&
  dto.expiresIn.all fun e => fileExpiryOptions.contains e

end InitUploadDto

namespace UploadChunkDto

/-- The checks of the validation pipe on the chunk index. -/
def valid (chunkIndex : Nat) : Bool := decide (0 ≤ chunkIndex) && decide (chunkIndex ≤ 204)

end UploadChunkDto

structure CompleteUploadDto where
  fileName : String
  mimetype : String
  fileKey : String
  totalChunks : Nat

namespace UploadChunkConcurrencyGuard

/-- `canActivate`, with the token under which the response will release the lock. -/
def canActivate (userId uploadId : Id) : Routine Id := do
  let token ← await .random
  let acquired ← await (.redis
    (.setNX (.uploadRequestLock userId uploadId) (.token token) uploadRequestLockSeconds))
  Prog.throwIf (acquired = false) (conflict "Another chunk is already being uploaded")
  return token

/-- The listener of the response's `finish` and `close`, which waits for no handler. -/
def release (userId uploadId token : Id) : Routine Unit :=
  await (.redis (.compareAndDelete (.uploadRequestLock userId uploadId) token))

end UploadChunkConcurrencyGuard

namespace FilesService

def getMasterKeyForUser (userId : Id) : Routine String := do
  let some (.text masterKey) ← await (.redis (.get (.masterKey userId)))
    | throw (unauthorized "Session expired")
  return masterKey

/-- `redis.get` of the metadata and `JSON.parse`, which throws on anything else. -/
def parseUploadMeta : RedisValue → Routine UploadMeta
  | .upload state => return state
  | _ => throw .typeError

/-- The Redis transaction that stores the metadata of an upload. -/
def refreshTransaction (userId uploadId : Id) (state : UploadMeta) : List RedisWrite :=
  .set (.uploadMeta userId uploadId) (.upload state) uploadMetaTtlSeconds ::
    .expire (.uploadActive userId) uploadMetaTtlSeconds ::
      (state.s3UploadId.map fun id =>
        RedisWrite.expire (.uploadIndex id) uploadMetaTtlSeconds).toList

def refreshUploadState (userId uploadId : Id) (state : UploadMeta) : Routine Unit :=
  await (.redis (.multi (refreshTransaction userId uploadId state)))

def releaseActiveUpload (userId uploadId : Id) : Routine Unit :=
  await (.redis (.write (.srem (.uploadActive userId) uploadId)))

def abortMultipartUpload (key : Id) (s3UploadId : Option Id) : Routine Unit :=
  await (.s3 .files (.abortMultipartUpload key s3UploadId))

def delUploadIndex (s3UploadId : Option Id) : Routine Unit :=
  match s3UploadId with
  | some id => await (.redis (.write (.del (.uploadIndex id))))
  | none => pure ()

/-- `.catch(() => {})` -/
def ignoring (x : Routine Unit) : Routine Unit := do
  try x catch _ => pure ()

def abortActiveUpload (userId uploadId : Id) (state : UploadMeta) : Routine Unit := do
  if state.s3UploadId.isSome then
    abortMultipartUpload state.storageKey state.s3UploadId
    delUploadIndex state.s3UploadId
  await (.redis (.write (.del (.uploadMeta userId uploadId))))
  releaseActiveUpload userId uploadId

/-- Uploads whose metadata is gone, and uploads whose metadata is no JSON. -/
def staleUploadIds (uploads : List (Id × Option RedisValue)) : List Id :=
  (uploads.filter fun x => match x.2 with
    | some (.upload _) => false
    | _ => true).map (·.1)

def malformedUploadIds (uploads : List (Id × Option RedisValue)) : List Id :=
  (uploads.filter fun x => match x.2 with
    | some (.upload _) => false
    | some _ => true
    | none => false).map (·.1)

/-- Oldest first, as the stable sort by `createdAt` leaves them. -/
def candidates (uploads : List (Id × Option RedisValue)) : List (Id × UploadMeta) :=
  (uploads.filterMap fun x => match x.2 with
    | some (.upload state) => some (x.1, state)
    | _ => none).mergeSort fun a b => decide (a.2.createdAt ≤ b.2.createdAt)

def makeRoomForActiveUpload (userId : Id) : Routine Unit := do
  let uploadIds ← await (.redis (.smembers (.uploadActive userId)))
  if uploadIds.length < maxActiveUploadsPerUser then return ()
  let metaValues ← await (.redis (.mget (uploadIds.map (RedisKey.uploadMeta userId))))
  let uploads := uploadIds.zip metaValues
  if staleUploadIds uploads ≠ [] then
    await (.redis (.multi ((staleUploadIds uploads).map (RedisWrite.srem (.uploadActive userId)))))
  if malformedUploadIds uploads ≠ [] then
    await (.redis (.multi ((malformedUploadIds uploads).map fun u => .del (.uploadMeta userId u))))
  let uploadsToRemove := (candidates uploads).length + 1 - maxActiveUploadsPerUser
  Prog.forEach ((candidates uploads).take uploadsToRemove) fun x => abortActiveUpload userId x.1 x.2

def reserveActiveUpload (userId uploadId : Id) : Routine Unit := do
  makeRoomForActiveUpload userId
  await (.redis (.write (.sadd (.uploadActive userId) uploadId)))
  await (.redis (.write (.expire (.uploadActive userId) uploadMetaTtlSeconds)))

def acquireUploadInitLock (userId : Id) : Routine Id := do
  let token ← await .random
  let acquired ← await (.redis (.setNX (.uploadInitLock userId) (.token token)
    uploadInitLockTtlSeconds))
  Prog.throwIf (acquired = false) (conflict "Another upload is currently being initialized")
  return token

/-- The state that a new upload starts with. -/
def newUploadMeta (dto : InitUploadDto) (passwordHash : Option String) (storageKey s3UploadId : Id)
    (now : Time) : UploadMeta :=
  ⟨dto.totalChunks, 0, dto.fileSize, passwordHash, dto.expiresIn.getD "30d", storageKey,
    some s3UploadId, [], now, now⟩

/-- The `catch` block of `initializeUpload`. No upload is ever reserved when it runs. -/
def undoRegistration (userId uploadId : Id) (state : UploadMeta) (s3UploadId : Id)
    (uploadMetaCreated : Bool) (e : Thrown) : Routine Unit := do
  ignoring (abortMultipartUpload state.storageKey (some s3UploadId))
  if uploadMetaCreated then
    await (.redis (.write (.del (.uploadMeta userId uploadId))))
  await (.redis (.write (.del (.uploadIndex s3UploadId))))
  throw e

/-- The `try` block of `initializeUpload`, from the created multipart upload on. -/
def registerUpload (userId uploadId : Id) (state : UploadMeta) (s3UploadId : Id) :
    Routine Unit := do
  try
    await (.redis (.write (.set (.uploadMeta userId uploadId) (.upload state)
      uploadMetaTtlSeconds)))
  catch e => undoRegistration userId uploadId state s3UploadId false e
  try
    await (.redis (.write (.set (.uploadIndex s3UploadId)
      (.index ⟨.uploadMeta userId uploadId, .uploadActive userId, uploadId⟩) uploadMetaTtlSeconds)))
    reserveActiveUpload userId uploadId
  catch e => undoRegistration userId uploadId state s3UploadId true e

def initializeUpload (cfg : Config) (userId : Id) (dto : InitUploadDto) : Routine Id := do
  let _ ← getMasterKeyForUser userId
  let expectedChunks := chunkCount dto.fileSize
  Prog.throwIf (dto.totalChunks ≠ expectedChunks)
    (badRequest s!"Invalid chunk count. Expected {expectedChunks}")
  await (.query (.uploadAllowance userId dto.fileSize))
  let uploadId ← await .random
  let storageKey ← await .random
  let salt ← await .random
  let passwordHash := (dto.password.filter (· ≠ "")).map fun p => cfg.bcryptHash p salt
  let initLockToken ← acquireUploadInitLock userId
  let releaseUploadInitLock : Routine Unit :=
    ignoring (await (.redis (.compareAndDelete (.uploadInitLock userId) initLockToken)))
  try
    let s3UploadId ← await (.s3 .files (.createMultipartUpload storageKey))
    let now ← await .now
    registerUpload userId uploadId (newUploadMeta dto passwordHash storageKey s3UploadId now)
      s3UploadId
  catch e =>
    releaseUploadInitLock
    throw e
  releaseUploadInitLock
  return uploadId

/-- The plaintext length that the metadata asks of a chunk. -/
def expectedPlaintextSize (state : UploadMeta) (chunkIndex : Nat) : Int :=
  if chunkIndex + 1 < state.totalChunks then plaintextChunkSizeBytes
  else state.fileSize - (state.totalChunks - 1) * plaintextChunkSizeBytes

/-- What `handleChunk` stores once S3 has taken the part. -/
def acceptPart (state : UploadMeta) (partNumber : Nat) (eTag : Id) (now : Time) : UploadMeta :=
  { state with
    parts := state.parts ++ [⟨partNumber, eTag⟩]
    nextExpectedChunk := state.nextExpectedChunk + 1
    updatedAt := now }

/-- The checks of `handleChunk` on the metadata it read. -/
def checkChunk (state : UploadMeta) (file : Blob) (chunkIndex : Nat) : Routine Id := do
  let some s3UploadId := state.s3UploadId | throw (badRequest "Invalid Upload ID")
  let next := state.nextExpectedChunk
  Prog.throwIf (chunkIndex ≠ next) (badRequest s!"Wrong chunk order. Expected index {next}")
  let total := state.totalChunks
  Prog.throwIf (total ≤ chunkIndex) (badRequest s!"Invalid chunk index. Total chunks is {total}")
  let expectedEncryptedSize := expectedPlaintextSize state chunkIndex + encryptedChunkOverheadBytes
  Prog.throwIf ((file.size : Int) ≠ expectedEncryptedSize)
    (badRequest s!"Invalid chunk size. Expected {expectedEncryptedSize} bytes")
  return s3UploadId

def handleChunk (userId uploadId : Id) (file : Blob) (chunkIndex : Nat) : Routine Unit := do
  let some value ← await (.redis (.get (.uploadMeta userId uploadId)))
    | throw (badRequest "Invalid or expired Upload ID")
  let state ← parseUploadMeta value
  let s3UploadId ← checkChunk state file chunkIndex
  let now ← await .now
  let state := { state with updatedAt := now }
  refreshUploadState userId uploadId state
  let eTag ← await (.s3 .files (.uploadPart state.storageKey s3UploadId (chunkIndex + 1) file))
  let tracked ← await (.redis (.exists (.uploadMeta userId uploadId)))
  if tracked = false then
    ignoring (abortMultipartUpload state.storageKey (some s3UploadId))
    throw (badRequest "Upload was cancelled")
  let now ← await .now
  refreshUploadState userId uploadId (acceptPart state (chunkIndex + 1) eTag now)

def getExpectedEncryptedSize (plaintextSize : Nat) : Except Thrown Nat :=
  if plaintextSize < 1 ∨ adminMaxFileSizeBytes < plaintextSize then
    .error (internalServerError "Invalid stored file size")
  else .ok (plaintextSize + chunkCount plaintextSize * encryptedChunkOverheadBytes)

/-- The parts in the order that the completion lists them. -/
def sortedParts (state : UploadMeta) : List UploadPart :=
  state.parts.mergeSort fun a b => decide (a.partNumber ≤ b.partNumber)

def forgetUpload (userId uploadId : Id) (state : UploadMeta) : Routine Unit := do
  await (.redis (.write (.del (.uploadMeta userId uploadId))))
  delUploadIndex state.s3UploadId
  releaseActiveUpload userId uploadId

/-- The rest of the `try` block, once the multipart upload is complete. -/
def storeCompletedUpload (userId uploadId : Id) (dto : CompleteUploadDto) (state : UploadMeta)
    (encryptedFileKey : String) (fileKeyIv : Id) : Routine File := do
  let contentLength ← await (.s3 .files (.headObject state.storageKey))
  let expectedEncryptedSize ← (match getExpectedEncryptedSize state.fileSize with
    | .ok size => pure size
    | .error e => throw e : Routine Nat)
  Prog.throwIf (contentLength ≠ expectedEncryptedSize)
    (internalServerError "Stored file size validation failed")
  let file ← await (.statement
    (.createFile userId dto.fileName dto.mimetype state encryptedFileKey fileKeyIv))
  forgetUpload userId uploadId state
  return file

/-- The answer to a failure: client errors pass, all others become one. -/
def finalizeError : Thrown → Thrown
  | .http ⟨.badRequest, message⟩ => badRequest message
  | .http ⟨.unauthorized, message⟩ => unauthorized message
  | _ => internalServerError "Finalize failed"

/-- The `catch` block of `finalizeUpload`, which removes the object or the multipart upload. -/
def undoFinalize (userId uploadId : Id) (state : UploadMeta) (removal : Routine Unit) (e : Thrown) :
    Routine File := do
  ignoring removal
  forgetUpload userId uploadId state
  throw (finalizeError e)

/-- What the flag `multipartCompleted` remembers of the first step of the `try` block. -/
def completeMultipartUpload (state : UploadMeta) : Routine (Except Thrown Unit) := do
  try
    await (.s3 .files (.completeMultipartUpload
      state.storageKey state.s3UploadId (sortedParts state)))
    pure (.ok ())
  catch e => pure (.error e)

/-- `finalizeUpload` from the checked metadata on. -/
def finalizeChecked (userId uploadId : Id) (dto : CompleteUploadDto) (state : UploadMeta)
    (encryptedFileKey : String) (fileKeyIv : Id) : Routine File := do
  match ← completeMultipartUpload state with
  | .ok _ =>
    try storeCompletedUpload userId uploadId dto state encryptedFileKey fileKeyIv
    catch e => undoFinalize userId uploadId state (await
      (.s3 .files (.deleteObject state.storageKey))) e
  | .error e =>
    undoFinalize userId uploadId state (abortMultipartUpload state.storageKey state.s3UploadId) e

def finalizeUpload (cfg : Config) (userId uploadId : Id) (dto : CompleteUploadDto) :
    Routine File := do
  let masterKey ← getMasterKeyForUser userId
  let fileKeyIv ← await .random
  let encryptedFileKey := cfg.encryptKey masterKey dto.fileKey fileKeyIv
  let some value ← await (.redis (.get (.uploadMeta userId uploadId)))
    | throw (badRequest "Metadata expired")
  let state ← parseUploadMeta value
  Prog.throwIf (state.parts.length ≠ state.totalChunks) (badRequest "Not all chunks uploaded yet")
  Prog.throwIf (dto.totalChunks ≠ state.totalChunks)
    (badRequest "Chunk count does not match initialized upload")
  finalizeChecked userId uploadId dto state encryptedFileKey fileKeyIv

def cancelUpload (userId uploadId : Id) : Routine Unit := do
  let some value ← await (.redis (.get (.uploadMeta userId uploadId)))
    | releaseActiveUpload userId uploadId
  match value with
  | .upload state =>
    if state.s3UploadId.isSome then
      abortMultipartUpload state.storageKey state.s3UploadId
      delUploadIndex state.s3UploadId
  | _ => pure ()
  await (.redis (.write (.del (.uploadMeta userId uploadId))))
  releaseActiveUpload userId uploadId

def deleteFileInternal (fileId : Id) : Routine Unit := do
  let some file ← await (.query (.file fileId)) | return ()
  ignoring (await (.s3 .files (.deleteObject file.storageName)))
  await (.statement (.deleteFile fileId))

def deleteFile (userId fileId : Id) : Routine Unit := do
  let some file ← await (.query (.file fileId)) | throw (notFound "File not found")
  Prog.throwIf (file.userId ≠ userId) (notFound "File not found")
  deleteFileInternal fileId

def getDownloadableFile (fileId token : Id) : Routine File := do
  let some file ← await (.query (.file fileId)) | throw (notFound "File not found or invalid token")
  Prog.throwIf (file.shareToken ≠ token) (notFound "File not found or invalid token")
  if file.expiresAt < (← await .now) then
    deleteFileInternal file.id
    throw (notFound "File has expired")
  return file

def handleCleanup : Routine Unit := do
  let expiredFiles ← await (.query .expiredFiles)
  Prog.forEach expiredFiles fun file => deleteFileInternal file.id

end FilesService
end Redbox
