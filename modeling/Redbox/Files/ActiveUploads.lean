import Redbox.Files.FilesService
import Redbox.Interleaving.Expansion

/-! The uploads of users, of which one at a time is active, with the job that aborts those
that nobody goes on with. -/
namespace Redbox
open Interleaving

def incompleteUploadStaleMs : Nat := 60 * 60 * 1000

/-- An entry of a listing. -/
structure ListedUpload where
  key : Id
  uploadId : Id
  initiated : Time

inductive UploadRequest where
  | backend (q : Request)
  /-- A page of the listing, from after a marker. -/
  | listMultipartUploads (marker : Option (Id × Id))
  | listParts (key s3UploadId : Id)

/-- A page is answered with whether there are more; parts with their times. -/
abbrev UploadRequest.Answer : UploadRequest → Type
  | backend q => q.Answer
  | listMultipartUploads _ => List ListedUpload × Bool
  | listParts _ _ => List Time

abbrev UploadReply (q : UploadRequest) : Type := Except Thrown q.Answer

abbrev UploadRoutine (α : Type) := Prog UploadRequest UploadReply Thrown α

/-- The backend, and when S3 has begun each multipart upload and taken its last part. -/
structure UploadWorld where
  world : World
  initiated : AList fun _ : Id => Time
  lastPart : AList fun _ : Id => Time

namespace UploadWorld

def maxUploads : Nat := 1000

/-- Listings are by key and id. -/
def listed (s : UploadWorld) (marker : Option (Id × Id)) : List ListedUpload :=
  let uploads := s.world.filesBucket.uploads.entries.map fun e =>
    ⟨e.2.key, e.1, (s.initiated.lookup e.1).getD 0⟩
  (uploads.filter fun (u : ListedUpload) => marker.all fun m =>
    decide (m.1 < u.key ∨ (m.1 = u.key ∧ m.2 < u.uploadId))).mergeSort
    fun a b => decide (a.key < b.key ∨ (a.key = b.key ∧ a.uploadId ≤ b.uploadId))

/-- The calls that S3 dates. -/
def dated (s : UploadWorld) : Request → UploadWorld
  | .s3 .files (.createMultipartUpload _) =>
    { s with initiated := s.initiated.insert s.world.nextId s.world.clock }
  | .s3 .files (.uploadPart _ s3UploadId _ _) =>
    { s with lastPart := s.lastPart.insert s3UploadId s.world.clock }
  | _ => s

def deliver (s : UploadWorld) : (q : UploadRequest) → UploadReply q
  | .backend _ => .error (.fault .unavailable)
  | .listMultipartUploads marker =>
    let uploads := s.listed marker
    .ok (uploads.take maxUploads, decide (maxUploads < uploads.length))
  | .listParts key s3UploadId => match s.world.filesBucket.upload key s3UploadId with
    | some _ => .ok (s.lastPart.lookup s3UploadId).toList
    | none => .error (.fault .noSuchUpload)

def exec (cfg : Config) (d : Delivery) (q : UploadRequest) (s : UploadWorld) :
    UploadWorld × UploadReply q :=
  match q with
  | .backend q =>
    let r := s.world.exec cfg d q
    ({ if d = .failed then s else s.dated q with world := r.1 }, r.2)
  | q => match d with
    | .failed | .lost => (s, .error (.fault .unavailable))
    | _ => (s, s.deliver q)

def tick (n : Nat) (s : UploadWorld) : UploadWorld := { s with world := s.world.tick n }

end UploadWorld

def awaitUpload (q : UploadRequest) : UploadRoutine q.Answer := Prog.await id q

/-- A routine of the files service as it is. -/
def liftUpload {α : Type} (x : Routine α) : UploadRoutine α :=
  x.expand fun q => .call (.backend q) .ret

namespace FilesService

/-- The activity that Redis has of an upload. Where that cannot be read, S3 is asked. -/
def trackedActivity : Option RedisValue → UploadRoutine (Option Time)
  | some (.index index) => do
    match ← (awaitUpload (.backend (.redis (.get index.metaKey)))).outcome with
    | .ok (some (.upload state)) => return some state.updatedAt
    | _ => return none
  | _ => return none

def getMultipartLastActivity (key s3UploadId : Id) (initiated : Time) : UploadRoutine Time := do
  let trackedState ← awaitUpload (.backend (.redis (.get (.uploadIndex s3UploadId))))
  match ← trackedActivity trackedState with
  | some updatedAt => return updatedAt
  | none => do
    let times ← awaitUpload (.listParts key s3UploadId)
    return times.foldl max initiated

def removeTrackedUploadState (s3UploadId : Id) : UploadRoutine Unit := do
  let some value ← awaitUpload (.backend (.redis (.get (.uploadIndex s3UploadId)))) | return ()
  match value with
  | .index index => awaitUpload (.backend (.redis (.multi
      [.del index.metaKey, .srem index.activeKey index.uploadId, .del (.uploadIndex s3UploadId)])))
  | _ => awaitUpload (.backend (.redis (.write (.del (.uploadIndex s3UploadId)))))

/-- One upload of a listing. What fails is logged. -/
def abortStaleUpload (now : Time) (upload : ListedUpload) : UploadRoutine Unit :=
  Prog.handle (do
    let lastActivity ← getMultipartLastActivity upload.key upload.uploadId upload.initiated
    if now < lastActivity + incompleteUploadStaleMs then return ()
    else do
      awaitUpload (.backend (.s3 .files (.abortMultipartUpload upload.key (some upload.uploadId))))
      removeTrackedUploadState upload.uploadId) fun _ => .ret ()

/-- The pages of the listing, up to a number of them. -/
def abortStaleUploads (now : Time) : Nat → Option (Id × Id) → UploadRoutine Unit
  | 0, _ => return ()
  | pages + 1, marker => do
    let (uploads, isTruncated) ← awaitUpload (.listMultipartUploads marker)
    Prog.forEach uploads (abortStaleUpload now)
    match isTruncated, uploads.getLast? with
    | true, some last => abortStaleUploads now pages (some (last.key, last.uploadId))
    | _, _ => return ()

def cleanupStaleMultipartUploads (pages : Nat) : UploadRoutine Unit :=
  Prog.handle (do
    let now ← awaitUpload (.backend .now)
    abortStaleUploads now pages none) fun _ => .ret ()

end FilesService

inductive UploadOperation where
  | initializeUpload (userId : Id) (dto : InitUploadDto)
  | handleChunk (userId uploadId : Id) (file : Blob) (chunkIndex : Nat)
  | finalizeUpload (userId uploadId : Id) (dto : CompleteUploadDto)
  | cancelUpload (userId uploadId : Id)
  | cleanupStaleMultipartUploads (pages : Nat)

namespace UploadOperation

def program (cfg : Config) : UploadOperation → UploadRoutine Unit
  | initializeUpload userId dto => do
    let _ ← liftUpload (FilesService.initializeUpload cfg userId dto)
    return ()
  | handleChunk userId uploadId file chunkIndex =>
    liftUpload (FilesService.handleChunk userId uploadId file chunkIndex)
  | finalizeUpload userId uploadId dto => do
    let _ ← liftUpload (FilesService.finalizeUpload cfg userId uploadId dto)
    return ()
  | cancelUpload userId uploadId => liftUpload (FilesService.cancelUpload userId uploadId)
  | cleanupStaleMultipartUploads pages => FilesService.cleanupStaleMultipartUploads pages

/-- The upload that a request names. -/
def names : UploadOperation → Option Id
  | handleChunk _ uploadId _ _ | finalizeUpload _ uploadId _ | cancelUpload _ uploadId =>
    some uploadId
  | _ => none

end UploadOperation

/-- The uploads of all users. -/
def uploads (cfg : Config) :
    System UploadRequest UploadReply Thrown Unit UploadWorld UploadOperation Delivery Nat where
  exec := UploadWorld.exec cfg
  drift := UploadWorld.tick
  program := UploadOperation.program cfg

abbrev SharedUploads := Shared UploadRequest UploadReply UploadWorld
abbrev UploadRules := Rules UploadRequest UploadReply UploadWorld UploadOperation Delivery Nat
abbrev UploadEvent := Event UploadRequest UploadReply

namespace UploadEvent

/-- The event takes the lock of a user, under a token. -/
def takes : UploadEvent → Option (Id × Id)
  | ⟨_, .backend (.redis (.setNX (.uploadInitLock userId) (.token token) _)), .ok true⟩ =>
    some (userId, token)
  | _ => none

/-- The process gives its lock back, and makes no further calls. -/
def givesBack : UploadEvent → Bool
  | ⟨_, .backend (.redis (.compareAndDelete (.uploadInitLock _) _)), _⟩ => true
  | _ => false

/-- The name that a process has been given. -/
def draws : UploadEvent → Option Id
  | ⟨_, .backend .random, .ok id⟩ => some id
  | ⟨_, .backend (.s3 .files (.createMultipartUpload _)), .ok id⟩ => some id
  | _ => none

end UploadEvent

/-- The process has given its lock back. -/
def ended (p : Nat) (log : List UploadEvent) : Bool :=
  log.any fun e => e.pid == p && UploadEvent.givesBack e

/-- A name that has been handed out. The names of uploads cannot be guessed. -/
def handedOut (s : SharedUploads) (uploadId : Id) : Bool :=
  decide (uploadId < s.store.world.nextId) && s.log.all fun e =>
    decide (UploadEvent.draws e ≠ some uploadId) || ended e.pid s.log

/-- Any call may fail, with or without effect. A lock does not run out while its holder goes on. -/
def locksOutlast : UploadRules where
  starts := fun s op => op.names.all (handedOut s)
  allows := fun _ _ _ _ => true
  drifts := fun s n => s.log.all fun e => match UploadEvent.takes e with
    | some (userId, _) =>
      ended e.pid s.log || ((s.store.tick n).world.redis.live (s.store.tick n).world.clock
        (.uploadInitLock userId)).isSome
    | none => true

end Redbox
