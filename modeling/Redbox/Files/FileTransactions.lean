import Redbox.Backend.Commits
import Redbox.Interleaving.Expansion
import Redbox.Interleaving.Sequential

/-! The transaction of `finalizeUpload` call by call: the lock on the user's row, the
checks and the insert, while other transactions and requests go on. -/
namespace Redbox
open Interleaving

/-- What a transaction reads since its lock was granted, and what it has inserted. -/
structure Transaction where
  snapshot : Option Database
  inserted : List File

structure LockedWorld where
  world : World
  transactions : Id → Transaction
  /-- Locked rows of users, with the transactions that hold them. -/
  locks : List (Id × Id)
  nextTransaction : Id

inductive LockedRequest where
  | backend (q : Request)
  | begin
  | lockUser (tx userId : Id)
  | findUser (tx userId : Id)
  | sumSizes (tx userId : Id)
  | createFile (tx userId : Id) (originalName mimetype : String) (uploadMeta : UploadMeta)
      (encryptedFileKey : String) (fileKeyIv : Id)
  | commit (tx : Id)
  | rollback (tx : Id)

namespace LockedRequest

abbrev Answer : LockedRequest → Type
  | backend q => q.Answer
  | begin => Id
  | lockUser _ _ => Unit
  | findUser _ _ => Option User
  | sumSizes _ _ => Nat
  | createFile _ _ _ _ _ _ _ => File
  | commit _ => Unit
  | rollback _ => Unit

end LockedRequest

abbrev LockedReply (q : LockedRequest) : Type := Except Thrown q.Answer
abbrev LockedRoutine (α : Type) := Prog LockedRequest LockedReply Thrown α

/-- The row that `finalizeUpload` inserts. -/
def newFile (userId : Id) (originalName mimetype : String) (uploadMeta : UploadMeta)
    (encryptedFileKey : String) (fileKeyIv : Id) (now : Time) (fresh : Id) : File :=
  { id := fresh, originalName := originalName, storageName := uploadMeta.storageKey
    size := uploadMeta.fileSize, mimetype := mimetype, userId := userId
    expiresAt := calculateExpiration now uploadMeta.expiresIn, shareToken := fresh + 1
    passwordHash := uploadMeta.passwordHash, encryptedFileKey := encryptedFileKey
    fileKeyIv := fileKeyIv }

namespace LockedWorld

def initial (w : World) : LockedWorld := ⟨w, fun _ => ⟨none, []⟩, [], 0⟩

/-- The database as a transaction sees it. -/
def view (s : LockedWorld) (tx : Id) : Database := (s.transactions tx).snapshot.getD s.world.db

/-- The end of a transaction: what it holds becomes free. -/
def finish (s : LockedWorld) (tx : Id) (files : List File) : LockedWorld :=
  { s with
    world := { s.world with db := { s.world.db with files := files } }
    transactions := Function.update s.transactions tx ⟨none, []⟩
    locks := s.locks.filter fun l => l.2 != tx }

def deliver (cfg : Config) (s : LockedWorld) : (q : LockedRequest) → LockedWorld × LockedReply q
  | .backend q => ({ s with world := (s.world.deliver cfg q).1 }, (s.world.deliver cfg q).2)
  | .begin => ({ s with nextTransaction := s.nextTransaction + 1 }, .ok s.nextTransaction)
  | .lockUser tx userId =>
    ({ s with
      locks := (userId, tx) :: s.locks
      transactions := Function.update s.transactions tx
        { s.transactions tx with snapshot := some s.world.db } }, .ok ())
  | .findUser tx userId => (s, .ok ((s.view tx).findUser userId))
  | .sumSizes tx userId => (s, .ok ((s.view tx).fileUsage userId))
  | .createFile tx userId originalName mimetype uploadMeta encryptedFileKey fileKeyIv =>
    if s.world.db.files.any (·.storageName == uploadMeta.storageKey) then (s,
      .error (.fault .uniqueConflict))
    else
      let file := newFile userId originalName mimetype uploadMeta encryptedFileKey fileKeyIv
        s.world.clock s.world.nextId
      ({ s with
        world := { s.world with nextId := s.world.nextId + 2 }
        transactions := Function.update s.transactions tx
          { s.transactions tx with inserted := file :: (s.transactions tx).inserted } }, .ok file)
  | .commit tx => (s.finish tx ((s.transactions tx).inserted ++ s.world.db.files), .ok ())
  | .rollback tx => (s.finish tx s.world.db.files, .ok ())

def exec (cfg : Config) (d : Delivery) (q : LockedRequest) (s : LockedWorld) :
    LockedWorld × LockedReply q :=
  match d, q with
  | .failed, _ => (s, .error (.fault .unavailable))
  | .lost, q => ((s.deliver cfg q).1, .error (.fault .unavailable))
  | .late, .backend q =>
    ({ s with world := (s.world.exec cfg .late q).1 }, (s.world.exec cfg .late q).2)
  | _, q => s.deliver cfg q

def tick (n : Nat) (s : LockedWorld) : LockedWorld := { s with world := s.world.tick n }

end LockedWorld

namespace FilesService

def awaitLocked (q : LockedRequest) : LockedRoutine q.Answer := Prog.await id q

/-- The callback of the transaction. -/
def insertFile (cfg : Config) (tx userId : Id) (originalName mimetype : String)
    (uploadMeta : UploadMeta) (encryptedFileKey : String) (fileKeyIv : Id) :
    LockedRoutine File := do
  awaitLocked (.lockUser tx userId)
  let some user ← awaitLocked (.findUser tx userId) | throw (unauthorized "User not found")
  let limits := cfg.getFileLimitsForUsername user.username
  Prog.throwIf (limits.maxFileSize < uploadMeta.fileSize) (badRequest "File too large")
  let currentUsage ← awaitLocked (.sumSizes tx userId)
  Prog.throwIf (limits.quotaLimit < currentUsage + uploadMeta.fileSize)
    (badRequest "Quota exceeded")
  awaitLocked (.createFile tx userId originalName mimetype uploadMeta encryptedFileKey fileKeyIv)

/-- `$transaction`: the callback, then a commit, or a rollback where it throws. -/
def fileTransaction (cfg : Config) (userId : Id) (originalName mimetype : String)
    (uploadMeta : UploadMeta) (encryptedFileKey : String) (fileKeyIv : Id) :
    LockedRoutine File := do
  let tx ← awaitLocked .begin
  try
    let file ← insertFile cfg tx userId originalName mimetype uploadMeta encryptedFileKey fileKeyIv
    awaitLocked (.commit tx)
    pure file
  catch e =>
    awaitLocked (.rollback tx)
    throw e

/-- The calls of the backend with this transaction written out. -/
def transactions (cfg : Config) (q : Request) : LockedRoutine (Reply q) :=
  match q with
  | .statement (.createFile userId originalName mimetype uploadMeta encryptedFileKey fileKeyIv) =>
    (fileTransaction cfg userId originalName mimetype uploadMeta encryptedFileKey fileKeyIv).outcome
  | q => .call (.backend q) .ret

end FilesService

/-- The backend with the transaction of `finalizeUpload` in its steps. -/
def lockedBackend (cfg : Config) : System LockedRequest LockedReply Thrown Outcome LockedWorld
      Operation Delivery Nat where
  exec := LockedWorld.exec cfg
  drift := LockedWorld.tick
  program := fun op => (op.program cfg).expand (FilesService.transactions cfg)

abbrev LockedShared := Shared LockedRequest LockedReply LockedWorld
abbrev LockedRules := Rules LockedRequest LockedReply LockedWorld Operation Delivery Nat

/-- Any request may arrive and any call may fail, but a lock is granted only while no other
transaction holds it. -/
def rowLocks : LockedRules where
  starts := fun _ _ => true
  allows := fun s _ q _ => match q with
    | .lockUser tx userId => s.store.locks.all fun l => decide (l.1 = userId → l.2 = tx)
    | _ => true
  drifts := fun _ _ => true

namespace FilesService
variable {cfg : Config} {p userId iv : Id} {name mimetype key : String} {state : UploadMeta}

/-- Alone, the transaction does what the statement does at once. -/
theorem fileTransaction_alone (s : LockedShared)
    (hs : (s.store.transactions s.store.nextTransaction).inserted = []) :
    ((lockedBackend cfg).finish .delivered p (fileTransaction cfg userId name mimetype state key iv)
      s).1 =
      (s.store.world.deliver cfg (.statement (.createFile userId name mimetype state key iv))).2 ∧
    ((lockedBackend cfg).finish .delivered p (fileTransaction cfg userId name mimetype state key iv)
      s).2.store.world =
      (s.store.world.deliver cfg (.statement
        (.createFile userId name mimetype state key iv))).1 := by
  rcases hu : s.store.world.db.findUser userId with _ | u
  on_goal 2 =>
    by_cases hmax : (cfg.getFileLimitsForUsername u.username).maxFileSize < state.fileSize <;>
    by_cases hquota : (cfg.getFileLimitsForUsername u.username).quotaLimit <
      s.store.world.db.fileUsage userId + state.fileSize <;>
    cases hname : s.store.world.db.files.any (·.storageName == state.storageKey)
  all_goals simp [fileTransaction, insertFile, awaitLocked, Prog.await, Prog.handle, Prog.throwIf,
    System.finish,
    System.reply, System.after, lockedBackend, LockedWorld.exec, LockedWorld.deliver,
    LockedWorld.view,
    LockedWorld.finish, World.deliver, Database.perform, Database.createFile,
    Database.checkUploadAllowance, newFile,
    unauthorized, badRequest, bind, Except.bind, pure, Except.pure, -List.any_eq_true, *]

end FilesService
end Redbox
