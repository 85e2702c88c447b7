import Redbox.RateLimit.RateLimitService
import Redbox.Interleaving.Holders
import Redbox.Download.DownloadService

/-! Files and bins behind a password: the requests of those who have the link. -/
namespace Redbox
open Interleaving

/-- A bin as whoever has its link sees it. -/
structure SharedBin where
  id : Id
  title : String
  content : String
  createdAt : Time
  expiresAt : Option Time
  passwordHash : Option String
  shareToken : Id

inductive SharedRequest where
  | backend (q : Request)
  | counter (c : CounterRequest)
  | findBin (id : Id)
  | deleteBin (id : Id)
  | compare (secret hash : String)
  | getObject (key : Id)

abbrev SharedRequest.Answer : SharedRequest → Type
  | backend q => q.Answer
  | counter c => c.Answer
  | findBin _ => Option SharedBin
  | deleteBin _ => Unit
  | compare _ _ => Bool
  | getObject _ => Option Nat

abbrev SharedReply (q : SharedRequest) : Type := Except LimitThrown q.Answer

abbrev SharedRoutine (α : Type) := Prog SharedRequest SharedReply LimitThrown α

structure SharedState where
  world : World
  bins : List SharedBin
  counters : Counters

namespace SharedState

def deliver (cfg : Config) (s : SharedState) : (q : SharedRequest) → SharedState × SharedReply q
  | .backend q =>
    ({ s with world := (s.world.deliver cfg q).1 }, (s.world.deliver cfg q).2.mapError .thrown)
  | .counter c => ({ s with counters := (s.counters.perform c).1 }, .ok (s.counters.perform c).2)
  | .findBin id => (s, .ok (s.bins.find? fun b => decide (b.id = id)))
  | .deleteBin id => ({ s with bins := s.bins.filter fun b => decide (b.id ≠ id) }, .ok ())
  | .compare secret hash => (s, .ok (cfg.bcryptCompare secret hash))
  | .getObject key => (s, .ok (s.world.filesBucket.objects.lookup key))

def tick (n : Nat) (s : SharedState) : SharedState :=
  { s with world := s.world.tick n, counters := s.counters.tick n }

end SharedState

/-- A routine of the backend as it is. -/
def liftBackend {α : Type} : Routine α → SharedRoutine α
  | .ret a => .ret a
  | .throw e => .throw (.thrown e)
  | .call q k => .call (.backend q) fun
    | .ok a => liftBackend (k (.ok a))
    | .error (.thrown e) => liftBackend (k (.error e))
    | .error e => .throw e

/-- A routine of the rate limiter as it is. -/
def liftLimiter {α : Type} (x : CounterRoutine α) : SharedRoutine α :=
  x.expand fun q => .call (.counter q) .ret

theorem liftLimiter_bind {α β : Type} (x : CounterRoutine α) (f : α → CounterRoutine β) :
    liftLimiter (x.bind f) = (liftLimiter x).bind fun a => liftLimiter (f a) :=
  Prog.expand_bind x f

def awaitShared (q : SharedRequest) : SharedRoutine q.Answer := Prog.await id q

theorem liftLimiter_await (q : CounterRequest) :
    liftLimiter (awaitCounter q) = awaitShared (.counter q) := by
  refine congrArg (Prog.call (SharedRequest.counter q)) (funext fun r => ?_)
  cases r <;> rfl

theorem liftLimiter_throwIf (c : Prop) [Decidable c] (e : LimitThrown) :
    liftLimiter (Prog.throwIf c e) = Prog.throwIf c e := by
  unfold Prog.throwIf
  split <;> rfl

/-- Such a routine makes calls of the backend. -/
theorem liftBackend_calls {P : SharedRequest → Prop} (h : ∀ q, P (.backend q)) {α : Type}
    (x : Routine α) :
    (liftBackend x).Calls P := by
  induction x with
  | ret a => trivial
  | throw e => trivial
  | call q k ih =>
    rw [liftBackend]
    refine ⟨h q, fun r => ?_⟩
    match r with
    | .ok a => exact ih (.ok a)
    | .error (.thrown e) => exact ih (.error e)
    | .error (.exceeded _ _) => trivial

def throwShared {α : Type} (e : Thrown) : SharedRoutine α := .throw (.thrown e)

/-- What is guessed at: a file or a bin, from one address. -/
inductive PasswordTarget where
  | file (id : Id) (clientIp : String)
  | bin (id : Id) (clientIp : String)
  deriving DecidableEq

namespace PasswordTarget

def ns : PasswordTarget → String
  | file _ _ => "files:download:password-failure"
  | bin _ _ => "bins:get:password-failure"

/-- `passwordAttemptSubject`. -/
def subject : PasswordTarget → String
  | file id clientIp => "file:" ++ toString id ++ ":ip:" ++ clientIp
  | bin id clientIp => "bin:" ++ toString id ++ ":ip:" ++ clientIp

def key (t : PasswordTarget) : CounterKey := RateLimitService.buildRateLimitKey t.ns t.subject

/-- What is said to those who give no password. -/
def protectedMessage : PasswordTarget → String
  | file _ _ => "This file is password protected"
  | bin _ _ => "This bin is password protected"

end PasswordTarget

namespace SharedContent

def attemptLimit : Nat := 10

def attemptWindowSeconds : Nat := 15 * 60

/-- The gate that `assertDownloadPassword` and `getBinContent` both have. -/
def passwordGate (target : PasswordTarget) (passwordHash providedPassword : Option String) :
    SharedRoutine Unit := do
  let some hash := passwordHash.filter (· ≠ "") | return ()
  let some password := providedPassword.filter
    (· ≠ "") | throwShared (forbidden target.protectedMessage)
  liftLimiter (RateLimitService.assertAvailable target.ns target.subject
    attemptLimit attemptWindowSeconds)
  let isMatch ← awaitShared (.compare password hash)
  if isMatch = false then
    let _ ← liftLimiter (RateLimitService.consumeAttempt target.ns target.subject attemptLimit
      attemptWindowSeconds)
    throwShared (forbidden "Incorrect password")
  liftLimiter (RateLimitService.clearAttempts target.ns target.subject)

def assertDownloadPassword (file : File) (providedPassword : Option String) (clientIp : String) :
    SharedRoutine Unit :=
  passwordGate (.file file.id clientIp) file.passwordHash providedPassword

def getDownloadMetadata (fileId token : Id) (providedPassword : Option String) (clientIp : String) :
    SharedRoutine FileMetadata := do
  let file ← liftBackend (FilesService.getDownloadableFile fileId token)
  assertDownloadPassword file providedPassword clientIp
  match FilesService.getDownloadMetadata file with
  | .ok m => return m
  | .error e => throwShared e

/-- The row and the length of the stream that is sent. -/
def downloadFile (fileId token : Id) (providedPassword : Option String) (clientIp : String) :
    SharedRoutine (File × Nat) := do
  let file ← liftBackend (FilesService.getDownloadableFile fileId token)
  assertDownloadPassword file providedPassword clientIp
  let some contentLength ← awaitShared (.getObject file.storageName)
    | throwShared (internalServerError "File not found in storage")
  match FilesService.getExpectedEncryptedSize file.size with
  | .ok encryptedSize =>
    Prog.throwIf (contentLength ≠ encryptedSize)
      (.thrown (internalServerError "Stored file size validation failed"))
    return (file, encryptedSize)
  | .error e => throwShared e

structure BinContent where
  title : String
  content : String
  createdAt : Time
  expiresAt : Option Time

def getBinContent (binId token : Id) (providedPassword : Option String) (clientIp : String) :
    SharedRoutine BinContent := do
  let some bin ← awaitShared (.findBin binId) | throwShared (notFound
    "Bin not found or invalid token")
  Prog.throwIf (bin.shareToken ≠ token) (.thrown (notFound "Bin not found or invalid token"))
  let now ← awaitShared (.backend .now)
  if bin.expiresAt.any fun t => decide (t < now) then
    awaitShared (.deleteBin bin.id)
    throwShared (notFound "Bin has expired")
  passwordGate (.bin bin.id clientIp) bin.passwordHash providedPassword
  return ⟨bin.title, bin.content, bin.createdAt, bin.expiresAt⟩

end SharedContent

inductive SharedOperation where
  | getDownloadMetadata (fileId token : Id) (providedPassword : Option String) (clientIp : String)
  | downloadFile (fileId token : Id) (providedPassword : Option String) (clientIp : String)
  | getBinContent (binId token : Id) (providedPassword : Option String) (clientIp : String)

inductive SharedOutcome where
  | metadata (m : FileMetadata)
  | stream (file : File) (length : Nat)
  | bin (content : SharedContent.BinContent)

def SharedOperation.program : SharedOperation → SharedRoutine SharedOutcome
  | .getDownloadMetadata fileId token password clientIp => do
    return .metadata (← SharedContent.getDownloadMetadata fileId token password clientIp)
  | .downloadFile fileId token password clientIp => do
    let x ← SharedContent.downloadFile fileId token password clientIp
    return .stream x.1 x.2
  | .getBinContent binId token password clientIp => do
    return .bin (← SharedContent.getBinContent binId token password clientIp)

/-- Requests for shared content; every call is delivered, and time may pass. -/
def sharedContent (cfg : Config) :
    System SharedRequest SharedReply LimitThrown SharedOutcome SharedState SharedOperation
      Unit Nat where
  exec := fun _ q s => s.deliver cfg q
  drift := SharedState.tick
  program := SharedOperation.program

abbrev SharedEvent := Event SharedRequest SharedReply
abbrev SharedContentRules := Rules SharedRequest SharedReply SharedState SharedOperation Unit Nat
abbrev SharedContentState := Shared SharedRequest SharedReply SharedState

end Redbox
