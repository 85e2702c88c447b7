import Redbox.Backend.Operations
import Redbox.Interleaving.Turns

/-! The hourly jobs that go through a list of due rows: what one row that cannot be processed
does to the rows behind it. -/
namespace Redbox
open Interleaving

inductive ScheduledJob where
  | handleCleanup
  | processPendingDeletionRequests
  | processExpiredRestrictions

namespace ScheduledJob

def operation : ScheduledJob → Operation
  | handleCleanup => .handleCleanup
  | processPendingDeletionRequests => .processPendingDeletionRequests
  | processExpiredRestrictions => .processExpiredRestrictions

/-- The rows that the job goes through. -/
def Item : ScheduledJob → Type
  | handleCleanup => File
  | processPendingDeletionRequests => UserDeletionRequest
  | processExpiredRestrictions => UserRestriction

def findDue : (job : ScheduledJob) → Routine (List job.Item)
  | handleCleanup => await (.query .expiredFiles)
  | processPendingDeletionRequests => await (.query .dueDeletionRequests)
  | processExpiredRestrictions => await (.query .expiredBans)

/-- The body of the loop. -/
def process : (job : ScheduledJob) → job.Item → Routine Unit
  | handleCleanup => fun file : File => FilesService.deleteFileInternal file.id
  | processPendingDeletionRequests => fun request : UserDeletionRequest =>
    UsersService.finalizePendingDeletion request.userId request.id
  | processExpiredRestrictions => fun restriction : UserRestriction =>
    UsersService.reactivateUser restriction.userId
      ⟨.system, "user_status_auto_reactivated", some "Temporary ban expired", none⟩

theorem program_operation (cfg : Config) (job : ScheduledJob) :
    Operation.program cfg job.operation =
    (job.findDue.bind fun due => Prog.forEach due job.process).bind fun _ => .ret .done := by
  cases job with
  | handleCleanup => rfl
  | processPendingDeletionRequests => rfl
  | processExpiredRestrictions => rfl

/-- No row is processed without a call. -/
theorem process_call (job : ScheduledJob) (item : job.Item) :
    ∃ q k, job.process item = .call q k := by
  cases job with
  | handleCleanup => exact ⟨_, _, rfl⟩
  | processPendingDeletionRequests => exact ⟨_, _, rfl⟩
  | processExpiredRestrictions => exact ⟨_, _, rfl⟩

/-- Some run of the backend, with whatever else is going on in it, has a process of the job
that is over, that found the rows and that made the calls for them. -/
def Finished (cfg : Config) (job : ScheduledJob) (due : List job.Item)
    (made : List (Exchange Request Reply)) : Prop :=
  ∃ (R : BackendRules) (w : World) (as : List BackendAction) (t : BackendPool) (p : Nat) (r : Except
    Thrown Outcome)
    (found : List (Exchange Request Reply)),
    (backend cfg).run R (.initial w) as = some t ∧
      t.procs[p]? = some (job.operation, Prog.ended r) ∧
      own p t.shared.log = found ++ made ∧ Runs job.findDue found (.ok due)

variable {cfg : Config} {job : ScheduledJob} {due : List job.Item}
  {made : List (Exchange Request Reply)}

/-- The calls of a finished job are a run of its loop. -/
theorem Finished.loop (h : Finished cfg job due made) :
    ∃ r, Runs (Prog.forEach due job.process) made r := by
  obtain ⟨R, w, as, t, p, r, found, hrun, hp, hown, hfound⟩ := h
  have hled := (Pool.Led.run hrun).led p _ _ hp
  have hwhole : Runs (Operation.program cfg job.operation) (found ++ made) r := hown ▸ hled
  rw [program_operation, Prog.bind_assoc] at hwhole
  obtain ⟨due', found', rest, happ, hfound', hrest⟩ | ⟨e, -, hthrow⟩ := hwhole.bind
  · obtain ⟨rfl, hdue⟩ := hfound.unique hfound' happ
    obtain rfl := Except.ok.inj hdue
    obtain rfl := List.append_cancel_left happ
    obtain ⟨u, first, tail, rfl, hloop, hdone⟩ | ⟨e, -, hloop⟩ := hrest.bind
    · obtain ⟨rfl, -⟩ := hdone.of_ret
      rw [List.append_nil]
      exact ⟨_, hloop⟩
    · exact ⟨_, hloop⟩
  · have hwhole : found ++ made = (found ++ made) ++ [] := (List.append_nil _).symm
    cases (hfound.unique hthrow hwhole).2

/-- Each finished job has its set of rows that throw. -/
theorem Finished.exists_throwsAt (h : Finished cfg job due made) :
    ∃ throwing, ThrowsAt job.process due throwing made := by
  obtain ⟨r, hloop⟩ := h.loop
  obtain ⟨turns, htakes, hall, -⟩ := hloop.forEach
  exact ⟨_, htakes.throwsAt job.process_call hall⟩

/-! A cleanup whose first file is deleted by its owner while it deletes the object of it. -/

def expired (id : Id) : File := ⟨id, "notes.txt", id, 1, "text/plain", 1, 0, id, none, "", 0⟩

def expiredWorld : World :=
  { demoWorld with db := { demoWorld.db with files := [expired 50, expired 51] }, clock := 1 }

def race : List BackendAction :=
  demoLogins ++ .start .handleCleanup :: calls 2 3 ++ .start (.deleteFile demoToken 50) ::
    calls 3 5 ++ calls 2 1

def raced : Option BackendPool := (backend demoConfig).run allRequests (.initial expiredWorld) race

def foundFiles : List (Exchange Request Reply) :=
  [⟨.query .expiredFiles, .ok [expired 50, expired 51]⟩]

/-- The calls for the first file; there are none for the second. -/
def madeCalls : List (Exchange Request Reply) :=
  [⟨.query (.file 50), .ok (some (expired 50))⟩, ⟨.s3 .files (.deleteObject 50), .ok ()⟩,
    ⟨.statement (.deleteFile 50), .error (.fault .recordNotFound)⟩]

theorem raced_finished : Finished demoConfig .handleCleanup [expired 50, expired 51] madeCalls :=
  ⟨allRequests, expiredWorld, race, raced.get rfl, 2, .error (.fault .recordNotFound), foundFiles,
    rfl, rfl, rfl,
    .call (.refl _)⟩

theorem raced_takes : Takes (process .handleCleanup) [expired 50, expired 51] madeCalls
    [⟨expired 50, madeCalls, .error (.fault .recordNotFound)⟩] where
  items := ⟨[expired 51], rfl⟩
  first := ⟨[], rfl⟩
  runs := by
    intro turn hturn
    obtain rfl := List.mem_singleton.mp hturn
    exact .call (.call (.call (.refl _)))

theorem raced_throwsAt : ThrowsAt (process .handleCleanup) [expired 50, expired 51]
    (· = 0) madeCalls := by
  intro turns hturns i turn hi
  rw [raced_takes.throwsAt (process_call .handleCleanup) (List.flatMap_singleton _ _) turns
    hturns i turn hi]
  cases i with
  | zero => exact ⟨fun _ => rfl, fun _ => ⟨_, _, rfl, rfl⟩⟩
  | succ i => simp

theorem raced_not_attemptsEvery :
    ¬ AttemptsEvery (process .handleCleanup) [expired 50, expired 51] (· = 0) madeCalls := by
  obtain ⟨r, hloop⟩ := raced_finished.loop
  rw [hloop.attemptsEvery_iff (process_call .handleCleanup) raced_throwsAt]
  intro h
  exact h 0 (by decide) rfl

theorem stops_at_the_first_lost_row : ¬ ∀ (cfg : Config) (job : ScheduledJob) (due : List job.Item)
    (throwing : Nat → Prop) (made : List (Exchange Request Reply)), Finished cfg job due made →
      ThrowsAt job.process due throwing made → AttemptsEvery job.process due throwing made :=
  fun h => raced_not_attemptsEvery (h _ _ _ _ _ raced_finished raced_throwsAt)

/-- A job reaches all due rows, and processes all that can be, exactly when no row but the last one
throws. -/
theorem attempts_every_row_iff {throwing : Nat → Prop} (h : Finished cfg job due made)
    (ht : ThrowsAt job.process due throwing made) :
    AttemptsEvery job.process due throwing made ↔ ∀ i, i + 1 < due.length → ¬ throwing i := by
  obtain ⟨r, hloop⟩ := h.loop
  exact hloop.attemptsEvery_iff job.process_call ht

theorem attempts_every_row_iff_raced :
    AttemptsEvery (process .handleCleanup) [expired 50, expired 51] (· = 0) madeCalls ↔
    ∀ i, i + 1 < 2 → ¬ i = 0 :=
  attempts_every_row_iff raced_finished raced_throwsAt

end ScheduledJob
end Redbox
