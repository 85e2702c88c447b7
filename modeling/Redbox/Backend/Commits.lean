import Redbox.Backend.Effects
import Redbox.Backend.Footprints
import Redbox.Interleaving.Safety

/-! The effects of writes as steps of the system and as events of its history. -/
namespace Redbox
open Interleaving

namespace Request

def setsStatus : Request → Option (Id × UserStatus)
  | .statement w => w.setsStatus
  | _ => none

/-- The user whose row a read returns. -/
def readsUser : Request → Option Id
  | .query (.user _ id) => some id
  | _ => none

end Request

/-- A committed write that gives a status to a user. -/
def setStatus (userId : Id) (status : UserStatus) (e : BackendEvent) : Bool :=
  e.resp.isOk && decide (e.req.setsStatus = some (userId, status))

def readUser (userId : Id) (e : BackendEvent) : Bool := decide (e.req.readsUser = some userId)

theorem minted_cons {table : SessionTable} {payload : TokenPayload} {p : Nat} {q : Request}
    {r : Reply q} {log : List BackendEvent} (h : minted table payload (⟨p, q, r⟩ :: log) = true) :
    q = .sign table payload ∨ minted table payload log = true := by
  simp only [minted, List.any_cons, Bool.or_eq_true] at h
  rcases h with h | h
  · left
    split at h
    · simp_all
    · cases h
  · exact .inr h

namespace World
variable {cfg : Config} {s : World} {q : Request}

/-- A call leaves the database as it is, or it is a statement that commits. -/
theorem deliver_db (cfg : Config) (s : World) (q : Request) : (s.deliver cfg q).1.db = s.db ∨
    ∃ w db' a, q = .statement w ∧ s.db.perform cfg s.clock s.nextId w = .ok (db', a) ∧
      (s.deliver cfg q).1 = { s with db := db', nextId := s.nextId + 2 } ∧
      (s.deliver cfg q).2.isOk = true := by
  cases q with
  | statement w =>
    simp only [deliver]
    cases hp : s.db.perform cfg s.clock s.nextId w with
    | ok r => exact .inr ⟨w, r.1, r.2, rfl, by simp [hp], rfl, rfl⟩
    | error e => exact .inl rfl
  | s3 name q =>
    simp only [deliver]
    cases (s.bucket name).perform s.nextId q with
    | ok r => cases name <;> exact .inl rfl
    | error e => exact .inl rfl
  | _ => exact .inl rfl

/-- A statement that answers has committed. -/
theorem reply_statement {w : Statement} {a : w.Answer}
    (h : (s.deliver cfg (.statement w)).2 = .ok a) :
    ∃ db', s.db.perform cfg s.clock s.nextId w = .ok (db', a) := by
  simp only [deliver] at h
  split at h
  · rename_i db b hw
    cases h
    exact ⟨db, hw⟩
  · cases h

theorem nextId_deliver (cfg : Config) (s : World) (q : Request) :
    s.nextId ≤ (s.deliver cfg q).1.nextId := by
  cases q with
  | statement w =>
    simp only [deliver]
    split <;> simp
  | s3 name q =>
    simp only [deliver]
    split
    · cases name <;> simp
    · exact le_refl _
  | random => simp [deliver]
  | _ => exact le_refl _

theorem statusOf_deliver (cfg : Config) (s : World) (q : Request) (userId : Id) :
    (s.deliver cfg q).1.db.statusOf userId = s.db.statusOf userId ∨
    ∃ status, q.setsStatus = some (userId, status) ∧ (s.deliver cfg q).2.isOk = true ∧
      (s.deliver cfg q).1.db.statusOf userId = some status := by
  obtain h | ⟨w, db', a, rfl, hp, hs, hok⟩ := deliver_db cfg s q
  · rw [h]; exact .inl rfl
  · rw [hs]
    exact (Database.statusOf_perform hp userId).imp_right fun ⟨status, hw, hst⟩ =>
      ⟨status, hw, hok, hst⟩

/-- A statement that fails changes nothing. -/
theorem deliver_statement_error {w : Statement} {e : Thrown}
    (h : (s.deliver cfg (.statement w)).2 = .error e) :
    (s.deliver cfg (.statement w)).1 = s := by
  simp only [deliver] at h ⊢
  split at h
  · cases h
  · rfl

section
variable {d : Delivery}

theorem exec_query {q : Query} : (s.exec cfg d (.query q)).1 = s := by cases d <;> rfl

theorem exec_query_ok {q : Query} {a : q.Answer} (h : (s.exec cfg d (.query q)).2 = .ok a) :
    s.db.read cfg s.clock q = .ok a := by
  cases d <;> first | exact h | cases h

theorem exec_now : (s.exec cfg d .now).1 = s := by cases d <;> rfl

theorem exec_redis {c : RedisCommand} : (s.exec cfg d (.redis c)).1.db = s.db := by cases d <;> rfl

theorem exec_statement_ok {w : Statement} {a : w.Answer}
    (h : (s.exec cfg d (.statement w)).2 = .ok a) :
    s.db.perform cfg s.clock s.nextId w = .ok ((s.exec cfg d (.statement w)).1.db, a) := by
  have hdeliver : (s.deliver cfg (.statement w)).2 = .ok a ∧
      (s.exec cfg d (.statement w)).1 = (s.deliver cfg (.statement w)).1 := by
    cases d <;> first | exact ⟨h, rfl⟩ | cases h
  rw [hdeliver.2]
  obtain ⟨hok, -⟩ := hdeliver
  simp only [deliver] at hok ⊢
  split at hok
  · rename_i db b hw
    cases hok
    rw [hw]
  · cases hok

end

end World

section
variable {cfg : Config} {s : SharedWorld} {p : Nat} {q : Request} {d : Delivery}
  {cond : SharedWorld → Nat → Request → Delivery → Bool}

/-- Under the rules for concurrent requests every call is delivered. -/
theorem delivered_of_allowed (h : (allRequests.also cond).allows s p q d = true) :
    d = .delivered := by
  simp only [Rules.also, allRequests, Bool.and_eq_true, decide_eq_true_eq] at h
  exact h.1

theorem cond_of_allowed (h : (allRequests.also cond).allows s p q d = true) :
    cond s p q d = true := by
  simp only [Rules.also, Bool.and_eq_true] at h
  exact h.2

@[simp] theorem after_delivered : ((backend cfg).after .delivered p q s).store =
      (s.store.deliver cfg q).1 := rfl
@[simp] theorem reply_delivered : (backend cfg).reply .delivered q s = (s.store.deliver cfg q).2 :=
  rfl
@[simp] theorem moved_db {n : Nat} : ((backend cfg).moved n s).store.db = s.store.db := rfl

def NotDeleted (userId : Id) (s : SharedWorld) : Prop := s.store.db.statusOf userId ≠ some .deleted

/-- Only a deletion deletes an account. -/
theorem notDeleted_survives {O : Outline Request Reply World} {userId : Id} :
    Survives (backend cfg) (allRequests.also cond) O (setStatus userId .deleted)
    (NotDeleted userId) where
  after := by
    intro s p q d _ ha _ hs
    cases delivered_of_allowed ha
    rcases s.store.statusOf_deliver cfg q userId with h | ⟨status, hq, hok, hst⟩
    · exact .inl (by rw [NotDeleted, after_delivered, h]; exact hs)
    · by_cases hd : status = .deleted
      · subst hd
        exact .inr (by simp [setStatus, hq, hok])
      · exact .inl (by simp [NotDeleted, after_delivered, hst, hd])
  moved := fun _ _ hs => hs

end
end Redbox
