import Redbox.Accounts.AccountEffects

/-! What the calls of the account services do to session keys, and who may be given a token. -/
namespace Redbox
open Interleaving

namespace Statement

/-- The user whose session key a committed statement can replace. -/
def rekeys : Statement → Option Id
  | swapSessionKey .user id _ | rotateSessionKey .user id | updatePassword id _ _ => some id
  | w => w.setsStatus.map (·.1)

/-- Only a new session key comes with a new status. -/
theorem onUser_sessionKey {w : Statement} {fresh : Id} {u : User} :
    ((w.onUser fresh u).sessionKey = u.sessionKey ∧ (w.onUser fresh u).status = u.status) ∨
      (w.rekeys = some u.id ∧ (w.onUser fresh u).sessionKey = fresh) := by
  fun_cases Statement.onUser fresh w u <;> simp_all [rekeys, setsStatus]

end Statement

namespace Request

def rekeys : Request → Option Id
  | .statement w => w.rekeys
  | _ => none

end Request

namespace AccountRequest

def rekeys : AccountRequest → Option Id
  | .backend q => q.rekeys
  | .changeUsername userId _ _ => some userId
  | _ => none

end AccountRequest

namespace World
variable {cfg : Config} {s t : World} {v : Id} {u u' : User}

/-- A row that keeps its session key, and with it its status. -/
def KeepsSession (s : World) (v : Id) (u' : User) : Prop :=
  ∃ u, s.db.findUser v = some u ∧ u'.sessionKey = u.sessionKey ∧ u'.status = u.status

/-- What a call of the backend leaves of the session of a user. -/
theorem session_deliver {q : Request} (h : (s.deliver cfg q).1.db.findUser v = some u') :
    s.KeepsSession v u' ∨ q.rekeys = some v ∧ u'.sessionKey = s.nextId ∧
    s.nextId < (s.deliver cfg q).1.nextId := by
  obtain hdb | ⟨w, db', a, rfl, hw, hs, -⟩ := s.deliver_db cfg q
  · exact .inl ⟨u', hdb ▸ h, rfl, rfl⟩
  · rw [hs] at h ⊢
    rw [Database.findUser_perform hw] at h
    obtain ⟨u, hu, rfl⟩ := Option.map_eq_some_iff.mp h
    rcases Statement.onUser_sessionKey (w := w) (u := u) with hkeep | ⟨hkey, hfresh⟩
    · exact .inl ⟨u, hu, hkeep⟩
    · exact .inr ⟨(Database.findUser_id hu) ▸ hkey, hfresh, Nat.lt_add_of_pos_right Nat.two_pos⟩

/-- What a call of the account services leaves of it. A registration makes a new row. -/
theorem session_deliverAccount {q : AccountRequest}
    (h : (s.deliverAccount cfg q).1.db.findUser v = some u') :
    s.KeepsSession v u' ∨
    (q.rekeys = some v ∧ u'.sessionKey = s.nextId ∧ s.nextId < (s.deliverAccount cfg q).1.nextId) ∨
    ∃ inviteId new, q = .registerUser inviteId new ∧ v = s.nextId ∧
    u' = Database.newUser cfg new s.nextId ∧
      s.nextId + 1 < (s.deliverAccount cfg q).1.nextId := by
  by_cases hq : q.isNew = true
  · rcases s.deliverAccount_cases cfg hq with ⟨a, -, -, hs⟩ | ⟨e, -, hs⟩
    · rw [hs] at h ⊢
      cases q with
      | registerUser inviteId new =>
        simp only [Database.accountResult, Database.findUser, List.find?_cons] at h
        split at h
        · rename_i hid
          cases h
          exact .inr (.inr ⟨inviteId, new, rfl, (beq_iff_eq.mp hid).symm,
            rfl, by simp [AccountRequest.draws]⟩)
        · exact .inl ⟨u', h, rfl, rfl⟩
      | changeUsername userId newUsername entry =>
        simp only [Database.accountResult, Database.findUser_auditLog] at h
        rw [Database.findUser_setUser (f :=
          fun u => { u with username := newUsername, sessionKey := s.nextId })
          fun _ => rfl] at h
        obtain ⟨u, hu, rfl⟩ := Option.map_eq_some_iff.mp h
        split
        · rename_i hid
          exact .inr (.inl ⟨congrArg some (hid.symm.trans (Database.findUser_id hu)),
            rfl, by simp [AccountRequest.draws]⟩)
        · exact .inl ⟨u, hu, rfl, rfl⟩
      | _ => exact .inl ⟨u', h, rfl, rfl⟩
    · rw [hs] at h
      exact .inl ⟨u', h, rfl, rfl⟩
  · cases q with
    | backend q => exact (session_deliver h).imp_right .inl
    | _ => exact absurd rfl hq

/-- Whatever becomes of a call, it takes effect or leaves the rows of users as they are. -/
theorem exec_cases (cfg : Config) (s : World) (d : Delivery) (q : Request) :
    (s.exec cfg d q).1 = (s.deliver cfg q).1 ∨
      (s.exec cfg d q).1.db = s.db ∧ (s.exec cfg d q).1.nextId = s.nextId := by
  cases d with
  | delivered => exact .inl rfl
  | failed => exact .inr ⟨rfl, rfl⟩
  | lost => exact .inl rfl
  | late =>
    cases q with
    | s3 name q =>
      cases q with
      | uploadPart key i n body => cases name <;> exact .inr ⟨rfl, rfl⟩
      | _ => exact .inl rfl
    | _ => exact .inl rfl

theorem execAccount_cases (cfg : Config) (s : World) (d : Delivery) (q : AccountRequest) :
    (s.execAccount cfg d q).1 = (s.deliverAccount cfg q).1 ∨
      (s.execAccount cfg d q).1.db = s.db ∧ (s.execAccount cfg d q).1.nextId = s.nextId := by
  cases q with
  | backend q => exact s.exec_cases cfg d q
  | receive op => exact .inl rfl
  | _ => cases d <;> first | exact .inl rfl | exact .inr ⟨rfl, rfl⟩

/-- Keys are drawn in order, and whoever keeps the key keeps the status. -/
structure Renews (s t : World) : Prop where
  nextId : s.nextId ≤ t.nextId
  rows : ∀ v u', t.db.findUser v = some u' → s.KeepsSession v u' ∨ s.nextId ≤ u'.sessionKey ∧
    u'.sessionKey < t.nextId

theorem Renews.refl (hdb : t.db = s.db) (hid : t.nextId = s.nextId) : Renews s t :=
  ⟨hid.ge, fun _ u' h => .inl ⟨u', hdb ▸ h, rfl, rfl⟩⟩

theorem renews_exec (cfg : Config) (s : World) (d : Delivery) (q : Request) :
    Renews s (s.exec cfg d q).1 := by
  rcases s.exec_cases cfg d q with h | ⟨hdb, hid⟩
  · rw [h]
    refine ⟨nextId_deliver cfg s q,
      fun v u' hu => (session_deliver hu).imp_right fun ⟨_, hkey, hlt⟩ => ?_⟩
    rw [hkey]
    exact ⟨le_refl _, hlt⟩
  · exact .refl hdb hid

theorem renews_execAccount (cfg : Config) (s : World) (d : Delivery) (q : AccountRequest) :
    Renews s (s.execAccount cfg d q).1 := by
  rcases s.execAccount_cases cfg d q with h | ⟨hdb, hid⟩
  · rw [h]
    refine ⟨nextId_deliverAccount cfg s q,
      fun v u' hu => (session_deliverAccount hu).imp_right fun hcase => ?_⟩
    rcases hcase with ⟨-, hkey, hlt⟩ | ⟨inviteId, new, rfl, -, rfl, hlt⟩
    · rw [hkey]
      exact ⟨le_refl _, hlt⟩
    · exact ⟨Nat.le_add_right _ 1, hlt⟩
  · exact .refl hdb hid

/-- A token of the payload may be out: its owner is active for as long as he has the key. -/
structure Signable (payload : TokenPayload) (s : World) : Prop where
  drawn : payload.sessionKey < s.nextId
  active : ∀ u, s.db.findUser payload.sub = some u → u.sessionKey = payload.sessionKey →
    u.status = .active

theorem Signable.renews {payload : TokenPayload} (h : Signable payload s) (hst : Renews s t) :
    Signable payload t := by
  refine ⟨Nat.lt_of_lt_of_le h.drawn hst.nextId, fun u' hu hkey => ?_⟩
  rcases hst.rows _ u' hu with ⟨u, hu, hsame, hstatus⟩ | ⟨hnew, -⟩
  · rw [hstatus]
    exact h.active u hu (hsame.symm.trans hkey)
  · exact absurd (hkey ▸ hnew) (Nat.not_le.mpr h.drawn)

/-- No token of the payload has the session key of its owner any more. -/
structure Expired (payload : TokenPayload) (s : World) : Prop where
  drawn : payload.sessionKey < s.nextId
  replaced : ∀ u, s.db.findUser payload.sub = some u → u.sessionKey ≠ payload.sessionKey

theorem Expired.renews {payload : TokenPayload} (h : Expired payload s) (hst : Renews s t) :
    Expired payload t := by
  refine ⟨Nat.lt_of_lt_of_le h.drawn hst.nextId, fun u' hu hkey => ?_⟩
  rcases hst.rows _ u' hu with ⟨u, hu, hsame, -⟩ | ⟨hnew, -⟩
  · exact h.replaced u hu (hsame.symm.trans hkey)
  · exact absurd (hkey ▸ hnew) (Nat.not_le.mpr h.drawn)

end World
end Redbox
