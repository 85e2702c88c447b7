import Mathlib.Logic.Function.Basic
import Mathlib.Data.List.Basic

/-! `apiClient.ts`: requests of tabs that share their tokens, and the server that rotates the
session key. Requests, answers and refresh calls are in flight until they arrive. -/
namespace Redbox.ApiClient

/-- A session key. The tokens of a session are its key. -/
abbrev Key := Nat

inductive Status where
  | ok | unauthorized
  deriving DecidableEq

inductive Phase where
  | sent (token : Option Key)
  | answered (status : Status)
  /-- Awaits the refresh promise of its tab. -/
  | waiting
  /-- About to be sent again, with the token that the promise gave. -/
  | refreshed (newToken : Key)
  | resolved
  /-- Rejected with 401. -/
  | rejected
  deriving DecidableEq

structure Request where
  tab : Nat
  /-- `_retry` -/
  retry : Bool
  phase : Phase
  deriving DecidableEq

/-- The call that a refresh promise waits for. -/
inductive RefreshCall where
  | sent (refreshToken : Key)
  | accepted (sessionKey : Key)
  | rejected
  deriving DecidableEq

structure State where
  sessionKey : Key
  /-- The access token of the session has not run out. -/
  accessValid : Bool
  accessToken : Option Key
  refreshToken : Option Key
  refreshPromise : Nat → Option RefreshCall
  requests : List Request

/-- A session just begun, or one whose access token has run out. -/
def State.initial (sessionKey : Key) (accessValid : Bool) : State :=
  ⟨sessionKey, accessValid, some sessionKey, some sessionKey, fun _ => none, []⟩

inductive Action where
  | request (tab : Nat)
  | arrive (i : Nat)
  | respond (i : Nat)
  | refreshArrives (tab : Nat)
  | refreshSettles (tab : Nat)
  | resend (i : Nat)
  | expire
  deriving DecidableEq

namespace State

/-- `JwtStrategy.validate` and the expiry of the token. -/
def validate (s : State) (token : Option Key) : Status :=
  if token = some s.sessionKey ∧ s.accessValid = true then .ok else .unauthorized

/-- `updateMany` on the key that the token has, with a new key. -/
def rotate (s : State) (keyFromToken : Key) : State × RefreshCall :=
  if keyFromToken = s.sessionKey then
    ({ s with sessionKey := s.sessionKey + 1, accessValid := true }, .accepted (s.sessionKey + 1))
  else (s, .rejected)

def setPhase (s : State) (i : Nat) (phase : Phase) : State :=
  { s with requests := s.requests.modify i fun r => { r with phase := phase } }

/-- The response interceptor on a 401. -/
def onUnauthorized (s : State) (i : Nat) (r : Request) : State :=
  if r.retry then s.setPhase i .rejected
  else match s.refreshToken with
    | none => { s with requests := s.requests.set i ⟨r.tab, true, .rejected⟩ }
    | some refreshToken =>
      { s with
        requests := s.requests.set i ⟨r.tab, true, .waiting⟩
        refreshPromise := match s.refreshPromise r.tab with
          | none => Function.update s.refreshPromise r.tab (some (.sent refreshToken))
          | some _ => s.refreshPromise }

/-- All that wait for the promise of a tab go on. -/
def settle (s : State) (tab : Nat) (phase : Phase) : State :=
  { s with
    refreshPromise := Function.update s.refreshPromise tab none
    requests := s.requests.map fun r => if r.tab = tab ∧ r.phase = .waiting then { r with phase :=
      phase } else r }

/-- A request is sent again, or about to be. -/
def Request.retrying (r : Request) : Bool :=
  r.retry && match r.phase with
    | .sent _ | .refreshed _ => true
    | _ => false

/-- A token of the session is on its way to a request that waits for it, or with one. -/
def underway (s : State) : Prop :=
  (∃ tab key, s.refreshPromise tab = some (.accepted key)) ∨ ∃ r ∈ s.requests,
    Request.retrying r = true

def step (s : State) : Action → Option State
  | .request tab => some { s with requests := s.requests ++ [⟨tab, false, .sent s.accessToken⟩] }
  | .arrive i => match s.requests[i]? with
    | some ⟨_, _, .sent token⟩ => some (s.setPhase i (.answered (s.validate token)))
    | _ => none
  | .respond i => match s.requests[i]? with
    | some ⟨_, _, .answered .ok⟩ => some (s.setPhase i .resolved)
    | some ⟨tab, retry, .answered .unauthorized⟩ =>
      some (s.onUnauthorized i ⟨tab, retry, .answered .unauthorized⟩)
    | _ => none
  | .refreshArrives tab => match s.refreshPromise tab with
    | some (.sent refreshToken) =>
      let r := s.rotate refreshToken
      some { r.1 with refreshPromise := Function.update s.refreshPromise tab (some r.2) }
    | _ => none
  | .refreshSettles tab => match s.refreshPromise tab with
    | some (.accepted key) => some ({ s with accessToken := some key, refreshToken := some key }.settle tab (.refreshed key))
    | some .rejected =>
      some ({ s with accessToken := none, refreshToken := none }.settle tab .rejected)
    | _ => none
  | .resend i => match s.requests[i]? with
    -- the request interceptor prefers the stored token
    | some ⟨_, _, .refreshed newToken⟩ =>
      some (s.setPhase i (.sent (s.accessToken.or (some newToken))))
    | _ => none
  | .expire => some { s with accessValid := false }

/-- A run in which each step is allowed where it is taken. -/
def run (allowed : State → Action → Prop) : State → List Action → State → Prop
  | s, [], t => t = s
  | s, a :: as, t => allowed s a ∧ ∃ s', s.step a = some s' ∧ run allowed s' as t

end State
end Redbox.ApiClient
