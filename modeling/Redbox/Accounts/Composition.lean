import Redbox.Backend.Commits

/-! Login, refresh and reactivation are put together from the login-time checks of
an account. They respect an outline whenever those checks do. -/
namespace Redbox
open Interleaving

/-- Calls of these kinds never break the outline. -/
def Quiet (R : BackendRules) (O : Outline Request Reply World) (kinds : List RequestKind) : Prop :=
  ∀ s p q d, Within kinds q → O.inv s → R.allows s p q d = true → O.pre s p q

section
variable {cfg : Config} {R : BackendRules} {O : Outline Request Reply World}
  {kinds : List RequestKind}

theorem Quiet.safe (quiet : Quiet R O kinds) {α : Type} {x : Routine α}
    (hx : x.Calls (Within kinds)) :
    Safe (backend cfg) R O x :=
  Safe.calls hx quiet

theorem Quiet.follows (quiet : Quiet R O kinds) {α : Type} {x : Routine α} {p : Nat}
    {s : SharedWorld} (hx : x.Calls (Within kinds)) (hi : O.inv s) :
    Follows (backend cfg) R O p x s :=
  quiet.safe hx p s hi

/-- An operation without calls of other kinds is safe. -/
theorem Quiet.program (quiet : Quiet R O kinds) {op : Operation}
    (h : ∀ k ∈ op.footprint, k ∈ kinds) :
    Safe (backend cfg) R O (op.program cfg) :=
  quiet.safe (op.program_calls.mono fun _ hq => hq.imp_right (h _))

variable (keeps : O.Kept (backend cfg) R) (quiet : Quiet R O kinds)
include keeps quiet

theorem Quiet.plain {q : Request} (hq : q.kind = .plain) {α : Type} {f : q.Answer → Routine α}
    (h : ∀ a, Safe (backend cfg) R O (f a)) : Safe (backend cfg) R O ((await q).bind f) :=
  .bind keeps (quiet.safe (await_plain hq)) h

theorem assertUserCanLogin_safe (prepare : ∀ id,
      Safe (backend cfg) R O (UsersService.preparePendingDeletionLogin id))
    (ban : ∀ id, Safe (backend cfg) R O (UsersService.assertBanExpired cfg id)) (user : User) :
    Safe (backend cfg) R O (UsersService.assertUserCanLogin cfg user) := by
  unfold UsersService.assertUserCanLogin
  cases user.status with
  | active => exact .ret
  | deleted => exact .throw
  | pending =>
    refine .bind keeps (prepare user.id) fun request => ?_
    cases request with
    | none => exact .ret
    | some request => exact .throw
  | locked => exact quiet.plain keeps rfl fun _ => .throw
  | banned => exact ban user.id

theorem login_safe (sign : .sign ∈ kinds)
    (prepare : ∀ id, Safe (backend cfg) R O (UsersService.preparePendingDeletionLogin id))
    (check : ∀ user, Safe (backend cfg) R O (UsersService.assertUserCanLogin cfg user))
    (dto : LoginDto) :
    Safe (backend cfg) R O (AuthService.login cfg dto) := by
  refine quiet.plain keeps rfl fun row => ?_
  cases row with
  | none => exact .throw
  | some u =>
    refine .throwIf (.bind keeps (prepare u.id) fun request => ?_)
    cases request with
    | some request =>
      exact .bind keeps (quiet.safe (AuthService.getReactivationToken_calls sign)) fun _ => .ret
    | none =>
      refine quiet.plain keeps rfl fun row => ?_
      cases row with
      | none => exact .throw
      | some u =>
        refine .bind keeps (check u) fun _ => quiet.safe (.bind (await_plain rfl) fun
          | none => trivial
          | some _ =>
            .bind AuthService.decryptMasterKey_calls fun _ => .bind (await_plain rfl) fun _ =>
            .bind (AuthService.getTokens_calls sign) fun _ => trivial)

theorem refreshToken_safe (sign : .sign ∈ kinds) (swap : .swapSession ∈ kinds)
    (check : ∀ user, Safe (backend cfg) R O (UsersService.assertUserCanLogin cfg user))
    (userId key : Id) :
    Safe (backend cfg) R O (AuthService.refreshToken cfg userId key) := by
  refine quiet.plain keeps rfl fun row => ?_
  cases row with
  | none => exact .throw
  | some u =>
    refine .bind keeps (check u) fun _ => quiet.safe ?_
    exact .bind (await_kind .swapSession rfl swap) fun _ => .bind .throwIf fun _ =>
      .bind (await_plain rfl) fun
      | none => .bind (await_plain rfl) fun _ => trivial
      | some _ => .bind (await_plain rfl) fun _ => AuthService.getTokens_calls sign

theorem reactivateAccount_safe
    (reactivate : ∀ id requestId, Safe (backend cfg) R O
      (UsersService.reactivatePendingAccount id requestId)) (payload : ReactivationTokenPayload) :
    Safe (backend cfg) R O (AuthService.reactivateAccount payload) := by
  refine quiet.plain keeps rfl fun row => ?_
  cases row with
  | none => exact .throw
  | some u => exact .throwIf (.throwIf (.ite .ret (.throwIf (reactivate _ _))))

omit quiet in
theorem loginOutcome_safe {dto : LoginDto}
    (h : Safe (backend cfg) R O (AuthService.login cfg dto)) :
    Safe (backend cfg) R O (Operation.program cfg (.login dto)) :=
  .bind keeps h fun
    | .tokens _ => .ret
    | .pendingDeletion _ _ => .ret

theorem guarded_safe {payload : TokenPayload} {body : Id → Routine Outcome}
    (h : ∀ userId, Safe (backend cfg) R O (body userId)) :
    Safe (backend cfg) R O (Operation.guarded payload body) :=
  .bind keeps (quiet.safe (.bind (await_plain rfl) fun
    | none => trivial
    | some _ => .bind .throwIf fun _ => .bind .throwIf fun _ => trivial)) fun _ => h _

theorem adminGuarded_safe {payload : TokenPayload} {body : Id → Routine Outcome}
    (h : ∀ adminId, Safe (backend cfg) R O (body adminId)) :
    Safe (backend cfg) R O (Operation.adminGuarded payload body) :=
  .bind keeps (quiet.safe (.bind (await_plain rfl) fun
    | none => trivial
    | some _ => .bind .throwIf fun _ => trivial)) fun _ => h _

end
end Redbox
