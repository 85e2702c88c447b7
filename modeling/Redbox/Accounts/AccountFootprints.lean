import Redbox.Accounts.AccountEffects

/-! Which calls the account services make beside the one that each is there for. -/
namespace Redbox
open Interleaving Prog

namespace RedisCommand

/-- Reads, and writes that only remove. -/
def removes : RedisCommand → Bool
  | .get _ | .mget _ | .exists _ | .smembers _ | .scanUploadMeta _ | .compareAndDelete _ _ | .write (.del _) =>
    true
  | .multi ws => ws.all fun
    | .del _ => true
    | _ => false
  | _ => false

end RedisCommand

namespace Request

/-- A call that writes no row and signs nothing, and nothing to Redis that is to stay. -/
def harmless : Request → Bool
  | .query _ | .s3 _ _ | .now | .random => true
  | .redis c => c.removes
  | _ => false

end Request

variable {cfg : Config}

/-- Decryption is no call. -/
theorem decryptMasterKey_calls {P : Request → Prop} {password : String}
    {store : Option MasterKeyStore} :
    (AuthService.decryptMasterKey cfg password store).Calls P := by
  unfold AuthService.decryptMasterKey
  split
  · split <;> trivial
  · trivial

theorem internalDecryptMasterKey_calls {P : Request → Prop} {password : String}
    {store : Option MasterKeyStore} :
    (InternalAuthService.decryptMasterKey cfg password store).Calls P := by
  unfold InternalAuthService.decryptMasterKey
  split
  · split <;> trivial
  · trivial

section
variable {P : Request → Prop} (h : ∀ q : Request, q.harmless = true → P q)
include h

theorem jwtValidate_calls {payload : TokenPayload} : (JwtStrategy.validate payload).Calls P :=
  .bind (.await (h _ rfl)) fun
    | none => trivial
    | some _ => .bind .throwIf fun _ => .bind .throwIf fun _ => trivial

theorem adminJwtValidate_calls {payload : TokenPayload} :
    (AdminJwtStrategy.validate payload).Calls P :=
  .bind (.await (h _ rfl)) fun
    | none => trivial
    | some _ => .bind .throwIf fun _ => trivial

theorem findUserOrThrow_calls {userId : Id} : (AdminUsersService.findUserOrThrow userId).Calls P :=
  .bind (.await (h _ rfl)) fun
    | none => trivial
    | some _ => trivial

theorem removeObjects_calls {bucket : BucketName} {keys : List Id} :
    (deleteS3Objects bucket keys).Calls P :=
  .forEach fun _ => .handle (.await (h _ rfl)) fun _ => trivial

theorem clearUserRedisData_calls {userId : Id} :
    (AdminUsersService.clearUserRedisData userId).Calls P := by
  refine .bind (.await (h _ rfl)) fun _ => .bind (.await (h _ rfl)) fun _ =>
    .bind (.await (h _ rfl)) fun _ =>
    .bind (.forEach fun value => ?_) fun _ => .await (h _ ?_)
  · split
    · exact .handle (.await (h _ rfl)) fun _ => trivial
    · trivial
  · simp [Request.harmless, RedisCommand.removes]

theorem generateMasterKeyStore_calls {secret rawMasterKey : String} :
    (AuthService.generateMasterKeyStore cfg secret rawMasterKey).Calls P :=
  .bind (.await (h _ rfl)) fun _ => .bind (.await (h _ rfl)) fun _ => trivial

theorem hash_calls {secret : String} : (AuthService.hash cfg secret).Calls P :=
  .bind (.await (h _ rfl)) fun _ => trivial

end

section
variable {P : AccountRequest → Prop} (h : ∀ q : Request, q.harmless = true → P (.backend q))
include h

theorem lift_harmless {α : Type} {x : Routine α} (hx : x.Calls fun q => q.harmless = true) :
    (lift x).Calls P :=
  lift_calls h hx

theorem adminGuarded_calls {payload : TokenPayload} {α : Type} {body : Id → AccountRoutine α}
    {f : α → Outcome} (hbody : ∀ id, (body id).Calls P) :
    (AccountOperation.adminGuarded payload fun id => (body id).bind fun a => .ret (f a)).Calls P :=
  .bind (lift_harmless h (adminJwtValidate_calls fun _ hq => hq)) fun _ =>
    .bind (hbody _) fun _ => trivial

theorem changeUsername_calls (adminUserId userId : Id) (newUsername reason : String)
    (hwrite : ∀ entry, P (.changeUsername userId newUsername entry)) :
    (AdminUsersService.changeUsername adminUserId userId newUsername reason).Calls P :=
  .bind (lift_harmless h (findUserOrThrow_calls fun _ hq => hq)) fun _ => .handle
    (.bind (.await (hwrite _)) fun _ => .bind (lift_harmless h (.await rfl)) fun _ => trivial)
      fun _ => trivial

theorem clearUserData_calls (adminUserId userId : Id) (reason : String)
    (hwrite : ∀ entry, P (.clearUserContent userId entry)) :
    (AdminUsersService.clearUserData adminUserId userId reason).Calls P :=
  .bind (lift_harmless h (findUserOrThrow_calls fun _ hq => hq)) fun _ =>
    .bind (lift_harmless h (.await rfl)) fun _ =>
    .bind (lift_harmless h (.await rfl)) fun _ =>
      .bind (lift_harmless h (removeObjects_calls fun _ hq => hq)) fun _ =>
    .bind (lift_harmless h (removeObjects_calls fun _ hq => hq)) fun _ =>
      .bind (.await (hwrite _)) fun _ =>
    lift_harmless h (clearUserRedisData_calls fun _ hq => hq)

theorem deleteUserFiles_calls (adminUserId userId : Id) (fileIds : List Id) (reason : String)
    (hwrite : ∀ fileIds entry, P (.deleteFiles userId fileIds entry)) :
    (AdminUsersService.deleteUserFiles adminUserId userId fileIds reason).Calls P :=
  .bind (lift_harmless h (findUserOrThrow_calls fun _ hq => hq)) fun _ =>
    .bind (lift_harmless h (.await rfl)) fun _ =>
    .ite trivial <| .bind (lift_harmless h (removeObjects_calls fun _ hq => hq)) fun _ =>
      .await (hwrite _ _)

theorem createInviteCode_calls (adminUserId : Id) (dto : CreateAdminInviteCodeDto)
    (hwrite : ∀ code usage isValid, P (.createAdminInviteCode code usage isValid adminUserId)) :
    (AdminInvitesService.createInviteCode cfg adminUserId dto).Calls P :=
  .bind (.ite (.bind (lift_harmless h (.await rfl)) fun _ => trivial) (.bind .throwIf fun _ =>
    trivial)) fun _ =>
    .handle (.await (hwrite _ _ _)) fun _ => trivial

end

theorem deleteInviteCode_calls {P : AccountRequest → Prop} (adminUserId inviteCodeId : Id)
    (hread : P (.adminInviteCode inviteCodeId adminUserId))
    (hwrite : ∀ invite, P (.deleteInviteCode invite adminUserId)) :
    (AdminInvitesService.deleteInviteCode adminUserId inviteCodeId).Calls P :=
  .bind (.await hread) fun
    | none => trivial
    | some _ => .await (hwrite _)

theorem updateInviteCodeValidity_calls {P : AccountRequest → Prop} (adminUserId inviteCodeId : Id)
    (isValid : Bool) (hread : P (.adminInviteCode inviteCodeId adminUserId))
    (hwrite : ∀ invite, P (.setInviteCodeValidity invite isValid adminUserId)) :
    (AdminInvitesService.updateInviteCodeValidity adminUserId inviteCodeId isValid).Calls P :=
  .bind (.await hread) fun
    | none => trivial
    | some _ => .await (hwrite _)

end Redbox
