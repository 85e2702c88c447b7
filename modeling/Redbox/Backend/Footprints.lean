import Redbox.Backend.Operations
import Redbox.Backend.Effects

/-! Which kinds of calls each operation can make. An operation without calls of
the kinds that a property is about keeps the property by this alone. -/
namespace Redbox
open Interleaving Prog

inductive RequestKind where
  | plain | swapSession | endSession | requestDeletion | reactivate | restrict | markDeleted
  | processDeletion | createContent | deleteFile | sign
  deriving DecidableEq

/-- A deletion processes a deletion request or is an administrator's. -/
def deletionKind : Option Id → RequestKind
  | some _ => .processDeletion
  | none => .markDeleted

namespace Request

def kind : Request → RequestKind
  | .statement w => match w with
    | .swapSessionKey .. => .swapSession
    | .rotateSessionKey .. | .updatePassword .. | .updateAdminPassword .. => .endSession
    | .requestDeletion .. => .requestDeletion
    | .reactivate .. => .reactivate
    | .lock .. | .ban .. => .restrict
    | .markDeleted _ _ _ _ _ _ deletionRequestId => deletionKind deletionRequestId
    | .auditLog .. => .plain
    | .deleteFile .. => .deleteFile
    | .createInviteCode .. | .createFile .. | .createMail .. | .createBin .. | .createLink ..
    | .upsertBlockedSender .. => .createContent
  | .sign .. | .signReactivation .. => .sign
  | .query .. | .redis .. | .s3 .. | .now | .random => .plain

end Request

/-- Only calls of the listed kinds, and plain ones. -/
def Within (kinds : List RequestKind) (q : Request) : Prop := q.kind = .plain ∨ q.kind ∈ kinds

instance (kinds : List RequestKind) (q : Request) : Decidable (Within kinds q) :=
  inferInstanceAs (Decidable (_ ∨ _))

/-- A plain call that reads no user's row. -/
def Request.aside (q : Request) : Bool :=
  match q with
  | .query (.user _ _) | .query (.userByUsername _) => false
  | q => decide (q.kind = .plain)

/-- A call about uploads that changes neither rows nor objects, and creates no upload. -/
def Request.tracks (q : Request) : Bool :=
  match q with
  | .query (.uploadAllowance _ _) | .redis _ | .now | .random => true
  | .s3 .files (.uploadPart _ _ _ _) | .s3 .files (.abortMultipartUpload _ _) | .s3 .files (.headObject _) =>
    true
  | _ => false

variable {cfg : Config} {kinds : List RequestKind}

theorem plain_of_aside {q : Request} (h : q.aside = true) : q.kind = .plain := by
  unfold Request.aside at h
  split at h
  · cases h
  · cases h
  · exact of_decide_eq_true h

theorem aside_within (q : Request) (h : q.aside = true) : Within kinds q := .inl (plain_of_aside h)

theorem aside_of_tracks {q : Request} (h : q.tracks = true) : q.aside = true := by
  unfold Request.tracks at h
  split at h <;> first | rfl | cases h

theorem tracks_within (q : Request) (h : q.tracks = true) : Within kinds q :=
  aside_within q (aside_of_tracks h)

/-- Calls that create content for one user, and calls that concern no user's row. -/
structure Creating (P : Request → Prop) (userId : Id) : Prop where
  aside : ∀ q, q.aside = true → P q
  creates : ∀ w : Statement, w.creates = some userId → P (.statement w)

theorem Creating.tracks {P : Request → Prop} {userId : Id} (h : Creating P userId) (q : Request)
    (hq : q.tracks = true) : P q := h.aside q (aside_of_tracks hq)

theorem kind_of_creates {w : Statement} {userId : Id} (h : w.creates = some userId) :
    (Request.statement w).kind = .createContent := by
  cases w <;> first | rfl | cases h

theorem creating_within {userId : Id} (h : .createContent ∈ kinds) :
    Creating (Within kinds) userId :=
  ⟨aside_within, fun _ hw => .inr (kind_of_creates hw ▸ h)⟩

theorem await_plain {q : Request} (h : q.kind = .plain) : (await q).Calls (Within kinds) :=
  .await (.inl h)

theorem await_kind {q : Request} (kind : RequestKind) (hq : q.kind = kind) (h : kind ∈ kinds) :
    (await q).Calls (Within kinds) := .await (.inr (hq ▸ h))

theorem deleteS3Objects_calls {bucket : BucketName} {keys : List Id} :
    (deleteS3Objects bucket keys).Calls (Within kinds) :=
  .forEach fun _ => .handle (await_plain rfl) fun _ => trivial

namespace UsersService
variable {userId requestId : Id}

theorem reactivateUser_calls {options : ReactivationOptions} (h : .reactivate ∈ kinds) :
    (reactivateUser userId options).Calls (Within kinds) :=
  .bind (await_plain rfl) fun
    | none => trivial
    | some _ => .bind .throwIf fun _ => .bind (.await (.inr h)) fun _ => await_plain rfl

theorem deleteUserDataAndMarkDeleted_calls {options : DeletionOptions}
    (h : deletionKind options.deletionRequestId ∈ kinds) :
    (deleteUserDataAndMarkDeleted userId options).Calls (Within kinds) :=
  .bind (await_plain rfl) fun _ => .bind (await_plain rfl) fun _ =>
    .bind deleteS3Objects_calls fun _ =>
    .bind deleteS3Objects_calls fun _ => .bind (.await (.inr h)) fun _ => await_plain rfl

theorem finalizePendingDeletion_calls (h : .processDeletion ∈ kinds) :
    (finalizePendingDeletion userId requestId).Calls (Within kinds) :=
  .bind (await_plain rfl) fun
    | none => trivial
    | some _ => .ite trivial (deleteUserDataAndMarkDeleted_calls h)

theorem requestAccountDeletion_calls {password : String} (h : .requestDeletion ∈ kinds) :
    (requestAccountDeletion cfg userId password).Calls (Within kinds) :=
  .bind (await_plain rfl) fun
    | none => trivial
    | some _ => .bind .throwIf fun _ => .bind .throwIf fun _ => .bind (await_plain rfl) fun _ =>
      .bind .throwIf fun _ => .bind (await_plain rfl) fun _ => .bind (.await (.inr h)) fun _ =>
        .bind (await_plain rfl) fun _ => trivial

theorem preparePendingDeletionLogin_calls (hd : .processDeletion ∈ kinds)
    (hr : .reactivate ∈ kinds) :
    (preparePendingDeletionLogin userId).Calls (Within kinds) :=
  .bind (await_plain rfl) fun
    | none => trivial
    | some _ => .ite trivial <| .bind (await_plain rfl) fun
      | some _ => .bind (await_plain rfl) fun _ =>
        .ite (.bind (finalizePendingDeletion_calls hd) fun _ => trivial) trivial
      | none => .bind (reactivateUser_calls hr) fun _ => trivial

theorem reactivatePendingAccount_calls (hd : .processDeletion ∈ kinds) (hr : .reactivate ∈ kinds) :
    (reactivatePendingAccount userId requestId).Calls (Within kinds) :=
  .bind (await_plain rfl) fun
    | none => trivial
    | some _ =>
      .bind .throwIf fun _ => .ite trivial <| .bind .throwIf fun _ => .bind (await_plain rfl) fun
      | none => trivial
      | some _ => .bind .throwIf fun _ => .bind (await_plain rfl) fun _ =>
        .ite (.bind (finalizePendingDeletion_calls hd) fun _ => trivial) (reactivateUser_calls hr)

theorem assertUserCanLogin_calls {user : User} (hd : .processDeletion ∈ kinds)
    (hr : .reactivate ∈ kinds) :
    (assertUserCanLogin cfg user).Calls (Within kinds) := by
  unfold assertUserCanLogin
  cases user.status with
  | active => trivial
  | deleted => trivial
  | pending =>
    exact .bind (preparePendingDeletionLogin_calls hd hr) fun
      | none => trivial
      | some _ => trivial
  | locked => exact .bind (await_plain rfl) fun _ => trivial
  | banned =>
    exact .bind (await_plain rfl) fun _ => .bind (await_plain rfl) fun _ =>
      .ite (reactivateUser_calls hr) trivial

theorem generateInviteCode_calls (h : .createContent ∈ kinds) :
    (generateInviteCode cfg userId).Calls (Within kinds) :=
  .bind (await_plain rfl) fun
    | none => trivial
    | some _ => .bind .throwIf fun _ => .bind .throwIf fun _ => .bind (await_plain rfl) fun _ =>
      .await (.inr h)

end UsersService

namespace AuthService

theorem decryptMasterKey_calls {password : String} {store : Option MasterKeyStore} :
    (decryptMasterKey cfg password store).Calls (Within kinds) := by
  unfold decryptMasterKey
  split
  · split <;> trivial
  · trivial

theorem updateSecret_calls {α : Type} {secret rawMasterKey : String}
    {f : MasterKeyStore → String → Routine α}
    (hf : ∀ store hash, (f store hash).Calls (Within kinds)) :
    (do
      let store ← generateMasterKeyStore cfg secret rawMasterKey
      let password ← hash cfg secret
      f store password : Routine α).Calls (Within kinds) :=
  .bind (.bind (await_plain rfl) fun _ => .bind (await_plain rfl) fun _ => trivial) fun _ =>
    .bind (.bind (await_plain rfl) fun _ => trivial) fun _ => hf _ _

theorem getTokens_calls {userId : Id} {username : String} {sessionKey : Id} (h : .sign ∈ kinds) :
    (getTokens userId username sessionKey).Calls (Within kinds) :=
  .bind (.await (.inr h)) fun _ => trivial

theorem getReactivationToken_calls {userId sessionKey requestId : Id} {username : String}
    (h : .sign ∈ kinds) :
    (getReactivationToken userId username sessionKey requestId).Calls (Within kinds) :=
  .bind (.await (.inr h)) fun _ => trivial

theorem login_calls {dto : LoginDto} (hd : .processDeletion ∈ kinds) (hr : .reactivate ∈ kinds)
    (hs : .sign ∈ kinds) : (login cfg dto).Calls (Within kinds) :=
  .bind (await_plain rfl) fun
    | none => trivial
    | some _ => .bind .throwIf fun _ =>
      .bind (UsersService.preparePendingDeletionLogin_calls hd hr) fun
        | some _ => .bind (getReactivationToken_calls hs) fun _ => trivial
        | none => .bind (await_plain rfl) fun
          | none => trivial
          | some _ => .bind (UsersService.assertUserCanLogin_calls hd hr) fun _ =>
            .bind (await_plain rfl) fun
              | none => trivial
              | some _ => .bind decryptMasterKey_calls fun _ => .bind (await_plain rfl) fun _ =>
                .bind (getTokens_calls hs) fun _ => trivial

theorem refreshToken_calls {userId key : Id} (hd : .processDeletion ∈ kinds)
    (hr : .reactivate ∈ kinds) (hw : .swapSession ∈ kinds) (hs : .sign ∈ kinds) :
    (refreshToken cfg userId key).Calls (Within kinds) :=
  .bind (await_plain rfl) fun
    | none => trivial
    | some _ => .bind (UsersService.assertUserCanLogin_calls hd hr) fun _ =>
      .bind (.await (.inr hw)) fun _ => .bind .throwIf fun _ => .bind (await_plain rfl) fun
        | none => .bind (await_plain rfl) fun _ => trivial
        | some _ => .bind (await_plain rfl) fun _ => getTokens_calls hs

theorem logout_calls {userId : Id} (h : .endSession ∈ kinds) :
    (logout userId).Calls (Within kinds) :=
  .bind (.await (.inr h)) fun _ => await_plain rfl

theorem changePassword_calls {userId : Id} {dto : ChangePasswordDto} (h : .endSession ∈ kinds) :
    (changePassword cfg userId dto).Calls (Within kinds) :=
  .bind (await_plain rfl) fun
    | none => trivial
    | some _ => .bind .throwIf fun _ => .bind decryptMasterKey_calls fun _ =>
      updateSecret_calls fun _ _ => .bind (.await (.inr h)) fun _ => await_plain rfl

theorem recoverPassword_calls {dto : RecoverPasswordDto} (h : .endSession ∈ kinds) :
    (recoverPassword cfg dto).Calls (Within kinds) :=
  .bind (await_plain rfl) fun
    | none => trivial
    | some _ => .bind .throwIf fun _ => .bind decryptMasterKey_calls fun _ =>
      updateSecret_calls fun _ _ => .bind (.await (.inr h)) fun _ => trivial

theorem reactivateAccount_calls {payload : ReactivationTokenPayload} (hd : .processDeletion ∈ kinds)
    (hr : .reactivate ∈ kinds) : (reactivateAccount payload).Calls (Within kinds) :=
  .bind (await_plain rfl) fun
    | none => trivial
    | some _ =>
      .bind .throwIf fun _ => .bind .throwIf fun _ => .ite trivial <| .bind .throwIf fun _ =>
      UsersService.reactivatePendingAccount_calls hd hr

end AuthService

namespace AdminAuthService

theorem login_calls {dto : AdminLoginDto} (h : .sign ∈ kinds) :
    (login cfg dto).Calls (Within kinds) :=
  .bind (await_plain rfl) fun
    | none => trivial
    | some _ => .bind .throwIf fun _ => .bind (await_plain rfl) fun _ =>
      .bind (.await (.inr h)) fun _ => trivial

theorem refreshToken_calls {adminId key : Id} (hw : .swapSession ∈ kinds) (hs : .sign ∈ kinds) :
    (refreshToken adminId key).Calls (Within kinds) :=
  .bind (.await (.inr hw)) fun _ => .bind .throwIf fun _ => .bind (await_plain rfl) fun
    | none => trivial
    | some _ => .bind (.await (.inr hs)) fun _ => trivial

theorem logout_calls {adminId : Id} (h : .endSession ∈ kinds) :
    (logout adminId).Calls (Within kinds) :=
  .bind (.await (.inr h)) fun _ => trivial

theorem changePassword_calls {adminId : Id} {dto : AdminChangePasswordDto}
    (h : .endSession ∈ kinds) :
    (changePassword cfg adminId dto).Calls (Within kinds) :=
  .bind (await_plain rfl) fun
    | none => trivial
    | some _ => .bind .throwIf fun _ => .bind (await_plain rfl) fun _ =>
      .bind (.await (.inr h)) fun _ => trivial

end AdminAuthService

namespace AdminUsersService
variable {adminId userId : Id} {dto : UpdateAdminUserStatusDto} {status : UserStatus}

theorem findUserOrThrow_calls : (findUserOrThrow userId).Calls (Within kinds) :=
  .bind (await_plain rfl) fun
    | none => trivial
    | some _ => trivial

theorem reactivateUser_calls {options : ReactivationOptions} (h : .reactivate ∈ kinds) :
    (reactivateUser userId options).Calls (Within kinds) :=
  .bind findUserOrThrow_calls fun _ => .bind .throwIf fun _ => .bind (.await (.inr h)) fun _ =>
    await_plain rfl

theorem clearUserRedisData_calls : (clearUserRedisData userId).Calls (Within kinds) := by
  refine .bind (await_plain rfl) fun _ => .bind (await_plain rfl) fun _ =>
    .bind (await_plain rfl) fun _ =>
    .bind (.forEach fun value => ?_) fun _ => await_plain rfl
  split
  · exact .handle (await_plain rfl) fun _ => trivial
  · trivial

theorem deleteUserDataAndMarkDeleted_calls {options : DeletionOptions}
    (h : deletionKind options.deletionRequestId ∈ kinds) :
    (deleteUserDataAndMarkDeleted userId options).Calls (Within kinds) :=
  .bind (await_plain rfl) fun _ => .bind (await_plain rfl) fun _ =>
    .bind deleteS3Objects_calls fun _ =>
    .bind deleteS3Objects_calls fun _ => .bind (.await (.inr h)) fun _ => clearUserRedisData_calls

theorem setDeleted_calls (h : .markDeleted ∈ kinds) :
    (setDeleted adminId userId dto status).Calls (Within kinds) :=
  .bind .throwIf fun _ => deleteUserDataAndMarkDeleted_calls h

theorem setStatus_calls (ha : .reactivate ∈ kinds) (hr : .restrict ∈ kinds)
    (hd : .markDeleted ∈ kinds) :
    (setStatus adminId userId dto status).Calls (Within kinds) := by
  unfold setStatus
  cases dto.status with
  | active => exact reactivateUser_calls ha
  | locked => exact .bind .throwIf fun _ => .bind (.await (.inr hr)) fun _ => await_plain rfl
  | banned =>
    exact .bind .throwIf fun _ => .bind .throwIf fun _ => .bind (await_plain rfl) fun _ =>
      .bind (.await (.inr hr)) fun _ => await_plain rfl
  | deleted => exact setDeleted_calls hd

theorem updateUserStatus_calls (ha : .reactivate ∈ kinds) (hr : .restrict ∈ kinds)
    (hd : .markDeleted ∈ kinds) : (updateUserStatus adminId userId dto).Calls (Within kinds) :=
  .bind (await_plain rfl) fun
    | none => trivial
    | some _ =>
      .bind .throwIf fun _ => .bind (setStatus_calls ha hr hd) fun _ => findUserOrThrow_calls

theorem forceLogoutUser_calls {reason : String} (h : .endSession ∈ kinds) :
    (forceLogoutUser adminId userId reason).Calls (Within kinds) :=
  .bind findUserOrThrow_calls fun _ =>
    .bind (.bind (.await (.inr h)) fun _ => await_plain rfl) fun _ =>
    .bind (await_plain rfl) fun _ => trivial

end AdminUsersService

namespace FilesService
variable {userId uploadId fileId : Id} {state : UploadMeta}

theorem ignoring_calls {P : Request → Prop} {x : Routine Unit} (hx : x.Calls P) :
    (ignoring x).Calls P :=
  .handle hx fun _ => trivial

theorem parseUploadMeta_calls {P : Request → Prop} {value : RedisValue} :
    (parseUploadMeta value).Calls P := by
  cases value <;> trivial

theorem checkChunk_calls {P : Request → Prop} {file : Blob} {chunkIndex : Nat} :
    (checkChunk state file chunkIndex).Calls P := by
  unfold checkChunk
  split
  · exact .bind .throwIf fun _ => .bind .throwIf fun _ => .bind .throwIf fun _ => trivial
  · trivial

section
variable {P : Request → Prop} (tracks : ∀ q, q.tracks = true → P q)
include tracks

theorem getMasterKeyForUser_calls : (getMasterKeyForUser userId).Calls P := by
  refine .bind (.await (tracks _ rfl)) fun value => ?_
  split <;> trivial

theorem delUploadIndex_calls {s3UploadId : Option Id} : (delUploadIndex s3UploadId).Calls P := by
  cases s3UploadId with
  | none => trivial
  | some id => exact .await (tracks _ rfl)

theorem forgetUpload_calls : (forgetUpload userId uploadId state).Calls P :=
  .bind (.await (tracks _ rfl)) fun _ => .bind (delUploadIndex_calls tracks) fun _ =>
    .await (tracks _ rfl)

theorem undoFinalize_calls {removal : Routine Unit} {e : Thrown} (h : removal.Calls P) :
    (undoFinalize userId uploadId state removal e).Calls P :=
  .bind (ignoring_calls h) fun _ => .bind (forgetUpload_calls tracks) fun _ => trivial

theorem abortActiveUpload_calls : (abortActiveUpload userId uploadId state).Calls P :=
  have rest : (do
      await (.redis (.write (.del (.uploadMeta userId uploadId))))
      releaseActiveUpload userId uploadId : Routine Unit).Calls P :=
    .bind (.await (tracks _ rfl)) fun _ => .await (tracks _ rfl)
  .ite (.bind (.await (tracks _ rfl)) fun _ => .bind (delUploadIndex_calls tracks) fun _ => rest)
    rest

theorem makeRoomForActiveUpload_calls : (makeRoomForActiveUpload userId).Calls P := by
  refine .bind (.await (tracks _ rfl)) fun _ =>
    .ite trivial (.bind (.await (tracks _ rfl)) fun _ => ?_)
  have rest : ∀ xs : List (Id × UploadMeta),
      (Prog.forEach xs fun x => abortActiveUpload userId x.1 x.2).Calls P :=
    fun _ => .forEach fun _ => abortActiveUpload_calls tracks
  exact .ite (.bind (.await (tracks _ rfl)) fun _ =>
    .ite (.bind (.await (tracks _ rfl)) fun _ => rest _) (rest _))
    (.ite (.bind (.await (tracks _ rfl)) fun _ => rest _) (rest _))

theorem undoRegistration_calls {s3UploadId : Id} {created : Bool} {e : Thrown} :
    (undoRegistration userId uploadId state s3UploadId created e).Calls P :=
  .bind (ignoring_calls (.await (tracks _ rfl))) fun _ =>
    .ite (.bind (.await (tracks _ rfl)) fun _ => .bind (.await (tracks _ rfl)) fun _ => trivial)
      (.bind (.await (tracks _ rfl)) fun _ => trivial)

theorem registerUpload_calls {s3UploadId : Id} :
    (registerUpload userId uploadId state s3UploadId).Calls P :=
  .bind (.handle (.await (tracks _ rfl)) fun _ => undoRegistration_calls tracks) fun _ =>
    .handle (.bind (.await (tracks _ rfl)) fun _ =>
      .bind (makeRoomForActiveUpload_calls tracks) fun _ =>
      .bind (.await (tracks _ rfl)) fun _ => .await (tracks _ rfl)) fun _ =>
        undoRegistration_calls tracks

theorem acquireUploadInitLock_calls : (acquireUploadInitLock userId).Calls P :=
  .bind (.await (tracks _ rfl)) fun _ => .bind (.await (tracks _ rfl)) fun _ =>
    .bind .throwIf fun _ => trivial

theorem handleChunk_calls {file : Blob} {chunkIndex : Nat} :
    (handleChunk userId uploadId file chunkIndex).Calls P :=
  .bind (.await (tracks _ rfl)) fun
    | none => trivial
    | some _ => .bind parseUploadMeta_calls fun _ => .bind checkChunk_calls fun _ =>
      .bind (.await (tracks _ rfl)) fun _ => .bind (.await (tracks _ rfl)) fun _ =>
        .bind (.await (tracks _ rfl)) fun _ =>
        .bind (.await (tracks _ rfl)) fun _ =>
          .ite (.bind (ignoring_calls (.await (tracks _ rfl))) fun _ => trivial)
            (.bind (.await (tracks _ rfl)) fun _ => .await (tracks _ rfl))

theorem cancelUpload_calls : (cancelUpload userId uploadId).Calls P := by
  have rest : (do
      await (.redis (.write (.del (.uploadMeta userId uploadId))))
      releaseActiveUpload userId uploadId : Routine Unit).Calls P :=
    .bind (.await (tracks _ rfl)) fun _ => .await (tracks _ rfl)
  refine .bind (.await (tracks _ rfl)) fun
    | none => .await (tracks _ rfl)
    | some (.upload _) =>
      .ite (.bind (.await (tracks _ rfl)) fun _ => .bind (delUploadIndex_calls tracks) fun _ =>
        rest) rest
    | some (.text _) => rest
    | some (.token _) => rest
    | some (.index _) => rest
    | some (.members _) => rest

end

theorem initializeUpload_calls {dto : InitUploadDto} :
    (initializeUpload cfg userId dto).Calls (Within kinds) := by
  refine .bind (getMasterKeyForUser_calls tracks_within) fun _ => .bind .throwIf fun _ =>
    .bind (await_plain rfl) fun _ =>
    .bind (await_plain rfl) fun _ => .bind (await_plain rfl) fun _ =>
      .bind (await_plain rfl) fun _ =>
      .bind (acquireUploadInitLock_calls tracks_within) fun _ => ?_
  refine .bind (.handle (.bind (await_plain rfl) fun _ => .bind (await_plain rfl) fun _ =>
    registerUpload_calls tracks_within) fun _ => ?_) fun _ => ?_
  · exact .bind (ignoring_calls (await_plain rfl)) fun _ => trivial
  · exact .bind (ignoring_calls (await_plain rfl)) fun _ => trivial

section
variable {P : Request → Prop} (h : Creating P userId)
include h

theorem storeCompletedUpload_calls {dto : CompleteUploadDto} {key : String} {iv : Id} :
    (storeCompletedUpload userId uploadId dto state key iv).Calls P := by
  refine .bind (.await (h.aside _ rfl)) fun _ => .bind ?_ fun _ => .bind .throwIf fun _ =>
    .bind (.await (h.creates _ rfl)) fun _ => .bind (forgetUpload_calls h.tracks) fun _ => trivial
  split <;> trivial

theorem finalizeChecked_calls {dto : CompleteUploadDto} {key : String} {iv : Id} :
    (finalizeChecked userId uploadId dto state key iv).Calls P :=
  .bind (.handle (.bind (.await (h.aside _ rfl)) fun _ => trivial) fun _ => trivial) fun
    | .ok _ => .handle (storeCompletedUpload_calls h) fun _ =>
      undoFinalize_calls h.tracks (.await (h.aside _ rfl))
    | .error _ => undoFinalize_calls h.tracks (.await (h.aside _ rfl))

theorem finalizeUpload_calls {dto : CompleteUploadDto} :
    (finalizeUpload cfg userId uploadId dto).Calls P :=
  .bind (getMasterKeyForUser_calls h.tracks) fun _ => .bind (.await (h.aside _ rfl)) fun _ =>
    .bind (.await (h.aside _ rfl)) fun
      | none => trivial
      | some _ =>
        .bind parseUploadMeta_calls fun _ => .bind .throwIf fun _ => .bind .throwIf fun _ =>
        finalizeChecked_calls h

end

theorem deleteFileInternal_calls (h : .deleteFile ∈ kinds) :
    (deleteFileInternal fileId).Calls (Within kinds) :=
  .bind (await_plain rfl) fun
    | none => trivial
    | some _ => .bind (ignoring_calls (await_plain rfl)) fun _ => .await (.inr h)

theorem deleteFile_calls (h : .deleteFile ∈ kinds) :
    (deleteFile userId fileId).Calls (Within kinds) :=
  .bind (await_plain rfl) fun
    | none => trivial
    | some _ => .bind .throwIf fun _ => deleteFileInternal_calls h

theorem getDownloadableFile_calls {token : Id} (h : .deleteFile ∈ kinds) :
    (getDownloadableFile fileId token).Calls (Within kinds) :=
  .bind (await_plain rfl) fun
    | none => trivial
    | some _ => .bind .throwIf fun _ => .bind (await_plain rfl) fun _ =>
      .ite (.bind (deleteFileInternal_calls h) fun _ => trivial) trivial

theorem handleCleanup_calls (h : .deleteFile ∈ kinds) : handleCleanup.Calls (Within kinds) :=
  .bind (await_plain rfl) fun _ => .forEach fun _ => deleteFileInternal_calls h

end FilesService

section
variable {userId : Id} {P : Request → Prop} (h : Creating P userId)
include h

theorem createBin_calls {dto : CreateBinDto} : (BinsService.createBin cfg userId dto).Calls P :=
  .bind (FilesService.getMasterKeyForUser_calls h.tracks) fun _ =>
    .bind (.await (h.aside _ rfl)) fun _ =>
    .bind .throwIf fun _ => .bind (.await (h.aside _ rfl)) fun _ =>
      .bind (.await (h.aside _ rfl)) fun _ =>
      .bind (.await (h.aside _ rfl)) fun _ => .await (h.creates _ rfl)

theorem createWithin_calls {url : String} (attempts : Nat) :
    (LinksService.createWithin cfg userId url attempts).Calls P := by
  induction attempts with
  | zero => trivial
  | succ attempts ih =>
    exact .bind (.await (h.aside _ rfl)) fun _ => .handle (.await (h.creates _ rfl)) fun _ =>
      .ite ih trivial

theorem createLink_calls {url : String} : (LinksService.create cfg userId url).Calls P :=
  .bind (.await (h.aside _ rfl)) fun _ => .bind .throwIf fun _ => createWithin_calls h _

theorem blockSender_calls {email : String} : (MailService.blockSender cfg userId email).Calls P :=
  .bind (.await (h.creates _ rfl)) fun _ => trivial

end

section
variable {P : Request → Prop}

theorem storeAttachments_calls (aside : ∀ q, q.aside = true → P q)
    (attachments : List (String × String × Nat)) :
    (MailService.storeAttachments attachments).Calls P := by
  induction attachments with
  | nil => trivial
  | cons x rest ih =>
    exact .bind (.await (aside _ rfl)) fun _ => .bind (.await (aside _ rfl)) fun _ =>
      .bind ih fun _ => trivial

theorem storeMailboxMail_calls {user : User} {mail : IncomingMail} (h : Creating P user.id) :
    (MailService.storeMailboxMailForUser cfg user mail).Calls P :=
  .bind (.await (h.aside _ rfl)) fun _ => .bind (.await (h.aside _ rfl)) fun _ =>
    .bind (.await (h.aside _ rfl)) fun _ => .bind (.await (h.aside _ rfl)) fun _ =>
      .bind (storeAttachments_calls h.aside _) fun _ => .await (h.creates _ rfl)

theorem processIncomingMail_calls {mail : IncomingMail} (h : .createContent ∈ kinds) :
    (MailService.processIncomingMail cfg mail).Calls (Within kinds) :=
  .ite trivial <| .bind (await_plain rfl) fun
    | none => trivial
    | some _ => .ite trivial <| .bind (await_plain rfl) fun _ => .ite trivial <|
      .bind (await_plain rfl) fun _ => .ite trivial <|
        .bind (storeMailboxMail_calls (creating_within h)) fun _ => trivial

end
namespace Operation

def footprint : Operation → List RequestKind
  | login .. => [.processDeletion, .reactivate, .sign]
  | refreshToken .. => [.processDeletion, .reactivate, .swapSession, .sign]
  | logout .. | changePassword .. | recoverPassword .. => [.endSession]
  | reactivateAccount .. => [.processDeletion, .reactivate]
  | requestAccountDeletion .. => [.requestDeletion]
  | processPendingDeletionRequests => [.processDeletion]
  | processExpiredRestrictions => [.reactivate]
  | adminLogin .. => [.sign]
  | adminRefreshToken .. => [.swapSession, .sign]
  | adminLogout .. | adminChangePassword .. | forceLogoutUser .. => [.endSession]
  | updateUserStatus .. => [.reactivate, .restrict, .markDeleted]
  | generateInviteCode .. | createBin .. | createLink .. | blockSender .. | processIncomingMail ..
  | completeUpload .. => [.createContent]
  | initializeUpload .. | uploadChunk .. | releaseUploadLock .. | cancelUpload .. => []
  | deleteFile .. | downloadFile .. | handleCleanup => [.deleteFile]

theorem guarded_calls {payload : TokenPayload} {body : Id → Routine Outcome}
    (h : ∀ userId, (body userId).Calls (Within kinds)) :
    (guarded payload body).Calls (Within kinds) :=
  .bind (.bind (await_plain rfl) fun
    | none => trivial
    | some _ => .bind .throwIf fun _ => .bind .throwIf fun _ => trivial) fun _ => h _

theorem adminGuarded_calls {payload : TokenPayload} {body : Id → Routine Outcome}
    (h : ∀ adminId, (body adminId).Calls (Within kinds)) :
    (adminGuarded payload body).Calls (Within kinds) :=
  .bind (.bind (await_plain rfl) fun
    | none => trivial
    | some _ => .bind .throwIf fun _ => trivial) fun _ => h _

/-- Each operation stays within its footprint. -/
theorem program_calls (op : Operation) : (op.program cfg).Calls (Within op.footprint) := by
  have done {α : Type} {x : Routine α} {f : α → Outcome} {kinds : List RequestKind}
      (h : x.Calls (Within kinds)) : (x.bind fun a => .ret (f a)).Calls (Within kinds) :=
    h.bind fun _ => trivial
  cases op <;> simp only [program, footprint, bind_eq, pure_eq]
  case login dto =>
    exact .bind (AuthService.login_calls (by decide) (by decide) (by decide)) fun
      | .tokens _ => trivial
      | .pendingDeletion _ _ => trivial
  case refreshToken payload =>
    exact done (AuthService.refreshToken_calls (by decide) (by decide) (by decide) (by decide))
  case logout payload => exact guarded_calls fun _ => done (AuthService.logout_calls (by decide))
  case changePassword payload dto =>
    exact guarded_calls fun _ => done (AuthService.changePassword_calls (by decide))
  case recoverPassword dto => exact done (AuthService.recoverPassword_calls (by decide))
  case reactivateAccount payload =>
    exact done (AuthService.reactivateAccount_calls (by decide) (by decide))
  case requestAccountDeletion payload password =>
    exact guarded_calls fun _ => done (UsersService.requestAccountDeletion_calls (by decide))
  case processPendingDeletionRequests =>
    exact done (.bind (await_plain rfl) fun _ => .forEach fun _ =>
      UsersService.finalizePendingDeletion_calls (by decide))
  case processExpiredRestrictions =>
    exact done (.bind (await_plain rfl) fun _ => .forEach fun _ =>
      UsersService.reactivateUser_calls (by decide))
  case adminLogin dto => exact done (AdminAuthService.login_calls (by decide))
  case adminRefreshToken payload =>
    exact done (AdminAuthService.refreshToken_calls (by decide) (by decide))
  case adminLogout payload =>
    exact adminGuarded_calls fun _ => done (AdminAuthService.logout_calls (by decide))
  case adminChangePassword payload dto =>
    exact adminGuarded_calls fun _ => done (AdminAuthService.changePassword_calls (by decide))
  case updateUserStatus payload userId dto =>
    exact adminGuarded_calls fun _ =>
      done (AdminUsersService.updateUserStatus_calls (by decide) (by decide) (by decide))
  case forceLogoutUser payload userId reason =>
    exact adminGuarded_calls fun _ => done (AdminUsersService.forceLogoutUser_calls (by decide))
  case generateInviteCode payload =>
    exact guarded_calls fun _ => done (UsersService.generateInviteCode_calls (by decide))
  case createBin payload dto =>
    exact guarded_calls fun _ => done (createBin_calls (creating_within (by decide)))
  case createLink payload url =>
    exact guarded_calls fun _ => done (createLink_calls (creating_within (by decide)))
  case blockSender payload email =>
    exact guarded_calls fun _ => done (blockSender_calls (creating_within (by decide)))
  case processIncomingMail mail =>
    exact .bind (processIncomingMail_calls (by decide)) fun
      | .ignored _ => trivial
      | .success _ => trivial
  case initializeUpload payload dto =>
    exact guarded_calls fun _ => done FilesService.initializeUpload_calls
  case uploadChunk payload uploadId file chunkIndex =>
    exact guarded_calls fun _ =>
      .bind (.bind (await_plain rfl) fun _ => .bind (await_plain rfl) fun _ =>
        .bind .throwIf fun _ => trivial) fun _ =>
        .bind .throwIf fun _ => .bind (FilesService.handleChunk_calls tracks_within) fun _ =>
          trivial
  case releaseUploadLock userId uploadId token => exact done (await_plain rfl)
  case completeUpload payload uploadId dto =>
    exact guarded_calls fun _ => done
      (FilesService.finalizeUpload_calls (creating_within (by decide)))
  case cancelUpload payload uploadId =>
    exact guarded_calls fun _ => done (FilesService.cancelUpload_calls tracks_within)
  case deleteFile payload fileId =>
    exact guarded_calls fun _ => done (FilesService.deleteFile_calls (by decide))
  case downloadFile fileId token => exact done (FilesService.getDownloadableFile_calls (by decide))
  case handleCleanup => exact done (FilesService.handleCleanup_calls (by decide))

end Operation
end Redbox
