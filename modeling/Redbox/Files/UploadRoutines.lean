import Redbox.Files.UploadLeases

/-! The requests that go on with an upload or end it, and the job that aborts stale uploads, under
the locks. -/
namespace Redbox
open Interleaving

section
variable {cfg : Config} {p p' : Nat} {s s' : SharedUploads} {c : Delivery} {P : UploadRequest →
  Prop} {α β : Type}

theorem UploadsInv.grows_after (h : UploadsInv s) (q : UploadRequest) :
    Grows s ((uploads cfg).after c p q s) where
  log := List.subset_cons_self _ _
  dates p' i hc := by
    cases q with
    | listMultipartUploads m => cases c <;> rfl
    | listParts key i => cases c <;> rfl
    | backend q =>
      simp only [System.after, uploads, UploadWorld.exec]
      split
      · rfl
      · unfold UploadWorld.dated
        split
        · exact AList.lookup_insert_ne (Nat.ne_of_lt (h.drawn (Drew.of_created hc)))
        · rfl
        · rfl

theorem Grows.tick {n : Nat} : Grows s ((uploads cfg).moved n s) :=
  ⟨fun _ he => he, fun _ _ _ => rfl⟩

/-- What grows is known for good. -/
theorem Held.growing {F : SharedUploads → Prop} (hF : ∀ s s', Grows s s' → F s → F s') :
    Held (uploads cfg) locksOutlast uploadsOutline p P F where
  stable s s' h hs := by
    cases h with
    | other ne hi => exact hF _ _ (hi.grows_after _) hs
    | drift => exact hF _ _ .tick hs
  own _ hi _ _ hs := hF _ _ (hi.grows_after _) hs

/-- What the process has done so far. -/
theorem Held.ownEvents {K : UploadEvent → Prop} (hK : ∀ q r, P q → K ⟨p, q, r⟩) :
    Held (uploads cfg) locksOutlast uploadsOutline p P fun s => Own p K s.log where
  stable s s' h hs := by
    cases h with
    | other ne => exact hs.cons fun heq => absurd heq ne
    | drift => exact hs
  own hq _ _ _ hs := hs.cons fun _ => hK _ _ hq

theorem Held.imp (A : Prop) {F : SharedUploads → Prop}
    (hF : Held (uploads cfg) locksOutlast uploadsOutline p P F) :
    Held (uploads cfg) locksOutlast uploadsOutline p P fun s => A → F s :=
  ⟨fun _ _ hstep h ha => hF.stable hstep (h ha), fun hq hi hallow hp h ha =>
    hF.own hq hi hallow hp (h ha)⟩

/-- The process has read no metadata to make room. -/
def Unread (p : Nat) (s : SharedUploads) : Prop := Own p (fun e => UploadEvent.reads e = []) s.log

def NoMget (q : UploadRequest) : Prop := ∀ keys, q ≠ .backend (.redis (.mget keys))

theorem Unread.held : Held (uploads cfg) locksOutlast uploadsOutline p NoMget (Unread p) := by
  refine Held.ownEvents fun q r hq => ?_
  unfold UploadEvent.reads
  split
  · rename_i heq
    cases heq
    exact absurd rfl (hq _)
  · rfl

theorem Unread.orderly {q : UploadRequest} (h : Unread p s) : Orderly p q s.log := by
  intro e he hp u x state hr
  rw [h e he hp] at hr
  cases hr

theorem liftUpload_bind (x : Routine α) (f : α → Routine β) :
    liftUpload (x.bind f) = (liftUpload x).bind fun a => liftUpload (f a) :=
  Prog.expand_bind x f

theorem liftUpload_await (q : Request) : liftUpload (await q) = awaitUpload (.backend q) := by
  show Prog.call _ _ = Prog.call _ _
  congr
  funext r
  cases r <;> rfl

theorem liftUpload_handle (x : Routine α) (f : Thrown → Routine α) :
    liftUpload (x.handle f) = (liftUpload x).handle fun e => liftUpload (f e) := by
  induction x with
  | ret a => rfl
  | throw e => rfl
  | call q k ih =>
    show Prog.call _ _ = Prog.call _ _
    congr
    funext r
    exact ih r

section
variable (cfg p)

/-- Process `p` respects the outline, and returns only where `G` holds. -/
def Gives (x : UploadRoutine α) (G : α → SharedUploads → Prop) (s : SharedUploads) : Prop :=
  Meets (uploads cfg) locksOutlast uploadsOutline p x (fun r t => ∀ a, r = .ok a → G a t) s

end

section
variable {x : UploadRoutine α} {G : α → SharedUploads → Prop} {F : SharedUploads → Prop}

theorem Gives.throw {e : Thrown} : Gives cfg p (.throw e) G s := fun _ _ _ a ha => by cases ha

theorem Gives.ret {a : α} (hF : Held (uploads cfg) locksOutlast uploadsOutline p P F) (hs : F s)
    (h : ∀ t, F t → G a t) : Gives cfg p (.ret a) G s :=
  Meets.ret hF.stable hs fun t ht _ b hb => by cases hb; exact h t ht

theorem Gives.await {q : UploadRequest} {f : q.Answer → UploadRoutine α}
    (hF : Held (uploads cfg) locksOutlast uploadsOutline p P F) (hq : P q) (hs : F s)
    (h : ∀ t, F t → UploadsInv t → uploadsOutline.pre t p q ∧ ∀ c a,
      (uploads cfg).reply c q t = .ok a →
      F ((uploads cfg).after c p q t) → UploadsInv ((uploads cfg).after c p q t) →
        Gives cfg p (f a) G ((uploads cfg).after c p q t)) :
          Gives cfg p ((awaitUpload q).bind f) G s := by
  refine Meets.await hF.stable hs fun t ht hi c ha => ?_
  obtain ⟨hp, hnext⟩ := h t ht hi
  refine ⟨hp, fun a hr => ?_, fun _ _ => Gives.throw⟩
  exact hnext c a hr (hF.own hq hi ha hp ht) (uploads_kept.after hi ha hp)

theorem Gives.bind {f : α → UploadRoutine β} {H : β → SharedUploads → Prop} (hx : Gives cfg p x G s)
    (hf : ∀ a t, UploadsInv t → G a t → Gives cfg p (f a) H t) : Gives cfg p (x.bind f) H s :=
  Meets.returned hx (fun _ _ _ ha => by cases ha) hf

theorem Gives.mono {H : α → SharedUploads → Prop} (hx : Gives cfg p x G s)
    (h : ∀ a t, G a t → H a t) :
    Gives cfg p x H s :=
  Meets.mono hx fun _ _ _ ht a ha => h a _ (ht a ha)

/-- What the body knows throughout, the catch block starts from. -/
theorem Gives.attempt {f : Thrown → UploadRoutine α}
    (hF : Held (uploads cfg) locksOutlast uploadsOutline p P F) (hcalls : x.Calls P) (hs : F s)
    (hx : Gives cfg p x G s) (hf : ∀ e t, F t → UploadsInv t → Gives cfg p (f e) G t) :
    Gives cfg p (x.handle f) G s := by
  refine Meets.caught (Meets.mono (hx.carry hF hcalls hs) fun r t hi ht => ?_)
  cases r with
  | ok a => exact ht.1
  | error e => exact hf e t ht.2 hi

/-- One call of a routine of the files service, in front of the rest. -/
theorem Gives.call {q : Request} {f : q.Answer → Routine α} {G : α → SharedUploads → Prop}
    (hF : Held (uploads cfg) locksOutlast uploadsOutline p P F) (hq : P (.backend q)) (hs : F s)
    (h : ∀ t, F t → UploadsInv t → uploadsOutline.pre t p (.backend q) ∧
      ∀ c a, (uploads cfg).reply c (.backend q) t = .ok a →
        F ((uploads cfg).after c p (.backend q) t) →
        UploadsInv ((uploads cfg).after c p (.backend q) t) →
          Gives cfg p (liftUpload (f a)) G ((uploads cfg).after c p (.backend q) t)) :
    Gives cfg p (liftUpload ((Redbox.await q).bind f)) G s := by
  rw [liftUpload_bind, liftUpload_await]
  exact Gives.await hF hq hs h

theorem Gives.seq {x : Routine α} {f : α → Routine β} {G : α → SharedUploads → Prop}
    {H : β → SharedUploads → Prop} (hx : Gives cfg p (liftUpload x) G s)
    (hf : ∀ a t, UploadsInv t → G a t → Gives cfg p (liftUpload (f a)) H t) :
    Gives cfg p (liftUpload (x.bind f)) H s := by
  rw [liftUpload_bind]
  exact hx.bind hf

theorem Gives.check {C : Prop} [Decidable C] {e : Thrown} {f : Unit → Routine α}
    {G : α → SharedUploads → Prop} (h : ¬ C → Gives cfg p (liftUpload (f ())) G s) :
    Gives cfg p (liftUpload ((Prog.throwIf C e).bind f)) G s := by
  unfold Prog.throwIf
  split
  · exact Gives.throw
  · exact h ‹_›

theorem Gives.trivial (h : Follows (uploads cfg) locksOutlast uploadsOutline p x s) :
    Gives cfg p x (fun _ _ => True) s :=
  Meets.mono h fun _ _ _ _ _ _ => True.intro

end
end

namespace Request

/-- The calls by which an upload comes to its end. -/
def withdraws (uploadId : Id) : Request → Bool
  | .redis (.write (.del (.uploadMeta _ _))) | .redis (.write (.del (.uploadIndex _))) => true
  | .redis (.write (.srem (.uploadActive _) id)) => decide (id = uploadId)
  | .redis (.get _) | .redis (.exists _) | .query _ | .statement _ | .now | .random => true
  | .s3 .files (.createMultipartUpload _) | .s3 .files (.uploadPart _ _ _ _) => false
  | .s3 _ _ => true
  | _ => false

end Request

section
variable {cfg : Config} {p : Nat} {s : SharedUploads} {uploadId : Id}

/-- Calls that write nothing to Redis. -/
theorem pre_of_writes_nil {q : UploadRequest} (hready : q.Ready p s) (hw : q.writes = []) :
    uploadsOutline.pre s p q := by
  refine ⟨hready, ?_, ?_⟩
  · intro _ _ _ _ _ _ _ w hmem
    rw [hw] at hmem
    cases hmem
  · intro w hmem
    rw [hw] at hmem
    cases hmem

theorem pre_write {w : RedisWrite} (hready : (UploadRequest.backend (.redis (.write w))).Ready p s)
    (ho : Orderly p (.backend (.redis (.write w))) s.log) (hw : WriteAllowed p s w) :
    uploadsOutline.pre s p (.backend (.redis (.write w))) := by
  refine ⟨hready, ho, fun w' hw' => ?_⟩
  rw [List.mem_singleton.mp hw']
  exact hw

theorem WriteAllowed.delMeta {u x : Id} : WriteAllowed p s (.del (.uploadMeta u x)) :=
  ⟨fun _ h => RedisKey.noConfusion h, fun _ h => RedisKey.noConfusion h⟩

theorem WriteAllowed.delIndex {i : Id} : WriteAllowed p s (.del (.uploadIndex i)) :=
  ⟨fun _ h => RedisKey.noConfusion h, fun _ h => RedisKey.noConfusion h⟩

/-- Whoever was told the name of an upload may end it. -/
theorem withdraws_pre {q : Request} (hq : q.withdraws uploadId = true) (hread : Unread p s)
    (hsettled : Settled uploadId s) : uploadsOutline.pre s p (.backend q) := by
  unfold Request.withdraws at hq
  split at hq
  case h_1 => exact pre_write trivial hread.orderly .delMeta
  case h_2 => exact pre_write trivial hread.orderly .delIndex
  case h_3 =>
    cases of_decide_eq_true hq
    exact pre_write trivial hread.orderly ⟨_, rfl, .inl hsettled⟩
  case h_10 => cases hq
  case h_11 => cases hq
  case h_12 name x hcreate hupload =>
    refine pre_of_writes_nil ?_ rfl
    cases name with
    | mails => trivial
    | files =>
      cases x with
      | createMultipartUpload key => exact absurd rfl (hcreate key rfl)
      | uploadPart key id n body => exact absurd rfl (hupload key id n body rfl)
      | _ => trivial
  case h_13 => cases hq
  all_goals exact pre_of_writes_nil trivial rfl

theorem nextId_after (q : UploadRequest) {c : Delivery} :
    s.store.world.nextId ≤ ((uploads cfg).after c p q s).store.world.nextId := by
  cases q with
  | backend q => exact World.nextId_exec
  | listMultipartUploads m => cases c <;> exact Nat.le_refl _
  | listParts key i => cases c <;> exact Nat.le_refl _

/-- Names are new. -/
theorem draws_reply {q : UploadRequest} {c : Delivery} {id : Id}
    (h : UploadEvent.draws ⟨p, q, (uploads cfg).reply c q s⟩ = some id) :
    id = s.store.world.nextId := by
  generalize hr : (uploads cfg).reply c q s = r at h
  unfold UploadEvent.draws at h
  split at h
  · rename_i heq
    cases heq
    cases h
    cases c <;> cases hr <;> rfl
  · rename_i heq
    cases heq
    cases h
    cases c <;> cases hr <;> rfl
  · cases h

theorem drew_of_after {q : UploadRequest} {c : Delivery} {p' : Nat} {id : Id}
    (h : Drew p' id ((uploads cfg).after c p q s).log) (hid : id < s.store.world.nextId) :
    Drew p' id s.log :=
  h.cons.resolve_right fun hnew => Nat.ne_of_lt hid (draws_reply hnew.2)

theorem created_of_after {q : UploadRequest} {c : Delivery} {p' : Nat} {id : Id}
    (h : Created p' id ((uploads cfg).after c p q s).log) (hid : id < s.store.world.nextId) :
    Created p' id s.log :=
  h.cons.resolve_right fun hnew => Nat.ne_of_lt hid
    (draws_reply (UploadEvent.draws_of_creates hnew.2))

theorem Settled.held {P : UploadRequest → Prop} :
    Held (uploads cfg) locksOutlast uploadsOutline p P (Settled uploadId) := by
  have after : ∀ {s : SharedUploads} {p c q}, UploadsInv s → Settled uploadId s →
      Settled uploadId ((uploads cfg).after c p q s) := by
    intro s p c q hi h
    refine ⟨Nat.lt_of_lt_of_le h.named (nextId_after q), fun p' hd => ?_⟩
    exact ended_mono (h.ended p' (drew_of_after hd h.named)) (hi.grows_after q).log
  refine ⟨fun s s' hstep h => ?_, fun _ hi _ _ h => after hi h⟩
  cases hstep with
  | other ne hi => exact after hi h
  | drift => exact ⟨h.named, h.ended⟩

/-- A routine that ends an upload whose name has been handed out. -/
theorem withdraws_follows {α : Type} {x : Routine α}
    (hx : x.Calls fun q => q.withdraws uploadId = true) (hread : Unread p s)
    (hsettled : Settled uploadId s) : Gives cfg p (liftUpload x) (fun _ _ => True) s := by
  have hcalls : (liftUpload x).Calls fun q => ∃ q', q = .backend q' ∧
      q'.withdraws uploadId = true :=
    hx.expand fun q hq => ⟨⟨q, rfl, hq⟩, fun _ => trivial⟩
  refine Gives.trivial (Meets.mono (Meets.heldCalls (Unread.held.and Settled.held) hcalls ?_ ?_
    ⟨hread, hsettled⟩)
    fun _ _ _ _ => trivial)
  · rintro q ⟨q', rfl, hq⟩ keys heq
    cases heq
    cases hq
  · rintro t q c ⟨q', rfl, hq⟩ _ ⟨hread, hsettled⟩ _
    exact withdraws_pre hq hread hsettled

open FilesService in
theorem forgetUpload_withdraws {u : Id} {state : UploadMeta} :
    (forgetUpload u uploadId state).Calls fun q => q.withdraws uploadId = true := by
  refine .bind (.await rfl) fun _ => .bind ?_ fun _ => .await (decide_eq_true rfl)
  unfold delUploadIndex
  split
  · exact .await rfl
  · trivial

theorem undoFinalize_withdraws {u : Id} {state : UploadMeta} {removal : Routine Unit} {e : Thrown}
    (hremoval : removal.Calls fun q => q.withdraws uploadId = true) :
    (FilesService.undoFinalize u uploadId state removal e).Calls fun q =>
      q.withdraws uploadId = true := by
  refine .bind ?_ fun _ => .bind forgetUpload_withdraws fun _ => trivial
  exact .handle hremoval fun _ => trivial

theorem finalizeUpload_withdraws {u : Id} {dto : CompleteUploadDto} :
    (FilesService.finalizeUpload cfg u uploadId dto).Calls fun q =>
      q.withdraws uploadId = true := by
  have store : ∀ state key iv, (FilesService.storeCompletedUpload u uploadId dto state key iv).Calls
      fun q => q.withdraws uploadId = true := by
    intro state key iv
    refine .bind (.await rfl) fun _ => .bind ?_ fun _ => .bind .throwIf fun _ =>
      .bind (.await rfl) fun _ => .bind forgetUpload_withdraws fun _ => trivial
    split <;> trivial
  have master : (FilesService.getMasterKeyForUser u).Calls fun q =>
      q.withdraws uploadId = true := by
    refine .bind (.await rfl) fun _ => ?_
    split <;> trivial
  refine .bind master fun _ => .bind (.await rfl) fun iv => .bind (.await rfl) fun value => ?_
  split
  · rename_i value
    refine .bind (by cases value <;> trivial) fun state => .bind .throwIf fun _ =>
      .bind .throwIf fun _ => ?_
    refine .bind (.handle (.bind (.await rfl) fun _ => trivial) fun _ => trivial) fun r => ?_
    cases r with
    | ok _ => exact .handle (store _ _ _) fun _ => undoFinalize_withdraws (.await rfl)
    | error _ => exact undoFinalize_withdraws (.await rfl)
  · trivial

theorem cancelUpload_withdraws {u : Id} :
    (FilesService.cancelUpload u uploadId).Calls fun q => q.withdraws uploadId = true := by
  have release : (FilesService.releaseActiveUpload u uploadId).Calls fun q =>
      q.withdraws uploadId = true :=
    .await (decide_eq_true rfl)
  have rest : (do
      await (.redis (.write (.del (.uploadMeta u uploadId))))
      FilesService.releaseActiveUpload u uploadId : Routine Unit).Calls fun q =>
        q.withdraws uploadId = true :=
    .bind (.await rfl) fun _ => release
  refine .bind (.await rfl) fun value => ?_
  split
  · split
    · refine .ite (.bind (.await rfl) fun _ => .bind ?_ fun _ => rest) rest
      unfold FilesService.delUploadIndex
      split
      · exact .await rfl
      · trivial
    · exact rest
  · exact release

/-- The state of an upload, at a later time. -/
theorem Tracked.updated {state state' : UploadMeta} (h : Tracked uploadId state p s)
    (hi : UploadsInv s) (hid : state'.s3UploadId = state.s3UploadId)
    (hnow : s.store.world.clock ≤ state'.updatedAt) :
    Tracked uploadId state' p s := by
  obtain ⟨i, t, hs3, hc, -⟩ := h.created
  obtain ⟨⟨t', ht', hle⟩, -⟩ := hi.created hc.1
  cases hc.2.symm.trans ht'
  exact ⟨h.drew, i, t, hid.trans hs3, hc, hle.trans hnow⟩

theorem Tracked.held {state : UploadMeta} {p' : Nat} {P : UploadRequest → Prop} :
    Held (uploads cfg) locksOutlast uploadsOutline p P (Tracked uploadId state p') :=
  Held.growing fun _ _ hs h => h.grows hs

/-- The clock has been read. -/
theorem reply_now {c : Delivery} {now : Time}
    (h : (uploads cfg).reply c (.backend .now) s = .ok now) :
    now = s.store.world.clock ∧ now =
      ((uploads cfg).after c p (.backend .now) s).store.world.clock := by
  cases c <;> cases h <;> exact ⟨rfl, rfl⟩

/-- What is read from Redis is stored there. -/
theorem reply_get {c : Delivery} {key : RedisKey} {value : RedisValue}
    (h : (uploads cfg).reply c (.backend (.redis (.get key))) s = .ok (some value))
    (hi : UploadsInv s) :
    Sound s key value := by
  have hget : s.store.world.redis.get s.store.world.clock key = some value := by
    cases c <;> first | exact Except.ok.inj h | cases h
  obtain ⟨t, hlook⟩ := Redis.lookup_of_get hget
  exact hi.stored hlook

/-- The metadata of an upload is refreshed. -/
theorem refresh_gives {u p' : Nat} {state : UploadMeta} {F : SharedUploads → Prop}
    (hF : Held (uploads cfg) locksOutlast uploadsOutline p NoMget F) (hs : F s)
    (h : ∀ t, F t → UploadsInv t → Unread p t ∧ Tracked uploadId state p' t) :
    Gives cfg p (liftUpload (FilesService.refreshUploadState u uploadId state)) (fun _ => F) s := by
  rw [FilesService.refreshUploadState, liftUpload_await, ← Prog.bind_ret (awaitUpload _)]
  refine Gives.await hF (fun _ heq => by cases heq) hs fun t ht hi =>
    ⟨?_, fun c a _ ht _ => Gives.ret hF ht fun _ h => h⟩
  obtain ⟨hread, htracked⟩ := h t ht hi
  refine ⟨?_, hread.orderly, ?_⟩
  · intro w hw key member heq
    subst heq
    simp [FilesService.refreshTransaction] at hw
  · intro w hw
    rcases List.mem_cons.mp hw with rfl | hw
    · exact ⟨⟨state, p', rfl, htracked⟩, fun _ h => RedisKey.noConfusion h,
        fun _ h => RedisKey.noConfusion h⟩
    rcases List.mem_cons.mp hw with rfl | hw
    · exact ⟨rfl, fun _ h => RedisKey.noConfusion h⟩
    · obtain ⟨i, _, rfl⟩ : ∃ i, state.s3UploadId = some i ∧
          .expire (.uploadIndex i) uploadMetaTtlSeconds = w := by
        simpa using hw
      exact ⟨rfl, fun _ h => RedisKey.noConfusion h⟩

open FilesService in
theorem checkChunk_gives {state : UploadMeta} {file : Blob} {chunkIndex : Nat}
    {P : UploadRequest → Prop} {F : SharedUploads → Prop}
    (hF : Held (uploads cfg) locksOutlast uploadsOutline p P F) (hs : F s) :
    Gives cfg p (liftUpload (checkChunk state file chunkIndex))
    (fun id t => state.s3UploadId = some id ∧ F t) s := by
  unfold checkChunk
  cases hid : state.s3UploadId with
  | none => exact Gives.throw
  | some id =>
    refine Gives.check fun _ => Gives.check fun _ => Gives.check fun _ => ?_
    exact Gives.ret hF hs fun _ ht => ⟨rfl, ht⟩

theorem Tracked.refreshed {state : UploadMeta} {p' : Nat} {c : Delivery} {now : Time}
    (h : Tracked uploadId state p' s) (p : Nat) (state' : UploadMeta) (hi : UploadsInv s)
    (hnow : (uploads cfg).reply c (.backend .now) s = .ok now)
    (hid : state'.s3UploadId = state.s3UploadId) (hupdated : state'.updatedAt = now) :
    Tracked uploadId state' p' ((uploads cfg).after c p (.backend .now) s) := by
  refine (h.updated hi hid ?_).grows (hi.grows_after _)
  rw [hupdated, (reply_now (p := p) hnow).1]

open FilesService in
/-- A chunk refreshes the metadata that it found. -/
theorem handleChunk_gives {u : Id} {file : Blob} {chunkIndex : Nat} (hs : Unread p s) :
    Gives cfg p (liftUpload (handleChunk u uploadId file chunkIndex)) (fun _ _ => True) s := by
  have known : ∀ state p', Held (uploads cfg) locksOutlast uploadsOutline p NoMget
      fun t => Unread p t ∧ Tracked uploadId state p' t := fun _ _ => Unread.held.and Tracked.held
  refine Gives.call Unread.held (fun _ heq => by cases heq) hs fun t ht hi =>
    ⟨pre_of_writes_nil trivial rfl, ?_⟩
  intro c value hget hread _
  cases value with
  | none => exact Gives.throw
  | some value =>
  obtain ⟨state, p', rfl, htracked⟩ := reply_get hget hi
  change Gives cfg p (liftUpload ((checkChunk state file chunkIndex).bind _)) _ _
  refine Gives.seq (checkChunk_gives (known state p') ⟨hread, htracked.grows (hi.grows_after _)⟩)
    fun id t _ ⟨hid, ht⟩ => ?_
  -- the clock is read, and the metadata stored with the time
  refine Gives.call (q := .now) (known state p') (fun _ heq => by cases heq) ht fun t ht hi =>
    ⟨pre_of_writes_nil trivial rfl, fun c now hnow ht' _ => ?_⟩
  have hnew := ht.2.refreshed p { state with updatedAt := now } hi hnow rfl rfl
  refine Gives.seq (refresh_gives (known _ p') ⟨ht'.1, hnew⟩ fun _ ht _ => ht) fun _ t _ ht => ?_
  refine Gives.call (known _ p') (fun _ heq => by cases heq) ht fun t ht hi =>
    ⟨pre_of_writes_nil ?_ rfl, fun c eTag _ ht' _ => ?_⟩
  · obtain ⟨i, _, hi3, hcreated, _⟩ := ht.2.created
    cases hid.symm.trans hi3
    exact hi.drawn (Drew.of_created hcreated.1)
  refine Gives.call (known _ p') (fun _ heq => by cases heq) ht' fun t ht _ =>
    ⟨pre_of_writes_nil trivial rfl, fun c tracked _ ht' _ => ?_⟩
  split
  · refine Gives.seq (G := fun _ _ => True) ?_ fun _ _ _ _ => Gives.throw
    rw [ignoring, Prog.tryCatch_eq, liftUpload_handle, abortMultipartUpload, liftUpload_await]
    refine Gives.attempt (known _ p') (.await fun _ heq => by cases heq) ht' ?_ fun _ t ht _ =>
      Gives.ret (known _ p') ht fun _ _ => trivial
    rw [← Prog.bind_ret (awaitUpload _)]
    exact Gives.await (known _ p') (fun _ heq => by cases heq) ht' fun t ht _ =>
      ⟨pre_of_writes_nil trivial rfl,
      fun _ _ _ ht' _ => Gives.ret (known _ p') ht' fun _ _ => trivial⟩
  refine Gives.call (q := .now) (known _ p') (fun _ heq => by cases heq) ht' fun t ht hi =>
    ⟨pre_of_writes_nil trivial rfl, fun c now hnow ht' _ => ?_⟩
  have hnew := ht.2.refreshed p (acceptPart { state with updatedAt := _ } (chunkIndex + 1) eTag now)
    hi hnow rfl rfl
  exact (refresh_gives (known _ p') ⟨ht'.1, hnew⟩ fun _ ht _ => ht).mono fun _ _ _ => trivial

/-- No process that created the multipart upload did so after `a`, the time of its last activity. -/
structure LastActive (s3UploadId : Id) (a : Time) (s : SharedUploads) : Prop where
  named : s3UploadId < s.store.world.nextId
  created : ∀ p, Created p s3UploadId s.log → ∃ i t, CreatedAt p i t s ∧ t ≤ a

theorem LastActive.held {i : Id} {a : Time} {P : UploadRequest → Prop} :
    Held (uploads cfg) locksOutlast uploadsOutline p P (LastActive i a) := by
  have after : ∀ {s : SharedUploads} {p c q}, UploadsInv s → LastActive i a s →
      LastActive i a ((uploads cfg).after c p q s) := by
    intro s p c q hi h
    refine ⟨Nat.lt_of_lt_of_le h.named (nextId_after q), fun p' hc => ?_⟩
    obtain ⟨j, t, hcreated, ht⟩ := h.created p' (created_of_after hc h.named)
    exact ⟨j, t, hcreated.grows (hi.grows_after q), ht⟩
  refine ⟨fun s s' hstep h => ?_, fun _ hi _ _ h => after hi h⟩
  cases hstep with
  | other ne hi => exact after hi h
  | drift => exact ⟨h.named, h.created⟩

theorem LastActive.mono {i : Id} {a b : Time} (h : LastActive i a s) (hle : a ≤ b) :
    LastActive i b s :=
  ⟨h.named, fun p hc => (h.created p hc).imp fun _ ⟨t, ht, ha⟩ => ⟨t, ht, ha.trans hle⟩⟩

/-- It is at least `now`. -/
def Past (now : Time) (s : SharedUploads) : Prop := now ≤ s.store.world.clock

theorem Past.held {now : Time} {P : UploadRequest → Prop} :
    Held (uploads cfg) locksOutlast uploadsOutline p P (Past now) := by
  have after : ∀ {s : SharedUploads} {p c q}, Past now s →
      Past now ((uploads cfg).after c p q s) := by
    intro s p c q h
    have hclock : ((uploads cfg).after c p q s).store.world.clock = s.store.world.clock := by
      cases q with
      | listMultipartUploads m => cases c <;> rfl
      | listParts key i => cases c <;> rfl
      | backend q =>
        by_cases hq : ∃ x, q = .redis x
        · obtain ⟨x, rfl⟩ := hq
          cases c <;> rfl
        · exact (World.exec_outside_redis cfg s.store.world c fun x hx => hq ⟨x, hx⟩).2
    rw [Past, hclock]
    exact h
  refine ⟨fun s s' hstep h => ?_, fun _ _ _ _ h => after h⟩
  cases hstep with
  | other ne hi => exact after h
  | drift => exact Nat.le_trans h (Nat.le_add_right _ _)

/-- Who created an upload that has been left alone for an hour has given its lock back. -/
theorem UploadsInv.creator_ended {i : Id} {a : Time} {p' : Nat} (h : UploadsInv s)
    (ha : LastActive i a s) (hstale : Past (a + incompleteUploadStaleMs) s)
    (hc : Created p' i s.log) : ended p' s.log = true := by
  obtain ⟨j, t, hcreated, ht⟩ := ha.created p' hc
  obtain ⟨_, u, token, htook⟩ := h.created hc
  by_contra hend
  obtain ⟨d, hd⟩ := h.lease ⟨htook, by simpa using hend⟩
  refine Nat.lt_irrefl d (Nat.lt_of_le_of_lt ?_ hd.future)
  calc d ≤ t + initLockTtl := hd.created j t hcreated
    _ ≤ a + incompleteUploadStaleMs := Nat.add_le_add ht (by decide)
    _ ≤ s.store.world.clock := hstale

/-- What the cleanup job removes is no upload that a process is about to make active. -/
theorem removeTrackedUploadState_gives {i : Id} {a : Time} (hs : Unread p s) (ha : LastActive i a s)
    (hstale : Past (a + incompleteUploadStaleMs) s) :
    Gives cfg p (FilesService.removeTrackedUploadState i) (fun _ _ => True) s := by
  have known : Held (uploads cfg) locksOutlast uploadsOutline p NoMget
      fun t => Unread p t ∧ LastActive i a t ∧ Past (a + incompleteUploadStaleMs) t :=
    Unread.held.and (LastActive.held.and Past.held)
  refine Gives.await known (fun _ heq => by cases heq) ⟨hs, ha, hstale⟩ fun t ht hi =>
    ⟨pre_of_writes_nil trivial rfl, ?_⟩
  intro c value hget ht' hi'
  cases value with
  | none => exact Gives.ret known ht' fun _ _ => trivial
  | some value =>
  obtain ⟨u, x, p', rfl, hdrew, hcreated⟩ := reply_get hget hi
  have hgrows : Grows t ((uploads cfg).after c p (.backend (.redis (.get (.uploadIndex i)))) t) :=
    hi.grows_after _
  have index : Held (uploads cfg) locksOutlast uploadsOutline p NoMget fun t => Drew p' x t.log ∧
      Created p' i t.log :=
    Held.growing fun _ _ hg h => ⟨h.1.mono hg.log, h.2.mono hg.log⟩
  change Gives cfg p (awaitUpload _) _ _
  rw [← Prog.bind_ret (awaitUpload _)]
  refine Gives.await (known.and index) (fun _ heq => by cases heq) ⟨ht', hdrew.mono hgrows.log,
    hcreated.mono hgrows.log⟩
    fun t ⟨⟨hread, hactive, hpast⟩, hdrew, hcreated⟩ hi =>
      ⟨⟨?_, hread.orderly, ?_⟩, fun _ _ _ ht' _ => Gives.ret (known.and index) ht' fun _ _ =>
      trivial⟩
  · intro w hw key member heq
    subst heq
    simp at hw
  · intro w hw
    have hmem : w = .del (.uploadMeta u x) ∨ w = .srem (.uploadActive u) x ∨
        w = .del (.uploadIndex i) := by
      simpa [UploadRequest.writes] using hw
    rcases hmem with rfl | rfl | rfl
    · exact .delMeta
    · refine ⟨u, rfl, .inl ⟨hi.drawn hdrew, fun q hq => ?_⟩⟩
      cases hi.once hdrew hq
      exact hi.creator_ended hactive hpast hcreated
    · exact .delIndex

open FilesService

/-- What the metadata says was written by whoever created the multipart upload. -/
theorem LastActive.of_get {i u x : Id} {p' : Nat} {c : Delivery} {state : UploadMeta}
    (hget : (uploads cfg).reply c (.backend (.redis (.get (.uploadMeta u x)))) s =
      .ok (some (.upload state))) (hi : UploadsInv s) (hdrew : Drew p' x s.log)
    (hcreated : Created p' i s.log) : LastActive i state.updatedAt s := by
  obtain ⟨state', p'', heq, htracked⟩ := reply_get hget hi
  cases heq
  cases hi.once hdrew htracked.drew
  obtain ⟨j, created, _, hat, hle⟩ := htracked.created
  refine ⟨hi.drawn (Drew.of_created hcreated), fun q hq => ?_⟩
  cases hi.once (Drew.of_created hcreated) (Drew.of_created hq)
  exact ⟨j, created, hat, hle⟩

theorem trackedActivity_gives {i : Id} {value : Option RedisValue}
    (hvalue : ∀ v, value = some v → ∃ u x p', v = .index ⟨.uploadMeta u x, .uploadActive u, x⟩ ∧
      Drew p' x s.log ∧ Created p' i s.log) :
    Gives cfg p (trackedActivity value) (fun r t => ∀ a, r = some a → LastActive i a t) s := by
  have nothing : ∀ {s : SharedUploads}, Gives cfg p (.ret none) (fun r t => ∀ a, r = some a →
    LastActive i a t) s :=
    Gives.ret (P := fun _ => True) (Held.const True) trivial fun _ _ _ ha => by cases ha
  cases value with
  | none => exact nothing
  | some value =>
  obtain ⟨u, x, p', rfl, hdrew, hcreated⟩ := hvalue value rfl
  have known : Held (uploads cfg) locksOutlast uploadsOutline p (fun _ => True) fun t =>
      Drew p' x t.log ∧ Created p' i t.log :=
    Held.growing fun _ _ hg h => ⟨h.1.mono hg.log, h.2.mono hg.log⟩
  refine Meets.outcome (Q := fun r t => ∀ state, r = .ok (some (.upload state)) →
    LastActive i state.updatedAt t) ?_ fun r t hr => ?_
  · rw [← Prog.bind_ret (awaitUpload _)]
    refine Meets.await known.stable ⟨hdrew, hcreated⟩ fun t ⟨hdrew, hcreated⟩ hi c ha =>
      ⟨pre_of_writes_nil trivial rfl, fun value hget => ?_,
        fun e _ => Meets.throw (Stable.const True) trivial fun _ _ _ _ heq => by cases heq⟩
    by_cases hupload : ∃ state, value = some (.upload state)
    · obtain ⟨state, rfl⟩ := hupload
      have hlast := LastActive.of_get hget hi hdrew hcreated
      have held : Held (uploads cfg) locksOutlast uploadsOutline p (fun _ => True)
          (LastActive i state.updatedAt) := LastActive.held
      refine Meets.ret held.stable (held.own trivial hi ha (pre_of_writes_nil trivial rfl) hlast)
        fun t ht _ state' heq => ?_
      cases heq
      exact ht
    · exact Meets.ret (Stable.const True) trivial fun _ _ _ state heq =>
        absurd ⟨state, Except.ok.inj heq⟩ hupload
  · split
    · rename_i state
      exact Gives.ret (P := fun _ => True) LastActive.held (hr state rfl) fun _ h _ ha => by
        cases ha; exact h
    · exact nothing

/-- The last activity that the job finds is no earlier than the creation. -/
theorem getMultipartLastActivity_gives {key i : Id} {initiated : Time}
    (hs : LastActive i initiated s) :
    Gives cfg p (getMultipartLastActivity key i initiated) (fun a t => LastActive i a t) s := by
  have held : Held (uploads cfg) locksOutlast uploadsOutline p (fun _ => True)
      (LastActive i initiated) := LastActive.held
  have hle : ∀ (times : List Time) (b : Time), b ≤ times.foldl max b := by
    intro times
    induction times with
    | nil => exact fun b => Nat.le_refl b
    | cons x times ih => exact fun b => (Nat.le_max_left b x).trans (ih (max b x))
  refine Gives.await held trivial hs fun t ht hi => ⟨pre_of_writes_nil trivial rfl,
    fun c value hget ht' hi' => ?_⟩
  have hvalue : ∀ v, value = some v → ∃ u x p', v = .index ⟨.uploadMeta u x, .uploadActive u, x⟩ ∧
      Drew p' x ((uploads cfg).after c p (.backend (.redis (.get (.uploadIndex i)))) t).log ∧
        Created p' i ((uploads cfg).after c p (.backend (.redis (.get (.uploadIndex i))))
          t).log := by
    rintro v rfl
    obtain ⟨u, x, p', rfl, hdrew, hcreated⟩ := reply_get hget hi
    exact ⟨u, x, p', rfl, hdrew.mono (hi.grows_after _).log, hcreated.mono (hi.grows_after _).log⟩
  refine Gives.bind (Meets.mono (Meets.carry held (Prog.calls_true _)
    (trackedActivity_gives hvalue) ht')
    fun r t _ ht a ha => (⟨ht.1 a ha, ht.2⟩ : (∀ b, a = some b → LastActive i b t) ∧
      LastActive i initiated t)) fun r t _ ht => ?_
  cases r with
  | some a => exact Gives.ret (P := fun _ => True) LastActive.held (ht.1 a rfl) fun _ h => h
  | none =>
    refine Gives.await held trivial ht.2 fun t ht hi => ⟨pre_of_writes_nil trivial rfl,
      fun _ times _ ht' _ => ?_⟩
    exact Gives.ret held ht' fun _ h => h.mono (hle times initiated)

theorem getMultipartLastActivity_calls {key i : Id} {initiated : Time} :
    (getMultipartLastActivity key i initiated).Calls NoMget := by
  refine .bind (.await fun _ heq => by cases heq) fun value => .bind ?_ fun r => ?_
  · unfold trackedActivity
    split
    · refine .bind (.handle (.bind (.await fun _ heq => by cases heq) fun _ => trivial) fun _ =>
        trivial) fun r => ?_
      split <;> trivial
    · trivial
  · split
    · trivial
    · exact .bind (.await fun _ heq => by cases heq) fun _ => trivial

theorem removeTrackedUploadState_calls {i : Id} : (removeTrackedUploadState i).Calls NoMget := by
  refine .bind (.await fun _ heq => by cases heq) fun value => ?_
  split
  · split
    · exact .await fun _ heq => by cases heq
    · exact .await fun _ heq => by cases heq
  · trivial

theorem abortIfStale_calls {now lastActivity : Time} {upload : ListedUpload} :
    (if now < lastActivity + incompleteUploadStaleMs then return () else do
      awaitUpload (.backend (.s3 .files (.abortMultipartUpload upload.key (some upload.uploadId))))
      removeTrackedUploadState upload.uploadId : UploadRoutine Unit).Calls NoMget :=
  .ite trivial (.bind (.await fun _ heq => by cases heq) fun _ => removeTrackedUploadState_calls)

theorem abortStaleUpload_calls {now : Time} {upload : ListedUpload} :
    (abortStaleUpload now upload).Calls NoMget :=
  .handle (.bind getMultipartLastActivity_calls fun _ => abortIfStale_calls) fun _ => trivial

/-- An upload of a page is left alone, or it is one that nobody goes on with. -/
theorem abortStaleUpload_gives {now : Time} {upload : ListedUpload} (hs : Unread p s)
    (hnow : Past now s) (ha : LastActive upload.uploadId upload.initiated s) :
    Gives cfg p (abortStaleUpload now upload) (fun _ _ => True) s := by
  have known : Held (uploads cfg) locksOutlast uploadsOutline p NoMget fun t => Unread p t ∧
      Past now t :=
    Unread.held.and Past.held
  refine Gives.attempt known (.bind getMultipartLastActivity_calls fun _ => abortIfStale_calls) ⟨hs,
    hnow⟩ ?_ fun _ t ht _ => Gives.ret known ht fun _ _ => trivial
  refine Gives.bind (Meets.mono (Meets.carry known getMultipartLastActivity_calls
    (getMultipartLastActivity_gives ha) ⟨hs, hnow⟩)
    fun r t _ ht a ha => (⟨ht.1 a ha, ht.2⟩ : LastActive upload.uploadId a t ∧ Unread p t ∧
      Past now t)) fun a t _ ht => ?_
  have active : Held (uploads cfg) locksOutlast uploadsOutline p NoMget fun t =>
      LastActive upload.uploadId a t ∧ Unread p t ∧ Past now t := LastActive.held.and known
  split
  · exact Gives.ret known ht.2 fun _ _ => trivial
  · rename_i hstale
    refine Gives.await active (fun _ heq => by cases heq) ht fun t ht _ =>
      ⟨pre_of_writes_nil trivial rfl, fun _ _ _ ht' _ => ?_⟩
    exact removeTrackedUploadState_gives ht'.2.1 ht'.1 (Nat.le_trans (Nat.not_lt.mp hstale) ht'.2.2)

/-- The uploads of a page were created when the page says, or earlier. -/
theorem listed_lastActive {marker : Option (Id × Id)} {upload : ListedUpload} (hi : UploadsInv s)
    (h : upload ∈ s.store.listed marker) : LastActive upload.uploadId upload.initiated s := by
  have hmem := List.mem_of_mem_filter (List.mem_mergeSort.mp h)
  obtain ⟨e, he, rfl⟩ := List.mem_map.mp hmem
  refine ⟨hi.named e.1 (AList.mem_keys.mpr (List.mem_map_of_mem (f := Sigma.fst) he)),
    fun p' hc => ?_⟩
  obtain ⟨⟨t, ht, _⟩, _⟩ := hi.created hc
  refine ⟨e.1, t, ⟨hc, ht⟩, ?_⟩
  rw [ht]
  exact Nat.le_refl t

theorem abortStaleUploads_gives {now : Time} {pages : Nat} {marker : Option (Id × Id)}
    (hs : Unread p s) (hnow : Past now s) :
    Gives cfg p (abortStaleUploads now pages marker) (fun _ _ => True) s := by
  have known : Held (uploads cfg) locksOutlast uploadsOutline p NoMget fun t => Unread p t ∧
      Past now t :=
    Unread.held.and Past.held
  induction pages generalizing marker s with
  | zero => exact Gives.ret known ⟨hs, hnow⟩ fun _ _ => trivial
  | succ pages ih =>
    refine Gives.await known (fun _ heq => by cases heq) ⟨hs, hnow⟩ fun t ht hi =>
      ⟨pre_of_writes_nil trivial rfl, ?_⟩
    rintro c ⟨page, isTruncated⟩ hreply ht' hi'
    have hpage : ∀ upload ∈ page, LastActive upload.uploadId upload.initiated
        ((uploads cfg).after c p (.listMultipartUploads marker) t) := by
      intro upload hupload
      have hlisted : page = (t.store.listed marker).take UploadWorld.maxUploads := by
        cases c <;> cases hreply <;> rfl
      rw [hlisted] at hupload
      exact (LastActive.held (P := fun _ => True)).own trivial hi rfl
        (pre_of_writes_nil trivial rfl)
        (listed_lastActive hi (List.mem_of_mem_take hupload))
    have round : Held (uploads cfg) locksOutlast uploadsOutline p NoMget fun t =>
        (Unread p t ∧ Past now t) ∧ ∀ upload : ListedUpload, upload ∈ page →
          LastActive upload.uploadId upload.initiated t :=
      known.and (Held.all fun _ => Held.imp _ LastActive.held)
    refine Gives.bind (G := fun _ t => Unread p t ∧ Past now t) ?_ fun _ t _ ht => ?_
    · refine Meets.mono (Meets.forEach uploads_kept round.stable (fun upload hupload t ht _ => ?_)
        hi' ⟨ht', hpage⟩) fun r t _ ht _ _ => ht.1
      exact Meets.mono (Meets.carry round abortStaleUpload_calls
        (abortStaleUpload_gives ht.1.1 ht.1.2 (ht.2 upload hupload)) ht)
        fun _ _ _ h => h.2
    · split
      · exact ih ht.1 ht.2
      · exact Gives.ret known ht fun _ _ => trivial

end
end Redbox
