import Redbox.Files.BrowserUpload

/-! What `initializeUpload` leaves, and which of the uploads it accepts the browser can complete. -/
namespace Redbox
open Interleaving

/-- No upload of the user that Redis knows of has a name that is still to be drawn. -/
structure Drawn (userId : Id) (w : World) : Prop where
  active : ∀ ids t, w.redis.lookup (.uploadActive userId) = some ⟨.members ids, t⟩ → ∀ id ∈ ids,
    id < w.nextId
  uploads : ∀ id state t, w.redis.lookup (.uploadMeta userId id) = some ⟨.upload state, t⟩ →
    ∀ sid, state.s3UploadId = some sid → sid < w.nextId

/-- The user's other uploads, as Redis knows them, have other names. The multipart uploads
that they refer to are all in `others`. -/
structure Apart (userId uploadId : Id) (others : Id → Prop) (r : Redis) : Prop where
  active : ∀ ids t, r.lookup (.uploadActive userId) = some ⟨.members ids, t⟩ → uploadId ∉ ids
  uploads : ∀ id state t, id ≠ uploadId →
    r.lookup (.uploadMeta userId id) = some ⟨.upload state, t⟩ →
    ∀ sid, state.s3UploadId = some sid → others sid

namespace Request

/-- The calls that leave the metadata of an upload and its multipart upload alone. -/
def sparesUpload (userId uploadId sid : Id) : Request → Bool
  | .redis (.write w) => decide (w.key ≠ .uploadMeta userId uploadId)
  | .redis (.multi ws) => ws.all fun w => decide (w.key ≠ .uploadMeta userId uploadId)
  | .redis (.compareAndDelete key _) | .redis (.setNX key _ _) =>
    decide (key ≠ .uploadMeta userId uploadId)
  | .redis _ | .now | .random => true
  | .s3 .files (.abortMultipartUpload _ id) => decide (id ≠ some sid)
  | _ => false

end Request

/-- The other uploads stay when one goes. -/
theorem Bucket.upload_erase {b : Bucket} {key sid i : Id} (h : sid ≠ i) :
    ({ b with uploads := b.uploads.erase i } : Bucket).upload key sid = b.upload key sid := by
  rw [upload, upload, AList.lookup_erase_ne h]

section
variable {userId uploadId : Id} {others : Id → Prop} {r r' : Redis}

theorem Apart.congr (h : Apart userId uploadId others r)
    (hactive : r'.lookup (.uploadActive userId) = r.lookup (.uploadActive userId))
    (huploads : ∀ id ≠ uploadId, r'.lookup (.uploadMeta userId id) =
      r.lookup (.uploadMeta userId id)) :
    Apart userId uploadId others r' :=
  ⟨fun ids t hl => h.active ids t (hactive ▸ hl),
    fun id state t hne hl => h.uploads id state t hne (huploads id hne ▸ hl)⟩

theorem Apart.mono {others' : Id → Prop} (h : Apart userId uploadId others r)
    (hle : ∀ i, others i → others' i) :
    Apart userId uploadId others' r :=
  ⟨h.active, fun id state t hne hl sid hs => hle sid (h.uploads id state t hne hl sid hs)⟩

/-- A write to the upload's own keys, or to a key that no upload uses. -/
theorem Apart.write (h : Apart userId uploadId others r) {w : RedisWrite} {now : Time}
    (hactive : w.key ≠ .uploadActive userId)
    (huploads : ∀ id ≠ uploadId, w.key ≠ .uploadMeta userId id) :
    Apart userId uploadId others (r.write now w) :=
  h.congr (Redis.lookup_write hactive.symm) fun id hne => Redis.lookup_write (huploads id hne).symm

/-- The uploads to be removed are others. -/
theorem Apart.candidates (h : Apart userId uploadId others r) {now : Time} {ids : List Id}
    {x : Id × UploadMeta} (hids : ∀ id ∈ ids, id ≠ uploadId)
    (hx : x ∈ FilesService.candidates
      (ids.zip ((ids.map (RedisKey.uploadMeta userId)).map (r.get now)))) :
    x.1 ≠ uploadId ∧ ∀ sid, x.2.s3UploadId = some sid → others sid := by
  obtain ⟨⟨id, value⟩, hmem, hvalue⟩ := List.mem_filterMap.mp (List.mem_mergeSort.mp hx)
  rw [List.map_map, List.zip_map_right, List.zip_eq_zipWith, List.zipWith_self,
    List.map_map] at hmem
  obtain ⟨id', hid, heq⟩ := List.mem_map.mp hmem
  obtain ⟨rfl, rfl⟩ := Prod.mk.inj heq
  simp only [Function.comp_apply, id_eq] at hvalue
  split at hvalue
  · rename_i state hget
    cases hvalue
    obtain ⟨t, hlook⟩ := Redis.lookup_of_get hget
    exact ⟨hids _ hid, h.uploads _ _ t (hids _ hid) hlook⟩
  · cases hvalue

end
namespace BrowserUpload
section
variable {cfg : Config} {p : Nat} {α : Type} {userId uploadId key sid : Id} {state : UploadMeta}
  {u : MultipartUpload}
  {s : SharedWorld} {F : SharedWorld → Prop} {G : α → SharedWorld → Prop}

section
variable (cfg p userId uploadId)

/-- Process `p`, alone, returns only where `G` holds. -/
def Yields (x : Routine α) (G : α → SharedWorld → Prop) (s : SharedWorld) : Prop :=
  Meets (backend cfg) (undisturbed userId uploadId) (.alone p) p x (fun r t => ∀ a,
    r = .ok a → G a t) s

/-- An assertion that time does not break. -/
abbrev Enduring (F : SharedWorld → Prop) : Prop :=
  Stable (backend cfg) (undisturbed userId uploadId) (.alone p) p F

end

theorem Yields.throw {e : Thrown} : Yields cfg p userId uploadId (.throw e) G s :=
  fun _ _ _ a ha => by cases ha

theorem Yields.mono {x : Routine α} {H : α → SharedWorld → Prop}
    (h : Yields cfg p userId uploadId x G s) (hG : ∀ a t, G a t → H a t) :
    Yields cfg p userId uploadId x H s :=
  Meets.mono h fun _ t _ ht a ha => hG a t (ht a ha)

theorem Yields.never {x : Routine α} (h : x.Returns fun _ => False) :
    Yields cfg p userId uploadId x G s :=
  (Meets.returns h).mono fun _ _ _ hr a ha => (hr a ha).elim

/-- One call in front of the rest of a routine. -/
theorem Yields.await {q : Request} {f : q.Answer → Routine α}
    (hF : Enduring cfg p userId uploadId F) (hs : F s)
    (h : ∀ t, F t → ∀ a, (t.store.deliver cfg q).2 = .ok a →
      Yields cfg p userId uploadId (f a) G ((backend cfg).after .delivered p q t)) :
    Yields cfg p userId uploadId ((await q).bind f) G s := by
  refine Meets.await hF hs fun t ht _ d ha => ?_
  cases delivered ha
  exact ⟨rfl, fun a hr => h t ht a hr, fun _ _ => Yields.throw⟩

theorem Yields.throwIf {c : Prop} [Decidable c] {e : Thrown} {f : Unit → Routine α}
    (h : ¬ c → Yields cfg p userId uploadId (f ()) G s) :
    Yields cfg p userId uploadId ((Prog.throwIf c e).bind f) G s :=
  Meets.throwIf (fun _ => Yields.throw) h

/-- What a routine yields, the rest of it starts from. -/
theorem Yields.bind {β : Type} {x : Routine β} {f : β → Routine α} {H : β → SharedWorld → Prop}
    (hx : Yields cfg p userId uploadId x H s)
    (hf : ∀ b t, H b t → Yields cfg p userId uploadId (f b) G t) :
    Yields cfg p userId uploadId (x.bind f) G s := by
  refine Meets.bind trivial Outline.alone_kept (Meets.mono hx fun r t _ ht => ?_)
  cases r with
  | ok b => exact hf b t (ht b rfl)
  | error e => exact Yields.throw

/-- A try block whose catch block never returns. -/
theorem Yields.attempt {x : Routine α} {f : Thrown → Routine α}
    (hF : ∀ a, Enduring cfg p userId uploadId (G a)) (hx : Yields cfg p userId uploadId x G s)
    (hf : ∀ e, (f e).Returns fun _ => False) :
    Yields cfg p userId uploadId (x.handle f) G s := by
  refine Meets.handle trivial Outline.alone_kept (Meets.mono hx fun r t _ ht => ?_)
  cases r with
  | ok a => exact Meets.ret (hF a) (ht a rfl) fun t ht _ b hb => Except.ok.inj hb ▸ ht
  | error e => exact Yields.never (hf e)

/-- A spared upload is as before. -/
theorem Holds.spare {q : Request} (hq : q.sparesUpload userId uploadId sid = true)
    (h : Holds userId uploadId key sid state u s) :
    Holds userId uploadId key sid state u ((backend cfg).after .delivered p q s) := by
  have redis : ∀ r : Redis, r.lookup (.uploadMeta userId uploadId) =
    s.store.redis.lookup (.uploadMeta userId uploadId) →
      Holds userId uploadId key sid state u ⟨{ s.store with redis := r }, s.log⟩ :=
    fun r hr => ⟨(Redis.get_congr hr).trans h.1, h.2⟩
  cases q with
  | query q => cases hq
  | statement w => cases hq
  | sign table payload => cases hq
  | signReactivation payload => cases hq
  | now => exact h
  | random => exact h
  | redis c =>
    cases c with
    | write w => exact redis _ (Redis.lookup_write (of_decide_eq_true hq).symm)
    | multi ws =>
      exact redis _ (Redis.lookup_writeAll fun w hw =>
        (of_decide_eq_true (List.all_eq_true.mp hq w hw)).symm)
    | setNX k v n => exact redis _ (Redis.lookup_setNX (of_decide_eq_true hq).symm)
    | compareAndDelete k t =>
      exact redis _ (Redis.lookup_compareAndDelete (of_decide_eq_true hq).symm)
    | get k => exact h
    | mget ks => exact h
    | «exists» k => exact h
    | smembers k => exact h
    | scanUploadMeta id => exact h
  | s3 name q =>
    cases name with
    | mails => cases q <;> cases hq
    | files =>
      cases q with
      | abortMultipartUpload k id =>
        have hne : id ≠ some sid := of_decide_eq_true hq
        rw [Holds, after_delivered]
        simp only [World.deliver, World.bucket, Bucket.perform]
        cases habort : s.store.filesBucket.abort k id with
        | error e => exact h
        | ok b' =>
          obtain ⟨i, v, rfl, _, rfl⟩ := Bucket.abort_ok habort
          have hi : sid ≠ i := fun heq => hne (congrArg some heq.symm)
          exact ⟨h.1, (Bucket.upload_erase hi).trans h.2⟩
      | _ => cases hq

/-- Calls that spare the upload, in a row. -/
theorem Yields.spared {x : Routine α}
    (hx : x.Calls fun q => q.sparesUpload userId uploadId sid = true)
    (hs : Holds userId uploadId key sid state u s) :
    Yields cfg p userId uploadId x (fun _ t => Holds userId uploadId key sid state u t) s := by
  refine (Meets.frame hx Holds.stable (fun t q d hq _ ha ht => ?_) hs).mono fun _ _ _ ht _ _ => ht
  cases delivered ha
  exact ⟨rfl, Holds.spare hq ht⟩

/-- What the user's uploads are like before a multipart upload is created for the new one. -/
def Named (userId uploadId : Id) (s : SharedWorld) : Prop :=
  Apart userId uploadId (fun sid => sid < s.store.nextId) s.store.redis

/-- The same once its multipart upload is there. -/
def Created (userId uploadId key sid : Id) (s : SharedWorld) : Prop :=
  Apart userId uploadId (fun i => i ≠ sid) s.store.redis ∧
    s.store.filesBucket.upload key sid = some ⟨key, []⟩

theorem drawn_enduring : Enduring cfg p userId uploadId fun s => Drawn userId s.store :=
  Stable.alone fun _ _ _ h => ⟨h.active, h.uploads⟩

theorem Named.enduring : Enduring cfg p userId uploadId (Named userId uploadId) :=
  Stable.alone fun _ _ _ h => h
theorem Created.enduring : Enduring cfg p userId uploadId (Created userId uploadId key sid) :=
  Stable.alone fun _ _ _ h => h

/-- A name that is drawn is no other upload's. -/
theorem named_of_drawn {w : World} {log : List BackendEvent} (h : Drawn userId w) :
    Named userId w.nextId ⟨{ w with nextId := w.nextId + 1 }, log⟩ where
  active ids t hl hmem := Nat.lt_irrefl _ (h.active ids t hl _ hmem)
  uploads id state t _ hl sid hs := Nat.lt_succ_of_lt (h.uploads id state t hl sid hs)

theorem Named.random (h : Named userId uploadId s) :
    Named userId uploadId ((backend cfg).after .delivered p .random s) :=
  h.mono fun _ hi => Nat.lt_succ_of_lt hi

theorem Named.setInitLock {value : RedisValue} {seconds : Nat} (h : Named userId uploadId s) :
    Named userId uploadId ((backend cfg).after .delivered p
      (.redis (.setNX (.uploadInitLock userId) value seconds)) s) :=
  h.congr (Redis.lookup_setNX (by simp)) fun _ _ => Redis.lookup_setNX (by simp)

/-- A new multipart upload is named apart from those of the other uploads. -/
theorem Named.created {k : Id} (h : Named userId uploadId s) :
    Created userId uploadId k s.store.nextId
      ((backend cfg).after .delivered p (.s3 .files (.createMultipartUpload k)) s) := by
  refine ⟨h.mono fun i hi => Nat.ne_of_lt hi,
    Bucket.upload_eq_some.mpr ⟨AList.lookup_insert _, rfl⟩⟩

/-- Storing the metadata of the new upload, or its index entry. -/
theorem Created.write {w : RedisWrite} (h : Created userId uploadId key sid s)
    (hactive : w.key ≠ .uploadActive userId)
    (huploads : ∀ id ≠ uploadId, w.key ≠ .uploadMeta userId id) :
    Created userId uploadId key sid ((backend cfg).after .delivered p (.redis (.write w)) s) :=
  ⟨h.1.write hactive huploads, h.2⟩

end
section
variable {cfg : Config} {p : Nat} {userId uploadId key sid : Id} {state : UploadMeta}
  {u : MultipartUpload}
  {s : SharedWorld}

/-- Removing another upload. -/
theorem abortActiveUpload_spares {id : Id} {state : UploadMeta} (hid : id ≠ uploadId)
    (hsid : ∀ i, state.s3UploadId = some i → i ≠ sid) :
    (FilesService.abortActiveUpload userId id state).Calls fun q =>
      q.sparesUpload userId uploadId sid = true := by
  have hdel : (Request.redis (.write (.del (.uploadMeta userId id)))).sparesUpload userId uploadId
      sid = true :=
    decide_eq_true fun h => hid (RedisKey.uploadMeta.inj h).2
  have rest : (do
      await (.redis (.write (.del (.uploadMeta userId id))))
      FilesService.releaseActiveUpload userId id : Routine Unit).Calls fun q =>
        q.sparesUpload userId uploadId sid = true :=
    .bind (.await hdel) fun _ => .await rfl
  have habort : (Request.s3 .files (.abortMultipartUpload state.storageKey
    state.s3UploadId)).sparesUpload userId
      uploadId sid = true := decide_eq_true fun h => hsid sid h rfl
  refine .ite (.bind (.await habort) fun _ => .bind ?_ fun _ => rest) rest
  unfold FilesService.delUploadIndex
  split
  · exact .await rfl
  · trivial

/-- Making room removes other uploads only. -/
theorem makeRoom_yields (hc : Created userId uploadId key sid s)
    (hs : Holds userId uploadId key sid state u s) :
    Yields cfg p userId uploadId (FilesService.makeRoomForActiveUpload userId)
      (fun _ t => Holds userId uploadId key sid state u t) s := by
  have both : Enduring cfg p userId uploadId fun t =>
      Created userId uploadId key sid t ∧ Holds userId uploadId key sid state u t :=
        Created.enduring.and Holds.stable
  refine Yields.await (q := .redis (.smembers (.uploadActive userId))) both ⟨hc, hs⟩ fun t ⟨hc,
    hs⟩ ids hids => ?_
  have hne : ∀ id ∈ ids, id ≠ uploadId := by
    intro id hid heq
    cases hids
    obtain ⟨all, time, hlook, hmem⟩ := Redis.mem_of_mem_smembers hid
    exact hc.1.active all time hlook (heq ▸ hmem)
  split
  · exact Yields.spared trivial hs
  refine Yields.await (q := .redis (.mget (ids.map (RedisKey.uploadMeta userId)))) both ⟨hc, hs⟩
    fun t ⟨hc, hs⟩ values hvalues => ?_
  cases hvalues
  refine Yields.spared ?_ hs
  have hstale : ∀ us : List Id,
      (Request.redis (.multi (us.map (RedisWrite.srem (.uploadActive userId))))).sparesUpload userId
        uploadId sid =
        true := by
    intro us
    simp [Request.sparesUpload, RedisWrite.key]
  have hmalformed : ∀ us : List Id, (∀ id ∈ us, id ≠ uploadId) →
      (Request.redis (.multi (us.map fun id => .del (.uploadMeta userId id)))).sparesUpload userId
        uploadId sid = true := by
    intro us hus
    simp only [Request.sparesUpload, List.all_map, List.all_eq_true, Function.comp_apply,
      RedisWrite.key]
    exact fun id hid => decide_eq_true fun h => hus id hid (RedisKey.uploadMeta.inj h).2
  have hids : ∀ us : List (Option RedisValue), ∀ id ∈ FilesService.malformedUploadIds (ids.zip us),
      id ≠ uploadId := by
    intro us id hid
    obtain ⟨x, hx, rfl⟩ := List.mem_map.mp hid
    exact hne x.1 (List.of_mem_zip (List.mem_of_mem_filter hx)).1
  have rest : ∀ n, (Prog.forEach ((FilesService.candidates (ids.zip
      ((ids.map (RedisKey.uploadMeta userId)).map (t.store.redis.get t.store.clock)))).take n)
        fun x =>
      FilesService.abortActiveUpload userId x.1 x.2).Calls fun q =>
        q.sparesUpload userId uploadId sid = true := by
    intro n
    refine .forEachMem fun x hx => ?_
    obtain ⟨hid, hsid⟩ := hc.1.candidates hne (List.mem_of_mem_take hx)
    exact abortActiveUpload_spares hid hsid
  exact .ite
    (.bind (.await (hstale _)) fun _ =>
      .ite (.bind (.await (hmalformed _ (hids _))) fun _ => rest _) (rest _))
    (.ite (.bind (.await (hmalformed _ (hids _))) fun _ => rest _) (rest _))

/-- Registering the new upload leaves what its chunks start from. -/
theorem registerUpload_yields (hc : Created userId uploadId key sid s) :
    Yields cfg p userId uploadId (FilesService.registerUpload userId uploadId state sid)
      (fun _ t => Holds userId uploadId key sid state ⟨key, []⟩ t) s := by
  have undo : ∀ created e, (FilesService.undoRegistration userId uploadId state sid created
    e).Returns fun _ => False := by
    intro created e
    refine .bind fun _ => ?_
    exact .ite (.bind fun _ => .bind fun _ => trivial) (.bind fun _ => trivial)
  have both : Enduring cfg p userId uploadId fun t =>
      Created userId uploadId key sid t ∧ Holds userId uploadId key sid state ⟨key, []⟩ t :=
    Created.enduring.and Holds.stable
  refine Yields.bind (H := fun _ t => Created userId uploadId key sid t ∧
    Holds userId uploadId key sid state ⟨key, []⟩ t)
    (Yields.attempt (fun _ => both) ?_ (undo false)) fun _ t ⟨hc, hs⟩ => ?_
  · rw [← Prog.bind_ret (await _)]
    refine Yields.await Created.enduring hc fun t ht _ _ => ?_
    refine Meets.ret both ⟨?_, ?_, ht.2⟩ fun t ht _ _ _ => ht
    · refine ht.write (fun h => by cases h) fun id hid h => hid (RedisKey.uploadMeta.inj h).2.symm
    · exact Redis.get_of_lookup Redis.lookup_set fun x hx => by
        cases hx; exact Nat.lt_add_of_pos_right (by decide)
  · refine Yields.attempt (fun _ => Holds.stable) ?_ (undo true)
    refine Yields.await both ⟨hc, hs⟩ fun t ⟨hc, hs⟩ _ _ => ?_
    have hindex : (Request.redis (.write (.set (.uploadIndex sid)
        (.index ⟨.uploadMeta userId uploadId, .uploadActive userId, uploadId⟩)
          uploadMetaTtlSeconds))).sparesUpload
          userId uploadId sid = true := rfl
    refine Yields.bind (makeRoom_yields ?_ (Holds.spare hindex hs)) fun _ t ht => ?_
    · exact hc.write (by simp [RedisWrite.key]) (by simp [RedisWrite.key])
    exact Yields.spared (.bind (.await rfl) fun _ => .await rfl) ht

/-- An upload that is accepted is ready for its first chunk. -/
theorem initializeUpload_yields {b : BrowserUpload} {dto : InitUploadDto}
    (hb : b.fileSize = dto.fileSize) (hs : Drawn userId s.store) :
    Yields cfg p userId uploadId (FilesService.initializeUpload cfg userId dto)
      (fun id t => id = uploadId → dto.totalChunks = chunkCount dto.fileSize ∧
        ∃ key sid, Uploaded b userId uploadId key sid 0 t) s := by
  refine Yields.bind (H := fun _ t => Drawn userId t.store) ?_ fun _ s hs => ?_
  · refine Yields.await drawn_enduring hs fun t ht value _ => ?_
    split
    · exact Meets.ret drawn_enduring ht fun t ht _ _ _ => ht
    · exact Yields.throw
  refine Yields.throwIf fun hchunks => ?_
  have hchunks : dto.totalChunks = chunkCount dto.fileSize := not_not.mp hchunks
  refine Yields.await drawn_enduring hs fun t ht _ _ => ?_
  refine Yields.await (q := .random) drawn_enduring ht fun t ht id hid => ?_
  cases hid
  -- a run that draws another name is not about this upload
  by_cases hid : t.store.nextId = uploadId
  case neg =>
    refine (Meets.returns (P := fun id => id = t.store.nextId) ?_).mono fun r t' _ hr a ha heq => ?_
    · exact .bind fun _ => .bind fun _ => .bind fun _ => .bind fun _ => .bind fun _ => rfl
    · exact absurd ((hr a ha).symm.trans heq) hid
  subst hid
  have hs : Named userId t.store.nextId ((backend cfg).after .delivered p .random t) :=
    named_of_drawn ht
  generalize t.store.nextId = uploadId at hs ⊢
  refine Yields.await (q := .random) Named.enduring hs fun t ht key _ => ?_
  refine Yields.await (q := .random) Named.enduring ht.random fun t ht salt _ => ?_
  refine Yields.bind (H := fun _ t => Named userId uploadId t) ?_ fun token t ht => ?_
  · refine Yields.await (q := .random) Named.enduring ht.random fun t ht token _ => ?_
    refine Yields.await Named.enduring ht.random fun t ht acquired _ => ?_
    exact Yields.throwIf fun _ => Meets.ret Named.enduring ht.setInitLock fun t ht _ _ _ => ht
  generalize (dto.password.filter fun x => decide (x ≠ "")).map (fun p => cfg.bcryptHash p salt) =
    passwordHash
  refine Yields.bind (H := fun _ t => ∃ sid now, Holds userId uploadId key sid
      (FilesService.newUploadMeta dto passwordHash key sid now) ⟨key, []⟩ t) ?_ fun _ t ⟨sid,
        now, ht⟩ => ?_
  · refine Yields.attempt (fun _ => Stable.exists fun _ => Stable.exists fun _ => Holds.stable) ?_
      fun e => .bind fun _ => trivial
    refine Yields.await Named.enduring ht fun t ht sid hsid => ?_
    cases hsid
    have hc : Created userId uploadId key t.store.nextId
        ((backend cfg).after .delivered p (.s3 .files (.createMultipartUpload key)) t) := ht.created
    refine Yields.await (q := .now) Created.enduring hc fun t' ht now _ => ?_
    have hreg : Yields cfg p userId uploadId (FilesService.registerUpload userId uploadId
        (FilesService.newUploadMeta dto passwordHash key t.store.nextId now) t.store.nextId)
        (fun _ t => Holds userId uploadId key _ _ _ t) ((backend cfg).after .delivered p .now t') :=
      registerUpload_yields ht
    exact hreg.mono fun _ _ ht => ⟨_, now, ht⟩
  · refine Yields.bind (Yields.spared ?_ ht) fun _ t ht => ?_
    · exact .handle (.await rfl) fun _ => trivial
    refine Meets.ret Holds.stable ht fun t ht _ id _ _ => ⟨hchunks, key, sid, _, _, ht, ?_, ?_⟩
    · exact ⟨hchunks.trans (by rw [hb]), hb.symm, rfl, rfl, rfl, rfl⟩
    · exact fun j hj => absurd hj (Nat.not_lt_zero j)

end
section
variable {cfg : Config} {userId uploadId : Id} {w : World}

/-- The browser sends its chunks after the upload was accepted: all requests pass, and so do the
checks at the end. -/
def Completes (cfg : Config) (b : BrowserUpload) (userId uploadId : Id) (totalChunks : Nat)
    (s : SharedWorld) : Prop :=
  ∀ r t, Ends (backend cfg) (undisturbed userId uploadId) 0
    (b.sendChunks userId uploadId totalChunks) s r t →
    r = .ok () ∧ ChecksPass userId uploadId totalChunks t.store

/-- The request was accepted and left `s`. -/
def Initialized (cfg : Config) (userId uploadId : Id) (dto : InitUploadDto) (w : World)
    (s : SharedWorld) : Prop :=
  Ends (backend cfg) (undisturbed userId uploadId) 0 (FilesService.initializeUpload cfg userId dto)
    (.initial w)
    (.ok uploadId) s

theorem Initialized.uploaded {b : BrowserUpload} {dto : InitUploadDto} {s : SharedWorld}
    (hw : Drawn userId w) (hb : b.fileSize = dto.fileSize)
    (h : Initialized cfg userId uploadId dto w s) :
    dto.totalChunks = chunkCount b.fileSize ∧ ∃ key sid,
      Uploaded b userId uploadId key sid 0 s := by
  rw [hb]
  exact (initializeUpload_yields hb (s := .initial w) hw).ends h uploadId rfl rfl

/-- An accepted upload can be completed exactly when it has at most 205 chunks. -/
theorem upload_completes_iff {b : BrowserUpload} {dto : InitUploadDto} {s : SharedWorld}
    (hw : Drawn userId w) (hv : dto.valid = true) (hb : b.fileSize = dto.fileSize)
    (h : Initialized cfg userId uploadId dto w s) :
    Completes cfg b userId uploadId dto.totalChunks s ↔ dto.totalChunks ≤ 205 := by
  obtain ⟨hcount, key, sid, hs⟩ := h.uploaded hw hb
  have hsend : b.sendChunks userId uploadId dto.totalChunks =
      Prog.forEach (List.range' 0 (chunkCount b.fileSize)) fun j =>
        b.sendChunk userId uploadId j := by
    rw [sendChunks, List.range_eq_range', hcount]
  rw [Completes, hsend, hcount]
  constructor
  · intro hall
    by_contra hlt
    have hends := Ends.finish (S := backend cfg) (R := undisturbed userId uploadId) (p :=
      0) (c := .delivered)
      (fun _ _ => rfl) (Prog.forEach (List.range' 0 (chunkCount b.fileSize)) fun j =>
        b.sendChunk userId uploadId j) s
    exact (sendAll_rejected hs (by omega) (by omega) (by omega)).ends hends (hall _ _ hends).1
  · intro hle r t ht
    have hsent := (sendAll_uploaded hs (by omega) (by omega)).ends ht
    rw [Nat.zero_add] at hsent
    have hv' : 1 ≤ dto.fileSize ∧ dto.fileSize ≤ 53687091200 := by
      simp only [InitUploadDto.valid, Bool.and_eq_true, decide_eq_true_eq] at hv
      exact ⟨hv.1.1.1.1.1, hv.1.1.1.1.2⟩
    exact ⟨hsent.1, checksPass_of_uploaded hsent.2 (hb ▸ hv'.1) (hb ▸ hv'.2)⟩

/-- A server with an admin forward user who is logged in. -/
def forwardConfig : Config := { demoConfig with adminForwardUsername := some "alice" }

def forwardWorld : World := { demoWorld with redis := demoWorld.redis.insert (.masterKey 1) ⟨.text
      "master", none⟩ }

theorem forwardWorld_drawn : Drawn 1 forwardWorld := by
  have hlook : ∀ k, k ≠ .masterKey 1 → forwardWorld.redis.lookup k = none :=
    fun k hk => (AList.lookup_insert_ne hk).trans rfl
  exact ⟨fun ids t h => by simp [hlook] at h, fun id state t h => by simp [hlook] at h⟩

def forwardRun (dto : InitUploadDto) : Except Thrown Id × SharedWorld :=
  (backend forwardConfig).finish .delivered 0 (FilesService.initializeUpload forwardConfig 1 dto)
    (.initial forwardWorld)

theorem forwardRun_initialized {dto : InitUploadDto} {uploadId : Id}
    (h : (forwardRun dto).1 = .ok uploadId) :
    Initialized forwardConfig 1 uploadId dto forwardWorld (forwardRun dto).2 := by
  rw [Initialized, ← h]
  exact Ends.finish (fun _ _ => rfl) _ _

theorem upload_completes_iff_demo :
    Completes forwardConfig ⟨60000000, id⟩ 1 100 2 (forwardRun ⟨60000000, 2, none, some "1h"⟩).2 ↔
    2 ≤ 205 :=
  upload_completes_iff forwardWorld_drawn (by decide : InitUploadDto.valid ⟨60000000, 2,
    none, some "1h"⟩ = true) rfl
    (forwardRun_initialized (by decide +kernel))

/-- The largest file that is accepted makes 1024 chunks, and the chunk with index 205 is rejected.
-/
theorem largest_upload_stuck : ¬ ∀ (b : BrowserUpload) (dto : InitUploadDto) (uploadId : Id) (s :
      SharedWorld),
    dto.valid = true → b.fileSize = dto.fileSize → Initialized forwardConfig 1
      uploadId dto forwardWorld s →
    Completes forwardConfig b 1 uploadId dto.totalChunks s := by
  intro hall
  have hinit : Initialized forwardConfig 1 100 ⟨53687091200, 1024, none, none⟩ forwardWorld
      (forwardRun ⟨53687091200, 1024, none, none⟩).2 := forwardRun_initialized (by decide +kernel)
  have hdone := hall ⟨53687091200, id⟩ ⟨53687091200, 1024, none, none⟩ 100 _ (by decide) rfl hinit
  obtain ⟨_, key, sid, hs⟩ := hinit.uploaded (b := ⟨53687091200, id⟩) forwardWorld_drawn rfl
  have hends := Ends.finish (S := backend forwardConfig) (R := undisturbed 1 100) (p :=
    0) (c := .delivered)
    (fun _ _ => rfl) (sendChunks ⟨53687091200, id⟩ 1 100 1024)
      (forwardRun ⟨53687091200, 1024, none, none⟩).2
  have hsend : sendChunks ⟨53687091200, id⟩ 1 100 1024 =
      Prog.forEach (List.range' 0 1024) fun j => sendChunk ⟨53687091200, id⟩ 1 100 j := by
    rw [sendChunks, List.range_eq_range']
  have hreject := @sendAll_rejected forwardConfig 0 1 100 key sid _ 1024 0 _ hs (by decide) (by
    decide) (by decide)
  rw [← hsend] at hreject
  exact hreject.ends hends (hdone _ _ hends).1

end
end BrowserUpload
end Redbox
