import Redbox.Files.UploadAdmission
import Mathlib.Data.Set.Insert

/-! What `initializeUpload` leaves behind when one of its calls fails. -/
namespace Redbox
open Interleaving

/-- A thing that an upload of a user has in Redis or S3. -/
inductive UploadTrace where
  | multipart | state | storageIndex | member | initLock
  deriving DecidableEq

namespace World

/-- The user's uploads have the thing under the name. A lock counts while it is held. -/
def has (userId : Id) (w : World) : UploadTrace → Id → Prop
  | .multipart, id => id ∈ w.filesBucket.uploads
  | .state, id => (w.redis.lookup (.uploadMeta userId id)).isSome = true
  | .storageIndex, id => (w.redis.lookup (.uploadIndex id)).isSome = true
  | .member, id =>
    ∃ ids t, w.redis.lookup (.uploadActive userId) = some ⟨.members ids, t⟩ ∧ id ∈ ids
  | .initLock, token => w.redis.get w.clock (.uploadInitLock userId) = some (.token token)

end World

/-- No upload of the user has anything under a name that was drawn after the first `n`. -/
def NothingNew (userId n : Id) (w : World) : Prop := ∀ trace id, w.has userId trace id → id < n

namespace Request

/-- The request goes to Redis or S3. -/
def external : Request → Bool
  | .redis _ | .s3 _ _ => true
  | _ => false

/-- The `EXPIRE` of a set of active uploads. -/
def isActiveExpire : Request → Bool
  | .redis (.write (.expire (.uploadActive _) _)) => true
  | _ => false

end Request

namespace BackendEvent

def failed (e : BackendEvent) : Bool := match e.resp with
  | .ok _ => false
  | .error _ => true

end BackendEvent

/-- The `EXPIRE` that follows the `SADD` of `reserveActiveUpload` has failed. -/
def expireFailed (log : List BackendEvent) : Bool :=
  log.any fun e => e.req.isActiveExpire && BackendEvent.failed e

/-- Some call to Redis or S3 has been answered with an error. -/
def callFailed (log : List BackendEvent) : Bool :=
  log.any fun e => e.req.external && BackendEvent.failed e

/-- One call to Redis or S3 may fail without effect. All others are delivered, and time passes. -/
def oneFailure : BackendRules where
  starts := fun _ _ => true
  allows := fun s _ q d => decide (d = .delivered) || decide (d = .failed) && q.external &&
    !callFailed s.log
  drifts := fun _ _ => true

namespace RedisWrite

/-- A write that makes nothing new. -/
def quiet : RedisWrite → Bool
  | .del _ | .srem (.uploadActive _) _ | .expire (.uploadActive _) _ => true
  | _ => false

end RedisWrite

namespace Request

/-- A call that makes nothing new. -/
def quiet : Request → Bool
  | .redis (.write w) => w.quiet
  | .redis (.multi ws) => ws.all RedisWrite.quiet
  | .redis (.setNX _ _ _) => false
  | .redis _ | .query _ | .now | .random => true
  | .s3 .files (.abortMultipartUpload _ _) => true
  | _ => false

end Request

section
variable {cfg : Config} {p : Nat} {userId n uploadId sid key token : Id} {s : SharedWorld}
  {w : World} {trace : UploadTrace} {id : Id}
  {q : Request} {α : Type}

/-- A quiet write keeps what other keys than the sets hold, or removes it. -/
theorem lookup_quiet {r : Redis} {now : Time} {x : RedisWrite} {k : RedisKey} (hx : x.quiet = true)
    (hk : ∀ u, k ≠ .uploadActive u) :
    (r.write now x).lookup k = r.lookup k ∨ (r.write now x).lookup k = none := by
  by_cases hkey : k = x.key
  · subst hkey
    cases x with
    | del k => exact .inr Redis.lookup_del
    | srem k m =>
      cases k with
      | uploadActive u => exact absurd rfl (hk u)
      | _ => cases hx
    | expire k m =>
      cases k with
      | uploadActive u => exact absurd rfl (hk u)
      | _ => cases hx
    | set k v m => cases hx
    | sadd k m => cases hx
  · exact .inl (Redis.lookup_write hkey)

/-- A quiet write adds no member. -/
theorem members_quiet {r : Redis} {now : Time} {x : RedisWrite} {k : RedisKey} {ids : List Id}
    {t : Option Time} (hx : x.quiet = true) (h : (r.write now x).lookup k = some ⟨.members ids, t⟩)
    (hid : id ∈ ids) :
    ∃ ids t, r.lookup k = some ⟨.members ids, t⟩ ∧ id ∈ ids := by
  by_cases hkey : k = x.key
  · subst hkey
    cases x with
    | del k => cases Redis.lookup_del.symm.trans h
    | srem k m =>
      simp only [Redis.write, RedisWrite.key] at h ⊢
      split at h
      · split at h
        · cases (AList.lookup_erase _ _).symm.trans h
        · cases (AList.lookup_insert _).symm.trans h
          exact Redis.mem_of_mem_smembers (List.mem_of_mem_erase hid)
      · exact ⟨ids, t, h, hid⟩
    | expire k m =>
      simp only [Redis.write, RedisWrite.key] at h ⊢
      split at h
      · rename_i e he
        have heq := Option.some.inj ((AList.lookup_insert _).symm.trans h)
        have hlook := (Option.filter_eq_some_iff.mp he).1
        refine ⟨ids, e.expiresAt, ?_, hid⟩
        rw [hlook, ← (RedisEntry.mk.inj heq).1]
      · exact ⟨ids, t, h, hid⟩
    | set k v m => cases hx
    | sadd k m => cases hx
  · rw [Redis.lookup_write hkey] at h
    exact ⟨ids, t, h, hid⟩

/-- What there is after a change of Redis that adds nothing, there was before. -/
theorem has_of_redis {r : Redis} (hlook : ∀ k, (∀ u, k ≠ .uploadActive u) →
      r.lookup k = w.redis.lookup k ∨ r.lookup k = none)
    (hmembers : ∀ ids t, r.lookup (.uploadActive userId) = some ⟨.members ids, t⟩ → ∀ id ∈ ids,
      ∃ ids t, w.redis.lookup (.uploadActive userId) = some ⟨.members ids, t⟩ ∧ id ∈ ids)
    (h : ({ w with redis := r } : World).has userId trace id) : w.has userId trace id := by
  cases trace with
  | multipart => exact h
  | state =>
    rcases hlook (.uploadMeta userId id) (by simp) with hk | hk
    · exact (congrArg Option.isSome hk).symm.trans h
    · cases (congrArg Option.isSome hk).symm.trans h
  | storageIndex =>
    rcases hlook (.uploadIndex id) (by simp) with hk | hk
    · exact (congrArg Option.isSome hk).symm.trans h
    · cases (congrArg Option.isSome hk).symm.trans h
  | member =>
    obtain ⟨ids, t, hids, hid⟩ := h
    exact hmembers ids t hids id hid
  | initLock =>
    rcases hlook (.uploadInitLock userId) (by simp) with hk | hk
    · exact (Redis.get_congr hk).symm.trans h
    · obtain ⟨t, ht⟩ := Redis.lookup_of_get h
      cases hk.symm.trans ht

theorem has_quiet_write {x : RedisWrite} (hx : x.quiet = true)
    (h : ({ w with redis := w.redis.write w.clock x } : World).has userId trace id) :
    w.has userId trace id :=
  has_of_redis (fun _ hk => lookup_quiet hx hk) (fun _ _ hl _ hid => members_quiet hx hl hid) h

theorem has_quiet_writes {xs : List RedisWrite} (hxs : xs.all RedisWrite.quiet = true)
    (h : ({ w with redis := w.redis.writeAll w.clock xs } : World).has userId trace id) :
    w.has userId trace id := by
  induction xs generalizing w with
  | nil => exact h
  | cons x xs ih =>
    rw [List.all_cons, Bool.and_eq_true] at hxs
    obtain ⟨hx, hxs⟩ := hxs
    exact has_quiet_write hx (ih (w := { w with redis := w.redis.write w.clock x }) hxs h)

/-- A quiet call makes nothing. -/
theorem has_quiet (hq : q.quiet = true) (h : (w.deliver cfg q).1.has userId trace id) :
    w.has userId trace id := by
  cases q with
  | query q => exact h
  | statement x => cases hq
  | sign table payload => cases hq
  | signReactivation payload => cases hq
  | now => exact h
  | random => cases trace <;> exact h
  | redis c =>
    cases c with
    | get k => exact h
    | mget ks => exact h
    | «exists» k => exact h
    | smembers k => exact h
    | scanUploadMeta u => exact h
    | setNX k v m => cases hq
    | compareAndDelete k token =>
      simp only [World.deliver, Redis.perform] at h
      split at h
      · split at h
        · exact has_quiet_write (x := .del k) rfl h
        · exact h
      · exact h
    | write x => exact has_quiet_write hq h
    | multi xs => exact has_quiet_writes hq h
  | s3 name q =>
    cases name with
    | mails => cases q <;> cases hq
    | files =>
      cases q with
      | abortMultipartUpload k sid =>
        simp only [World.deliver, World.bucket, Bucket.perform] at h
        cases habort : w.filesBucket.abort k sid with
        | error e =>
          rw [habort] at h
          exact h
        | ok b =>
          rw [habort] at h
          obtain ⟨i, u, -, -, rfl⟩ := Bucket.abort_ok habort
          cases trace with
          | multipart => exact (AList.mem_erase.mp h).2
          | _ => exact h
      | _ => cases hq

/-- The key of Redis that decides whether there is the thing. -/
def traceKey (userId : Id) : UploadTrace → Id → Option RedisKey
  | .multipart, _ => none
  | .state, id => some (.uploadMeta userId id)
  | .storageIndex, id => some (.uploadIndex id)
  | .member, _ => some (.uploadActive userId)
  | .initLock, _ => some (.uploadInitLock userId)

/-- A write makes things of its own key only. -/
theorem has_write {x : RedisWrite} (h : ({ w with redis := w.redis.write w.clock x } : World).has
      userId trace id) :
    w.has userId trace id ∨ traceKey userId trace id = some x.key := by
  by_cases hkey : traceKey userId trace id = some x.key
  · exact .inr hkey
  · left
    cases trace with
    | multipart => exact h
    | state =>
      have hlook : (w.redis.write w.clock x).lookup (.uploadMeta userId id) =
          w.redis.lookup (.uploadMeta userId id) :=
        Redis.lookup_write fun heq => hkey (congrArg some heq)
      exact (congrArg Option.isSome hlook).symm.trans h
    | storageIndex =>
      have hlook : (w.redis.write w.clock x).lookup (.uploadIndex id) =
          w.redis.lookup (.uploadIndex id) :=
        Redis.lookup_write fun heq => hkey (congrArg some heq)
      exact (congrArg Option.isSome hlook).symm.trans h
    | member =>
      have hlook : (w.redis.write w.clock x).lookup (.uploadActive userId) =
          w.redis.lookup (.uploadActive userId) :=
        Redis.lookup_write fun heq => hkey (congrArg some heq)
      exact h.imp fun ids => Exists.imp fun t hx => ⟨hlook.symm.trans hx.1, hx.2⟩
    | initLock =>
      have hlook : (w.redis.write w.clock x).lookup (.uploadInitLock userId) =
          w.redis.lookup (.uploadInitLock userId) :=
        Redis.lookup_write fun heq => hkey (congrArg some heq)
      exact (Redis.get_congr hlook).symm.trans h

theorem has_tick {m : Nat} (h : (w.tick m).has userId trace id) : w.has userId trace id := by
  cases trace with
  | initLock =>
    have hlater : w.redis.get (w.clock + m) (.uploadInitLock userId) = some (.token id) := h
    have hlive : (w.redis.live (w.clock + m) (.uploadInitLock userId)).isSome = true := by
      rw [Redis.get] at hlater
      exact Option.isSome_map.symm.trans (congrArg Option.isSome hlater)
    exact (Redis.get_later (Nat.le_add_right _ m) hlive).symm.trans hlater
  | multipart => exact h
  | state => exact h
  | storageIndex => exact h
  | member => exact h

end

/-- Where a routine ends: it returns, or it throws. -/
def EndsWith {α : Type} (returned thrown : SharedWorld → Prop) : Except Thrown α →
    SharedWorld → Prop
  | .ok _, t => returned t
  | .error _, t => thrown t

/-- What uploads of the user have under new names is listed, and no `EXPIRE` has failed. -/
structure Left (userId n : Id) (listed : Set (UploadTrace × Id)) (s : SharedWorld) : Prop where
  only : ∀ trace id, s.store.has userId trace id → id < n ∨ (trace, id) ∈ listed
  calm : expireFailed s.log = false

/-- The multipart upload with the id has the key, if there is one. -/
def Keyed (sid key : Id) (w : World) : Prop :=
  ∀ u, w.filesBucket.uploads.lookup sid = some u → u.key = key

section
variable {cfg : Config} {p : Nat} {userId n uploadId sid key token id : Id} {s : SharedWorld}
  {trace : UploadTrace} {q : Request} {d : Delivery}
  {listed : Set (UploadTrace × Id)} {α : Type} {Q : Except Thrown α → SharedWorld →
    Prop} {e : BackendEvent} {log : List BackendEvent}

theorem Left.mono (h : Left userId n listed s) {more : Set (UploadTrace × Id)}
    (hle : listed ⊆ more) : Left userId n more s :=
  ⟨fun trace id hx => (h.only trace id hx).imp_right fun hm => hle hm, h.calm⟩

theorem Left.stable : Stable (backend cfg) oneFailure (.alone p) p (Left userId n listed) :=
  Stable.alone fun _ _ _ h => ⟨fun trace id hx => h.only trace id (has_tick hx), h.calm⟩

theorem Keyed.stable : Stable (backend cfg) oneFailure (.alone p) p fun s =>
      Keyed sid key s.store :=
  Stable.alone fun _ _ _ h => h

theorem callFailed_stable {b : Bool} :
    Stable (backend cfg) oneFailure (.alone p) p fun s => callFailed s.log = b :=
  Stable.alone fun _ _ _ h => h

theorem allowed_cases (h : oneFailure.allows s p q d = true) :
    d = .delivered ∨ d = .failed ∧ callFailed s.log = false := by
  simp only [oneFailure, Bool.or_eq_true, Bool.and_eq_true, decide_eq_true_eq,
    Bool.not_eq_true'] at h
  exact h.imp_right fun h => ⟨h.1.1, h.2⟩

/-- Once a call has failed, the others are delivered. -/
theorem delivered_of_failed (h : oneFailure.allows s p q d = true) (hs : callFailed s.log = true) :
    d = .delivered :=
  (allowed_cases h).resolve_right fun hx => by cases hs.symm.trans hx.2

theorem callFailed_mono (h : callFailed s.log = true) :
    callFailed ((backend cfg).after d p q s).log = true := by
  show callFailed (_ :: s.log) = true
  rw [callFailed, List.any_cons]
  exact (Bool.or_eq_true _ _).mpr (.inr h)

/-- A call that fails is the one that fails. -/
theorem callFailed_error (hq : q.external = true) {x : Thrown}
    (h : (backend cfg).reply d q s = .error x) :
    callFailed ((backend cfg).after d p q s).log = true := by
  show callFailed (⟨p, q, _⟩ :: s.log) = true
  rw [callFailed, List.any_cons]
  refine (Bool.or_eq_true _ _).mpr (.inl ?_)
  simp only [BackendEvent.failed, h, hq, Bool.and_self]

theorem expireFailed_after (hq : q.isActiveExpire = false) :
    expireFailed ((backend cfg).after d p q s).log = expireFailed s.log := by
  show expireFailed (⟨p, q, _⟩ :: s.log) = _
  rw [expireFailed, List.any_cons, hq, Bool.false_and, Bool.false_or]
  rfl

/-- A call that makes at most one thing. -/
theorem Left.after (h : Left userId n listed s) (hq : q.isActiveExpire = false)
    (ha : oneFailure.allows s p q d = true) {more : Set (UploadTrace × Id)} (hle : listed ⊆ more)
    (hmakes : ∀ trace id, (s.store.deliver cfg q).1.has userId trace id →
      s.store.has userId trace id ∨ (trace, id) ∈ more) :
        Left userId n more ((backend cfg).after d p q s) := by
  refine ⟨fun trace id hx => ?_, (expireFailed_after hq).trans h.calm⟩
  have hold : s.store.has userId trace id → id < n ∨ (trace, id) ∈ more :=
    fun hx => (h.only trace id hx).imp_right fun hm => hle hm
  rcases allowed_cases ha with rfl | ⟨rfl, -⟩
  · exact (hmakes trace id hx).elim hold .inr
  · exact hold hx

theorem Left.quiet (h : Left userId n listed s) (hq : q.quiet = true)
    (he : q.isActiveExpire = false) (ha : oneFailure.allows s p q d = true) :
    Left userId n listed ((backend cfg).after d p q s) :=
  h.after he ha subset_rfl fun _ _ hx => .inl (has_quiet hq hx)

/-- A call that takes one thing away. -/
theorem Left.removed (h : Left userId n listed s) (hq : q.quiet = true)
    (he : q.isActiveExpire = false) (hgone : ¬ (s.store.deliver cfg q).1.has userId trace id) :
    Left userId n (listed \ {(trace, id)}) ((backend cfg).after .delivered p q s) := by
  refine ⟨fun trace' id' hx => ?_, (expireFailed_after he).trans h.calm⟩
  refine (h.only trace' id' (has_quiet hq hx)).imp_right fun hm => ⟨hm, fun heq => hgone ?_⟩
  obtain ⟨rfl, rfl⟩ := Prod.mk.inj heq
  exact hx

/-- A quiet call changes no multipart upload, but may abort one. -/
theorem uploads_quiet {w : World} {u : MultipartUpload} (hq : q.quiet = true)
    (h : (w.deliver cfg q).1.filesBucket.uploads.lookup sid = some u) :
    w.filesBucket.uploads.lookup sid = some u := by
  cases q with
  | query q => exact h
  | statement x => cases hq
  | sign table payload => cases hq
  | signReactivation payload => cases hq
  | now => exact h
  | random => exact h
  | redis c => exact h
  | s3 name q =>
    cases name with
    | mails => cases q <;> cases hq
    | files =>
      cases q with
      | abortMultipartUpload k i =>
        simp only [World.deliver, World.bucket, Bucket.perform] at h
        cases habort : w.filesBucket.abort k i with
        | error e =>
          rw [habort] at h
          exact h
        | ok b =>
          rw [habort] at h
          obtain ⟨i, u, -, -, rfl⟩ := Bucket.abort_ok habort
          have h : (w.filesBucket.uploads.erase i).lookup sid = some _ := h
          have hne : sid ≠ i := by
            rintro rfl
            cases (AList.lookup_erase _ _).symm.trans h
          exact (AList.lookup_erase_ne hne).symm.trans h
      | _ => cases hq

theorem Keyed.quiet (h : Keyed sid key s.store) (hq : q.quiet = true)
    (ha : oneFailure.allows s p q d = true) :
    Keyed sid key ((backend cfg).after d p q s).store := by
  intro u hu
  rcases allowed_cases ha with rfl | ⟨rfl, -⟩
  · exact h u (uploads_quiet hq hu)
  · exact h u hu

/-- After the abort there is no such multipart upload. -/
theorem aborted (h : Keyed sid key s.store) :
    ¬ (s.store.deliver cfg (.s3 .files (.abortMultipartUpload key (some sid)))).1.has userId
      .multipart sid := by
  intro hx
  simp only [World.deliver, World.bucket, Bucket.perform] at hx
  cases habort : s.store.filesBucket.abort key (some sid) with
  | ok b =>
    rw [habort] at hx
    obtain ⟨i, u, heq, -, rfl⟩ := Bucket.abort_ok habort
    cases heq
    exact (AList.mem_erase.mp hx).1 rfl
  | error e =>
    rw [habort] at hx
    obtain ⟨u, hu⟩ := Option.isSome_iff_exists.mp
      (AList.lookup_isSome.mpr (show sid ∈ s.store.filesBucket.uploads from hx))
    have hfound : s.store.filesBucket.upload key sid = some u :=
      Bucket.upload_eq_some.mpr ⟨hu, h u hu⟩
    simp [Bucket.abort, hfound] at habort

/-- A call has failed, and no other will. -/
structure Cleaning (userId n : Id) (listed : Set (UploadTrace × Id)) (s : SharedWorld) : Prop where
  left : Left userId n listed s
  failed : callFailed s.log = true

theorem Cleaning.stable : Stable (backend cfg) oneFailure (.alone p) p (Cleaning userId n listed) :=
  fun _ _ hi h => ⟨Left.stable hi h.left, callFailed_stable hi h.failed⟩

/-- One step of the clean-up. -/
theorem Cleaning.removed (h : Cleaning userId n listed s) (hq : q.quiet = true)
    (he : q.isActiveExpire = false) (hgone : ¬ (s.store.deliver cfg q).1.has userId trace id) :
    Cleaning userId n (listed \ {(trace, id)}) ((backend cfg).after .delivered p q s) :=
  ⟨h.left.removed hq he hgone, callFailed_mono h.failed⟩

/-- A command to Redis during the clean-up. -/
theorem Cleaning.redis {c : RedisCommand} {f : c.Answer → Routine α}
    (hs : Cleaning userId n listed s) (h : ∀ t, Cleaning userId n listed t →
      ∀ a, Meets (backend cfg) oneFailure (.alone p) p (f a) Q
      ((backend cfg).after .delivered p (.redis c) t)) :
    Meets (backend cfg) oneFailure (.alone p) p ((await (.redis c)).bind f) Q s := by
  refine Meets.await Cleaning.stable hs fun t ht _ d ha => ?_
  cases delivered_of_failed ha ht.failed
  exact ⟨rfl, fun a _ => h t ht a, fun e he => by cases he⟩

/-- A call whose failure is ignored. -/
theorem Cleaning.ignored {k : Reply q → Routine Unit} {f : Unit → Routine α}
    {G : SharedWorld → Prop} (hk : ∀ r, k r = .ret () ∨ ∃ e, k r = .throw e)
    (hG : Stable (backend cfg) oneFailure (.alone p) p G) (hs : Cleaning userId n listed s)
    (hg : G s) (h : ∀ t, Cleaning userId n listed t → G t →
      Meets (backend cfg) oneFailure (.alone p) p (f ()) Q ((backend cfg).after .delivered p q t)) :
    Meets (backend cfg) oneFailure (.alone p) p (((Prog.call q k).handle fun _ => .ret ()).bind f) Q
      s := by
  refine Meets.call (Cleaning.stable.and hG) ⟨hs, hg⟩ fun t ht _ d ha => ⟨rfl, ?_⟩
  cases delivered_of_failed ha ht.1.failed
  have hrest := h t ht.1 ht.2
  dsimp only
  rcases hk ((backend cfg).reply .delivered q t) with hr | ⟨x, hr⟩
  · rw [hr]
    exact hrest
  · rw [hr]
    exact hrest

/-- The catch block of `initializeUpload` leaves the lock only. -/
theorem undo_leaves {created : Bool} {state : UploadMeta} {x : Thrown}
    (hs : Cleaning userId n listed s) (hkey : Keyed sid state.storageKey s.store)
    (hlisted : ∀ y ∈ listed, y = (.multipart, sid) ∨ y = (.state, uploadId) ∧ created = true ∨
      y = (.storageIndex, sid) ∨ y = (.initLock, token)) :
    Meets (backend cfg) oneFailure (.alone p) p
      (FilesService.undoRegistration userId uploadId state sid created x)
      (fun r t => r = .error x ∧ Cleaning userId n {(.initLock, token)} t) s := by
  have hend : ∀ t more, Cleaning userId n more t →
    (∀ y ∈ more, y = (.storageIndex, sid) ∨ y = (.initLock, token)) →
      Meets (backend cfg) oneFailure (.alone p) p
        ((await (.redis (.write (.del (.uploadIndex sid))))).bind fun _ =>
        (.throw x : Routine Unit))
        (fun r t => r = .error x ∧ Cleaning userId n {(.initLock, token)} t) t := by
    intro t more ht hmore
    refine Cleaning.redis ht fun t ht a => ?_
    have hgone : Cleaning userId n (more \ {(.storageIndex, sid)})
        ((backend cfg).after .delivered p (.redis (.write (.del (.uploadIndex sid)))) t) :=
      ht.removed rfl rfl (by simp [World.deliver, Redis.perform, World.has])
    refine Meets.throw Cleaning.stable hgone fun u hu _ => ⟨rfl, hu.left.mono ?_, hu.failed⟩
    rintro y ⟨hy, hne⟩
    exact (hmore y hy).resolve_left hne
  refine Cleaning.ignored (q := .s3 .files (.abortMultipartUpload state.storageKey (some sid)))
    (fun r => ?_) Keyed.stable hs hkey
    fun t ht hkey => ?_
  · cases r with
    | ok a => exact .inl rfl
    | error e => exact .inr ⟨e, rfl⟩
  have hgone : Cleaning userId n (listed \ {(.multipart, sid)})
      ((backend cfg).after .delivered p
        (.s3 .files (.abortMultipartUpload state.storageKey (some sid))) t) :=
    ht.removed rfl rfl (aborted hkey)
  cases created with
  | false =>
    refine hend _ _ hgone fun y hy => ?_
    rcases hlisted y hy.1 with h | ⟨-, h⟩ | h
    · exact absurd h hy.2
    · cases h
    · exact h
  | true =>
    refine Cleaning.redis hgone fun t ht a => ?_
    have hgone' : Cleaning userId n ((listed \ {(.multipart, sid)}) \ {(.state, uploadId)})
        ((backend cfg).after .delivered p (.redis (.write (.del (.uploadMeta userId uploadId))))
          t) :=
      ht.removed rfl rfl (by simp [World.deliver, Redis.perform, World.has])
    refine hend _ _ hgone' fun y hy => ?_
    rcases hlisted y hy.1.1 with h | ⟨h, -⟩ | h
    · exact absurd h hy.1.2
    · exact absurd h hy.2
    · exact h

/-- The set of active uploads has a new member that nobody is going to remove. -/
structure Stuck (userId n : Id) (s : SharedWorld) : Prop where
  member : ∃ id, n ≤ id ∧ s.store.has userId .member id
  failed : expireFailed s.log = true

/-- The catch block and the release of the lock leave the set of active uploads alone. -/
def Request.undoes : Request → Bool
  | .redis (.write (.del (.uploadMeta _ _))) | .redis (.write (.del (.uploadIndex _))) => true
  | .redis (.compareAndDelete (.uploadInitLock _) _) | .s3 .files (.abortMultipartUpload _ _) =>
    true
  | _ => false

theorem lookup_undoes {w : World} {u : Id} (hq : q.undoes = true) :
    (w.deliver cfg q).1.redis.lookup (.uploadActive u) = w.redis.lookup (.uploadActive u) := by
  unfold Request.undoes at hq
  split at hq
  · exact AList.lookup_erase_ne (by simp)
  · exact AList.lookup_erase_ne (by simp)
  · exact Redis.lookup_compareAndDelete (by simp)
  · rename_i k i
    simp only [World.deliver, World.bucket, Bucket.perform]
    cases w.filesBucket.abort k i with
    | ok b => rfl
    | error e => rfl
  · cases hq

theorem undoRegistration_undoes {created : Bool} {state : UploadMeta} {x : Thrown} :
    (FilesService.undoRegistration userId uploadId state sid created x).Calls fun q =>
      q.undoes = true := by
  have hend : (do
      await (.redis (.write (.del (.uploadIndex sid))))
      throw x : Routine Unit).Calls fun q => q.undoes = true := .bind (.await rfl) fun _ => trivial
  refine .bind (.handle (.await rfl) fun _ => trivial) fun _ => ?_
  exact .ite (.bind (.await rfl) fun _ => hend) hend

theorem Stuck.undoes {x : Routine α} (hx : x.Calls fun q => q.undoes = true)
    (hs : Stuck userId n s) :
    Meets (backend cfg) oneFailure (.alone p) p x (fun _ t => Stuck userId n t) s := by
  refine Meets.frame hx (Stable.alone fun _ _ _ h => ⟨h.member, h.failed⟩) (fun t q d hq _ ha ht =>
    ⟨rfl, ?_, ?_⟩) hs
  · obtain ⟨id, hid, ids, time, hlook, hmem⟩ := ht.member
    refine ⟨id, hid, ids, time, ?_, hmem⟩
    rcases allowed_cases ha with rfl | ⟨rfl, -⟩
    · exact (lookup_undoes hq).trans hlook
    · exact hlook
  · show expireFailed (_ :: t.log) = true
    rw [expireFailed, List.any_cons]
    exact (Bool.or_eq_true _ _).mpr (.inr ht.failed)

/-- The routine makes calls of one kind to Redis and S3, and throws only where one has failed. -/
def Passes (P : Request → Prop) : Routine α → Prop
  | .ret _ => True
  | .throw _ => False
  | .call q k =>
    (q.external = true ∧ P q) ∧ (∀ a, Passes P (k (.ok a))) ∧ ∀ e, ∃ x, k (.error e) = .throw x

section
variable {P : Request → Prop} {β : Type}

theorem Passes.await (hq : q.external = true) (hP : P q) : Passes P (await q) :=
  ⟨⟨hq, hP⟩, fun _ => trivial, fun e => ⟨e, rfl⟩⟩

theorem Passes.bind {x : Routine β} {f : β → Routine α} (hx : Passes P x)
    (hf : ∀ b, Passes P (f b)) : Passes P (x.bind f) := by
  induction x with
  | ret b => exact hf b
  | throw e => exact hx.elim
  | call q k ih =>
    refine ⟨hx.1, fun a => ih (.ok a) (hx.2.1 a), fun e => ?_⟩
    obtain ⟨x, hk⟩ := hx.2.2 e
    exact ⟨x, congrArg (Prog.bind · f) hk⟩

theorem Passes.ite {c : Prop} [Decidable c] {x y : Routine α} (hx : Passes P x) (hy : Passes P y) :
    Passes P (if c then x else y) := by
  split
  · exact hx
  · exact hy

theorem Passes.forEach {xs : List β} {f : β → Routine Unit} (hf : ∀ x, Passes P (f x)) :
    Passes P (Prog.forEach xs f) := by
  induction xs with
  | nil => trivial
  | cons x xs ih => exact .bind (hf x) fun _ => ih

theorem Passes.calls {x : Routine α} (hx : Passes P x) : x.Calls P := by
  induction x with
  | ret a => trivial
  | throw e => trivial
  | call q k ih =>
    refine ⟨hx.1.2, fun r => ?_⟩
    cases r with
    | ok a => exact ih _ (hx.2.1 a)
    | error e =>
      obtain ⟨x, hk⟩ := hx.2.2 e
      rw [hk]
      trivial

/-- A thrown error shows that a call has failed. -/
theorem Passes.failed {x : Routine α} (hx : Passes P x) :
    Meets (backend cfg) oneFailure (.alone p) p x (fun r t => ∀ e, r = .error e →
      callFailed t.log = true) s := by
  induction x generalizing s with
  | ret a => exact fun _ _ _ e he => by cases he
  | throw e => exact hx.elim
  | call q k ih =>
    refine Meets.call (Stable.const True) trivial fun t _ _ d ha => ⟨rfl, ?_⟩
    cases hr : (backend cfg).reply d q t with
    | ok a => exact ih (.ok a) (hx.2.1 a)
    | error e =>
      obtain ⟨x, hk⟩ := hx.2.2 e
      rw [hk]
      exact Meets.throw callFailed_stable (callFailed_error hx.1.1 hr) fun u hu _ _ _ => hu

end

/-- Making room for the upload only removes what others have. -/
theorem makeRoom_passes :
    Passes (fun q => q.quiet = true ∧ q.isActiveExpire = false)
    (FilesService.makeRoomForActiveUpload userId) := by
  have habort : ∀ id state, Passes (fun q => q.quiet = true ∧ q.isActiveExpire = false)
      (FilesService.abortActiveUpload userId id state) := by
    intro id state
    have rest : Passes (fun q => q.quiet = true ∧ q.isActiveExpire = false) (do
        await (.redis (.write (.del (.uploadMeta userId id))))
        FilesService.releaseActiveUpload userId id) :=
          .bind (.await rfl ⟨rfl, rfl⟩) fun _ => .await rfl ⟨rfl, rfl⟩
    refine .ite (.bind (.await rfl ⟨rfl, rfl⟩) fun _ => .bind ?_ fun _ => rest) rest
    unfold FilesService.delUploadIndex
    split
    · exact .await rfl ⟨rfl, rfl⟩
    · trivial
  have hstale : ∀ us : List Id, (Request.redis
    (.multi (us.map (RedisWrite.srem (.uploadActive userId))))).quiet = true := by
    intro us
    simp [Request.quiet, RedisWrite.quiet]
  have hmalformed : ∀ us : List Id,
      (Request.redis (.multi (us.map fun u => .del (.uploadMeta userId u)))).quiet = true := by
    intro us
    simp [Request.quiet, RedisWrite.quiet]
  have rest : ∀ xs : List (Id × UploadMeta),
    Passes (fun q => q.quiet = true ∧ q.isActiveExpire = false)
      (Prog.forEach xs fun x => FilesService.abortActiveUpload userId x.1 x.2) :=
        fun xs => .forEach fun x => habort x.1 x.2
  refine .bind (.await rfl ⟨rfl, rfl⟩) fun ids =>
    .ite trivial (.bind (.await rfl ⟨rfl, rfl⟩) fun values => ?_)
  exact .ite (.bind (.await rfl ⟨hstale _, rfl⟩) fun _ =>
    .ite (.bind (.await rfl ⟨hmalformed _, rfl⟩) fun _ => rest _) (rest _))
    (.ite (.bind (.await rfl ⟨hmalformed _, rfl⟩) fun _ => rest _) (rest _))

/-- What is left of the attempt where it throws: the lock, or a member that stays. -/
def Ended (userId n token : Id) (t : SharedWorld) : Prop :=
  Cleaning userId n {(.initLock, token)} t ∨ Stuck userId n t

/-- A command to Redis that makes something: where it fails, it makes nothing. -/
theorem Left.redis {c : RedisCommand} {f : c.Answer → Routine α} {G : World → Prop}
    (he : (Request.redis c).isActiveExpire = false)
    (hG : Stable (backend cfg) oneFailure (.alone p) p fun s => G s.store)
    (hs : Left userId n listed s) (hg : G s.store) (hok : ∀ t, Left userId n listed t → G t.store →
      ∀ a, (t.store.deliver cfg (.redis c)).2 = .ok a →
      Meets (backend cfg) oneFailure (.alone p) p (f a) Q
        ((backend cfg).after .delivered p (.redis c) t))
    (herr : ∀ t x, Cleaning userId n listed t → G t.store →
      Meets (backend cfg) oneFailure (.alone p) p (.throw x) Q t) :
    Meets (backend cfg) oneFailure (.alone p) p ((Redbox.await (.redis c)).bind f) Q s := by
  refine Meets.await (Left.stable.and hG) ⟨hs, hg⟩ fun t ht _ d ha => ⟨rfl, ?_⟩
  rcases allowed_cases ha with rfl | ⟨rfl, -⟩
  · refine ⟨fun a hr => hok t ht.1 ht.2 a hr, fun e hr => ?_⟩
    cases hr
  · refine ⟨fun a hr => ?_, fun e hr => ?_⟩
    · cases hr
    · exact herr _ e ⟨⟨ht.1.only, (expireFailed_after he).trans ht.1.calm⟩,
        callFailed_error rfl hr⟩ ht.2

/-- `reserveActiveUpload` fails before the `SADD`, after which nothing of its own is left, or after
it. -/
theorem reserveActiveUpload_leaves (hn : n ≤ uploadId) (hs : Left userId n listed s)
    (hkey : Keyed sid key s.store) :
    Meets (backend cfg) oneFailure (.alone p) p (FilesService.reserveActiveUpload userId uploadId)
      (fun r t => ∀ x, r = .error x → (Cleaning userId n listed t ∧ Keyed sid key t.store) ∨
        Stuck userId n t) s := by
  have herr : ∀ (t : SharedWorld) (x : Thrown), Cleaning userId n listed t → Keyed sid key t.store →
      Meets (backend cfg) oneFailure (.alone p) p (.throw x : Routine Unit)
        (fun r t => ∀ x, r = .error x → (Cleaning userId n listed t ∧ Keyed sid key t.store) ∨
          Stuck userId n t) t :=
    fun t x ht hk => Meets.throw (Cleaning.stable.and Keyed.stable) ⟨ht, hk⟩ fun u hu _ _ _ =>
      .inl hu
  have hpasses : Passes (fun q => q.quiet = true ∧ q.isActiveExpire = false)
      (FilesService.makeRoomForActiveUpload userId) := makeRoom_passes
  have hroom := Meets.frame (S := backend cfg) (R := oneFailure) (p := p) (F :=
    fun t => Left userId n listed t ∧ Keyed sid key t.store)
    hpasses.calls (Left.stable.and Keyed.stable)
    (fun t q d hq _ ha ht => ⟨rfl, ht.1.quiet hq.1 hq.2 ha, ht.2.quiet hq.1 ha⟩) ⟨hs, hkey⟩
  refine (hroom.and hpasses.failed).next (fun e t _ ht x _ => .inl ⟨⟨ht.1.1, ht.2 e rfl⟩, ht.1.2⟩)
    fun _ t _ ht => ?_
  refine Left.redis rfl Keyed.stable ht.1.1 ht.1.2 (fun t _ _ _ _ => ?_) herr
  -- from here on the set has the new member
  have hmember : ((backend cfg).after .delivered p
    (.redis (.write (.sadd (.uploadActive userId) uploadId))) t).store.has userId .member
      uploadId := by
    show ∃ ids time, (t.store.redis.write t.store.clock
      (.sadd (.uploadActive userId) uploadId)).lookup _ = _ ∧ _
    simp only [Redis.write]
    split
    · exact ⟨_, _, AList.lookup_insert _, List.mem_insert_self⟩
    · exact ⟨_, _, AList.lookup_insert _, List.mem_singleton.mpr rfl⟩
  rw [← Prog.bind_ret (await _)]
  refine Meets.await (F := fun t => t.store.has userId .member uploadId)
    (Stable.alone fun _ _ _ h => h) hmember
    fun t ht _ d ha => ⟨rfl, fun a _ => ?_, fun e hr => ?_⟩
  · exact fun _ _ _ x hx => by cases hx
  · rcases allowed_cases ha with rfl | ⟨rfl, -⟩
    · cases hr
    · refine Meets.throw (F := Stuck userId n) (Stable.alone fun _ _ _ h => ⟨h.member, h.failed⟩)
        ⟨⟨uploadId, hn, ht⟩, ?_⟩
        fun u hu _ _ _ => .inr hu
      show expireFailed (_ :: t.log) = true
      rfl

/-- What the registration has made is undone where it fails, but for the member. -/
theorem registerUpload_leaves {state : UploadMeta} (hn : n ≤ uploadId)
    (hs : Left userId n {(.multipart, sid), (.initLock, token)} s)
    (hkey : Keyed sid state.storageKey s.store) : Meets (backend cfg) oneFailure (.alone p) p
      (FilesService.registerUpload userId uploadId state sid) (fun r t => ∀ x, r = .error x →
        Ended userId n token t) s := by
  have hundo : ∀ (created : Bool) (listed : Set (UploadTrace × Id)) (t : SharedWorld) (e : Thrown),
    Cleaning userId n listed t →
      Keyed sid state.storageKey t.store →
        (∀ y ∈ listed, y = (.multipart, sid) ∨ y = (.state, uploadId) ∧ created = true ∨
        y = (.storageIndex, sid) ∨ y = (.initLock, token)) →
      Meets (backend cfg) oneFailure (.alone p) p
        (FilesService.undoRegistration userId uploadId state sid created e)
        (fun r t => r = .error e ∧ Ended userId n token t) t :=
    fun created listed t e ht hk hl => (undo_leaves ht hk hl).mono fun _ _ _ hu => ⟨hu.1, .inl hu.2⟩
  refine Meets.next (Q := EndsWith (fun t => Left userId n {(.multipart, sid), (.state, uploadId),
    (.initLock, token)} t ∧
    Keyed sid state.storageKey t.store) (Ended userId n token)) (Meets.caught ?_)
      (fun e t _ ht _ _ => ht) fun _ t _ ht => ?_
  · rw [← Prog.bind_ret (await _)]
    refine Left.redis rfl Keyed.stable hs hkey (fun t ht hk _ _ => ?_) fun t x ht hk => ?_
    · refine Meets.ret (Left.stable.and Keyed.stable) ⟨ht.after rfl rfl ?_ fun trace id hx => ?_,
        hk⟩ fun _ h _ => h
      · rintro y (rfl | rfl) <;> simp
      · refine (has_write hx).imp_right fun h => ?_
        cases trace <;> simp [traceKey, RedisWrite.key] at h
        simp [h]
    · refine Meets.throw (Cleaning.stable.and Keyed.stable) ⟨ht, hk⟩ fun u hu _ => ?_
      refine (hundo false _ u x hu.1 hu.2 fun y hy => ?_).mono fun r t _ h => ?_
      · rcases hy with rfl | rfl <;> simp
      · rw [h.1]
        exact h.2
  · have hcatch : ∀ (listed : Set (UploadTrace × Id)) (t : SharedWorld) (e : Thrown),
      Cleaning userId n listed t ∧
        Keyed sid state.storageKey t.store ∨ Stuck userId n t →
          (∀ y ∈ listed, y = (.multipart, sid) ∨ y = (.state, uploadId) ∧ true = true ∨
          y = (.storageIndex, sid) ∨ y = (.initLock, token)) →
        Meets (backend cfg) oneFailure (.alone p) p
          (FilesService.undoRegistration userId uploadId state sid true e)
          (fun r t => ∀ x, r = .error x → Ended userId n token t) t := by
      rintro listed t e (⟨ht, hk⟩ | ht) hl
      · exact (hundo true listed t e ht hk hl).mono fun _ _ _ h _ _ => h.2
      · exact (Stuck.undoes undoRegistration_undoes ht).mono fun _ _ _ h _ _ => .inr h
    refine Meets.caught ?_
    refine Left.redis rfl Keyed.stable ht.1 ht.2 (fun t ht hk _ _ => ?_) fun t x ht hk => ?_
    · have hindexed : Left userId n {(.multipart, sid), (.state, uploadId), (.storageIndex, sid),
        (.initLock, token)} ((backend cfg).after
          .delivered p (.redis (.write
            (.set (.uploadIndex sid) (.index ⟨.uploadMeta userId uploadId,
            .uploadActive userId, uploadId⟩)
            uploadMetaTtlSeconds))) t) := by
        refine ht.after rfl rfl ?_ fun trace id hx => ?_
        · rintro y (rfl | rfl | rfl) <;> simp
        · refine (has_write hx).imp_right fun h => ?_
          cases trace <;> simp [traceKey, RedisWrite.key] at h
          simp [h]
      refine (reserveActiveUpload_leaves hn hindexed hk).mono fun r t _ h => ?_
      cases r with
      | ok a => exact fun x hx => by cases hx
      | error e =>
        exact hcatch _ t e (h e rfl) fun y hy => by rcases hy with rfl | rfl | rfl | rfl <;> simp
    · refine Meets.throw (Cleaning.stable.and Keyed.stable) ⟨ht, hk⟩ fun u hu _ => ?_
      exact hcatch _ u x (.inl hu) fun y hy => by rcases hy with rfl | rfl | rfl <;> simp

/-- After a failed attempt, exactly the `EXPIRE` decides whether something is left. -/
def Decided (userId n : Id) (t : SharedWorld) : Prop := NothingNew userId n t.store ↔
    expireFailed t.log = false

theorem Left.decided (h : Left userId n ∅ s) : Decided userId n s :=
  iff_of_true (fun trace id hx => (h.only trace id hx).resolve_right (Set.notMem_empty _)) h.calm

theorem Stuck.decided (h : Stuck userId n s) : Decided userId n s := by
  obtain ⟨id, hid, hmember⟩ := h.member
  refine iff_of_false (fun hnew => ?_) (by simp [h.failed])
  exact Nat.lt_irrefl id (Nat.lt_of_lt_of_le (hnew .member id hmember) hid)

theorem unlocked {w : World} : ¬ (w.deliver cfg
      (.redis (.compareAndDelete (.uploadInitLock userId) token))).1.has userId
    .initLock token := by
  intro h
  simp only [World.deliver, Redis.perform] at h
  split at h
  · rename_i t hget
    split at h
    · obtain ⟨time, hlook⟩ := Redis.lookup_of_get h
      cases (AList.lookup_erase _ _).symm.trans hlook
    · rename_i hne
      cases hget.symm.trans h
      exact hne rfl
  · rename_i hother
    exact hother token h

/-- The lock is released after the catch block. -/
theorem release_decided {x : Thrown} {β : Type} (hs : Ended userId n token s) :
    Meets (backend cfg) oneFailure (.alone p) p
      ((FilesService.ignoring (await
        (.redis (.compareAndDelete (.uploadInitLock userId) token)))).bind fun _ =>
        (.throw x : Routine β))
      (fun _ t => Decided userId n t) s := by
  rcases hs with hs | hs
  · refine Cleaning.ignored (G := fun _ => True) (q :=
      .redis (.compareAndDelete (.uploadInitLock userId) token)) (fun r => ?_)
      (Stable.const True) hs trivial fun t ht _ => ?_
    · cases r with
      | ok a => exact .inl rfl
      | error e => exact .inr ⟨e, rfl⟩
    · have hgone : Cleaning userId n ({(.initLock, token)} \ {(.initLock, token)})
          ((backend cfg).after .delivered p
            (.redis (.compareAndDelete (.uploadInitLock userId) token)) t) :=
        ht.removed rfl rfl unlocked
      refine Meets.throw Cleaning.stable hgone fun u hu _ => (hu.left.mono ?_).decided
      exact fun y hy => absurd hy.1 hy.2
  · refine (Stuck.undoes (.bind (.handle (.await rfl) fun _ => Prog.calls_ret _) fun _ =>
      Prog.calls_throw _) hs).mono fun _ _ _ h => h.decided

/-- A call that makes nothing, before anything has been made. -/
theorem Left.quietly {f : q.Answer → Routine α} (hq : q.quiet = true)
    (he : q.isActiveExpire = false) (hs : Left userId n ∅ s ∧ n ≤ s.store.nextId)
    (hnext : ∀ w : World, w.nextId ≤ (w.deliver cfg q).1.nextId)
    (hok : ∀ t, n ≤ t.store.nextId → ∀ a, (t.store.deliver cfg q).2 = .ok a →
      (Left userId n ∅ ((backend cfg).after .delivered p q t) ∧
        n ≤ ((backend cfg).after .delivered p q t).store.nextId) →
      Meets (backend cfg) oneFailure (.alone p) p (f a) (fun r t => ∀ x, r = .error x →
        Decided userId n t)
        ((backend cfg).after .delivered p q t)) :
    Meets (backend cfg) oneFailure (.alone p) p ((Redbox.await q).bind f) (fun r t => ∀ x,
      r = .error x → Decided userId n t) s := by
  refine Meets.await (Left.stable.and (Stable.alone (F :=
    fun s => n ≤ s.store.nextId) fun _ _ _ h => h)) hs
    fun t ht _ d ha => ⟨rfl, fun a hr => ?_, fun e hr => ?_⟩
  · rcases allowed_cases ha with rfl | ⟨rfl, -⟩
    · exact hok t ht.2 a hr ⟨ht.1.quiet hq he ha, Nat.le_trans ht.2 (hnext _)⟩
    · cases hr
  · exact Meets.throw Left.stable (ht.1.quiet hq he ha) fun u hu _ _ _ => hu.decided

theorem Left.throwIf {c : Prop} [Decidable c] {e : Thrown} {f : Unit → Routine α}
    (hs : Left userId n ∅ s) (h : ¬ c → Meets (backend cfg) oneFailure (.alone p) p (f ())
      (fun r t => ∀ x, r = .error x → Decided userId n t) s) :
    Meets (backend cfg) oneFailure (.alone p) p ((Prog.throwIf c e).bind f)
    (fun r t => ∀ x, r = .error x → Decided userId n t) s :=
  Meets.throwIf (fun _ => Meets.throw Left.stable hs fun _ hu _ _ _ => hu.decided) h

/-- The lock is taken under a new token, or the attempt ends. -/
theorem acquireUploadInitLock_leaves (hs : Left userId n ∅ s) :
    Meets (backend cfg) oneFailure (.alone p) p
    (FilesService.acquireUploadInitLock userId) (fun r t => match r with
      | .ok token => Left userId n {(.initLock, token)} t
      | .error _ => Decided userId n t) s := by
  refine Meets.await Left.stable hs fun t ht _ d ha => ⟨rfl, fun token _ => ?_, fun e _ => ?_⟩
  · refine Left.redis (G := fun _ => True) rfl (Stable.const True) (ht.quiet rfl rfl ha) trivial
      (fun t ht _ acquired hr => ?_) fun t x ht _ => ?_
    · have hmade : ∀ trace id, (t.store.deliver cfg
        (.redis (.setNX (.uploadInitLock userId) (.token token) uploadInitLockTtlSeconds))).1.has
          userId trace id → t.store.has userId trace id ∨ acquired = true ∧
            (trace, id) = (.initLock, token) := by
        intro trace id hx
        simp only [World.deliver, Redis.perform] at hr hx
        split at hr
        · rename_i hlive
          rw [if_pos hlive] at hx
          exact .inl hx
        · rename_i hlive
          rw [if_neg hlive] at hx
          refine (has_write (x := .set (.uploadInitLock userId) (.token token)
            uploadInitLockTtlSeconds) hx).imp_right fun hkey =>
            ⟨(Except.ok.inj hr).symm, ?_⟩
          cases trace <;> simp [traceKey, RedisWrite.key] at hkey
          obtain ⟨time, hlook⟩ := Redis.lookup_of_get hx
          cases (AList.lookup_insert _).symm.trans hlook
          rfl
      refine Meets.throwIf (fun hfalse => ?_) fun htrue => ?_
      · refine Meets.throw Left.stable (ht.after rfl rfl subset_rfl fun trace id hx => .inl ?_)
          fun _ h _ => h.decided
        refine (hmade trace id hx).resolve_right fun hx => ?_
        rw [hfalse] at hx
        cases hx.1
      · exact Meets.ret Left.stable (ht.after rfl rfl (Set.empty_subset _) fun trace id hx =>
          (hmade trace id hx).imp_right fun hx => hx.2)
          fun _ h _ => h
    · exact Meets.throw Left.stable ht.left fun _ h _ => h.decided
  · exact Meets.throw Left.stable (ht.quiet rfl rfl ha) fun _ h _ => h.decided

/-- What `initializeUpload` leaves where it throws. -/
theorem initializeUpload_decided {dto : InitUploadDto}
    (hs : Left userId n ∅ s ∧ n ≤ s.store.nextId) :
    Meets (backend cfg) oneFailure (.alone p) p (FilesService.initializeUpload cfg userId dto)
      (fun r t => ∀ x, r = .error x → Decided userId n t) s := by
  have fresh : Stable (backend cfg) oneFailure (.alone p) p fun t => Left userId n ∅ t ∧
      n ≤ t.store.nextId :=
    Left.stable.and (Stable.alone (F := fun s : SharedWorld => n ≤ s.store.nextId) fun _ _ _ h => h)
  refine Meets.next (Q := EndsWith (fun t => Left userId n ∅ t ∧
    n ≤ t.store.nextId) (Decided userId n)) ?_ (fun _ _ _ h _ _ => h) fun _ s _ hs => ?_
  · refine Meets.await fresh hs fun t ht _ d ha => ⟨rfl, fun value _ => ?_, fun e _ => ?_⟩
    · have hread : Left userId n ∅ ((backend cfg).after d p (.redis (.get (.masterKey userId))) t) ∧
          n ≤ ((backend cfg).after d p (.redis (.get (.masterKey userId))) t).store.nextId := by
        refine ⟨ht.1.quiet rfl rfl ha, ?_⟩
        rcases allowed_cases ha with rfl | ⟨rfl, -⟩
        · exact ht.2
        · exact ht.2
      split
      · exact Meets.ret fresh hread fun _ h _ => h
      · exact Meets.throw fresh hread fun _ h _ => h.1.decided
    · exact Meets.throw Left.stable (ht.1.quiet rfl rfl ha) fun _ h _ => h.decided
  refine Left.throwIf hs.1 fun _ => ?_
  refine Left.quietly rfl rfl hs (fun w => Nat.le_refl _) fun t _ _ _ ht => ?_
  refine Left.quietly rfl rfl ht (fun w => Nat.le_succ _) fun t hn uploadId hid ht => ?_
  cases hid
  generalize t.store.nextId = uploadId at hn
  refine Left.quietly rfl rfl ht (fun w => Nat.le_succ _) fun t _ storageKey _ ht => ?_
  refine Left.quietly rfl rfl ht (fun w => Nat.le_succ _) fun t _ salt _ ht => ?_
  generalize (dto.password.filter fun x => decide (x ≠ "")).map (fun p => cfg.bcryptHash p salt) =
    passwordHash
  refine (acquireUploadInitLock_leaves ht.1).next (fun _ _ _ h _ _ => h) fun token s _ hs => ?_
  refine Meets.next (Q := EndsWith (fun _ => True) (Decided userId n)) (Meets.caught ?_)
    (fun _ _ _ h _ _ => h) fun _ t _ _ => ?_
  · have hcatch : ∀ (t : SharedWorld) (e : Thrown), Ended userId n token t →
      Meets (backend cfg) oneFailure (.alone p) p
        ((FilesService.ignoring (await
          (.redis (.compareAndDelete (.uploadInitLock userId) token)))).bind fun _ =>
          (.throw e : Routine Unit))
        (EndsWith (fun _ => True) (Decided userId n)) t := by
      intro t e ht
      refine (release_decided ht).mono fun r t _ h => ?_
      cases r with
      | ok a => trivial
      | error e => exact h
    refine Meets.await Left.stable hs fun t ht _ d ha => ⟨rfl, fun sid hr => ?_, fun e hr => ?_⟩
    · rcases allowed_cases ha with rfl | ⟨rfl, -⟩
      · cases hr
        generalize hsid : t.store.nextId = sid
        have hcreated : Left userId n {(.multipart, sid), (.initLock, token)}
          ((backend cfg).after .delivered p
            (.s3 .files (.createMultipartUpload storageKey)) t) := by
          refine ht.after rfl rfl (by rintro y rfl; simp) fun trace id hx => ?_
          cases trace with
          | multipart =>
            rcases (AList.mem_insert _).mp hx with rfl | hx
            · exact .inr (by simp [hsid])
            · exact .inl hx
          | _ => exact .inl hx
        have hkey : Keyed sid storageKey
            ((backend cfg).after .delivered p (.s3 .files (.createMultipartUpload storageKey))
          t).store := by
          subst hsid
          intro u hu
          cases (AList.lookup_insert _).symm.trans hu
          rfl
        refine Meets.await (Left.stable.and Keyed.stable) ⟨hcreated, hkey⟩ fun t ht _ d ha =>
          ⟨rfl, fun now _ => ?_, fun e hr => ?_⟩
        · refine (registerUpload_leaves hn (ht.1.quiet rfl rfl ha) (ht.2.quiet rfl ha)).mono
            fun r t _ h => ?_
          cases r with
          | ok a => trivial
          | error e => exact hcatch t e (h e rfl)
        · rcases allowed_cases ha with rfl | ⟨rfl, -⟩
          · cases hr
          · cases ha
      · cases hr
    · rcases allowed_cases ha with rfl | ⟨rfl, -⟩
      · cases hr
      · have hfailed : Cleaning userId n {(.initLock, token)} ((backend cfg).after .failed p
            (.s3 .files (.createMultipartUpload storageKey)) t) :=
          ⟨⟨ht.only, (expireFailed_after rfl).trans ht.calm⟩, callFailed_error rfl hr⟩
        exact Meets.throw Cleaning.stable hfailed fun u hu _ => hcatch u e (.inl hu)
  · have hnothrow : ((FilesService.ignoring
      (await (.redis (.compareAndDelete (.uploadInitLock userId) token)))).bind fun _ =>
        (.ret uploadId : Routine Id)).NoThrow := .bind (.handle fun _ => trivial) fun _ => trivial
    refine ((Meets.frame (F := fun _ => True) (Prog.calls_true _) (Stable.const True)
      (fun _ _ _ _ _ _ _ => ⟨rfl, trivial⟩) trivial).noThrow
      hnothrow).mono fun r t _ h x hx => ?_
    obtain ⟨a, ha⟩ := h.2
    cases ha.symm.trans hx

/-- Where at most one call to Redis or S3 fails and `initializeUpload` throws, it leaves nothing of
the new upload behind exactly when the call that failed is not the `EXPIRE` after the `SADD`. -/
theorem failed_initialization_leaves_nothing {dto : InitUploadDto} {w : World} {x : Thrown}
    {t : SharedWorld} (hw : NothingNew userId w.nextId w)
    (h : Ends (backend cfg) oneFailure 0 (FilesService.initializeUpload cfg userId dto) (.initial w)
      (.error x) t) :
    NothingNew userId w.nextId t.store ↔ expireFailed t.log = false := by
  have hstart : Left userId w.nextId ∅ (.initial w) ∧
      w.nextId ≤ (Shared.initial w : SharedWorld).store.nextId :=
    ⟨⟨fun trace id hx => .inl (hw trace id hx), rfl⟩, Nat.le_refl _⟩
  exact (initializeUpload_decided hstart).ends h x rfl

end

/-- A user who is logged in starts an upload, and its calls are resolved as given. -/
def failedInitialization (ds : List Delivery) : Option (Except Thrown Id × SharedWorld) :=
  (backend demoConfig).resolve oneFailure 0 ds (FilesService.initializeUpload demoConfig 1 ⟨1000, 1,
    none, none⟩)
    (.initial BrowserUpload.forwardWorld)

theorem nothingNew_forwardWorld : NothingNew 1 100 BrowserUpload.forwardWorld := by
  have hlook : ∀ k, k ≠ .masterKey 1 → BrowserUpload.forwardWorld.redis.lookup k = none :=
    fun k hk => (AList.lookup_insert_ne hk).trans rfl
  intro trace id h
  cases trace with
  | multipart => cases h
  | state => simp [World.has, hlook] at h
  | storageIndex => simp [World.has, hlook] at h
  | member => simp [World.has, hlook] at h
  | initLock =>
    obtain ⟨time, hl⟩ := Redis.lookup_of_get h
    simp [hlook] at hl

/-- The metadata cannot be stored: the multipart upload and the lock go. -/
theorem failed_initialization_leaves_nothing_demo : ∃ t : SharedWorld, callFailed t.log = true ∧
    NothingNew 1 100 t.store := by
  have key : ((failedInitialization (List.replicate 9 .delivered ++ .failed ::
    List.replicate 3 .delivered)).any fun r =>
      decide (r.1 = .error (.fault .unavailable)) && callFailed r.2.log && !expireFailed r.2.log) =
        true := by decide +kernel
  obtain ⟨⟨r, t⟩, hr, hchecks⟩ := (Option.any_eq_true _ _).mp key
  simp only [Bool.and_eq_true, decide_eq_true_eq, Bool.not_eq_true'] at hchecks
  obtain ⟨⟨rfl, hfailed⟩, hcalm⟩ := hchecks
  exact ⟨t, hfailed, (failed_initialization_leaves_nothing nothingNew_forwardWorld
    (Ends.resolve hr)).mpr hcalm⟩

/-- The `EXPIRE` fails, and the new id stays in the set. -/
theorem failed_expire_leaves_member : ∃ x t, Ends (backend demoConfig) oneFailure 0
    (FilesService.initializeUpload demoConfig 1 ⟨1000, 1, none, none⟩)
    (.initial BrowserUpload.forwardWorld) (.error x) t ∧
    t.store.redis.smembers t.store.clock (.uploadActive 1) = [100] ∧
    ¬ NothingNew 1 100 t.store := by
  have key : ((failedInitialization (List.replicate 13 .delivered ++ .failed ::
    List.replicate 4 .delivered)).any fun r =>
      decide (r.1 = .error (.fault .unavailable)) &&
        decide (r.2.store.redis.smembers r.2.store.clock (.uploadActive 1) = [100])) = true := by
    decide +kernel
  obtain ⟨⟨r, t⟩, hr, hchecks⟩ := (Option.any_eq_true _ _).mp key
  simp only [Bool.and_eq_true, decide_eq_true_eq] at hchecks
  obtain ⟨rfl, hmembers⟩ := hchecks
  refine ⟨_, t, Ends.resolve hr, hmembers, fun hnew => ?_⟩
  have hmem : 100 ∈ t.store.redis.smembers t.store.clock (.uploadActive 1) := by
    rw [hmembers]
    exact List.mem_singleton.mpr rfl
  exact Nat.lt_irrefl 100 (hnew .member 100 (Redis.mem_of_mem_smembers hmem))

end Redbox
