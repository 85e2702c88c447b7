import Redbox.Files.ActiveUploads
import Redbox.Files.UploadAdmission

/-! What Redis holds of the active uploads, under the locks of the processes that initialize them.
-/
namespace Redbox
open Interleaving

namespace UploadRequest

/-- The writes of a call to Redis. -/
def writes : UploadRequest → List RedisWrite
  | .backend (.redis (.write w)) => [w]
  | .backend (.redis (.multi ws)) => ws
  | _ => []

end UploadRequest

namespace UploadEvent

def creates : UploadEvent → Option Id
  | ⟨_, .backend (.s3 .files (.createMultipartUpload _)), .ok s3UploadId⟩ => some s3UploadId
  | _ => none

/-- An upload becomes active. -/
def reserves : UploadEvent → Option (Id × Id)
  | ⟨_, .backend (.redis (.write (.sadd (.uploadActive userId) uploadId))), .ok _⟩ =>
    some (userId, uploadId)
  | _ => none

/-- The last call of a reservation. -/
def renews : UploadEvent → Option Id
  | ⟨_, .backend (.redis (.write (.expire (.uploadActive userId) _))), .ok _⟩ => some userId
  | _ => none

/-- The process begins to make room. -/
def looks : UploadEvent → Bool
  | ⟨_, .backend (.redis (.smembers _)), _⟩ => true
  | _ => false

/-- The metadata of uploads that the process read, to make room. -/
def reads : UploadEvent → List (Id × Id × UploadMeta)
  | ⟨_, .backend (.redis (.mget keys)), .ok values⟩ =>
    (keys.zip values).filterMap fun x => match x with
    | (.uploadMeta userId uploadId, some (.upload state)) => some (userId, uploadId, state)
    | _ => none
  | _ => []

end UploadEvent

/-- The write takes something away of an upload with this state: its metadata, its index entry or
its membership. -/
def RedisWrite.removes (userId uploadId : Id) (state : UploadMeta) : RedisWrite → Bool
  | .del (.uploadMeta u x) => decide (u = userId ∧ x = uploadId)
  | .del (.uploadIndex i) => decide (state.s3UploadId = some i)
  | .srem (.uploadActive u) x => decide (u = userId ∧ x = uploadId)
  | _ => false

/-- The process has been given the name. -/
def Drew (p : Nat) (id : Id) (log : List UploadEvent) : Prop :=
  ∃ e ∈ log, e.pid = p ∧ UploadEvent.draws e = some id

def Created (p : Nat) (s3UploadId : Id) (log : List UploadEvent) : Prop :=
  ∃ e ∈ log, e.pid = p ∧ UploadEvent.creates e = some s3UploadId

def Took (p userId token : Nat) (log : List UploadEvent) : Prop :=
  ∃ e ∈ log, e.pid = p ∧ UploadEvent.takes e = some (userId, token)

def Reserved (p userId uploadId : Nat) (log : List UploadEvent) : Prop :=
  ∃ e ∈ log, e.pid = p ∧ UploadEvent.reserves e = some (userId, uploadId)

/-- The multipart upload of the state was aborted by the process. -/
def Aborted (p : Nat) (state : UploadMeta) (log : List UploadEvent) : Prop :=
  (⟨p, .backend (.s3 .files (.abortMultipartUpload state.storageKey state.s3UploadId)),
    .ok ()⟩ : UploadEvent) ∈ log

/-- All that the process did is of kind `K`. -/
def Own (p : Nat) (K : UploadEvent → Prop) (log : List UploadEvent) : Prop :=
  ∀ e ∈ log, e.pid = p → K e

/-- The process is within its critical section. -/
structure HoldsLock (p userId token : Nat) (log : List UploadEvent) : Prop where
  took : Took p userId token log
  goesOn : ended p log = false

/-- What was read to make room is removed only after its multipart upload was aborted. -/
def Orderly (p : Nat) (q : UploadRequest) (log : List UploadEvent) : Prop :=
  ∀ e ∈ log, e.pid = p → ∀ userId uploadId state, (userId, uploadId, state) ∈ UploadEvent.reads e →
    ∀ w ∈ q.writes, w.removes userId uploadId state = true → Aborted p state log

/-- The multipart upload that a process created at `t`. -/
def CreatedAt (p s3UploadId : Nat) (t : Time) (s : SharedUploads) : Prop :=
  Created p s3UploadId s.log ∧ s.store.initiated.lookup s3UploadId = some t

/-- The metadata of an upload is that of the process which initialized it. -/
structure Tracked (uploadId : Id) (state : UploadMeta) (p : Nat) (s : SharedUploads) : Prop where
  drew : Drew p uploadId s.log
  created : ∃ s3UploadId t, state.s3UploadId = some s3UploadId ∧ CreatedAt p s3UploadId t s ∧
    t ≤ state.updatedAt

/-- What the keys of uploads may hold. -/
def Sound (s : SharedUploads) : RedisKey → RedisValue → Prop
  | .uploadMeta _ uploadId, value => ∃ state p, value = .upload state ∧ Tracked uploadId state p s
  | .uploadIndex s3UploadId, value => ∃ userId uploadId p,
    value = .index ⟨.uploadMeta userId uploadId, .uploadActive userId, uploadId⟩ ∧
      Drew p uploadId s.log ∧
      Created p s3UploadId s.log
  | .uploadActive _, value => ∃ uploadId p, value = .members [uploadId] ∧ Drew p uploadId s.log ∧
    ¬ Own p (fun e => UploadEvent.looks e = false) s.log
  | _, _ => True

def initLockTtl : Nat := uploadInitLockTtlSeconds * 1000

/-- The lock that a process holds until `d`, and what it has done under it. -/
structure Lease (p userId token : Nat) (d : Time) (s : SharedUploads) : Prop where
  entry : s.store.world.redis.lookup (.uploadInitLock userId) = some ⟨.token token, some d⟩
  future : s.store.world.clock < d
  recent : d ≤ s.store.world.clock + initLockTtl
  created : ∀ s3UploadId t, CreatedAt p s3UploadId t s → d ≤ t + initLockTtl
  reserved : ∀ uploadId, Reserved p userId uploadId s.log → ∃ t,
    s.store.world.redis.lookup (.uploadActive userId) = some ⟨.members [uploadId], t⟩ ∧
      ∀ x ∈ t, d ≤ x

structure UploadsInv (s : SharedUploads) : Prop where
  drawn : ∀ {p id}, Drew p id s.log → id < s.store.world.nextId
  once : ∀ {p p' id}, Drew p id s.log → Drew p' id s.log → p = p'
  created : ∀ {p i}, Created p i s.log →
    (∃ t, s.store.initiated.lookup i = some t ∧ t ≤ s.store.world.clock) ∧ ∃ userId token,
      Took p userId token s.log
  took : ∀ {p userId token}, Took p userId token s.log → Drew p token s.log
  reserved : ∀ {p userId uploadId}, Reserved p userId uploadId s.log → Drew p uploadId s.log
  named : ∀ i ∈ s.store.world.filesBucket.uploads, i < s.store.world.nextId
  stored : ∀ {key e}, s.store.world.redis.lookup key = some e → Sound s key e.value
  lease : ∀ {p userId token}, HoldsLock p userId token s.log → ∃ d, Lease p userId token d s
  reads : ∀ e ∈ s.log, ∀ userId uploadId state, (userId, uploadId, state) ∈ UploadEvent.reads e →
    ∃ p, p ≠ e.pid ∧ Tracked uploadId state p s
  ordered : ∀ {e log}, e :: log <:+ s.log → Orderly e.pid e.req log
  newest : ∀ {e log userId}, s.log = e :: log → UploadEvent.renews e = some userId →
    ∃ token uploadId, HoldsLock e.pid userId token s.log ∧ Reserved e.pid userId uploadId log

/-- An upload that another process initialized. -/
def Others (p : Nat) (uploadId : Id) (log : List UploadEvent) : Prop :=
  ∃ p' ≠ p, Drew p' uploadId log

/-- Whoever was given the name has given its lock back. -/
structure Settled (uploadId : Id) (s : SharedUploads) : Prop where
  named : uploadId < s.store.world.nextId
  ended : ∀ p, Drew p uploadId s.log → ended p s.log = true

/-- The writes that a process may make to Redis. -/
def WriteAllowed (p : Nat) (s : SharedUploads) : RedisWrite → Prop
  | .set key value _ =>
    Sound s key value ∧ (∀ userId, key ≠ .uploadActive userId) ∧ ∀ userId,
      key ≠ .uploadInitLock userId
  | .sadd key uploadId =>
    ∃ userId token, key = .uploadActive userId ∧ HoldsLock p userId token s.log ∧
    Drew p uploadId s.log ∧ ¬ Own p (fun e => UploadEvent.looks e = false) s.log ∧
      s.store.world.redis.live s.store.world.clock key = none
  | .srem key uploadId => ∃ userId, key = .uploadActive userId ∧
    (Settled uploadId s ∨ ∃ token, HoldsLock p userId token s.log ∧ Others p uploadId s.log)
  | .expire key seconds => seconds = uploadMetaTtlSeconds ∧ ∀ userId, key ≠ .uploadInitLock userId
  | .del key => (∀ userId, key ≠ .uploadActive userId) ∧ ∀ userId, key ≠ .uploadInitLock userId

/-- What a process has done before it takes a lock. -/
def Unlocked (e : UploadEvent) : Prop :=
  UploadEvent.takes e = none ∧ UploadEvent.creates e = none ∧ UploadEvent.reserves e = none ∧
    UploadEvent.givesBack e = false ∧ UploadEvent.looks e = false ∧ UploadEvent.reads e = []

/-- What a process has to see to before a call. -/
def UploadRequest.Ready (p : Nat) (s : SharedUploads) : UploadRequest → Prop
  | .backend (.redis (.setNX key value seconds)) =>
    ∃ userId token, key = .uploadInitLock userId ∧ value = .token token ∧
    seconds = uploadInitLockTtlSeconds ∧ Drew p token s.log ∧ Own p Unlocked s.log
  | .backend (.redis (.compareAndDelete key token)) =>
    ∃ userId, key = .uploadInitLock userId ∧ Drew p token s.log
  | .backend (.s3 .files (.createMultipartUpload _)) =>
    ∃ userId token, HoldsLock p userId token s.log
  | .backend (.s3 .files (.uploadPart _ s3UploadId _ _)) => s3UploadId < s.store.world.nextId
  | .backend (.redis (.multi ws)) => ∀ w ∈ ws, ∀ key member, w ≠ .sadd key member
  | .backend (.redis (.write (.expire (.uploadActive userId) _))) =>
    ∃ token uploadId, HoldsLock p userId token s.log ∧ Reserved p userId uploadId s.log
  | .backend (.redis (.mget keys)) =>
    ∀ key ∈ keys, ∃ userId uploadId, key = .uploadMeta userId uploadId ∧
    Others p uploadId s.log
  | _ => True

/-- Uploads become active under a lock, and after another one has gone. -/
def uploadsOutline : Outline UploadRequest UploadReply UploadWorld where
  inv := UploadsInv
  pre := fun s p q => q.Ready p s ∧ Orderly p q s.log ∧ ∀ w ∈ q.writes, WriteAllowed p s w

section
variable {p p' : Nat} {id userId token uploadId s3UploadId : Id} {log log' : List UploadEvent}
  {e : UploadEvent}
  {s s' : SharedUploads} {K K' : UploadEvent → Prop}

theorem Drew.mono (h : Drew p id log) (hle : log ⊆ log') : Drew p id log' :=
  h.imp fun _ he => ⟨hle he.1, he.2⟩

theorem Created.mono (h : Created p id log) (hle : log ⊆ log') : Created p id log' :=
  h.imp fun _ he => ⟨hle he.1, he.2⟩

theorem Took.mono (h : Took p userId token log) (hle : log ⊆ log') : Took p userId token log' :=
  h.imp fun _ he => ⟨hle he.1, he.2⟩

theorem Reserved.mono (h : Reserved p userId uploadId log) (hle : log ⊆ log') :
    Reserved p userId uploadId log' :=
  h.imp fun _ he => ⟨hle he.1, he.2⟩

theorem Others.mono (h : Others p uploadId log) (hle : log ⊆ log') : Others p uploadId log' :=
  h.imp fun _ he => ⟨he.1, he.2.mono hle⟩

theorem Own.anti (h : Own p K log') (hle : log ⊆ log') : Own p K log := fun e he => h e (hle he)

theorem Own.imp (h : Own p K log) (hK : ∀ e, K e → K' e) : Own p K' log :=
  fun e he hp => hK e (h e he hp)

theorem Own.cons (h : Own p K log) (he : e.pid = p → K e) : Own p K (e :: log) := by
  intro e' he'
  rcases List.mem_cons.mp he' with rfl | he'
  · exact he
  · exact h e' he'

theorem ended_cons : ended p (e :: log) = (e.pid == p && UploadEvent.givesBack e || ended p log) :=
  rfl

theorem ended_mono (h : ended p log = true) (hle : log ⊆ log') : ended p log' = true := by
  obtain ⟨e, he, hend⟩ := List.any_eq_true.mp h
  exact List.any_eq_true.mpr ⟨e, hle he, hend⟩

theorem UploadEvent.draws_of_creates (h : UploadEvent.creates e = some id) :
    UploadEvent.draws e = some id := by
  unfold UploadEvent.creates at h
  split at h
  · exact h
  · cases h

theorem Drew.of_created (h : Created p id log) : Drew p id log :=
  h.imp fun _ he => ⟨he.1, he.2.1, UploadEvent.draws_of_creates he.2.2⟩

/-- A new event of the process itself, or one that was there before. -/
theorem Drew.cons (h : Drew p id (e :: log)) :
    Drew p id log ∨ e.pid = p ∧ UploadEvent.draws e = some id := by
  obtain ⟨e', he', hrest⟩ := h
  rcases List.mem_cons.mp he' with rfl | he'
  · exact .inr hrest
  · exact .inl ⟨e', he', hrest⟩

theorem Created.cons (h : Created p id (e :: log)) :
    Created p id log ∨ e.pid = p ∧ UploadEvent.creates e = some id := by
  obtain ⟨e', he', hrest⟩ := h
  rcases List.mem_cons.mp he' with rfl | he'
  · exact .inr hrest
  · exact .inl ⟨e', he', hrest⟩

theorem Took.cons (h : Took p userId token (e :: log)) :
    Took p userId token log ∨ e.pid = p ∧ UploadEvent.takes e = some (userId, token) := by
  obtain ⟨e', he', hrest⟩ := h
  rcases List.mem_cons.mp he' with rfl | he'
  · exact .inr hrest
  · exact .inl ⟨e', he', hrest⟩

theorem Reserved.cons (h : Reserved p userId uploadId (e :: log)) :
    Reserved p userId uploadId log ∨ e.pid = p ∧
    UploadEvent.reserves e = some (userId, uploadId) := by
  obtain ⟨e', he', hrest⟩ := h
  rcases List.mem_cons.mp he' with rfl | he'
  · exact .inr hrest
  · exact .inl ⟨e', he', hrest⟩

theorem HoldsLock.cons (h : HoldsLock p userId token (e :: log)) :
    HoldsLock p userId token log ∨ ended p log = false ∧ e.pid = p ∧
    UploadEvent.takes e = some (userId, token) := by
  have hgoes : ended p log = false := (Bool.or_eq_false_iff.mp (ended_cons ▸ h.goesOn)).2
  exact h.took.cons.imp (fun h => ⟨h, hgoes⟩) fun h => ⟨hgoes, h⟩

/-- Later states know all that the earlier ones did, and date it as they did. -/
structure Grows (s s' : SharedUploads) : Prop where
  log : s.log ⊆ s'.log
  dates : ∀ p i, Created p i s.log → s'.store.initiated.lookup i = s.store.initiated.lookup i

theorem CreatedAt.grows {t : Time} (h : CreatedAt p s3UploadId t s) (hs : Grows s s') :
    CreatedAt p s3UploadId t s' :=
  ⟨h.1.mono hs.log, (hs.dates p _ h.1).trans h.2⟩

theorem Tracked.grows {state : UploadMeta} (h : Tracked uploadId state p s) (hs : Grows s s') :
    Tracked uploadId state p s' := by
  obtain ⟨i, t, hi, hc, ht⟩ := h.created
  exact ⟨h.drew.mono hs.log, i, t, hi, hc.grows hs, ht⟩

theorem Sound.grows {key : RedisKey} {value : RedisValue} (h : Sound s key value)
    (hs : Grows s s') : Sound s' key value := by
  cases key with
  | uploadMeta u x =>
    obtain ⟨state, p, rfl, ht⟩ := h
    exact ⟨state, p, rfl, ht.grows hs⟩
  | uploadIndex i =>
    obtain ⟨u, x, p, rfl, hd, hc⟩ := h
    exact ⟨u, x, p, rfl, hd.mono hs.log, hc.mono hs.log⟩
  | uploadActive u =>
    obtain ⟨x, p, rfl, hd, hl⟩ := h
    exact ⟨x, p, rfl, hd.mono hs.log, fun hown => hl (hown.anti hs.log)⟩
  | _ => trivial

theorem Grows.record {st : UploadWorld} : Grows ⟨st, log⟩ ⟨st, e :: log⟩ :=
  ⟨List.subset_cons_self e log, fun _ _ _ => rfl⟩

/-- Two processes hold no lock of one user. -/
theorem UploadsInv.unique {token' : Id} (h : UploadsInv s) (hp : HoldsLock p userId token s.log)
    (hp' : HoldsLock p' userId token' s.log) : p = p' := by
  obtain ⟨d, hd⟩ := h.lease hp
  obtain ⟨d', hd'⟩ := h.lease hp'
  have heq : token = token' := by
    have := hd.entry.symm.trans hd'.entry
    simpa using congrArg (Option.map RedisEntry.value) this
  subst heq
  exact h.once (h.took hp.took) (h.took hp'.took)

/-- What an event that joins the history must meet. -/
structure Records (st : UploadWorld) (log : List UploadEvent) (e : UploadEvent) : Prop where
  draws : ∀ id, UploadEvent.draws e = some id → id < st.world.nextId ∧ ∀ p, ¬ Drew p id log
  creates : ∀ i, UploadEvent.creates e = some i → st.initiated.lookup i = some st.world.clock ∧
    ∃ userId token, Took e.pid userId token log
  takes : ∀ userId token, UploadEvent.takes e = some (userId, token) → Drew e.pid token log ∧
    Own e.pid Unlocked log ∧
    st.world.redis.lookup (.uploadInitLock userId) = some ⟨.token token,
      some (st.world.clock + initLockTtl)⟩
  reserves : ∀ userId uploadId, UploadEvent.reserves e = some (userId, uploadId) →
    Drew e.pid uploadId log ∧
    st.world.redis.lookup (.uploadActive userId) = some ⟨.members [uploadId], none⟩
  reads : ∀ userId uploadId state, (userId, uploadId, state) ∈ UploadEvent.reads e →
    ∃ p, p ≠ e.pid ∧ Tracked uploadId state p ⟨st, log⟩
  ordered : Orderly e.pid e.req log
  newest : ∀ userId, UploadEvent.renews e = some userId →
    ∃ token uploadId, HoldsLock e.pid userId token (e :: log) ∧ Reserved e.pid userId uploadId log

/-- A lease goes on when an event joins the history. -/
theorem Lease.record {st : UploadWorld} {d : Time} (h : Lease p userId token d ⟨st, log⟩)
    (he : Records st log e) :
    Lease p userId token d ⟨st, e :: log⟩ where
  entry := h.entry
  future := h.future
  recent := h.recent
  created i t hc := by
    rcases hc.1.cons with hold | ⟨_, hnew⟩
    · exact h.created i t ⟨hold, hc.2⟩
    · have ht : t = st.world.clock := by simpa [hc.2] using (he.creates i hnew).1
      exact ht ▸ h.recent
  reserved x hx := by
    rcases hx.cons with hold | ⟨_, hnew⟩
    · exact h.reserved x hold
    · exact ⟨none, (he.reserves userId x hnew).2, fun _ hy => by cases hy⟩

theorem UploadsInv.record {st : UploadWorld} (h : UploadsInv ⟨st, log⟩) (he : Records st log e) :
    UploadsInv ⟨st, e :: log⟩ where
  drawn hd := hd.cons.elim h.drawn fun hnew => (he.draws _ hnew.2).1
  once hd hd' := by
    rcases hd.cons with hold | ⟨rfl, hnew⟩ <;> rcases hd'.cons with hold' | ⟨rfl, hnew'⟩
    · exact h.once hold hold'
    · exact absurd hold ((he.draws _ hnew').2 _)
    · exact absurd hold' ((he.draws _ hnew).2 _)
    · rfl
  created hc := by
    rcases hc.cons with hold | ⟨rfl, hnew⟩
    · obtain ⟨ht, u, t, hu⟩ := h.created hold
      exact ⟨ht, u, t, hu.mono (List.subset_cons_self _ _)⟩
    · obtain ⟨ht, u, t, hu⟩ := he.creates _ hnew
      exact ⟨⟨_, ht, Nat.le_refl _⟩, u, t, hu.mono (List.subset_cons_self _ _)⟩
  took ht := by
    rcases ht.cons with hold | ⟨rfl, hnew⟩
    · exact (h.took hold).mono (List.subset_cons_self _ _)
    · exact (he.takes _ _ hnew).1.mono (List.subset_cons_self _ _)
  reserved hr := by
    rcases hr.cons with hold | ⟨rfl, hnew⟩
    · exact (h.reserved hold).mono (List.subset_cons_self _ _)
    · exact (he.reserves _ _ hnew).1.mono (List.subset_cons_self _ _)
  named := h.named
  stored hk := (h.stored hk).grows .record
  lease hh := by
    rcases hh.cons with hold | ⟨_, rfl, hnew⟩
    · obtain ⟨d, hd⟩ := h.lease hold
      exact ⟨d, hd.record he⟩
    · obtain ⟨_, hown, hentry⟩ := he.takes _ _ hnew
      have hnone : ∀ e' ∈ e :: log, e'.pid = e.pid → UploadEvent.creates e' = none ∧
          UploadEvent.reserves e' = none := by
        refine Own.cons (hown.imp fun _ hu => ⟨hu.2.1, hu.2.2.1⟩) fun _ => ?_
        obtain ⟨q, req, r⟩ := e
        unfold UploadEvent.takes at hnew
        split at hnew
        · rename_i heq
          cases heq
          exact ⟨rfl, rfl⟩
        · cases hnew
      refine ⟨_, hentry, Nat.lt_add_of_pos_right (by decide), Nat.le_refl _, fun i t hc => ?_,
        fun x hx => ?_⟩
      · obtain ⟨e', he', hp, hi⟩ := hc.1
        simp [(hnone e' he' hp).1] at hi
      · obtain ⟨e', he', hp, hx⟩ := hx
        simp [(hnone e' he' hp).2] at hx
  reads e' he' u x state hr := by
    rcases List.mem_cons.mp he' with rfl | hold
    · obtain ⟨p, hp, ht⟩ := he.reads u x state hr
      exact ⟨p, hp, ht.grows .record⟩
    · obtain ⟨p, hp, ht⟩ := h.reads e' hold u x state hr
      exact ⟨p, hp, ht.grows .record⟩
  ordered hsuffix := by
    rcases List.suffix_cons_iff.mp hsuffix with heq | hsuffix
    · cases heq
      exact he.ordered
    · exact h.ordered hsuffix
  newest heq hr := by
    cases heq
    exact he.newest _ hr

/-- A set with one member loses it or stays as it is. -/
theorem Redis.lookup_srem {r : Redis} {now : Time} {key : RedisKey} {x y : Id} {t : Option Time}
    (h : r.live now key = some ⟨.members [y], t⟩) :
    (r.write now (.srem key x)).lookup key = if y = x then none else some ⟨.members [y], t⟩ := by
  have hmembers : r.smembers now key = [y] := by rw [smembers, get, h]; rfl
  simp only [write, h, hmembers]
  by_cases hxy : y = x
  · subst hxy
    rw [if_pos rfl, List.erase_cons_head]
    exact AList.lookup_erase _ r
  · have herase : [y].erase x = [y] := List.erase_of_not_mem (by simpa using Ne.symm hxy)
    rw [if_neg hxy, herase]
    exact AList.lookup_insert r

theorem Redis.lookup_of_live {r : Redis} {now : Time} {key : RedisKey} {e : RedisEntry}
    (h : r.live now key = some e) :
    r.lookup key = some e :=
  (Option.filter_eq_some_iff.mp h).1

/-- A write to Redis that is allowed keeps what the keys hold sound. -/
theorem Sound.write {w : RedisWrite} {now : Time} {r : Redis} (hr : ∀ key e, r.lookup key = some e →
      Sound s key e.value) (hw : WriteAllowed p s w)
    (hadds : ∀ key x, w = .sadd key x → r.live now key = none) :
    ∀ key e, (r.write now w).lookup key = some e → Sound s key e.value := by
  intro key e he
  by_cases hkey : key = w.key
  case neg => exact hr key e (Redis.lookup_write hkey ▸ he)
  subst hkey
  cases w with
  | set key value n =>
    cases Redis.lookup_set.symm.trans he
    exact hw.1
  | del key => cases Redis.lookup_del.symm.trans he
  | expire key n =>
    simp only [Redis.write] at he
    split at he
    · rename_i e' hlive
      cases (AList.lookup_insert r).symm.trans he
      exact hr _ e' (Redis.lookup_of_live hlive)
    · exact hr _ e he
  | sadd key x =>
    obtain ⟨u, t, rfl, _, hd, hl, _⟩ := hw
    simp only [Redis.write, hadds _ _ rfl] at he
    cases (AList.lookup_insert r).symm.trans he
    exact ⟨x, p, rfl, hd, hl⟩
  | srem key x =>
    obtain ⟨u, rfl, _⟩ := hw
    cases hlive : r.live now (.uploadActive u) with
    | none =>
      simp only [Redis.write, RedisWrite.key, hlive] at he
      exact hr _ e he
    | some e' =>
      obtain ⟨y, h, hvalue, hrest⟩ := hr _ e' (Redis.lookup_of_live hlive)
      obtain ⟨value, t⟩ := e'
      cases hvalue
      have he := (Redis.lookup_srem hlive).symm.trans he
      split at he
      · cases he
      · cases he
        exact ⟨y, h, rfl, hrest⟩

/-- The store with other contents of Redis. -/
def withRedis (s : SharedUploads) (r : Redis) : SharedUploads :=
  ⟨{ s.store with world := { s.store.world with redis := r } }, s.log⟩

theorem Lease.live {d : Time} {x : Id} {t : Option Time} (h : Lease p userId token d s)
    (hx : s.store.world.redis.lookup (.uploadActive userId) = some ⟨.members [x], t⟩)
    (ht : ∀ y ∈ t, d ≤ y) :
    s.store.world.redis.live s.store.world.clock (.uploadActive userId) =
      some ⟨.members [x], t⟩ := by
  refine Option.filter_eq_some_iff.mpr ⟨hx, ?_⟩
  rw [Option.all_eq_true]
  intro y hy
  exact decide_eq_true (Nat.lt_of_lt_of_le h.future (ht y hy))

/-- An allowed write leaves the leases of all processes as they are. -/
theorem Lease.write {w : RedisWrite} {d : Time} (hs : UploadsInv s)
    (hh : HoldsLock p userId token s.log) (h : Lease p userId token d s)
    (hw : WriteAllowed p' s w) :
    Lease p userId token d (withRedis s (s.store.world.redis.write s.store.world.clock w)) where
  entry := by
    refine (Redis.lookup_write fun heq => ?_).trans h.entry
    cases w with
    | set key value n => exact hw.2.2 userId heq.symm
    | sadd key x => obtain ⟨u, t, rfl, _⟩ := hw; cases heq
    | srem key x => obtain ⟨u, rfl, _⟩ := hw; cases heq
    | expire key n => exact hw.2 userId heq.symm
    | del key => exact hw.2 userId heq.symm
  future := h.future
  recent := h.recent
  created := h.created
  reserved x hx := by
    obtain ⟨t, hlook, ht⟩ := h.reserved x hx
    have hlive := h.live hlook ht
    by_cases hkey : .uploadActive userId = w.key
    case neg => exact ⟨t, (Redis.lookup_write hkey).trans hlook, ht⟩
    cases w with
    | set key value n => exact absurd hkey.symm (hw.2.1 userId)
    | del key => exact absurd hkey.symm (hw.1 userId)
    | expire key n =>
      obtain rfl : .uploadActive userId = key := hkey
      refine ⟨Redis.deadline s.store.world.clock n, ?_, fun y hy => ?_⟩
      · simp only [withRedis, Redis.write, hlive]
        exact AList.lookup_insert _
      · cases hy
        rw [hw.1]
        exact h.recent.trans (Nat.add_le_add_left (by decide) _)
    | sadd key y =>
      obtain rfl : .uploadActive userId = key := hkey
      obtain ⟨_, _, _, _, _, _, hnone⟩ := hw
      cases hnone.symm.trans hlive
    | srem key y =>
      obtain rfl : .uploadActive userId = key := hkey
      have hne : x ≠ y := by
        rintro rfl
        obtain ⟨u, heq, hsettled | ⟨token', hh', p'', hne, hd⟩⟩ := hw
        · cases (hsettled.ended p (hs.reserved hx)).symm.trans hh.goesOn
        · cases heq
          cases hs.unique hh' hh
          exact hne (hs.once hd (hs.reserved hx))
      exact ⟨t, (Redis.lookup_srem hlive).trans (if_neg hne), ht⟩

theorem UploadsInv.write {w : RedisWrite} (h : UploadsInv s) (hw : WriteAllowed p s w) :
    UploadsInv (withRedis s (s.store.world.redis.write s.store.world.clock w)) where
  drawn := h.drawn
  once := h.once
  created := h.created
  took := h.took
  reserved := h.reserved
  named := h.named
  stored hk := by
    refine Sound.grows (Sound.write (fun _ _ => h.stored) hw (fun key x heq => ?_) _ _ hk)
      ⟨fun _ he => he, fun _ _ _ => rfl⟩
    subst heq
    obtain ⟨u, t, rfl, _, _, _, hnone⟩ := hw
    exact hnone
  lease hh := (h.lease hh).imp fun _ hd => hd.write h hh hw
  reads e he u x state hr := by
    obtain ⟨p, hp, ht⟩ := h.reads e he u x state hr
    exact ⟨p, hp, ht.grows ⟨fun _ he => he, fun _ _ _ => rfl⟩⟩
  ordered := h.ordered
  newest := h.newest

theorem WriteAllowed.withRedis {w : RedisWrite} {r : Redis} (hw : WriteAllowed p s w)
    (hadds : ∀ key x, w ≠ .sadd key x) :
    WriteAllowed p (withRedis s r) w := by
  cases w with
  | set key value n => exact ⟨hw.1.grows ⟨fun _ he => he, fun _ _ _ => rfl⟩, hw.2⟩
  | sadd key x => exact absurd rfl (hadds key x)
  | srem key x =>
    obtain ⟨u, rfl, hallowed⟩ := hw
    exact ⟨u, rfl, hallowed.imp_left fun h => ⟨h.named, h.ended⟩⟩
  | expire key n => exact hw
  | del key => exact hw

theorem UploadsInv.writeAll {ws : List RedisWrite} (h : UploadsInv s)
    (hws : ∀ w ∈ ws, WriteAllowed p s w) (hadds : ∀ w ∈ ws, ∀ key x, w ≠ .sadd key x) :
    UploadsInv (withRedis s (s.store.world.redis.writeAll s.store.world.clock ws)) := by
  induction ws generalizing s with
  | nil => exact h
  | cons w ws ih =>
    refine ih (h.write (hws w List.mem_cons_self)) (fun w' hw' => ?_) fun w' hw' =>
      hadds w' (List.mem_cons_of_mem _ hw')
    exact (hws w' (List.mem_cons_of_mem _ hw')).withRedis (hadds w' (List.mem_cons_of_mem _ hw'))

/-- What else changes in the store is no matter to the uploads in Redis. -/
theorem UploadsInv.elsewhere {st : UploadWorld} (h : UploadsInv s) (hgrows : Grows s ⟨st, s.log⟩)
    (hredis : st.world.redis = s.store.world.redis) (hclock : st.world.clock = s.store.world.clock)
    (hnext : s.store.world.nextId ≤ st.world.nextId) (huploads : ∀ i ∈ st.world.filesBucket.uploads,
      i < st.world.nextId) :
    UploadsInv ⟨st, s.log⟩ where
  drawn hd := Nat.lt_of_lt_of_le (h.drawn hd) hnext
  once := h.once
  created hc := by
    obtain ⟨⟨t, ht, hle⟩, hrest⟩ := h.created hc
    exact ⟨⟨t, (hgrows.dates _ _ hc).trans ht, hclock ▸ hle⟩, hrest⟩
  took := h.took
  reserved := h.reserved
  named := huploads
  stored hk := (h.stored (hredis ▸ hk)).grows hgrows
  lease hh := by
    obtain ⟨d, hd⟩ := h.lease hh
    refine ⟨d, hredis ▸ hd.entry, hclock ▸ hd.future, hclock ▸ hd.recent, fun i t hc => ?_,
      fun x hx => ?_⟩
    · exact hd.created i t ⟨hc.1, (hgrows.dates _ _ hc.1).symm.trans hc.2⟩
    · exact hredis ▸ hd.reserved x hx
  reads e he u x state hr := by
    obtain ⟨p, hp, ht⟩ := h.reads e he u x state hr
    exact ⟨p, hp, ht.grows hgrows⟩
  ordered := h.ordered
  newest := h.newest

/-- The lock of a user that no process holds may change. -/
theorem UploadsInv.writeLock {w : RedisWrite} (h : UploadsInv s)
    (hkey : w.key = .uploadInitLock userId) (hfree : ∀ p token, ¬ HoldsLock p userId token s.log) :
    UploadsInv (withRedis s (s.store.world.redis.write s.store.world.clock w)) where
  drawn := h.drawn
  once := h.once
  created := h.created
  took := h.took
  reserved := h.reserved
  named := h.named
  stored {key e} hk := by
    by_cases heq : key = w.key
    · rw [heq, hkey]
      trivial
    · exact (h.stored ((Redis.lookup_write heq).symm.trans hk)).grows ⟨fun _ he => he,
        fun _ _ _ => rfl⟩
  lease {p u t} hh := by
    obtain ⟨d, hd⟩ := h.lease hh
    have hne : u ≠ userId := by
      rintro rfl
      exact hfree _ _ hh
    refine ⟨d, (Redis.lookup_write ?_).trans hd.entry, hd.future, hd.recent, hd.created,
      fun x hx => ?_⟩
    · simpa [hkey] using hne
    · obtain ⟨t, hlook, ht⟩ := hd.reserved x hx
      exact ⟨t, (Redis.lookup_write (by simp [hkey])).trans hlook, ht⟩
  reads e he u x state hr := by
    obtain ⟨p, hp, ht⟩ := h.reads e he u x state hr
    exact ⟨p, hp, ht.grows ⟨fun _ he => he, fun _ _ _ => rfl⟩⟩
  ordered := h.ordered
  newest := h.newest

/-- Time may pass as long as the locks of the processes that go on outlast it. -/
theorem UploadsInv.tick {n : Nat} (h : UploadsInv s) (hd : locksOutlast.drifts s n = true) :
    UploadsInv ⟨s.store.tick n, s.log⟩ where
  drawn := h.drawn
  once := h.once
  created hc := by
    obtain ⟨⟨t, ht, hle⟩, hrest⟩ := h.created hc
    exact ⟨⟨t, ht, hle.trans (Nat.le_add_right _ n)⟩, hrest⟩
  took := h.took
  reserved := h.reserved
  named := h.named
  stored hk := (h.stored hk).grows ⟨fun _ he => he, fun _ _ _ => rfl⟩
  lease {p u t} hh := by
    obtain ⟨d, hlease⟩ := h.lease hh
    refine ⟨d, hlease.entry, ?_, hlease.recent.trans
      (Nat.add_le_add_right (Nat.le_add_right _ n) _), hlease.created,
      hlease.reserved⟩
    obtain ⟨e, he, rfl, htakes⟩ := hh.took
    have hout := List.all_eq_true.mp hd e he
    rw [htakes] at hout
    simp only [hh.goesOn, Bool.false_or] at hout
    obtain ⟨e', hlive⟩ := Option.isSome_iff_exists.mp hout
    obtain ⟨hlook, hfuture⟩ := Option.filter_eq_some_iff.mp hlive
    cases hlease.entry.symm.trans hlook
    exact of_decide_eq_true hfuture
  reads e he u x state hr := by
    obtain ⟨p, hp, ht⟩ := h.reads e he u x state hr
    exact ⟨p, hp, ht.grows ⟨fun _ he => he, fun _ _ _ => rfl⟩⟩
  ordered := h.ordered
  newest := h.newest

/-- An answer by which no process gets anything. -/
def UploadEvent.plain (e : UploadEvent) : Prop :=
  UploadEvent.draws e = none ∧ UploadEvent.creates e = none ∧ UploadEvent.takes e = none ∧
    UploadEvent.reserves e = none ∧ UploadEvent.reads e = [] ∧ UploadEvent.renews e = none

theorem Records.plain {st : UploadWorld} (he : UploadEvent.plain e) (ho : Orderly e.pid e.req log) :
    Records st log e where
  draws _ h := by cases he.1.symm.trans h
  creates _ h := by cases he.2.1.symm.trans h
  takes _ _ h := by cases he.2.2.1.symm.trans h
  reserves _ _ h := by cases he.2.2.2.1.symm.trans h
  reads _ _ _ h := by rw [he.2.2.2.2.1] at h; cases h
  ordered := ho
  newest _ h := by cases he.2.2.2.2.2.symm.trans h

end

/-- A request adds no multipart upload but a new one. -/
theorem Bucket.mem_uploads_perform {b b' : Bucket} {fresh i : Id} {q : S3Request} {a : q.Answer}
    (h : b.perform fresh q = .ok (b', a)) (hi : i ∈ b'.uploads) : i ∈ b.uploads ∨ i = fresh := by
  cases q with
  | createMultipartUpload key =>
    cases h
    exact (AList.mem_insert _).mp hi |>.symm
  | uploadPart key id n body =>
    obtain ⟨b₁, hb, h⟩ := exceptBind_ok.mp h
    cases h
    obtain ⟨u, hu, rfl⟩ := Bucket.uploadPart_ok hb
    rcases (AList.mem_insert _).mp hi with rfl | hi
    · exact .inl (AList.lookup_isSome.mp (by simp [(Bucket.upload_eq_some.mp hu).1]))
    · exact .inl hi
  | completeMultipartUpload key id parts =>
    obtain ⟨b₁, hb, h⟩ := exceptBind_ok.mp h
    cases h
    obtain ⟨_, _, _, _, _, _, rfl⟩ := Bucket.complete_ok hb
    exact .inl (AList.mem_erase.mp hi).2
  | abortMultipartUpload key id =>
    obtain ⟨b₁, hb, h⟩ := exceptBind_ok.mp h
    cases h
    obtain ⟨_, _, _, _, rfl⟩ := Bucket.abort_ok hb
    exact .inl (AList.mem_erase.mp hi).2
  | headObject key =>
    simp only [Bucket.perform] at h
    split at h
    · cases h
      exact .inl hi
    · cases h
  | putObject key size => cases h; exact .inl hi
  | deleteObject key => cases h; exact .inl hi
namespace World
variable {cfg : Config} {w : World} {d : Delivery} {q : Request}

/-- Calls to Redis are the only ones that change it. -/
theorem exec_outside_redis (cfg : Config) (w : World) (d : Delivery) {q : Request}
    (hq : ∀ c, q ≠ .redis c) :
    (w.exec cfg d q).1.redis = w.redis ∧ (w.exec cfg d q).1.clock = w.clock := by
  have hdeliver : (w.deliver cfg q).1.redis = w.redis ∧ (w.deliver cfg q).1.clock = w.clock := by
    cases q with
    | redis c => exact absurd rfl (hq c)
    | statement x =>
      simp only [deliver]
      split <;> exact ⟨rfl, rfl⟩
    | s3 name x =>
      simp only [deliver]
      split
      · cases name <;> exact ⟨rfl, rfl⟩
      · exact ⟨rfl, rfl⟩
    | _ => exact ⟨rfl, rfl⟩
  cases d with
  | delivered => exact hdeliver
  | failed => exact ⟨rfl, rfl⟩
  | lost => exact hdeliver
  | late =>
    simp only [exec]
    split
    · rename_i name key id n body
      cases name <;> exact ⟨rfl, rfl⟩
    · exact hdeliver

theorem nextId_exec : w.nextId ≤ (w.exec cfg d q).1.nextId := by
  cases d with
  | delivered => exact nextId_deliver cfg w q
  | failed => exact Nat.le_refl _
  | lost => exact nextId_deliver cfg w q
  | late =>
    simp only [exec]
    split
    · rename_i name key id n body
      cases name <;> exact Nat.le_refl _
    · exact nextId_deliver cfg w q

/-- The multipart uploads have been named. -/
theorem uploads_exec (hw : ∀ i ∈ w.filesBucket.uploads, i < w.nextId)
    (hq : ∀ key id n body, q = .s3 .files (.uploadPart key id n body) → id < w.nextId) :
    ∀ i ∈ (w.exec cfg d q).1.filesBucket.uploads, i < (w.exec cfg d q).1.nextId := by
  have hdeliver : ∀ i ∈ (w.deliver cfg q).1.filesBucket.uploads,
      i < (w.deliver cfg q).1.nextId := by
    cases q with
    | s3 name x =>
      simp only [deliver]
      split
      · rename_i b a hb
        cases name with
        | mails => exact fun i hi => Nat.lt_succ_of_lt (hw i hi)
        | files =>
          intro i hi
          rcases Bucket.mem_uploads_perform hb hi with hi | rfl
          · exact Nat.lt_succ_of_lt (hw i hi)
          · exact Nat.lt_succ_self _
      · exact hw
    | statement x =>
      simp only [deliver]
      split
      · exact fun i hi => Nat.lt_of_lt_of_le (hw i hi) (Nat.le_add_right _ 2)
      · exact hw
    | random => exact fun i hi => Nat.lt_succ_of_lt (hw i hi)
    | _ => exact hw
  cases d with
  | delivered => exact hdeliver
  | failed => exact hw
  | lost => exact hdeliver
  | late =>
    simp only [exec]
    split
    · rename_i name key id n body
      cases name with
      | mails => exact hw
      | files =>
        intro i hi
        rcases (AList.mem_insert _).mp hi with rfl | hi
        · exact hq key _ n body rfl
        · exact hw i hi
    · exact hdeliver

end World

section
variable {cfg : Config} {p : Nat} {s : SharedUploads} {c : Delivery}

/-- A call that fails gives its process nothing. -/
theorem UploadEvent.plain_error (q : UploadRequest) (e : Thrown) :
    UploadEvent.plain ⟨p, q, .error e⟩ := by
  refine ⟨?_, ?_, ?_, ?_, ?_, ?_⟩
  · unfold UploadEvent.draws; split <;> first | rfl | (rename_i heq; cases heq)
  · unfold UploadEvent.creates; split <;> first | rfl | (rename_i heq; cases heq)
  · unfold UploadEvent.takes; split <;> first | rfl | (rename_i heq; cases heq)
  · unfold UploadEvent.reserves; split <;> first | rfl | (rename_i heq; cases heq)
  · unfold UploadEvent.reads; split <;> first | rfl | (rename_i heq; cases heq)
  · unfold UploadEvent.renews; split <;> first | rfl | (rename_i heq; cases heq)

/-- A call fails before or after it took effect, or is answered. -/
theorem after_redis (cfg : Config) (p : Nat) (s : SharedUploads) (c : Delivery) (x : RedisCommand) :
    (∃ e, (uploads cfg).after c p (.backend (.redis x)) s = ⟨s.store,
      ⟨p, .backend (.redis x), .error e⟩ :: s.log⟩) ∨
    ∃ r : UploadReply (.backend (.redis x)),
      (r = .ok (s.store.world.redis.perform s.store.world.clock x).2 ∨ ∃ e, r = .error e) ∧
      (uploads cfg).after c p (.backend (.redis x)) s =
        ⟨(withRedis s (s.store.world.redis.perform s.store.world.clock x).1).store,
          ⟨p, .backend (.redis x), r⟩ :: s.log⟩ := by
  cases c with
  | failed => exact .inl ⟨_, rfl⟩
  | delivered => exact .inr ⟨_, .inl rfl, rfl⟩
  | lost => exact .inr ⟨_, .inr ⟨_, rfl⟩, rfl⟩
  | late => exact .inr ⟨_, .inl rfl, rfl⟩

/-- An event that only shows that its process is done with a reservation. -/
theorem Records.renews {st : UploadWorld} {u n : Nat} {log : List UploadEvent}
    (ho : Orderly p (.backend (.redis (.write (.expire (.uploadActive u) n)))) log)
    (hh : ∃ token uploadId, HoldsLock p u token log ∧ Reserved p u uploadId log) :
    Records st log ⟨p, .backend (.redis (.write (.expire (.uploadActive u) n))), .ok ()⟩ where
  draws _ h := by cases h
  creates _ h := by cases h
  takes _ _ h := by cases h
  reserves _ _ h := by cases h
  reads _ _ _ h := by cases h
  ordered := ho
  newest u' h := by
    cases h
    obtain ⟨token, uploadId, hh, hr⟩ := hh
    refine ⟨token, uploadId, ⟨hh.took.mono (List.subset_cons_self _ _), ?_⟩, hr⟩
    rw [ended_cons, hh.goesOn, Bool.or_false]
    exact Bool.and_false _

/-- An event by which an upload becomes active. -/
theorem Records.added {st : UploadWorld} {u x : Nat} {log : List UploadEvent}
    (ho : Orderly p (.backend (.redis (.write (.sadd (.uploadActive u) x)))) log)
    (hd : Drew p x log) (hentry : st.world.redis.lookup (.uploadActive u) =
      some ⟨.members [x], none⟩) :
    Records st log ⟨p, .backend (.redis (.write (.sadd (.uploadActive u) x))), .ok ()⟩ where
  draws _ h := by cases h
  creates _ h := by cases h
  takes _ _ h := by cases h
  reserves _ _ h := by cases h; exact ⟨hd, hentry⟩
  reads _ _ _ h := by cases h
  ordered := ho
  newest _ h := by cases h

/-- An event that takes a lock. -/
theorem Records.locked {st : UploadWorld} {u t : Nat} {log : List UploadEvent}
    (ho : Orderly p (.backend (.redis (.setNX (.uploadInitLock u)
      (.token t) uploadInitLockTtlSeconds))) log) (hd : Drew p t log) (hown : Own p Unlocked log)
    (hentry : st.world.redis.lookup (.uploadInitLock u) =
      some ⟨.token t, some (st.world.clock + initLockTtl)⟩) :
    Records st log ⟨p, .backend (.redis
      (.setNX (.uploadInitLock u) (.token t) uploadInitLockTtlSeconds)), .ok true⟩ where
  draws _ h := by cases h
  creates _ h := by cases h
  takes _ _ h := by cases h; exact ⟨hd, hown, hentry⟩
  reserves _ _ h := by cases h
  reads _ _ _ h := by cases h
  ordered := ho
  newest _ h := by cases h

/-- An event that names something. -/
theorem Records.drawn {st : UploadWorld} {id : Id} {log : List UploadEvent}
    (ho : Orderly p (.backend .random) log) (hid : id < st.world.nextId ∧ ∀ p, ¬ Drew p id log) :
    Records st log ⟨p, .backend .random, .ok id⟩ where
  draws _ h := by cases h; exact hid
  creates _ h := by cases h
  takes _ _ h := by cases h
  reserves _ _ h := by cases h
  reads _ _ _ h := by cases h
  ordered := ho
  newest _ h := by cases h

/-- An event that creates a multipart upload. -/
theorem Records.created {st : UploadWorld} {key id u t : Id} {log : List UploadEvent}
    (ho : Orderly p (.backend (.s3 .files (.createMultipartUpload key))) log)
    (hid : id < st.world.nextId ∧ ∀ p, ¬ Drew p id log)
    (ht : st.initiated.lookup id = some st.world.clock) (htook : Took p u t log) :
    Records st log ⟨p, .backend (.s3 .files (.createMultipartUpload key)), .ok id⟩ where
  draws _ h := by cases h; exact hid
  creates _ h := by cases h; exact ⟨ht, u, t, htook⟩
  takes _ _ h := by cases h
  reserves _ _ h := by cases h
  reads _ _ _ h := by cases h
  ordered := ho
  newest _ h := by cases h

/-- An event that reads the metadata of uploads. -/
theorem Records.read {st : UploadWorld} {keys : List RedisKey} {values : List (Option RedisValue)}
    {log : List UploadEvent} (ho : Orderly p (.backend (.redis (.mget keys))) log)
    (hr : ∀ u x state, (u, x, state) ∈ UploadEvent.reads ⟨p, .backend (.redis (.mget keys)),
      .ok values⟩ →
      ∃ p', p' ≠ p ∧ Tracked x state p' ⟨st, log⟩) :
    Records st log ⟨p, .backend (.redis (.mget keys)), .ok values⟩ where
  draws _ h := by cases h
  creates _ h := by cases h
  takes _ _ h := by cases h
  reserves _ _ h := by cases h
  reads := hr
  ordered := ho
  newest _ h := by cases h

/-- A write to Redis. -/
theorem UploadsInv.after_write {w : RedisWrite} (h : UploadsInv s)
    (hp : uploadsOutline.pre s p (.backend (.redis (.write w)))) :
    UploadsInv ((uploads cfg).after c p (.backend (.redis (.write w))) s) := by
  obtain ⟨hready, horder, hwrites⟩ := hp
  have hw : WriteAllowed p s w := hwrites w (List.mem_singleton_self w)
  rcases after_redis cfg p s c (.write w) with ⟨e, heq⟩ | ⟨r, hr, heq⟩
  · rw [heq]
    exact h.record (.plain (UploadEvent.plain_error _ e) horder)
  rw [heq]
  refine UploadsInv.record (h.write hw) ?_
  rcases hr with rfl | ⟨e, rfl⟩
  case inr => exact .plain (UploadEvent.plain_error _ e) horder
  cases w with
  | set key value n => exact .plain ⟨rfl, rfl, rfl, rfl, rfl, rfl⟩ horder
  | del key => exact .plain ⟨rfl, rfl, rfl, rfl, rfl, rfl⟩ horder
  | srem key x => exact .plain ⟨rfl, rfl, rfl, rfl, rfl, rfl⟩ horder
  | expire key n =>
    cases key with
    | uploadActive u => exact .renews horder hready
    | _ => exact .plain ⟨rfl, rfl, rfl, rfl, rfl, rfl⟩ horder
  | sadd key x =>
    obtain ⟨u, t, rfl, _, hd, _, hnone⟩ := hw
    refine .added horder hd ?_
    simp only [withRedis, Redis.perform, Redis.write, hnone]
    exact AList.lookup_insert _

/-- A process takes the lock of a user, where nobody holds it. -/
theorem UploadsInv.after_setNX {key : RedisKey} {value : RedisValue} {n : Nat} (h : UploadsInv s)
    (hp : uploadsOutline.pre s p (.backend (.redis (.setNX key value n)))) :
    UploadsInv ((uploads cfg).after c p (.backend (.redis (.setNX key value n))) s) := by
  obtain ⟨⟨u, t, rfl, rfl, rfl, hdrew, hown⟩, horder, _⟩ := hp
  rcases after_redis cfg p s c
    (.setNX (.uploadInitLock u) (.token t) uploadInitLockTtlSeconds) with ⟨e, heq⟩ | ⟨r, hr, heq⟩
  · rw [heq]
    exact h.record (.plain (UploadEvent.plain_error _ e) horder)
  rw [heq]
  by_cases hlive : (s.store.world.redis.live s.store.world.clock (.uploadInitLock u)).isSome = true
  · have hsame : s.store.world.redis.perform s.store.world.clock
        (.setNX (.uploadInitLock u) (.token t) uploadInitLockTtlSeconds) = (s.store.world.redis,
          false) := by
      simp only [Redis.perform, if_pos hlive]
    rw [hsame] at hr ⊢
    refine UploadsInv.record h ?_
    rcases hr with rfl | ⟨e, rfl⟩
    · exact .plain ⟨rfl, rfl, rfl, rfl, rfl, rfl⟩ horder
    · exact .plain (UploadEvent.plain_error _ e) horder
  · have hset : s.store.world.redis.perform s.store.world.clock
        (.setNX (.uploadInitLock u) (.token t) uploadInitLockTtlSeconds) =
          (s.store.world.redis.write s.store.world.clock
            (.set (.uploadInitLock u) (.token t) uploadInitLockTtlSeconds), true) := by
      simp only [Redis.perform, if_neg hlive]
    rw [hset] at hr ⊢
    have hfree : ∀ p token, ¬ HoldsLock p u token s.log := by
      intro p token hh
      obtain ⟨d, hd⟩ := h.lease hh
      refine hlive (Option.isSome_iff_exists.mpr ⟨_, Option.filter_eq_some_iff.mpr ⟨hd.entry, ?_⟩⟩)
      exact decide_eq_true hd.future
    refine UploadsInv.record (h.writeLock (w :=
      .set (.uploadInitLock u) (.token t) uploadInitLockTtlSeconds) rfl hfree) ?_
    rcases hr with rfl | ⟨e, rfl⟩
    · exact .locked horder hdrew hown Redis.lookup_set
    · exact .plain (UploadEvent.plain_error _ e) horder

/-- A process gives its lock back: its own, or none. -/
theorem UploadsInv.after_compareAndDelete {key : RedisKey} {t : Id} (h : UploadsInv s)
    (hp : uploadsOutline.pre s p (.backend (.redis (.compareAndDelete key t)))) :
    UploadsInv ((uploads cfg).after c p (.backend (.redis (.compareAndDelete key t))) s) := by
  obtain ⟨⟨u, rfl, hdrew⟩, horder, _⟩ := hp
  have recorded : ∀ r : UploadReply (.backend (.redis (.compareAndDelete (.uploadInitLock u) t))),
      UploadsInv ⟨s.store, ⟨p, .backend (.redis (.compareAndDelete (.uploadInitLock u) t)), r⟩ ::
        s.log⟩ := by
    intro r
    refine h.record (.plain ?_ horder)
    cases r with
    | ok a => exact ⟨rfl, rfl, rfl, rfl, rfl, rfl⟩
    | error e => exact UploadEvent.plain_error _ e
  rcases after_redis cfg p s c (.compareAndDelete (.uploadInitLock u) t) with
    ⟨e, heq⟩ | ⟨r, hr, heq⟩
  · rw [heq]
    exact recorded (.error e)
  rw [heq]
  simp only [Redis.perform]
  split
  · rename_i t' hget
    split
    · rename_i htoken
      subst htoken
      refine (recorded r).writeLock (w := .del (.uploadInitLock u)) rfl fun p' token hh => ?_
      obtain ⟨d, hd⟩ := (recorded r).lease hh
      obtain ⟨x, hlook⟩ := Redis.lookup_of_get hget
      cases hd.entry.symm.trans hlook
      have hpp : p' = p := (recorded r).once ((recorded r).took hh.took)
        (hdrew.mono (List.subset_cons_self _ _))
      subst hpp
      have hend := hh.goesOn
      rw [ended_cons] at hend
      simp [UploadEvent.givesBack] at hend
    · exact recorded r
  · exact recorded r

/-- What is read of an upload is stored under its name. -/
theorem mem_reads {keys : List RedisKey} {values : List (Option RedisValue)} {u x : Id}
    {state : UploadMeta} (h : (u, x, state) ∈ UploadEvent.reads ⟨p, .backend (.redis (.mget keys)),
      .ok values⟩) :
    (.uploadMeta u x, some (.upload state)) ∈ keys.zip values := by
  obtain ⟨⟨key, value⟩, hmem, hsome⟩ := List.mem_filterMap.mp h
  split at hsome
  · rename_i heq
    cases hsome
    cases heq
    exact hmem
  · cases hsome

/-- The metadata of other uploads is read. -/
theorem UploadsInv.after_mget {keys : List RedisKey} (h : UploadsInv s)
    (hp : uploadsOutline.pre s p (.backend (.redis (.mget keys)))) :
    UploadsInv ((uploads cfg).after c p (.backend (.redis (.mget keys))) s) := by
  obtain ⟨hready, horder, _⟩ := hp
  rcases after_redis cfg p s c (.mget keys) with ⟨e, heq⟩ | ⟨r, hr, heq⟩
  · rw [heq]
    exact h.record (.plain (UploadEvent.plain_error _ e) horder)
  rw [heq]
  refine UploadsInv.record h ?_
  rcases hr with rfl | ⟨e, rfl⟩
  · refine .read horder fun u x state hread => ?_
    have hmem := mem_reads hread
    rw [Redis.perform, List.zip_map_right, List.zip_eq_zipWith, List.zipWith_self,
      List.map_map] at hmem
    obtain ⟨key, hkey, hpair⟩ := List.mem_map.mp hmem
    obtain ⟨rfl, hget⟩ := Prod.mk.inj hpair
    obtain ⟨t, hlook⟩ := Redis.lookup_of_get hget
    obtain ⟨state', p', heq, ht⟩ := h.stored hlook
    cases heq
    obtain ⟨u', x', hkey', hother⟩ := hready _ hkey
    cases hkey'
    obtain ⟨p'', hne, hd⟩ := hother
    cases h.once hd ht.drew
    exact ⟨p', hne, ht⟩
  · exact .plain (UploadEvent.plain_error _ e) horder

theorem UploadsInv.after_redis {x : RedisCommand} (h : UploadsInv s)
    (hp : uploadsOutline.pre s p (.backend (.redis x))) :
    UploadsInv ((uploads cfg).after c p (.backend (.redis x)) s) := by
  -- the commands that change nothing, and the transactions, give their process nothing
  have unnamed : ∀ x : RedisCommand, uploadsOutline.pre s p (.backend (.redis x)) →
      (∀ a, UploadEvent.plain ⟨p, .backend (.redis x), .ok a⟩) →
      UploadsInv (withRedis s (s.store.world.redis.perform s.store.world.clock x).1) →
      UploadsInv ((uploads cfg).after c p (.backend (.redis x)) s) := by
    intro x hp hplain hx
    rcases Redbox.after_redis cfg p s c x with ⟨e, heq⟩ | ⟨r, hr, heq⟩
    · rw [heq]
      exact h.record (.plain (UploadEvent.plain_error _ e) hp.2.1)
    · rw [heq]
      refine UploadsInv.record hx (.plain ?_ hp.2.1)
      cases r with
      | ok a => exact hplain a
      | error e => exact UploadEvent.plain_error _ e
  cases x with
  | get key => exact unnamed _ hp (fun _ => ⟨rfl, rfl, rfl, rfl, rfl, rfl⟩) h
  | mget keys => exact h.after_mget hp
  | «exists» key => exact unnamed _ hp (fun _ => ⟨rfl, rfl, rfl, rfl, rfl, rfl⟩) h
  | smembers key => exact unnamed _ hp (fun _ => ⟨rfl, rfl, rfl, rfl, rfl, rfl⟩) h
  | scanUploadMeta u => exact unnamed _ hp (fun _ => ⟨rfl, rfl, rfl, rfl, rfl, rfl⟩) h
  | setNX key value n => exact h.after_setNX hp
  | compareAndDelete key t => exact h.after_compareAndDelete hp
  | write w => exact h.after_write hp
  | multi ws =>
    exact unnamed _ hp (fun _ => ⟨rfl, rfl, rfl, rfl, rfl, rfl⟩) (h.writeAll hp.2.2 hp.1)

/-- The store after a call that is not one to Redis. -/
theorem UploadsInv.exec_outside {q : Request} (h : UploadsInv s) (hq : ∀ x, q ≠ .redis x)
    (hready : (UploadRequest.backend q).Ready p s) :
    UploadsInv ⟨(UploadWorld.exec cfg c (.backend q) s.store).1, s.log⟩ := by
  obtain ⟨hredis, hclock⟩ := World.exec_outside_redis cfg s.store.world c hq
  have hdated : ∀ p i, Created p i s.log →
      (s.store.dated q).initiated.lookup i = s.store.initiated.lookup i := by
    intro p i hc
    unfold UploadWorld.dated
    split
    · exact AList.lookup_insert_ne (Nat.ne_of_lt (h.drawn (Drew.of_created hc)))
    · rfl
    · rfl
  refine h.elsewhere ⟨fun _ he => he, fun p i hc => ?_⟩ hredis hclock World.nextId_exec
    (World.uploads_exec h.named fun key id n body heq => by subst heq; exact hready)
  simp only [UploadWorld.exec]
  split
  · rfl
  · exact hdated p i hc

/-- What a call outside Redis gives its process. -/
theorem UploadsInv.records_outside {q : Request} (h : UploadsInv s) (hq : ∀ x, q ≠ .redis x)
    (hp : uploadsOutline.pre s p (.backend q)) :
    Records (UploadWorld.exec cfg c (.backend q) s.store).1 s.log
      ⟨p, .backend q, (UploadWorld.exec cfg c (.backend q) s.store).2⟩ := by
  obtain ⟨hready, horder, _⟩ := hp
  have new : s.store.world.nextId < s.store.world.nextId + 1 ∧
      ∀ p, ¬ Drew p s.store.world.nextId s.log :=
    ⟨Nat.lt_succ_self _, fun p hd => Nat.lt_irrefl _ (h.drawn hd)⟩
  cases hr : (UploadWorld.exec cfg c (.backend q) s.store).2 with
  | error e => exact .plain (UploadEvent.plain_error _ e) horder
  | ok a =>
    cases q with
    | redis x => exact absurd rfl (hq x)
    | random => cases c <;> cases hr <;> exact .drawn horder new
    | s3 name x =>
      cases name with
      | mails => cases x <;> exact .plain ⟨rfl, rfl, rfl, rfl, rfl, rfl⟩ horder
      | files =>
        cases x with
        | createMultipartUpload key =>
          obtain ⟨u, t, hh⟩ := hready
          cases c <;> cases hr <;> exact .created horder new (AList.lookup_insert _) hh.took
        | _ => exact .plain ⟨rfl, rfl, rfl, rfl, rfl, rfl⟩ horder
    | _ => exact .plain ⟨rfl, rfl, rfl, rfl, rfl, rfl⟩ horder

/-- A reading of the listings changes nothing. -/
theorem UploadsInv.after_listing {q : UploadRequest} (h : UploadsInv s) (hq : ∀ x, q ≠ .backend x)
    (hp : uploadsOutline.pre s p q) : UploadsInv ((uploads cfg).after c p q s) := by
  have hstore : ((uploads cfg).after c p q s).store = s.store := by
    cases q with
    | backend x => exact absurd rfl (hq x)
    | _ => cases c <;> rfl
  have heq : (uploads cfg).after c p q s = ⟨s.store, ⟨p, q, (uploads cfg).reply c q s⟩ :: s.log⟩ :=
    congrArg (Shared.mk · _) hstore
  rw [heq]
  refine h.record (.plain ?_ hp.2.1)
  cases q with
  | backend x => exact absurd rfl (hq x)
  | _ => exact ⟨rfl, rfl, rfl, rfl, rfl, rfl⟩

theorem uploads_kept : uploadsOutline.Kept (uploads cfg) locksOutlast where
  after {s p q c} h _ hp := by
    cases q with
    | listMultipartUploads m => exact h.after_listing (fun _ heq => by cases heq) hp
    | listParts key i => exact h.after_listing (fun _ heq => by cases heq) hp
    | backend q =>
      by_cases hq : ∃ x, q = .redis x
      · obtain ⟨x, rfl⟩ := hq
        exact h.after_redis hp
      · have hq : ∀ x, q ≠ .redis x := fun x hx => hq ⟨x, hx⟩
        exact (h.exec_outside hq hp.1).record (h.records_outside hq hp)
  moved h hd := h.tick hd

end
end Redbox
