import Redbox.Backend.Commits
import Redbox.Interleaving.Sequential
import Mathlib.Data.List.Dedup
import Mathlib.Logic.Function.Basic

/-! The two paths that delete an account clear the same things, except for unfinished uploads. -/
namespace Redbox
open Interleaving

/-- Every call is delivered, and time may pass in between. -/
def allDelivered : BackendRules where
  starts := fun _ _ => true
  allows := fun _ _ _ d => decide (d = .delivered)
  drifts := fun _ _ => true

/-- The tables of content, which a deletion clears. -/
structure Database.SameContent (db db' : Database) : Prop where
  files : db.files = db'.files
  mails : db.mails = db'.mails
  bins : db.bins = db'.bins
  links : db.links = db'.links
  inviteCodes : db.inviteCodes = db'.inviteCodes
  blockedSenders : db.blockedSenders = db'.blockedSenders

namespace World

/-- The worlds have the same content, objects and multipart uploads, and the same keys of the user
in Redis. -/
structure SameErasure (userId : Id) (v w : World) : Prop where
  content : v.db.SameContent w.db
  objects : ∀ name key, (v.bucket name).objects.lookup key = (w.bucket name).objects.lookup key
  uploads : ∀ name id, (v.bucket name).uploads.lookup id = (w.bucket name).uploads.lookup id
  masterKey : v.redis.get v.clock (.masterKey userId) = w.redis.get w.clock (.masterKey userId)
  uploadActive : v.redis.get v.clock (.uploadActive userId) =
    w.redis.get w.clock (.uploadActive userId)
  uploadMeta : ∀ id, v.redis.get v.clock (.uploadMeta userId id) =
    w.redis.get w.clock (.uploadMeta userId id)

/-- Redis knows no upload of the user. What has run out does not count. -/
structure NoUnfinishedUpload (userId : Id) (w : World) : Prop where
  uploadActive : w.redis.get w.clock (.uploadActive userId) = none
  uploadMeta : ∀ id, w.redis.get w.clock (.uploadMeta userId id) = none

/-- The account is not deleted yet and has the request. -/
structure Deletable (userId requestId : Id) (w : World) : Prop where
  user : ∃ u, w.db.findUser userId = some u ∧ u.status ≠ .deleted
  request : w.db.deletionRequests.any (·.id == requestId) = true

theorem bucket_setBucket (w : World) (b : Bucket) (name : BucketName) :
    (w.setBucket b name).bucket = Function.update w.bucket name b := by
  funext other
  cases name with
  | files => cases other <;> rfl
  | mails => cases other <;> rfl

end World

namespace DeletionPaths

/-- The bucket without the objects. -/
def without (b : Bucket) (keys : List Id) : Bucket :=
  { b with objects := keys.foldl (fun objects key => objects.erase key) b.objects }

/-- What the parts of the store hold. Names are drawn, and time passes. -/
structure At (P : Database → Prop) (r : Redis) (buckets : BucketName → Bucket) (n : Time)
    (s : SharedWorld) : Prop where
  db : P s.store.db
  redis : s.store.redis = r
  bucket : s.store.bucket = buckets
  clock : n ≤ s.store.clock

section
variable {cfg : Config} {p : Nat} {userId requestId : Id} {s : SharedWorld} {w : World}
  {P : Database → Prop} {r : Redis}
  {buckets : BucketName → Bucket} {n now : Time} {α : Type} {Q : Except Thrown α → SharedWorld →
    Prop} {q : Request} {d : Delivery}
  {db : Database} {keys : List RedisKey} {k : RedisKey}

theorem At.stable : Stable (backend cfg) allDelivered (.alone p) p (At P r buckets n) := by
  refine Stable.alone fun s m _ h =>
    ⟨h.db, h.redis, ?_, Nat.le_trans h.clock (Nat.le_add_right _ m)⟩
  funext name
  rw [← h.bucket]
  cases name <;> rfl

theorem delivered_of_rules (h : allDelivered.allows s p q d = true) : d = .delivered :=
  of_decide_eq_true h

/-- A call that is answered, in front of the rest of a routine. -/
theorem At.await {f : q.Answer → Routine α} (hs : At P r buckets n s)
    (h : ∀ t, At P r buckets n t → ∃ a, (t.store.deliver cfg q).2 = .ok a ∧
      Meets (backend cfg) allDelivered (.alone p) p (f a) Q
        ((backend cfg).after .delivered p q t)) :
    Meets (backend cfg) allDelivered (.alone p) p ((Redbox.await q).bind f) Q s := by
  refine Meets.await At.stable hs fun t ht _ d ha => ?_
  cases delivered_of_rules ha
  obtain ⟨a, hr, hrest⟩ := h t ht
  refine ⟨rfl, fun b hb => ?_, fun e he => ?_⟩
  · cases hr.symm.trans hb
    exact hrest
  · cases hr.symm.trans he

theorem At.query {x : Query} (hs : At P r buckets n s) :
    At P r buckets n ((backend cfg).after .delivered p (.query x) s) :=
  ⟨hs.db, hs.redis, hs.bucket, hs.clock⟩

theorem At.deleteObject {name : BucketName} {key : Id} (hs : At P r buckets n s) :
    At P r (Function.update buckets name (without (buckets name) [key])) n
      ((backend cfg).after .delivered p (.s3 name (.deleteObject key)) s) := by
  refine ⟨?_, ?_, ?_, ?_⟩
  · cases name <;> exact hs.db
  · cases name <;> exact hs.redis
  · rw [← hs.bucket]
    exact World.bucket_setBucket s.store _ name
  · cases name <;> exact hs.clock

/-- A failed deletion is ignored, and none fails. -/
theorem deleteS3Objects_at {name : BucketName} {ids : List Id} (hs : At P r buckets n s) :
    Meets (backend cfg) allDelivered (.alone p) p (deleteS3Objects name ids)
      (fun a t => a = .ok () ∧ At P r (Function.update buckets name (without (buckets name) ids))
        n t) s := by
  induction ids generalizing s buckets with
  | nil =>
    refine Meets.ret At.stable hs fun t ht _ => ⟨rfl, ?_⟩
    have heq : Function.update buckets name (without (buckets name) []) = buckets :=
      Function.update_eq_self name buckets
    rw [heq]
    exact ht
  | cons id ids ih =>
    have hfirst : Meets (backend cfg) allDelivered (.alone p) p
        ((Redbox.await (.s3 name (.deleteObject id))).handle fun _ => .ret ())
        (fun a t => a = .ok () ∧ At P r (Function.update buckets name (without (buckets name) [id]))
          n t) s := by
      refine Meets.call At.stable hs fun t ht _ d ha => ⟨rfl, ?_⟩
      cases delivered_of_rules ha
      exact Meets.ret At.stable ht.deleteObject fun u hu _ => ⟨rfl, hu⟩
    refine hfirst.next (fun e t _ h => ?_) fun _ t _ h => ?_
    · cases h.1
    · have hrest := ih h.2
      rw [Function.update_idem, Function.update_self] at hrest
      exact hrest

/-- The transaction commits, and of the content only the user's goes. -/
theorem markDeleted_content (actorType : AuditActorType) (adminUserId : Option Id)
    {deletionRequestId : Option Id} (action : String) (reason : Option String)
    (previousStatus : UserStatus) (now : Time) (fresh : Id)
    (hu : (db.findUser userId).isSome = true)
    (hr : ∀ id ∈ deletionRequestId, db.deletionRequests.any (·.id == id) = true) :
    ∃ db', db.markDeleted userId actorType adminUserId action reason previousStatus
      deletionRequestId now fresh = .ok db' ∧
      db'.SameContent (db.clearUserContentRecords userId) := by
  have hupdate : ∀ (db' : Database) (f : User → User), db'.users = db.users →
      db'.updateUser userId f = .ok (db'.setUser userId f) := by
    intro db' f husers
    rw [Database.updateUser, if_pos]
    rw [Database.findUser, husers]
    exact hu
  cases deletionRequestId with
  | none =>
    simp only [Database.markDeleted, pure, Except.pure, bind, Except.bind]
    rw [hupdate (((db.clearUserContentRecords userId).resolveOpenRestrictions userId
      now).cancelActiveDeletionRequests userId now) _ rfl]
    exact ⟨_, rfl, rfl, rfl, rfl, rfl, rfl, rfl⟩
  | some id =>
    obtain ⟨requests, hrequests⟩ : ∃ requests,
      ((db.clearUserContentRecords userId).resolveOpenRestrictions userId now).markDeletionProcessed
      id now =
        .ok { (db.clearUserContentRecords userId).resolveOpenRestrictions userId
          now with deletionRequests := requests } :=
      ⟨_, if_pos (hr id rfl)⟩
    simp only [Database.markDeleted, pure, Except.pure, bind, Except.bind, hrequests]
    rw [hupdate { (db.clearUserContentRecords userId).resolveOpenRestrictions userId
      now with deletionRequests := requests } _ rfl]
    exact ⟨_, rfl, rfl, rfl, rfl, rfl, rfl, rfl⟩

/-- The buckets without the objects of the user's files and mails. -/
def cleared (db : Database) (userId : Id) (buckets : BucketName → Bucket) : BucketName → Bucket
  | .files => without (buckets .files) ((db.filesOf userId).map (·.storageName))
  | .mails => without (buckets .mails) (mailStorageKeys (db.mailsOf userId))

theorem At.markDeleted {actorType : AuditActorType} {adminUserId deletionRequestId : Option Id}
    {action : String} {reason : Option String} {previousStatus : UserStatus}
    (hu : (db.findUser userId).isSome = true)
    (hr : ∀ id ∈ deletionRequestId, db.deletionRequests.any (·.id == id) = true)
    (hs : At (· = db) r buckets n s) :
    (s.store.deliver cfg (.statement (.markDeleted userId actorType adminUserId action reason
      previousStatus deletionRequestId))).2 = .ok () ∧
      At (Database.SameContent · (db.clearUserContentRecords userId)) r buckets n
        ((backend cfg).after .delivered p
        (.statement (.markDeleted userId actorType adminUserId action reason previousStatus
          deletionRequestId)) s) := by
  obtain ⟨db', hdb', hsame⟩ := markDeleted_content actorType adminUserId action reason
    previousStatus s.store.clock s.store.nextId hu hr
  have hdeliver : s.store.deliver cfg
    (.statement (.markDeleted userId actorType adminUserId action reason previousStatus
    deletionRequestId)) =
      ({ s.store with db := db', nextId := s.store.nextId + 2 }, .ok ()) := by
    simp only [World.deliver, Database.perform, hs.db, hdb', bind, Except.bind, pure, Except.pure]
  rw [hdeliver]
  refine ⟨rfl, ?_⟩
  constructor
  · rw [after_delivered, hdeliver]
    exact hsame
  · rw [after_delivered, hdeliver]
    exact hs.redis
  · rw [after_delivered, hdeliver, ← hs.bucket]
    funext name
    cases name <;> rfl
  · rw [after_delivered, hdeliver]
    exact hs.clock

/-- What both paths begin with. -/
theorem clearContent_at {actorType : AuditActorType} {adminUserId deletionRequestId : Option Id}
    {action : String} {reason : Option String} {previousStatus : UserStatus} {rest : Routine α}
    (hu : (db.findUser userId).isSome = true)
    (hr : ∀ id ∈ deletionRequestId, db.deletionRequests.any (·.id == id) = true)
    (hs : At (· = db) r buckets n s)
    (h : ∀ t, At (Database.SameContent · (db.clearUserContentRecords userId)) r
      (cleared db userId buckets) n t →
      Meets (backend cfg) allDelivered (.alone p) p rest Q t) :
    Meets (backend cfg) allDelivered (.alone p) p (do
      let files ← Redbox.await (.query (.filesOf userId))
      let mails ← Redbox.await (.query (.mailsOf userId))
      deleteS3Objects .files (files.map (·.storageName))
      deleteS3Objects .mails (mailStorageKeys mails)
      Redbox.await (.statement (.markDeleted userId actorType adminUserId action reason
        previousStatus deletionRequestId))
      rest) Q s := by
  refine hs.await fun t ht => ⟨db.filesOf userId, ?_, ?_⟩
  · rw [← ht.db]
    rfl
  refine ht.query.await fun t ht => ⟨db.mailsOf userId, ?_, ?_⟩
  · rw [← ht.db]
    rfl
  refine (deleteS3Objects_at ht.query).next (fun e t _ h => ?_) fun _ t _ ht => ?_
  · cases h.1
  refine (deleteS3Objects_at ht.2).next (fun e t _ h => ?_) fun _ t _ ht => ?_
  · cases h.1
  have hbuckets : Function.update (Function.update buckets .files
    (without (buckets .files) ((db.filesOf userId).map (·.storageName)))) .mails
      (without (Function.update buckets .files
        (without (buckets .files) ((db.filesOf userId).map (·.storageName))) .mails)
        (mailStorageKeys (db.mailsOf userId))) = cleared db userId buckets := by
    funext name
    cases name <;> rfl
  rw [hbuckets] at ht
  exact ht.2.await fun t ht => ⟨(), (ht.markDeleted (p := p) hu hr).1, h _ (ht.markDeleted hu hr).2⟩

theorem At.multi {writes : List RedisWrite} (p : Nat) (hs : At P r buckets n s) :
    At P (r.writeAll s.store.clock writes) buckets n
      ((backend cfg).after .delivered p (.redis (.multi writes)) s) := by
  refine ⟨hs.db, ?_, hs.bucket, hs.clock⟩
  rw [← hs.redis]
  rfl

/-- What the path of the hourly job and of the login ends in. -/
theorem finalizePendingDeletion_at (hw : w.Deletable userId requestId) :
    Meets (backend cfg) allDelivered (.alone p) p
      (UsersService.finalizePendingDeletion userId requestId)
      (fun _ t => At (Database.SameContent · (w.db.clearUserContentRecords userId))
        (w.redis.erase (.masterKey userId))
        (cleared w.db userId w.bucket) w.clock t) (.initial w) := by
  obtain ⟨u, hu, hstatus⟩ := hw.user
  have hat : At (· = w.db) w.redis w.bucket w.clock (.initial w) := ⟨rfl, rfl, rfl, Nat.le_refl _⟩
  refine hat.await fun t ht => ⟨some u, ?_, ?_⟩
  · rw [← hu, ← ht.db]
    rfl
  simp only [if_neg hstatus]
  refine clearContent_at (by rw [hu]; rfl) (fun id hid => ?_) ht.query fun t ht => ?_
  · cases hid
    exact hw.request
  rw [← Prog.bind_ret (Redbox.await _)]
  refine ht.await fun t ht => ⟨(), rfl, ?_⟩
  exact Meets.ret At.stable ⟨ht.db, by rw [← ht.redis]; rfl, ht.bucket, ht.clock⟩ fun _ h _ => h

/-- What holds nothing now holds nothing later. -/
theorem get_later_none (hle : n ≤ now) (h : r.get n k = none) : r.get now k = none := by
  by_cases hlive : (r.live now k).isSome = true
  · exact (Redis.get_later hle hlive).trans h
  · rw [Redis.get, Option.not_isSome_iff_eq_none.mp hlive]
    rfl

theorem lookup_dels : (r.writeAll now (keys.map .del)).lookup k = if k ∈ keys then none
      else r.lookup k := by
  induction keys generalizing r with
  | nil => rfl
  | cons key keys ih =>
    have hstep : (r.writeAll now ((key :: keys).map .del)).lookup k =
        ((r.write now (.del key)).writeAll now (keys.map .del)).lookup k := rfl
    rw [hstep, ih]
    by_cases hkey : k = key
    · subst hkey
      simp
    · have hrest : (r.write now (.del key)).lookup k = r.lookup k := Redis.lookup_write hkey
      simp [hkey, hrest]

theorem At.abort (cfg : Config) (p : Nat) (key : Id) (sid : Option Id) (hs : At P r buckets n s) :
    ∃ b, At P r (Function.update buckets .files b) n
      ((backend cfg).after .delivered p (.s3 .files (.abortMultipartUpload key sid)) s) := by
  have hbucket : s.store.filesBucket = buckets .files := congrFun hs.bucket .files
  cases habort : s.store.filesBucket.abort key sid with
  | error e =>
    have hsame : (s.store.deliver cfg (.s3 .files (.abortMultipartUpload key sid))).1 =
        s.store := by
      simp only [World.deliver, World.bucket, Bucket.perform, habort, bind, Except.bind]
    refine ⟨buckets .files, ?_, ?_, ?_, ?_⟩
    · rw [after_delivered, hsame]
      exact hs.db
    · rw [after_delivered, hsame]
      exact hs.redis
    · rw [after_delivered, hsame, Function.update_eq_self]
      exact hs.bucket
    · rw [after_delivered, hsame]
      exact hs.clock
  | ok b =>
    have hnext : (s.store.deliver cfg (.s3 .files (.abortMultipartUpload key sid))).1 =
        { s.store.setBucket b .files with nextId := s.store.nextId + 1 } := by
      simp only [World.deliver, World.bucket, Bucket.perform, habort, bind, Except.bind, pure,
        Except.pure]
    refine ⟨b, ?_, ?_, ?_, ?_⟩
    · rw [after_delivered, hnext]
      exact hs.db
    · rw [after_delivered, hnext]
      exact hs.redis
    · rw [after_delivered, hnext, ← hs.bucket]
      exact World.bucket_setBucket s.store b .files
    · rw [after_delivered, hnext]
      exact hs.clock

/-- The loop over the metadata touches no bucket where there is none. -/
theorem abortUploads_at {values : List (Option RedisValue)} (hs : At P r buckets n s) :
    Meets (backend cfg) allDelivered (.alone p) p (Prog.forEach values fun
        | some (.upload state) => do
          try Redbox.await (.s3 .files (.abortMultipartUpload state.storageKey state.s3UploadId))
            catch _ => pure ()
        | _ => pure ())
      (fun a t => (∃ buckets', At P r buckets' n t ∧
        ((∀ v ∈ values, v = none) → buckets' = buckets)) ∧ ∃ x, a = .ok x) s := by
  have stable : Stable (backend cfg) allDelivered (.alone p) p fun t =>
      ∃ buckets', At P r buckets' n t ∧ ((∀ v ∈ values, v = none) → buckets' = buckets) :=
    Stable.exists fun _ => At.stable.and (Stable.const _)
  refine (Meets.forEach Outline.alone_kept stable (fun v hv t ht _ => ?_) trivial ⟨buckets, hs,
    fun _ => rfl⟩).noThrow (.forEach fun v => ?_)
  · split
    · rename_i state
      obtain ⟨buckets', hat, -⟩ := ht
      refine Meets.call At.stable hat fun t ht _ d ha => ⟨rfl, ?_⟩
      cases delivered_of_rules ha
      obtain ⟨b, hb⟩ := ht.abort cfg p state.storageKey state.s3UploadId
      have hdone : ∃ buckets', At P r buckets' n
          ((backend cfg).after .delivered p
            (.s3 .files (.abortMultipartUpload state.storageKey state.s3UploadId)) t) ∧
          ((∀ v ∈ values, v = none) → buckets' = buckets) :=
            ⟨_, hb, fun hnone => by cases hnone _ hv⟩
      cases (backend cfg).reply .delivered
        (.s3 .files (.abortMultipartUpload state.storageKey state.s3UploadId)) t with
      | ok a => exact Meets.ret stable hdone fun _ h _ => h
      | error e => exact Meets.ret stable hdone fun _ h _ => h
    · exact Meets.ret stable ht fun _ h _ => h
  · split
    · exact .handle fun _ => trivial
    · trivial

/-- `scanRedisKeys` finds the metadata of the user's uploads. -/
theorem scanUploadMeta_ok (cfg : Config) (userId : Id) (w : World) :
    ∃ scanned, (w.deliver cfg (.redis (.scanUploadMeta userId))).2 = .ok scanned ∧
    (∀ k ∈ scanned, ∃ id, k = .uploadMeta userId id) ∧
    ∀ id, (w.redis.lookup (.uploadMeta userId id)).isSome = true →
    .uploadMeta userId id ∈ scanned := by
  refine ⟨_, rfl, fun k hk => ?_, fun id hid => ?_⟩
  · obtain ⟨-, hk⟩ := List.mem_filter.mp hk
    split at hk
    · rename_i u id _
      exact ⟨id, by rw [eq_of_beq hk]⟩
    · cases hk
  · exact List.mem_filter.mpr ⟨AList.mem_keys.mp (AList.lookup_isSome.mp hid),
      beq_self_eq_true userId⟩

/-- What the administrator's path clears in Redis and S3 after the transaction. -/
theorem clearUserRedisData_at (hs : At P r buckets n s) :
    Meets (backend cfg) allDelivered (.alone p) p (AdminUsersService.clearUserRedisData userId)
      (fun a t => a = .ok () ∧ ∃ buckets' r', At P r' buckets' n t ∧
        r'.lookup (.masterKey userId) = none ∧
        r'.lookup (.uploadActive userId) = none ∧ (∀ id, r'.lookup (.uploadMeta userId id) = none) ∧
        ((∀ id, r.get n (.uploadMeta userId id) = none) → buckets' = buckets)) s := by
  refine hs.await fun t ht => ⟨t.store.redis.smembers t.store.clock (.uploadActive userId), rfl, ?_⟩
  have ht : At P r buckets n ((backend cfg).after .delivered p
    (.redis (.smembers (.uploadActive userId))) t) := ⟨ht.db, ht.redis, ht.bucket, ht.clock⟩
  generalize t.store.redis.smembers t.store.clock (.uploadActive userId) = uploadIds
  refine ht.await fun t ht => ?_
  obtain ⟨scanned, hscanned, hkind, hall⟩ := scanUploadMeta_ok cfg userId t.store
  rw [ht.redis] at hall
  refine ⟨scanned, hscanned, ?_⟩
  have ht : At P r buckets n ((backend cfg).after .delivered p (.redis (.scanUploadMeta userId))
    t) := ⟨ht.db, ht.redis, ht.bucket, ht.clock⟩
  have hkeys : ∀ k ∈ (uploadIds.map (RedisKey.uploadMeta userId) ++ scanned).dedup, ∃ id,
      k = .uploadMeta userId id := by
    intro k hk
    rcases List.mem_append.mp (List.mem_dedup.mp hk) with hk | hk
    · obtain ⟨id, -, rfl⟩ := List.mem_map.mp hk
      exact ⟨id, rfl⟩
    · exact hkind k hk
  have hmem : ∀ id, (r.lookup (.uploadMeta userId id)).isSome = true →
      .uploadMeta userId id ∈ (uploadIds.map (RedisKey.uploadMeta userId) ++ scanned).dedup :=
    fun id hid => List.mem_dedup.mpr (List.mem_append.mpr (.inr (hall id hid)))
  generalize (uploadIds.map (RedisKey.uploadMeta userId) ++ scanned).dedup = metaKeys at hkeys hmem
  refine ht.await fun t ht => ⟨metaKeys.map (r.get t.store.clock), by rw [← ht.redis]; rfl, ?_⟩
  have hvalues : (∀ id, r.get n (.uploadMeta userId id) = none) →
      ∀ v ∈ metaKeys.map (r.get t.store.clock), v = none := by
    intro hnone v hv
    obtain ⟨k, hk, rfl⟩ := List.mem_map.mp hv
    obtain ⟨id, rfl⟩ := hkeys k hk
    exact get_later_none ht.clock (hnone id)
  generalize metaKeys.map (r.get t.store.clock) = values at hvalues
  have ht : At P r buckets n ((backend cfg).after .delivered p (.redis (.mget metaKeys)) t) :=
    ⟨ht.db, ht.redis, ht.bucket, ht.clock⟩
  refine (abortUploads_at ht).next (fun e t _ h => ?_) fun _ t _ h => ?_
  · obtain ⟨-, x, hx⟩ := h
    cases hx
  obtain ⟨⟨buckets', ht, hsame⟩, -⟩ := h
  rw [← Prog.bind_ret (Redbox.await _)]
  refine ht.await fun t ht => ⟨(), rfl, ?_⟩
  refine Meets.ret At.stable (ht.multi p) fun u hu _ => ⟨rfl, buckets', _, hu, ?_, ?_, fun id => ?_,
    fun hnone => hsame (hvalues hnone)⟩
  · rw [lookup_dels]
    simp
  · rw [lookup_dels]
    simp
  · rw [lookup_dels]
    split
    · rfl
    · rename_i hnot
      by_contra hne
      exact hnot (by simp [hmem id (Option.isSome_iff_ne_none.mpr hne)])

/-- What the administrator's path ends in. -/
theorem updateUserStatus_at {adminUserId : Id} {dto : UpdateAdminUserStatusDto}
    (hw : w.Deletable userId requestId) (hdto : dto.status = .deleted) (hreason : dto.reason ≠ "") :
    Meets (backend cfg) allDelivered (.alone p) p
      (AdminUsersService.updateUserStatus adminUserId userId dto)
      (fun _ t => ∃ buckets r, At (Database.SameContent · (w.db.clearUserContentRecords userId)) r
        buckets w.clock t ∧
        r.lookup (.masterKey userId) = none ∧ r.lookup (.uploadActive userId) = none ∧
          (∀ id, r.lookup (.uploadMeta userId id) = none) ∧
        ((∀ id, w.redis.get w.clock (.uploadMeta userId id) = none) →
          buckets = cleared w.db userId w.bucket)) (.initial w) := by
  obtain ⟨u, hu, hstatus⟩ := hw.user
  have hat : At (· = w.db) w.redis w.bucket w.clock (.initial w) := ⟨rfl, rfl, rfl, Nat.le_refl _⟩
  refine hat.await fun t ht => ⟨some u, ?_, ?_⟩
  · rw [← hu, ← ht.db]
    rfl
  refine Meets.throwIf (fun h => absurd h.1 hstatus) fun _ => ?_
  have ht : At (· = w.db) w.redis w.bucket w.clock
      ((backend cfg).after .delivered p (.query (.user .minimal userId)) t) := ht.query
  refine Meets.next (Q := fun _ t => ∃ buckets r,
    At (Database.SameContent · (w.db.clearUserContentRecords userId)) r buckets w.clock t ∧
        r.lookup (.masterKey userId) = none ∧ r.lookup (.uploadActive userId) = none ∧
          (∀ id, r.lookup (.uploadMeta userId id) = none) ∧
        ((∀ id, w.redis.get w.clock (.uploadMeta userId id) = none) →
          buckets = cleared w.db userId w.bucket)) ?_ (fun _ _ _ h => h) fun _ t _ h => ?_
  · rw [AdminUsersService.setStatus, hdto]
    refine Meets.throwIf (fun h => absurd h hreason) fun _ => ?_
    refine clearContent_at (by rw [hu]; rfl) (fun id hid => by cases hid) ht fun t ht => ?_
    exact (clearUserRedisData_at ht).mono fun _ _ _ h => h.2
  · obtain ⟨buckets, r, hat, hrest⟩ := h
    refine hat.await fun t ht => ⟨t.store.db.findUser userId, rfl, ?_⟩
    cases t.store.db.findUser userId with
    | none => exact Meets.throw At.stable ht.query fun _ h _ => ⟨buckets, r, h, hrest⟩
    | some u => exact Meets.ret At.stable ht.query fun _ h _ => ⟨buckets, r, h, hrest⟩

theorem get_of_lookup_none (h : r.lookup k = none) : r.get now k = none := by
  rw [Redis.get, Redis.live, h]
  rfl

/-- Where Redis knows no upload, both paths leave the same. -/
theorem same_of_noUpload {v v' : SharedWorld} {r' : Redis} {buckets' : BucketName → Bucket}
    (hw : w.NoUnfinishedUpload userId)
    (h : At (Database.SameContent · db) (w.redis.erase (.masterKey userId)) buckets w.clock v)
    (h' : At (Database.SameContent · db) r' buckets' w.clock v') (hbuckets : buckets' = buckets)
    (hmaster : r'.lookup (.masterKey userId) = none)
    (hactive : r'.lookup (.uploadActive userId) = none)
    (hmeta : ∀ id, r'.lookup (.uploadMeta userId id) = none) :
    v.store.SameErasure userId v'.store := by
  have hbucket : v.store.bucket = v'.store.bucket := by rw [h.bucket, h'.bucket, hbuckets]
  have hkept : ∀ k, k ≠ .masterKey userId → w.redis.get w.clock k = none →
      v.store.redis.get v.store.clock k = none := by
    intro k hk hnone
    rw [h.redis, Redis.get_congr (AList.lookup_erase_ne hk)]
    exact get_later_none h.clock hnone
  constructor
  · exact ⟨h.db.files.trans h'.db.files.symm, h.db.mails.trans h'.db.mails.symm,
      h.db.bins.trans h'.db.bins.symm,
      h.db.links.trans h'.db.links.symm, h.db.inviteCodes.trans h'.db.inviteCodes.symm,
        h.db.blockedSenders.trans h'.db.blockedSenders.symm⟩
  · exact fun name key => by rw [hbucket]
  · exact fun name id => by rw [hbucket]
  · rw [h.redis, h'.redis, get_of_lookup_none (AList.lookup_erase _ _), get_of_lookup_none hmaster]
  · rw [hkept _ (by simp) hw.uploadActive, h'.redis, get_of_lookup_none hactive]
  · intro id
    rw [hkept _ (by simp) (hw.uploadMeta id), h'.redis, get_of_lookup_none (hmeta id)]

theorem clock_deliver (cfg : Config) (w : World) (q : Request) :
    (w.deliver cfg q).1.clock = w.clock := by
  cases q with
  | statement x =>
    simp only [World.deliver]
    split <;> rfl
  | s3 name q =>
    simp only [World.deliver]
    split
    · cases name <;> rfl
    · rfl
  | _ => rfl

/-- A routine whose calls are all delivered at once takes no time. -/
theorem clock_finish {x : Routine α} :
    ((backend cfg).finish .delivered p x s).2.store.clock = s.store.clock := by
  induction x generalizing s with
  | ret a => rfl
  | throw e => rfl
  | call q k ih =>
    rw [System.finish, ih]
    exact clock_deliver cfg s.store q

/-- Each routine has an end before time has passed. -/
theorem ends_at_once (cfg : Config) (x : Routine α) (s : SharedWorld) :
    ∃ a t, Ends (backend cfg) allDelivered 0 x s a t ∧ t.store.clock = s.store.clock :=
  ⟨_, _, Ends.finish (fun _ _ => rfl) x s, clock_finish⟩

end
end DeletionPaths

open DeletionPaths

/-- Whatever either path ends in, it has erased the same. -/
def DeletionPathsAgree (cfg : Config) (userId requestId adminUserId : Id)
    (dto : UpdateAdminUserStatusDto) (w : World) : Prop :=
  ∀ a t a' t', Ends (backend cfg) allDelivered 0
    (UsersService.finalizePendingDeletion userId requestId) (.initial w) a t →
    Ends (backend cfg) allDelivered 0 (AdminUsersService.updateUserStatus adminUserId userId dto)
      (.initial w) a' t' →
    t.store.SameErasure userId t'.store

/-- The two paths erase the same exactly where Redis knows no upload of the user. -/
theorem deletion_paths_agree {cfg : Config} {userId requestId adminUserId : Id}
    {dto : UpdateAdminUserStatusDto} {w : World} (hw : w.Deletable userId requestId)
    (hdto : dto.status = .deleted) (hreason : dto.reason ≠ "") :
    DeletionPathsAgree cfg userId requestId adminUserId dto w ↔ w.NoUnfinishedUpload userId := by
  constructor
  · intro h
    obtain ⟨a, t, huser, hclock⟩ :=
      ends_at_once cfg (UsersService.finalizePendingDeletion userId requestId) (.initial w)
    obtain ⟨a', t', hadmin, -⟩ := ends_at_once cfg
      (AdminUsersService.updateUserStatus adminUserId userId dto) (.initial w)
    have hsame := h a t a' t' huser hadmin
    have hat := (finalizePendingDeletion_at hw).ends huser
    obtain ⟨buckets, r, hat', -, hactive, hmeta, -⟩ :=
      (updateUserStatus_at hw hdto hreason).ends hadmin
    have hgone : ∀ k, k ≠ .masterKey userId → r.lookup k = none →
        t.store.redis.get t.store.clock k = t'.store.redis.get t'.store.clock k →
          w.redis.get w.clock k = none := by
      intro k hk hnone heq
      rw [hat.redis, hclock, Redis.get_congr (AList.lookup_erase_ne hk), hat'.redis,
        get_of_lookup_none hnone] at heq
      exact heq
    exact ⟨hgone _ (by simp) hactive hsame.uploadActive,
      fun id => hgone _ (by simp) (hmeta id) (hsame.uploadMeta id)⟩
  · intro hidle a t a' t' huser hadmin
    have hat := (finalizePendingDeletion_at hw).ends huser
    obtain ⟨buckets, r, hat', hmaster, hactive, hmeta, hbuckets⟩ :=
      (updateUserStatus_at hw hdto hreason).ends hadmin
    exact same_of_noUpload hidle hat hat' (hbuckets hidle.uploadMeta) hmaster hactive hmeta

namespace DeletionPaths

def deletion : UpdateAdminUserStatusDto := ⟨"abuse", .deleted, none, none⟩

/-- The user has asked for the deletion and has a file. -/
def pendingWorld : World :=
  { demoWorld with
    db := { demoWorld.db with
      deletionRequests := [⟨5, 1, 0, 0, none, none⟩]
      files := [⟨6, "a.txt", 7, 10, "text/plain", 1, 1000, 8, none, "", 9⟩] }
    filesBucket := ⟨(∅ : AList fun _ : Id => Nat).insert 7 38, ∅⟩ }

/-- An upload of the user has begun as well. -/
def uploadingWorld : World :=
  { pendingWorld with
    redis := ((∅ : Redis).insert (.uploadActive 1) ⟨.members [50], none⟩).insert (.uploadMeta 1 50)
      ⟨.upload ⟨1, 0, 10, none, "30d", 70, some 60, [], 0, 0⟩, none⟩
    filesBucket := { pendingWorld.filesBucket with uploads :=
      (∅ : AList fun _ : Id => MultipartUpload).insert 60 ⟨70, []⟩ } }

theorem pendingWorld_deletable : pendingWorld.Deletable 1 5 := ⟨⟨demoUser, rfl, by decide⟩, rfl⟩

end DeletionPaths

theorem deletion_paths_agree_demo :
    DeletionPathsAgree demoConfig 1 5 2 DeletionPaths.deletion DeletionPaths.pendingWorld :=
  (deletion_paths_agree pendingWorld_deletable rfl (by decide)).mpr ⟨rfl, fun _ => rfl⟩

/-- The multipart upload survives the user's own request, but not the administrator. -/
theorem user_path_leaves_upload : uploadingWorld.Deletable 1 5 ∧
    ¬ DeletionPathsAgree demoConfig 1 5 2 DeletionPaths.deletion uploadingWorld := by
  refine ⟨⟨⟨demoUser, rfl, by decide⟩, rfl⟩, fun h => ?_⟩
  have hsame := h _ _ _ _ (Ends.finish (c := .delivered) (fun _ _ => rfl) _ _) (Ends.finish (c :=
    .delivered) (fun _ _ => rfl) _ _)
  have hleft : (((backend demoConfig).finish .delivered 0 (UsersService.finalizePendingDeletion 1 5)
      (.initial uploadingWorld)).2.store.filesBucket.uploads.lookup 60).isSome = true := by
        decide +kernel
  have hgone : (((backend demoConfig).finish .delivered 0
    (AdminUsersService.updateUserStatus 2 1 DeletionPaths.deletion)
      (.initial uploadingWorld)).2.store.filesBucket.uploads.lookup 60).isSome = false := by
        decide +kernel
  cases (hleft.symm.trans (congrArg Option.isSome (hsame.uploads .files 60))).trans hgone

end Redbox
