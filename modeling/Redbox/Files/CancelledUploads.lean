import Redbox.Files.ConcurrentCompletion

/-! Cancellations of one upload among its chunk requests. A part may reach S3 after the upload was
aborted. -/
namespace Redbox
open Interleaving

namespace CancelledUploads

inductive Call where
  | chunk (file : Blob) (chunkIndex : Nat)
  | cancel

/-- The chunk requests and the cancellations of one upload. -/
def cancellations (cfg : Config) (userId uploadId : Id) :
    System Request Reply Thrown Unit World Call Delivery Nat where
  exec := World.exec cfg
  drift := World.tick
  program
    | .chunk file chunkIndex => FilesService.handleChunk userId uploadId file chunkIndex
    | .cancel => FilesService.cancelUpload userId uploadId

abbrev CancelRules := Rules Request Reply World Call Delivery Nat

/-- Any order of calls. An `UploadPart` may fail, or leave its part behind after an abort. -/
def anyOrder : CancelRules where
  starts := fun _ _ => true
  allows := fun _ _ q c => match q with
    | .s3 .files (.uploadPart _ _ _ _) => decide (c ≠ .lost)
    | _ => decide (c = .delivered)
  drifts := fun _ _ => true

def aborts : BackendEvent → Bool
  | ⟨_, .s3 .files (.abortMultipartUpload _ _), _⟩ => true
  | _ => false

/-- After such a call a chunk request must still look whether its upload is tracked, or abort it. -/
def owes : BackendEvent → Bool
  | ⟨_, .s3 .files (.uploadPart _ _ _ _), .ok _⟩ => true
  | ⟨_, .redis (.exists _), .ok tracked⟩ => !tracked
  | _ => false

/-- The events newer than the last abort. -/
def sinceAbort (log : List BackendEvent) : List BackendEvent := log.takeWhile fun e => !aborts e

/-- The process has left a part in S3 since the last abort, and has not yet looked for the upload
or found that it is gone. -/
def owing (p : Nat) (log : List BackendEvent) : Bool := (lastOwn p (sinceAbort log)).any owes

/-- The metadata is stored only while it is there, and a request whose part came after an abort
looks for the metadata only once it is deleted. -/
def undisturbed (userId uploadId : Id) (s : SharedWorld) (p : Nat) (q : Request) (_ : Delivery) :
    Bool :=
  match q with
  | .redis (.multi _) => (s.store.uploadMeta userId uploadId).isSome
  | .redis (.exists _) => (s.store.uploadMeta userId uploadId).isNone ||
    !(s.log.any aborts && owing p s.log)
  | _ => true

/-- No call disturbs the cancellation, and the metadata does not run out. -/
def rules (userId uploadId : Id) : CancelRules :=
  { anyOrder.also (undisturbed userId uploadId) with drifts := keepsUpload userId uploadId }

/-- Neither Redis nor S3 has anything of the upload. -/
structure Removed (userId uploadId : Id) (start w : World) : Prop where
  uploadMeta : w.uploadMeta userId uploadId = none
  multipart : ∀ found id, start.uploadMeta userId uploadId = some (.upload found) →
    found.s3UploadId = some id → w.filesBucket.upload found.storageKey id = none

/-- Once a cancellation has returned and all calls have ended, nothing is there. -/
def StaysCancelled (userId uploadId : Id) (start : World)
    (s : Pool Request Reply Thrown Unit World Call) : Prop :=
  s.idle = true → (Call.cancel, Prog.ret ()) ∈ s.procs →
    Removed userId uploadId start s.shared.store

/-- The metadata of the upload that it started with, up to what was accepted. -/
def Tracks (state : UploadMeta) (value : RedisValue) : Prop :=
  ∃ found, value = .upload found ∧ found.storageKey = state.storageKey ∧
    found.s3UploadId = state.s3UploadId

def Aborted (s : SharedWorld) : Prop := s.log.any aborts = true

section
variable (userId uploadId : Id) (start : World) (state : UploadMeta)

/-- The upload has been aborted, where it has one in S3. -/
def Withdrawn (s : SharedWorld) : Prop :=
  ∀ id, start.uploadMeta userId uploadId = some (.upload state) →
    state.s3UploadId = some id → Aborted s

structure Inv (s : SharedWorld) : Prop where
  tracked : ∀ value, s.store.uploadMeta userId uploadId = some value →
    start.uploadMeta userId uploadId = some value ∨ Tracks state value
  withdrawn : s.store.uploadMeta userId uploadId = none → Withdrawn userId uploadId start state s
  owed : ∀ id, state.s3UploadId = some id → Aborted s →
    (s.store.filesBucket.upload state.storageKey id).isSome → ∃ p, owing p s.log = true

/-- What a process knows when it makes a call. -/
def pre (s : SharedWorld) (p : Nat) : Request → Prop
  | .now | .redis (.get _) => owing p s.log = false
  | .redis (.exists key) => key = .uploadMeta userId uploadId
  | .redis (.multi ws) => owing p s.log = false ∧ ∃ found, Tracks state (.upload found) ∧
      ws = FilesService.refreshTransaction userId uploadId found
  | .redis (.write w) => owing p s.log = false ∧ (RedisKey.uploadMeta userId uploadId ≠ w.key ∨
      w = .del (.uploadMeta userId uploadId) ∧ Withdrawn userId uploadId start state s)
  | .s3 .files (.uploadPart key s3UploadId _ _) => owing p s.log = false ∧
      key = state.storageKey ∧ state.s3UploadId = some s3UploadId
  | .s3 .files (.abortMultipartUpload key s3UploadId) =>
    key = state.storageKey ∧ s3UploadId = state.s3UploadId
  | _ => False

def outline : Outline Request Reply World :=
  ⟨Inv userId uploadId start state, pre userId uploadId start state⟩

end

section
variable {cfg : Config} {userId uploadId : Id} {start : World} {state : UploadMeta}
  {s : SharedWorld} {w : World} {c : Delivery} {q : Request} {p p' : Nat} {e : BackendEvent}
  {log : List BackendEvent}

theorem owing_abort (h : aborts e = true) : owing p (e :: log) = false := by
  rw [owing, sinceAbort, List.takeWhile_cons_of_neg (by simp [h])]
  rfl

theorem sinceAbort_cons (h : aborts e = false) : sinceAbort (e :: log) = e :: sinceAbort log :=
  List.takeWhile_cons_of_pos (by simp [h])

theorem owing_self (h : aborts e = false) (hpid : e.pid = p) : owing p (e :: log) = owes e := by
  rw [owing, sinceAbort_cons h, lastOwn_self hpid]
  rfl

theorem owing_other (h : aborts e = false) (hne : e.pid ≠ p) :
    owing p (e :: log) = owing p log := by
  rw [owing, sinceAbort_cons h, lastOwn_other hne]
  rfl

theorem owing_fresh (h : ∀ e ∈ log, e.pid ≠ p) : owing p log = false := by
  have hnone : lastOwn p (sinceAbort log) = none :=
    lastOwn_none fun e he => h e (List.takeWhile_subset _ he)
  rw [owing, hnone]
  rfl

theorem aborted_cons (h : aborts e = false) : Aborted ⟨w, e :: s.log⟩ ↔ Aborted s := by
  rw [Aborted, List.any_cons, h, Bool.false_or]
  rfl

theorem Aborted.cons (h : Aborted s) : Aborted ⟨w, e :: s.log⟩ := by
  rw [Aborted, List.any_cons, Bool.or_eq_true]
  exact .inr h

theorem Withdrawn.cons (h : Withdrawn userId uploadId start state s) :
    Withdrawn userId uploadId start state ⟨w, e :: s.log⟩ :=
  fun id hstart hid => (h id hstart hid).cons

/-- Whoever owes an abort still does after a call of a process that owes none. -/
theorem Inv.owed_cons (h : Inv userId uploadId start state s) (haborts : aborts e = false)
    (hpay : Aborted s → owing e.pid s.log = true → owes e = true)
    (hbucket : w.filesBucket = s.store.filesBucket) :
    ∀ id, state.s3UploadId = some id → Aborted ⟨w, e :: s.log⟩ →
      (w.filesBucket.upload state.storageKey id).isSome → ∃ p, owing p (e :: s.log) = true := by
  intro id hid haborted hsome
  have haborted' := (aborted_cons haborts).mp haborted
  obtain ⟨p, hp⟩ := h.owed id hid haborted' (hbucket ▸ hsome)
  by_cases hpid : e.pid = p
  · subst hpid
    exact ⟨e.pid, (owing_self haborts rfl).trans (hpay haborted' hp)⟩
  · exact ⟨p, (owing_other haborts hpid).trans hp⟩

/-- A call that leaves the metadata and the bucket as they are. -/
theorem Inv.quiet (h : Inv userId uploadId start state s) (haborts : aborts e = false)
    (hpay : Aborted s → owing e.pid s.log = true → owes e = true)
    (hmeta : w.uploadMeta userId uploadId = s.store.uploadMeta userId uploadId)
    (hbucket : w.filesBucket = s.store.filesBucket) :
    Inv userId uploadId start state ⟨w, e :: s.log⟩ where
  tracked value hvalue := h.tracked value (hmeta.symm.trans hvalue)
  withdrawn hnone := (h.withdrawn (hmeta.symm.trans hnone)).cons
  owed := h.owed_cons haborts hpay hbucket

/-- The process owes nothing, so its call pays nothing back. -/
theorem pay_of_clear (h : owing p s.log = false) {r : Reply q} :
    Aborted s → owing (⟨p, q, r⟩ : BackendEvent).pid s.log = true →
      owes ⟨p, q, r⟩ = true := by
  intro _ howing
  rw [h] at howing
  cases howing

theorem Inv.exists (h : Inv userId uploadId start state s)
    (hrule : undisturbed userId uploadId s p (.redis (.exists (.uploadMeta userId uploadId))) c =
      true) :
    Inv userId uploadId start state ⟨s.store, ⟨p, .redis (.exists (.uploadMeta userId uploadId)),
      .ok (s.store.redis.live s.store.clock (.uploadMeta userId uploadId)).isSome⟩ :: s.log⟩ := by
  refine h.quiet rfl (fun haborted howing => ?_) rfl rfl
  simp only [undisturbed, Aborted] at hrule haborted howing
  rw [haborted, howing, Bool.and_self, Bool.not_true, Bool.or_false, Option.isNone_iff_eq_none]
    at hrule
  have hlive := Option.map_eq_none_iff.mp hrule
  rw [owes, hlive]
  rfl

theorem Inv.refresh (h : Inv userId uploadId start state s) (hclear : owing p s.log = false)
    {found : UploadMeta} (hfound : Tracks state (.upload found)) :
    Inv userId uploadId start state ((cancellations cfg userId uploadId).after .delivered p
      (.redis (.multi (FilesService.refreshTransaction userId uploadId found))) s) := by
  have hmeta : (s.store.deliver cfg (.redis (.multi
      (FilesService.refreshTransaction userId uploadId found)))).1.uploadMeta userId uploadId =
        some (.upload found) :=
    World.uploadMeta_refresh cfg
  exact {
    tracked := fun value hvalue => by
      obtain rfl := Option.some.inj (hmeta.symm.trans hvalue)
      exact .inr hfound
    withdrawn := fun hnone => by cases hmeta.symm.trans hnone
    owed := h.owed_cons rfl (pay_of_clear hclear) rfl }

theorem uploadMeta_write {r : RedisWrite} (h : RedisKey.uploadMeta userId uploadId ≠ r.key) :
    World.uploadMeta { s.store with redis := s.store.redis.write s.store.clock r } userId uploadId =
      s.store.uploadMeta userId uploadId :=
  Redis.get_congr (Redis.lookup_write h)

theorem uploadMeta_del : World.uploadMeta { s.store with
    redis := s.store.redis.write s.store.clock (.del (.uploadMeta userId uploadId)) }
      userId uploadId = none := by
  rw [World.uploadMeta, Redis.get, Redis.live, Redis.lookup_del]
  rfl

theorem Inv.write (h : Inv userId uploadId start state s) {r : RedisWrite}
    (hp : pre userId uploadId start state s p (.redis (.write r))) :
    Inv userId uploadId start state ((cancellations cfg userId uploadId).after .delivered p
      (.redis (.write r)) s) := by
  obtain ⟨hclear, hkey | ⟨rfl, hwithdrawn⟩⟩ := hp
  · exact h.quiet rfl (pay_of_clear hclear) (uploadMeta_write hkey) rfl
  · exact {
      tracked := fun value hvalue => by cases uploadMeta_del.symm.trans hvalue
      withdrawn := fun _ => hwithdrawn.cons
      owed := h.owed_cons rfl (pay_of_clear hclear) rfl }

/-- What becomes of a part: it is refused, or the process that sent it has to look for the upload.
-/
theorem Inv.uploadPart (h : Inv userId uploadId start state s) {key s3UploadId : Id} {n : Nat}
    {body : Blob} (hclear : owing p s.log = false) (hc : c ≠ .lost) :
    Inv userId uploadId start state ((cancellations cfg userId uploadId).after c p
      (.s3 .files (.uploadPart key s3UploadId n body)) s) := by
  have haccepted : ∀ (b : Bucket) (m : Id) (digest : Id), Inv userId uploadId start state
      ⟨{ s.store with filesBucket := b, nextId := m },
        ⟨p, .s3 .files (.uploadPart key s3UploadId n body), .ok digest⟩ :: s.log⟩ :=
    fun b m digest => {
      tracked := h.tracked
      withdrawn := fun hnone => (h.withdrawn hnone).cons
      owed := fun _ _ _ _ => ⟨p, owing_self rfl rfl⟩ }
  have hrefused : ∀ error : Thrown, Inv userId uploadId start state
      ⟨s.store, ⟨p, .s3 .files (.uploadPart key s3UploadId n body), .error error⟩ :: s.log⟩ :=
    fun error => h.quiet rfl (pay_of_clear hclear) rfl rfl
  cases c with
  | lost => exact absurd rfl hc
  | failed => exact hrefused _
  | late => exact haccepted _ s.store.nextId _
  | delivered =>
    simp only [System.after, System.reply, cancellations, World.exec]
    rcases ConcurrentCompletion.deliver_s3 cfg s.store (.uploadPart key s3UploadId n body) with
      ⟨b, a, -, hdeliver⟩ | ⟨error, -, hdeliver⟩
    · rw [hdeliver]
      exact haccepted b _ a
    · rw [hdeliver]
      exact hrefused error

/-- After an abort the upload is gone, whether S3 had it or not. -/
theorem upload_abort (cfg : Config) (w : World) (key id : Id) :
    (w.deliver cfg (.s3 .files (.abortMultipartUpload key (some id)))).1.filesBucket.upload key id =
      none := by
  rcases ConcurrentCompletion.deliver_s3 cfg w (.abortMultipartUpload key (some id)) with
    ⟨b, a, hb, hdeliver⟩ | ⟨error, herror, hdeliver⟩
  · rw [hdeliver]
    cases habort : w.filesBucket.abort key (some id) with
    | error e => simp [Bucket.perform, habort, bind, Except.bind] at hb
    | ok b' =>
      obtain ⟨i, u, hi, -, rfl⟩ := Bucket.abort_ok habort
      obtain rfl := Option.some.inj hi
      simp only [Bucket.perform, habort, bind, Except.bind, pure, Except.pure, Except.ok.injEq,
        Prod.mk.injEq] at hb
      obtain ⟨rfl, -⟩ := hb
      rw [ConcurrentCompletion.withBucket, Bucket.upload, AList.lookup_erase]
      rfl
  · rw [hdeliver]
    by_cases hsome : (w.filesBucket.upload key id).isSome
    · simp [Bucket.perform, Bucket.abort, hsome, bind, Except.bind, pure, Except.pure] at herror
    · exact Option.not_isSome_iff_eq_none.mp hsome

theorem deliver_s3_redis (cfg : Config) (w : World) (r : S3Request) :
    (w.deliver cfg (.s3 .files r)).1.redis = w.redis ∧
      (w.deliver cfg (.s3 .files r)).1.clock = w.clock := by
  rcases ConcurrentCompletion.deliver_s3 cfg w r with ⟨b, a, -, hdeliver⟩ | ⟨e, -, hdeliver⟩
  · rw [hdeliver]
    exact ⟨rfl, rfl⟩
  · rw [hdeliver]
    exact ⟨rfl, rfl⟩

theorem uploadMeta_abort (key : Id) (s3UploadId : Option Id) :
    ((cancellations cfg userId uploadId).after .delivered p
      (.s3 .files (.abortMultipartUpload key s3UploadId)) s).store.uploadMeta userId uploadId =
        s.store.uploadMeta userId uploadId := by
  obtain ⟨hredis, hclock⟩ := deliver_s3_redis cfg s.store (.abortMultipartUpload key s3UploadId)
  exact congrArg₂ (fun r now => Redis.get r now (.uploadMeta userId uploadId)) hredis hclock

theorem Inv.abort (h : Inv userId uploadId start state s) :
    Inv userId uploadId start state ((cancellations cfg userId uploadId).after .delivered p
      (.s3 .files (.abortMultipartUpload state.storageKey state.s3UploadId)) s) where
  tracked value hvalue := h.tracked value ((uploadMeta_abort _ _).symm.trans hvalue)
  withdrawn _ := fun _ _ _ => rfl
  owed id hid _ hsome := by
    have hnone := upload_abort cfg s.store state.storageKey id
    rw [← hid] at hnone
    have hnone' : ((cancellations cfg userId uploadId).after .delivered p
        (.s3 .files (.abortMultipartUpload state.storageKey state.s3UploadId))
          s).store.filesBucket.upload state.storageKey id = none := hnone
    rw [hnone'] at hsome
    cases hsome

/-- Metadata that is gone stays away while time passes, and metadata that is there stays. -/
theorem uploadMeta_moved {n : Nat} (hkeeps : keepsUpload userId uploadId s n = true) :
    (s.store.tick n).uploadMeta userId uploadId = s.store.uploadMeta userId uploadId := by
  cases hmeta : s.store.uploadMeta userId uploadId with
  | some value =>
    rw [World.uploadMeta_tick hkeeps (by rw [hmeta]; rfl), hmeta]
  | none =>
    cases hlater : (s.store.tick n).uploadMeta userId uploadId with
    | none => rfl
    | some value =>
      have hbefore := Redis.get_of_later (Nat.le_add_right _ n) hlater
      exact hbefore.symm.trans hmeta

theorem Inv.moved (h : Inv userId uploadId start state s) {n : Nat}
    (hkeeps : keepsUpload userId uploadId s n = true) :
    Inv userId uploadId start state ((cancellations cfg userId uploadId).moved n s) where
  tracked value hvalue := h.tracked value ((uploadMeta_moved hkeeps).symm.trans hvalue)
  withdrawn hnone := h.withdrawn ((uploadMeta_moved hkeeps).symm.trans hnone)
  owed := h.owed

/-- Calls are delivered, but for the parts. -/
theorem allowed_cases (h : (rules userId uploadId).allows s p q c = true) :
    (c = .delivered ∨ c ≠ .lost ∧ ∃ key id n body, q = .s3 .files (.uploadPart key id n body)) ∧
      undisturbed userId uploadId s p q c = true := by
  obtain ⟨hany, hrule⟩ := Bool.and_eq_true_iff.mp h
  refine ⟨?_, hrule⟩
  cases q with
  | s3 name r =>
    cases name with
    | mails => exact .inl (of_decide_eq_true hany)
    | files =>
      cases r with
      | uploadPart key id n body => exact .inr ⟨of_decide_eq_true hany, key, id, n, body, rfl⟩
      | _ => exact .inl (of_decide_eq_true hany)
  | _ => exact .inl (of_decide_eq_true hany)

theorem delivered_of_allowed (h : (rules userId uploadId).allows s p q c = true)
    (hq : ∀ key id n body, q ≠ .s3 .files (.uploadPart key id n body)) : c = .delivered := by
  obtain ⟨hdelivered | ⟨-, key, id, n, body, heq⟩, -⟩ := allowed_cases h
  · exact hdelivered
  · exact absurd heq (hq key id n body)

theorem outline_kept : (outline userId uploadId start state).Kept
    (cancellations cfg userId uploadId) (rules userId uploadId) where
  after := by
    intro s p q c hi ha hp
    have hi : Inv userId uploadId start state s := hi
    have hrule := (allowed_cases ha).2
    cases q with
    | now =>
      obtain rfl := delivered_of_allowed ha (by simp)
      exact hi.quiet rfl (pay_of_clear hp) rfl rfl
    | redis command =>
      obtain rfl := delivered_of_allowed ha (by simp)
      cases command with
      | get key => exact hi.quiet rfl (pay_of_clear hp) rfl rfl
      | «exists» key =>
        obtain rfl := hp
        exact hi.exists hrule
      | multi ws =>
        obtain ⟨hclear, found, hfound, rfl⟩ := hp
        exact hi.refresh hclear hfound
      | write r => exact hi.write hp
      | _ => exact hp.elim
    | s3 name r =>
      cases name with
      | mails => exact hp.elim
      | files =>
        cases r with
        | uploadPart key id n body =>
          obtain ⟨hdelivered | ⟨hc, -⟩, -⟩ := allowed_cases ha
          · exact hi.uploadPart hp.1 (by simp [hdelivered])
          · exact hi.uploadPart hp.1 hc
        | abortMultipartUpload key id =>
          obtain rfl := delivered_of_allowed ha (by simp)
          obtain ⟨rfl, rfl⟩ := hp
          exact hi.abort
        | _ => exact hp.elim
    | _ => exact hp.elim
  moved := fun hi hd => Inv.moved hi hd

/-- The moves of the others. -/
abbrev Steady (cfg : Config) (userId uploadId : Id) (start : World) (state : UploadMeta) (p : Nat)
    (F : SharedWorld → Prop) : Prop :=
  Stable (cancellations cfg userId uploadId) (rules userId uploadId)
    (outline userId uploadId start state) p F

/-- The process owes no abort. -/
def Clear (p : Nat) (s : SharedWorld) : Prop := owing p s.log = false

/-- Redis has forgotten the upload. -/
def Gone (userId uploadId : Id) (s : SharedWorld) : Prop :=
  s.store.uploadMeta userId uploadId = none

/-- Its own calls but those after which it owes an abort. -/
theorem clear_own {r : Reply q} (howes : owes ⟨p, q, r⟩ = false) :
    Clear p ⟨w, ⟨p, q, r⟩ :: s.log⟩ := by
  by_cases haborts : aborts ⟨p, q, r⟩ = true
  · exact owing_abort haborts
  · rw [Bool.not_eq_true] at haborts
    exact (owing_self haborts rfl).trans howes

theorem Clear.other (h : Clear p s) (hne : e.pid ≠ p) : Clear p ⟨w, e :: s.log⟩ := by
  by_cases haborts : aborts e = true
  · exact owing_abort haborts
  · rw [Bool.not_eq_true] at haborts
    exact (owing_other haborts hne).trans h

theorem steady_clear : Steady cfg userId uploadId start state p (Clear p) := by
  intro s s' h hs
  cases h with
  | drift => exact hs
  | other ne => exact hs.other ne

/-- Metadata that is deleted comes back with no call. -/
theorem Gone.after (h : Gone userId uploadId s)
    (ha : (rules userId uploadId).allows s p q c = true)
    (hp : pre userId uploadId start state s p q) :
    Gone userId uploadId ((cancellations cfg userId uploadId).after c p q s) := by
  have hrule := (allowed_cases ha).2
  cases q with
  | now =>
    obtain rfl := delivered_of_allowed ha (by simp)
    exact h
  | redis command =>
    obtain rfl := delivered_of_allowed ha (by simp)
    cases command with
    | get key => exact h
    | «exists» key => exact h
    | multi ws =>
      have hnone : s.store.uploadMeta userId uploadId = none := h
      simp [undisturbed, hnone] at hrule
    | write r =>
      obtain ⟨-, hkey | ⟨rfl, -⟩⟩ := hp
      · exact (uploadMeta_write hkey).trans h
      · exact uploadMeta_del
    | _ => exact hp.elim
  | s3 name r =>
    cases name with
    | mails => exact hp.elim
    | files =>
      have hdelivered : World.uploadMeta (s.store.deliver cfg (.s3 .files r)).1 userId uploadId =
          none := by
        obtain ⟨hredis, hclock⟩ := deliver_s3_redis cfg s.store r
        rw [World.uploadMeta, hredis, hclock]
        exact h
      cases r with
      | uploadPart key id n body =>
        cases c with
        | delivered | lost => exact hdelivered
        | failed | late => exact h
      | abortMultipartUpload key id =>
        obtain rfl := delivered_of_allowed ha (by simp)
        exact hdelivered
      | _ => exact hp.elim
  | _ => exact hp.elim

theorem steady_gone : Steady cfg userId uploadId start state p (Gone userId uploadId) := by
  intro s s' h hs
  cases h with
  | drift _ hkeeps => exact (uploadMeta_moved hkeeps).trans hs
  | other _ _ hallowed hpre => exact hs.after hallowed hpre

/-- Once metadata that was read is known, so is the upload in S3. -/
theorem Inv.read (h : Inv userId uploadId start state s) {found : UploadMeta}
    (hstate : ∀ found, start.uploadMeta userId uploadId = some (.upload found) → found = state)
    (hfound : s.store.uploadMeta userId uploadId = some (.upload found)) :
    Tracks state (.upload found) := by
  rcases h.tracked _ hfound with hstart | htracks
  · obtain rfl := hstate found hstart
    exact ⟨found, rfl, rfl, rfl⟩
  · exact htracks

theorem checkChunk_result (found : UploadMeta) (file : Blob) (chunkIndex : Nat) :
    (∃ e, FilesService.checkChunk found file chunkIndex = .throw e) ∨
    ∃ id, found.s3UploadId = some id ∧ FilesService.checkChunk found file chunkIndex = .ret id := by
  unfold FilesService.checkChunk
  cases hid : found.s3UploadId with
  | none => exact .inl ⟨_, rfl⟩
  | some id =>
    simp only [Prog.throwIf, Prog.bind_eq, Prog.pure_eq]
    split
    · exact .inl ⟨_, rfl⟩
    · split
      · exact .inl ⟨_, rfl⟩
      · split
        · exact .inl ⟨_, rfl⟩
        · exact .inr ⟨id, rfl, rfl⟩

/-- A call of a routine that ends owing nothing. -/
abbrev EndsClear (cfg : Config) (userId uploadId : Id) (start : World) (state : UploadMeta)
    (p : Nat) (x : Routine Unit) (s : SharedWorld) : Prop :=
  Meets (cancellations cfg userId uploadId) (rules userId uploadId)
    (outline userId uploadId start state) p x (fun _ t => Clear p t) s

theorem EndsClear.throw (h : Clear p s) (e : Thrown) :
    EndsClear cfg userId uploadId start state p (.throw e) s :=
  Meets.throw steady_clear h fun _ ht _ => ht

/-- The abort of a part that came too late, whatever S3 answers. -/
theorem abortLatePart_meets {key id : Id} {f : Unit → Routine Unit}
    (hkey : key = state.storageKey) (hid : state.s3UploadId = some id)
    (hf : ∀ t, Clear p t → EndsClear cfg userId uploadId start state p (f ()) t) :
    EndsClear cfg userId uploadId start state p
      ((FilesService.ignoring (FilesService.abortMultipartUpload key (some id))).bind f) s := by
  refine Meets.call (Stable.const True) trivial fun t _ _ c _ => ⟨⟨hkey, hid.symm⟩, ?_⟩
  have hclear : Clear p ((cancellations cfg userId uploadId).after c p
      (.s3 .files (.abortMultipartUpload key (some id))) t) := owing_abort rfl
  cases (cancellations cfg userId uploadId).reply c
      (.s3 .files (.abortMultipartUpload key (some id))) t with
  | ok _ => exact hf _ hclear
  | error _ => exact hf _ hclear

theorem refresh_meets {found : UploadMeta} (hclear : Clear p s)
    (hfound : Tracks state (.upload found)) :
    EndsClear cfg userId uploadId start state p
      (FilesService.refreshUploadState userId uploadId found) s := by
  refine Meets.call steady_clear hclear fun t hclear _ c _ => ⟨⟨hclear, found, hfound, rfl⟩, ?_⟩
  have hclear : Clear p ((cancellations cfg userId uploadId).after c p
      (.redis (.multi (FilesService.refreshTransaction userId uploadId found))) t) := clear_own rfl
  cases (cancellations cfg userId uploadId).reply c
      (.redis (.multi (FilesService.refreshTransaction userId uploadId found))) t with
  | ok _ => exact Meets.ret steady_clear hclear fun _ ht _ => ht
  | error e => exact EndsClear.throw hclear e

theorem handleChunk_meets {file : Blob} {chunkIndex : Nat}
    (hstate : ∀ found, start.uploadMeta userId uploadId = some (.upload found) → found = state)
    (hclear : Clear p s) :
    EndsClear cfg userId uploadId start state p
      (FilesService.handleChunk userId uploadId file chunkIndex) s := by
  refine Meets.await steady_clear hclear fun t hclear hi c ha => ⟨hclear, fun value hvalue => ?_,
    fun e _ => EndsClear.throw (clear_own rfl) e⟩
  obtain rfl := delivered_of_allowed ha (by simp)
  have hclear : Clear p ((cancellations cfg userId uploadId).after .delivered p
      (.redis (.get (.uploadMeta userId uploadId))) t) := clear_own rfl
  obtain rfl : t.store.uploadMeta userId uploadId = value := Except.ok.inj hvalue
  cases hfound : t.store.uploadMeta userId uploadId with
  | none => exact EndsClear.throw hclear _
  | some value =>
    cases value with
    | upload found =>
      have htracks := Inv.read hi hstate hfound
      obtain ⟨_, heq, hkey, hid⟩ := htracks
      cases heq
      rcases checkChunk_result found file chunkIndex with ⟨e, hcheck⟩ | ⟨id, hsome, hcheck⟩
      · simp only [FilesService.parseUploadMeta, Prog.bind_eq, Prog.pure_eq, Prog.ret_bind, hcheck]
        exact EndsClear.throw hclear e
      simp only [FilesService.parseUploadMeta, Prog.bind_eq, Prog.pure_eq, Prog.ret_bind, hcheck]
      refine Meets.await steady_clear hclear fun t hclear hi c ha => ⟨hclear, fun now _ => ?_,
        fun e _ => EndsClear.throw (clear_own rfl) e⟩
      have hstamped : Tracks state (.upload { found with updatedAt := now }) :=
        ⟨_, rfl, hkey, hid⟩
      refine .bind (outline_kept.after hi ha hclear) outline_kept
        ((refresh_meets (clear_own rfl) hstamped).mono fun r t hi hclear => ?_)
      rcases r with e | _
      · exact EndsClear.throw hclear e
      refine Meets.await steady_clear hclear fun t hclear _ c _ =>
        ⟨⟨hclear, hkey, hid ▸ hsome⟩, fun eTag _ => ?_, fun e he => EndsClear.throw
          (clear_own (by rw [he]; rfl)) e⟩
      refine Meets.await (Stable.const True) trivial fun t _ _ c _ => ⟨rfl, fun tracked hr => ?_,
        fun e he => EndsClear.throw (clear_own (by rw [he]; rfl)) e⟩
      cases tracked with
      | false =>
        exact abortLatePart_meets hkey (hid ▸ hsome) fun t hclear => EndsClear.throw hclear _
      | true =>
        have hclear : Clear p ((cancellations cfg userId uploadId).after c p
            (.redis (.exists (.uploadMeta userId uploadId))) t) :=
          clear_own (by rw [hr]; rfl)
        refine Meets.await steady_clear hclear fun t hclear _ c _ => ⟨hclear, fun later _ => ?_,
          fun e _ => EndsClear.throw (clear_own rfl) e⟩
        have haccepted : Tracks state (.upload (FilesService.acceptPart
            { found with updatedAt := now } (chunkIndex + 1) eTag later)) :=
          ⟨_, rfl, hkey, hid⟩
        exact refresh_meets (clear_own rfl) haccepted
    | _ => exact EndsClear.throw hclear _

/-- A call of a routine that ends owing nothing, and returns only once the metadata is gone. -/
abbrev Cancels (cfg : Config) (userId uploadId : Id) (start : World) (state : UploadMeta)
    (p : Nat) (x : Routine Unit) (s : SharedWorld) : Prop :=
  Meets (cancellations cfg userId uploadId) (rules userId uploadId)
    (outline userId uploadId start state) p x
    (fun r t => Clear p t ∧ (r = .ok () → Gone userId uploadId t)) s

theorem Cancels.throw (h : Clear p s) (e : Thrown) :
    Cancels cfg userId uploadId start state p (.throw e) s :=
  Meets.throw steady_clear h fun _ ht _ => ⟨ht, fun hr => by cases hr⟩

theorem releaseActiveUpload_meets (hclear : Clear p s) (hgone : Gone userId uploadId s) :
    Cancels cfg userId uploadId start state p (FilesService.releaseActiveUpload userId uploadId)
      s := by
  refine Meets.call (steady_clear.and steady_gone) ⟨hclear, hgone⟩
    fun t ⟨hclear, hgone⟩ _ c ha => ?_
  have hpre : pre userId uploadId start state t p
      (.redis (.write (.srem (.uploadActive userId) uploadId))) :=
        ⟨hclear, .inl (by simp [RedisWrite.key])⟩
  have hafter : Clear p ((cancellations cfg userId uploadId).after c p
      (.redis (.write (.srem (.uploadActive userId) uploadId))) t) := clear_own rfl
  refine ⟨hpre, ?_⟩
  cases (cancellations cfg userId uploadId).reply c
      (.redis (.write (.srem (.uploadActive userId) uploadId))) t with
  | ok _ =>
    exact Meets.ret (steady_clear.and steady_gone) ⟨hafter, hgone.after ha hpre⟩
      fun _ ht _ => ⟨ht.1, fun _ => ht.2⟩
  | error e => exact Cancels.throw hafter e

theorem steady_withdrawn : Steady cfg userId uploadId start state p
    (Withdrawn userId uploadId start state) := by
  intro s s' h hs
  cases h with
  | drift => exact hs
  | other => exact hs.cons

theorem forget_meets (hclear : Clear p s) (hwithdrawn : Withdrawn userId uploadId start state s) :
    Cancels cfg userId uploadId start state p
      ((await (.redis (.write (.del (.uploadMeta userId uploadId))))).bind fun _ =>
        FilesService.releaseActiveUpload userId uploadId) s := by
  refine Meets.await (steady_clear.and steady_withdrawn) ⟨hclear, hwithdrawn⟩
    fun t ⟨hclear, hwithdrawn⟩ _ c ha => ⟨⟨hclear, .inr ⟨rfl, hwithdrawn⟩⟩, fun _ _ => ?_,
      fun e _ => Cancels.throw (clear_own rfl) e⟩
  obtain rfl := delivered_of_allowed ha (by simp)
  exact releaseActiveUpload_meets (clear_own rfl) uploadMeta_del

theorem delUploadIndex_meets {s3UploadId : Option Id} (hclear : Clear p s)
    (hwithdrawn : Withdrawn userId uploadId start state s) :
    Cancels cfg userId uploadId start state p
      ((FilesService.delUploadIndex s3UploadId).bind fun _ =>
        (await (.redis (.write (.del (.uploadMeta userId uploadId))))).bind fun _ =>
          FilesService.releaseActiveUpload userId uploadId) s := by
  cases s3UploadId with
  | none => exact forget_meets hclear hwithdrawn
  | some id =>
    exact Meets.await (steady_clear.and steady_withdrawn) ⟨hclear, hwithdrawn⟩
      fun t ⟨hclear, hwithdrawn⟩ _ _ _ => ⟨⟨hclear, .inl (by simp [RedisWrite.key])⟩,
        fun _ _ => forget_meets (clear_own rfl) hwithdrawn.cons,
        fun e _ => Cancels.throw (clear_own rfl) e⟩

theorem cancelUpload_meets
    (hstate : ∀ found, start.uploadMeta userId uploadId = some (.upload found) → found = state)
    (hclear : Clear p s) :
    Cancels cfg userId uploadId start state p (FilesService.cancelUpload userId uploadId) s := by
  refine Meets.await steady_clear hclear fun t hclear hi c ha => ⟨hclear, fun value hvalue => ?_,
    fun e _ => Cancels.throw (clear_own rfl) e⟩
  obtain rfl := delivered_of_allowed ha (by simp)
  have hclear : Clear p ((cancellations cfg userId uploadId).after .delivered p
      (.redis (.get (.uploadMeta userId uploadId))) t) := clear_own rfl
  obtain rfl : t.store.uploadMeta userId uploadId = value := Except.ok.inj hvalue
  cases hfound : t.store.uploadMeta userId uploadId with
  | none => exact releaseActiveUpload_meets hclear hfound
  | some value =>
    -- without metadata to parse there is nothing in S3 to abort
    have hother : (∀ found, value ≠ .upload found) → ∀ t : SharedWorld,
        Withdrawn userId uploadId start state t := by
      intro hne t id hstart _
      rcases Inv.tracked hi value hfound with hsame | ⟨found, heq, -⟩
      · exact absurd (Option.some.inj (hsame.symm.trans hstart)) (hne state)
      · exact absurd heq (hne found)
    cases value with
    | upload found =>
      obtain ⟨_, heq, hkey, hid⟩ := Inv.read hi hstate hfound
      cases heq
      by_cases hsome : found.s3UploadId.isSome = true
      · simp only [hsome, if_true]
        refine Meets.await steady_clear hclear fun t hclear _ c _ => ⟨⟨hkey, hid⟩, fun _ _ => ?_,
          fun e _ => Cancels.throw (clear_own rfl) e⟩
        exact delUploadIndex_meets (clear_own rfl) fun _ _ _ => rfl
      · simp only [hsome]
        refine forget_meets hclear fun id _ hsid => ?_
        rw [hid, hsid] at hsome
        exact absurd rfl hsome
    | _ => exact forget_meets hclear (hother (by simp) _)

end

/-- In every run in which no call disturbs it, a cancelled upload stays cancelled. -/
theorem stays_cancelled {cfg : Config} {userId uploadId : Id} {start : World}
    {s : Pool Request Reply Thrown Unit World Call} {as : List (Action Call Delivery Nat)}
    (h : (cancellations cfg userId uploadId).run (rules userId uploadId) (.initial start) as =
      some s) :
    StaysCancelled userId uploadId start s := by
  obtain ⟨state, hstate⟩ := ConcurrentCompletion.exists_state start userId uploadId
  have hinitial : Inv userId uploadId start state (.initial start) := {
    tracked := fun _ hvalue => .inl hvalue
    withdrawn := fun hnone _ hstart _ => by cases hnone.symm.trans hstart
    owed := fun _ _ haborted _ => by cases haborted }
  have hrespects : s.Respects (cancellations cfg userId uploadId) (rules userId uploadId)
      (outline userId uploadId start state) fun p call r t =>
        Clear p t ∧ (call = .cancel → r = .ok () → Gone userId uploadId t) := by
    refine Pool.Respects.run outline_kept (fun t p call _ _ hnew => ?_)
      (Pool.Respects.initial hinitial) h
    have hclear : Clear p t := owing_fresh hnew
    cases call with
    | chunk file chunkIndex =>
      exact (handleChunk_meets hstate hclear).mono fun _ _ _ ht => ⟨ht, fun heq => by cases heq⟩
    | cancel => exact (cancelUpload_meets hstate hclear).mono fun _ _ _ ht => ⟨ht.1, fun _ => ht.2⟩
  intro hidle hcancelled
  have hinv : Inv userId uploadId start state s.shared := hrespects.inv
  obtain ⟨p, hp⟩ := List.getElem?_of_mem hcancelled
  have hgone : s.shared.store.uploadMeta userId uploadId = none :=
    (hrespects.returned hp).2 rfl rfl
  have hclear : ∀ p, Clear p s.shared := by
    intro p
    rcases Nat.lt_or_ge p s.procs.length with hlt | hge
    · obtain ⟨⟨call, x⟩, hproc⟩ : ∃ proc, s.procs[p]? = some proc :=
        ⟨_, List.getElem?_eq_getElem hlt⟩
      have hended := List.all_eq_true.mp hidle _ (List.mem_of_getElem? hproc)
      have hmeets := hrespects.meets p call x hproc
      cases x with
      | ret a => exact (hmeets s.shared .refl hinv).1
      | throw e => exact (hmeets s.shared .refl hinv).1
      | call q k => cases hended
    · exact owing_fresh fun e he => Nat.ne_of_lt (Nat.lt_of_lt_of_le (hrespects.known e he) hge)
  refine ⟨hgone, fun found id hfound hid => ?_⟩
  obtain rfl := hstate found hfound
  by_contra hne
  obtain ⟨p, hp⟩ := hinv.owed id hid (hinv.withdrawn hgone id hfound hid)
    (Option.isSome_iff_ne_none.mpr hne)
  have := hclear p
  rw [Clear, hp] at this
  cases this

/-- An upload of one chunk, of which S3 has nothing yet. -/
def trackedWorld : World :=
  { demoWorld with
    redis := ((demoWorld.redis.insert
      (.uploadMeta 1 50) ⟨.upload ⟨1, 0, 1000, none, "30d", 70, some 60, [], 0, 0⟩, none⟩).insert
      (.uploadActive 1) ⟨.members [50], none⟩).insert
      (.uploadIndex 60) ⟨.index ⟨.uploadMeta 1 50, .uploadActive 1, 50⟩, none⟩
    filesBucket := { demoWorld.filesBucket with
      uploads := demoWorld.filesBucket.uploads.insert 60 ⟨70, []⟩ } }

def sendChunk : Action Call Delivery Nat := .start (.chunk ⟨1028, 7⟩ 0)

/-- The upload is cancelled while its part is under way, and the part reaches S3 after the abort. -/
def latePart : List (Action Call Delivery Nat) :=
  sendChunk :: List.replicate 3 (.advance 0 .delivered) ++
    .start .cancel :: List.replicate 5 (.advance 1 .delivered) ++
    .advance 0 .late :: List.replicate 2 (.advance 0 .delivered)

theorem stays_cancelled_latePart : ∃ s, (cancellations demoConfig 1 50).run (rules 1 50)
    (.initial trackedWorld) latePart = some s ∧ s.idle = true ∧
      StaysCancelled 1 50 trackedWorld s := by
  have key : ((cancellations demoConfig 1 50).run (rules 1 50) (.initial trackedWorld)
      latePart).any Pool.idle = true := by decide +kernel
  obtain ⟨s, hs, hidle⟩ := (Option.any_eq_true _ _).mp key
  exact ⟨s, hs, hidle, stays_cancelled hs⟩

/-- The chunk request looks for the metadata just before the upload is cancelled, and stores it
again afterwards. -/
def storedAgain : List (Action Call Delivery Nat) :=
  sendChunk :: List.replicate 5 (.advance 0 .delivered) ++
    .start .cancel :: List.replicate 5 (.advance 1 .delivered) ++
    List.replicate 2 (.advance 0 .delivered)

def cancelled : Call × Routine Unit → Bool
  | (.cancel, .ret _) => true
  | _ => false

theorem eq_of_cancelled {proc : Call × Routine Unit} (h : cancelled proc = true) :
    proc = (.cancel, .ret ()) := by
  obtain ⟨call, x⟩ := proc
  cases call with
  | chunk => cases h
  | cancel =>
    cases x with
    | ret _ => rfl
    | throw => cases h
    | call => cases h

theorem stored_again : ∃ s, (cancellations demoConfig 1 50).run anyOrder
    (.initial trackedWorld) storedAgain = some s ∧ ¬ StaysCancelled 1 50 trackedWorld s := by
  have key : ((cancellations demoConfig 1 50).run anyOrder (.initial trackedWorld)
      storedAgain).any (fun s => s.idle && (s.shared.store.uploadMeta 1 50).isSome &&
        s.procs.any cancelled) = true := by
    decide +kernel
  obtain ⟨s, hs, hx⟩ := (Option.any_eq_true _ _).mp key
  simp only [Bool.and_eq_true] at hx
  obtain ⟨⟨hidle, hsome⟩, hcancelled⟩ := hx
  refine ⟨s, hs, fun hstays => ?_⟩
  obtain ⟨proc, hmem, hx⟩ := List.any_eq_true.mp hcancelled
  have hret : (Call.cancel, Prog.ret ()) ∈ s.procs := eq_of_cancelled hx ▸ hmem
  rw [(hstays hidle hret).uploadMeta] at hsome
  cases hsome

end CancelledUploads
end Redbox
