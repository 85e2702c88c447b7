import Redbox.Files.CancelledUploads

/-! Chunk requests of one upload whose clients may disconnect. The lock of a request is released
with its response, while its handler goes on. -/
namespace Redbox
open Interleaving

namespace AcceptedChunks
open CancelledUploads (deliver_s3_redis uploadMeta_moved)

inductive Call where
  | chunk (file : Blob) (chunkIndex : Nat)
  | release (token : Id)

/-- The chunk requests of one upload behind their guard, and the ends of their responses. -/
def requests (cfg : Config) (userId uploadId : Id) :
    System Request Reply Thrown Unit World Call Delivery Nat where
  exec := World.exec cfg
  drift := World.tick
  program
    | .chunk file chunkIndex => do
      let _ ← UploadChunkConcurrencyGuard.canActivate userId uploadId
      FilesService.handleChunk userId uploadId file chunkIndex
    | .release token => UploadChunkConcurrencyGuard.release userId uploadId token

abbrev ChunkRules := Rules Request Reply World Call Delivery Nat

/-- The event gives the lock to a request with this token. -/
def locks (token : Id) : BackendEvent → Bool
  | ⟨_, .redis (.setNX (.uploadRequestLock _ _) (.token t) _), .ok acquired⟩ =>
    acquired && t == token
  | _ => false

/-- A client disconnects at any time after its request has the lock. A part may fail to arrive, or
its answer may. The upload does not expire. -/
def anyDisconnect (userId uploadId : Id) : ChunkRules where
  starts := fun s call => match call with
    | .chunk _ _ => true
    | .release token => s.log.any (locks token)
  allows := fun _ _ q c => match q with
    | .s3 .files (.uploadPart _ _ _ _) => decide (c ≠ .late)
    | _ => decide (c = .delivered)
  drifts := keepsUpload userId uploadId

def readOf : BackendEvent → Option UploadMeta
  | ⟨_, .redis (.get (.uploadMeta _ _)), .ok (some (.upload found))⟩ => some found
  | _ => none

def sentOf : BackendEvent → Option UploadPart
  | ⟨_, .s3 .files (.uploadPart _ _ partNumber _), .ok eTag⟩ => some ⟨partNumber, eTag⟩
  | _ => none

/-- S3 holds the data of the part. -/
def holds (w : World) (found : UploadMeta) (part : UploadPart) : Bool :=
  ((found.s3UploadId.bind fun id => w.filesBucket.upload found.storageKey id).bind fun u =>
    u.part part.partNumber).any fun body => body.digest == part.eTag

/-- Since the request read the metadata no chunk was accepted, or the chunk of the request with the
same data; and when it stores its part, S3 still holds what it sent. -/
def undisturbed (userId uploadId : Id) (s : SharedWorld) (p : Nat) (q : Request) (c : Delivery) :
    Bool :=
  match s.store.uploadMeta userId uploadId, newestOwn readOf p s.log with
  | some (.upload found), some old =>
    let unmoved := decide (found.nextExpectedChunk = old.nextExpectedChunk)
    match q with
    | .s3 .files (.uploadPart _ _ partNumber body) =>
      decide (c = .failed) || unmoved || decide (⟨partNumber, body.digest⟩ ∈ found.parts)
    | .redis (.multi _) => match newestOwn sentOf p s.log with
      | none => unmoved
      | some part => (unmoved || decide (found.nextExpectedChunk = old.nextExpectedChunk + 1 ∧
        part ∈ found.parts)) && holds s.store found part
    | _ => true
  | _, _ => true

def rules (userId uploadId : Id) : ChunkRules :=
  (anyDisconnect userId uploadId).also (undisturbed userId uploadId)

/-- The metadata that Redis has lists the chunk with the data that S3 has. -/
def Listed (userId uploadId : Id) (chunkIndex : Nat) (w : World) : Prop :=
  ∀ value, w.uploadMeta userId uploadId = some value → ∃ found part, value = .upload found ∧
    chunkIndex < found.nextExpectedChunk ∧ part ∈ found.parts ∧
      part.partNumber = chunkIndex + 1 ∧ holds w found part = true

/-- No chunk is lost that a request has accepted. -/
def NeverLost (userId uploadId : Id) (s : Pool Request Reply Thrown Unit World Call) : Prop :=
  ∀ file chunkIndex, (Call.chunk file chunkIndex, Prog.ret ()) ∈ s.procs →
    Listed userId uploadId chunkIndex s.shared.store

/-- The parts of the chunks that were accepted, in order. -/
def InOrder (found : UploadMeta) : Prop :=
  found.parts.map (·.partNumber) = (List.range found.nextExpectedChunk).map (· + 1)

/-- The metadata is that of the upload. -/
structure Fits (state found : UploadMeta) : Prop where
  inOrder : InOrder found
  storageKey : found.storageKey = state.storageKey
  s3UploadId : found.s3UploadId = state.s3UploadId

section
variable (userId uploadId : Id) (state : UploadMeta)

def Inv (s : SharedWorld) : Prop :=
  ∀ found, s.store.uploadMeta userId uploadId = some (.upload found) → Fits state found

/-- Redis has metadata that lists these parts first. -/
def Extends (parts : List UploadPart) (s : SharedWorld) : Prop :=
  ∃ found, s.store.uploadMeta userId uploadId = some (.upload found) ∧ parts <+: found.parts

/-- What a request knows of the metadata that it read. -/
structure Knows (p : Nat) (old : UploadMeta) (s : SharedWorld) : Prop where
  read : newestOwn readOf p s.log = some old
  fits : Fits state old
  extended : Extends userId uploadId old.parts s

/-- What a request stores: the metadata it read, or that with the part it sent. -/
def Stores (p : Nat) (old new : UploadMeta) (s : SharedWorld) : Prop :=
  newestOwn sentOf p s.log = none ∧ (∃ now, new = { old with updatedAt := now }) ∨
    ∃ now later eTag, newestOwn sentOf p s.log = some ⟨old.nextExpectedChunk + 1, eTag⟩ ∧
      new = FilesService.acceptPart { old with updatedAt := now } (old.nextExpectedChunk + 1) eTag
        later

/-- What a process knows when it makes a call. -/
def pre (s : SharedWorld) (p : Nat) : Request → Prop
  | .now | .random | .redis (.get _) | .redis (.exists _) => True
  | .redis (.setNX key _ _) | .redis (.compareAndDelete key _) =>
    RedisKey.uploadMeta userId uploadId ≠ key
  | .redis (.multi ws) => ∃ old new, Knows userId uploadId state p old s ∧ Stores p old new s ∧
      ws = FilesService.refreshTransaction userId uploadId new
  | .s3 .files (.uploadPart key s3UploadId partNumber _) => ∃ old,
      newestOwn readOf p s.log = some old ∧ partNumber = old.nextExpectedChunk + 1 ∧
        key = state.storageKey ∧ state.s3UploadId = some s3UploadId
  | _ => False

def outline : Outline Request Reply World :=
  ⟨Inv userId uploadId state, pre userId uploadId state⟩

end

section
variable {cfg : Config} {userId uploadId : Id} {state found old new : UploadMeta}
  {s : SharedWorld} {w : World} {c : Delivery} {q : Request} {p : Nat} {e : BackendEvent}
  {log : List BackendEvent} {chunkIndex : Nat} {part : UploadPart} {parts : List UploadPart}
  {α : Type} {f : BackendEvent → Option α}

theorem InOrder.length (h : InOrder found) : found.parts.length = found.nextExpectedChunk := by
  have hlength := congrArg List.length h
  simpa only [List.length_map, List.length_range] using hlength

theorem InOrder.partNumber (h : InOrder found) (hpart : part ∈ found.parts) :
    part.partNumber ≤ found.nextExpectedChunk := by
  have hmem := List.mem_map_of_mem (f := fun x : UploadPart => x.partNumber) hpart
  rw [h] at hmem
  obtain ⟨i, hi, heq⟩ := List.mem_map.mp hmem
  have hlt := List.mem_range.mp hi
  omega

theorem InOrder.accept (h : InOrder old) (now later : Time) (eTag : Id) :
    InOrder (FilesService.acceptPart { old with updatedAt := now } (old.nextExpectedChunk + 1) eTag
      later) := by
  unfold InOrder at h ⊢
  simp only [FilesService.acceptPart, List.map_append, h, List.range_succ, List.map_cons,
    List.map_nil]

/-- Two lists of accepted parts of the same length, one of which begins the other. -/
theorem parts_eq (hold : InOrder old) (hfound : InOrder found)
    (hfirst : old.parts <+: found.parts)
    (h : found.nextExpectedChunk = old.nextExpectedChunk) : old.parts = found.parts :=
  hfirst.eq_of_length (by rw [hold.length, hfound.length, h])

/-- Where the same chunk was accepted, its part is the last one. -/
theorem parts_append (hold : InOrder old) (hfound : InOrder found)
    (hfirst : old.parts <+: found.parts)
    (h : found.nextExpectedChunk = old.nextExpectedChunk + 1) {eTag : Id}
    (hmem : ⟨old.nextExpectedChunk + 1, eTag⟩ ∈ found.parts) :
    found.parts = old.parts ++ [⟨old.nextExpectedChunk + 1, eTag⟩] := by
  obtain ⟨rest, hrest⟩ := hfirst
  have hlength : rest.length = 1 := by
    have := congrArg List.length hrest
    rw [List.length_append, hold.length, hfound.length] at this
    omega
  obtain ⟨last, rfl⟩ := List.length_eq_one_iff.mp hlength
  rw [← hrest] at hmem ⊢
  rcases List.mem_append.mp hmem with hbefore | hlast
  · have := hold.partNumber hbefore
    simp only at this
    omega
  · rw [List.mem_singleton.mp hlast]

/-- An undisturbed store only adds to the metadata. -/
theorem Stores.extends (hi : Inv userId uploadId state s)
    (hknows : Knows userId uploadId state p old s) (hstores : Stores p old new s)
    {ws : List RedisWrite} (hrule : undisturbed userId uploadId s p (.redis (.multi ws)) c = true)
    (hfound : s.store.uploadMeta userId uploadId = some (.upload found)) :
    found.parts <+: new.parts ∧ Fits state new := by
  obtain ⟨_, hsame, hfirst⟩ := hknows.extended
  cases hfound.symm.trans hsame
  have hinorder := (hi found hfound).inOrder
  have hold := hknows.fits
  simp only [undisturbed, hfound, hknows.read] at hrule
  rcases hstores with ⟨hsent, now, rfl⟩ | ⟨now, later, eTag, hsent, rfl⟩
  · rw [hsent] at hrule
    have heq := parts_eq hold.inOrder hinorder hfirst (of_decide_eq_true hrule)
    exact ⟨heq ▸ List.prefix_rfl, ⟨hold.inOrder, hold.storageKey, hold.s3UploadId⟩⟩
  · rw [hsent] at hrule
    refine ⟨?_, ⟨hold.inOrder.accept now later eTag, hold.storageKey, hold.s3UploadId⟩⟩
    simp only [FilesService.acceptPart]
    rcases Bool.or_eq_true_iff.mp (Bool.and_eq_true_iff.mp hrule).1 with hunmoved | hsame
    · rw [← parts_eq hold.inOrder hinorder hfirst (of_decide_eq_true hunmoved)]
      exact List.prefix_append _ _
    · obtain ⟨hnext, hmem⟩ := of_decide_eq_true hsame
      have happend := parts_append hold.inOrder hinorder hfirst hnext hmem
      exact ⟨[], by rw [List.append_nil, happend]⟩

/-- The part that a request stores is in S3. -/
theorem Stores.holds (hi : Inv userId uploadId state s)
    (hknows : Knows userId uploadId state p old s) (hsent : newestOwn sentOf p s.log = some part)
    {ws : List RedisWrite} (hrule : undisturbed userId uploadId s p (.redis (.multi ws)) c = true)
    (hnew : Fits state new) :
    holds s.store new part = true := by
  obtain ⟨found, hfound, -⟩ := hknows.extended
  simp only [undisturbed, hfound, hknows.read, hsent] at hrule
  have hheld := (Bool.and_eq_true_iff.mp hrule).2
  have hfits := hi found hfound
  rw [AcceptedChunks.holds, hfits.storageKey, hfits.s3UploadId] at hheld
  rw [AcceptedChunks.holds, hnew.storageKey, hnew.s3UploadId]
  exact hheld

theorem allowed_cases (h : (rules userId uploadId).allows s p q c = true) :
    (c = .delivered ∨ c ≠ .late ∧ ∃ key id n body, q = .s3 .files (.uploadPart key id n body)) ∧
      undisturbed userId uploadId s p q c = true := by
  obtain ⟨hany, hrule⟩ := Bool.and_eq_true_iff.mp h
  refine ⟨?_, hrule⟩
  cases q with
  | s3 name r =>
    cases name with
    | mails => exact .inl (of_decide_eq_true hany)
    | files =>
      cases r with
      | uploadPart key id n body => exact .inr ⟨of_decide_eq_true hany, key, id, n, body, rfl⟩
      | _ => exact .inl (of_decide_eq_true hany)
  | _ => exact .inl (of_decide_eq_true hany)

theorem delivered_of_allowed (h : (rules userId uploadId).allows s p q c = true)
    (hq : ∀ key id n body, q ≠ .s3 .files (.uploadPart key id n body)) : c = .delivered := by
  obtain ⟨hdelivered | ⟨-, key, id, n, body, heq⟩, -⟩ := allowed_cases h
  · exact hdelivered
  · exact absurd heq (hq key id n body)

/-- Neither the metadata nor the parts change. -/
def Same (userId uploadId : Id) (w w' : World) : Prop :=
  w'.uploadMeta userId uploadId = w.uploadMeta userId uploadId ∧ w'.filesBucket = w.filesBucket

/-- Metadata is stored that adds to the metadata before. -/
def Stored (userId uploadId : Id) (state : UploadMeta) (w w' : World) : Prop :=
  ∃ found new, w.uploadMeta userId uploadId = some (.upload found) ∧
    w'.uploadMeta userId uploadId = some (.upload new) ∧ found.parts <+: new.parts ∧
      Fits state new ∧ w'.filesBucket = w.filesBucket

/-- S3 takes a part, which no chunk accepted before has with other data. -/
def Sent (userId uploadId : Id) (state : UploadMeta) (w w' : World) : Prop :=
  ∃ id u partNumber body, state.s3UploadId = some id ∧
    w.filesBucket.upload state.storageKey id = some u ∧
      w'.filesBucket.upload state.storageKey id = some (u.putPart partNumber body) ∧
        w'.uploadMeta userId uploadId = w.uploadMeta userId uploadId ∧
          ∀ found, w.uploadMeta userId uploadId = some (.upload found) →
            found.nextExpectedChunk < partNumber ∨ ⟨partNumber, body.digest⟩ ∈ found.parts

theorem uploadPart_cases {key id n : Nat} {body : Blob}
    (hp : pre userId uploadId state s p (.s3 .files (.uploadPart key id n body)))
    (hc : c ≠ .late)
    (hrule : undisturbed userId uploadId s p (.s3 .files (.uploadPart key id n body)) c = true) :
    let w := ((requests cfg userId uploadId).after c p (.s3 .files (.uploadPart key id n body))
      s).store
    Same userId uploadId s.store w ∨ Sent userId uploadId state s.store w := by
  obtain ⟨old, hread, rfl, rfl, hid⟩ := hp
  have hdelivered : c ≠ .failed → Same userId uploadId s.store (s.store.deliver cfg
      (.s3 .files (.uploadPart state.storageKey id (old.nextExpectedChunk + 1) body))).1 ∨
        Sent userId uploadId state s.store (s.store.deliver cfg
      (.s3 .files (.uploadPart state.storageKey id (old.nextExpectedChunk + 1) body))).1 := by
    intro hfailed
    obtain ⟨hredis, hclock⟩ := deliver_s3_redis cfg s.store
      (.uploadPart state.storageKey id (old.nextExpectedChunk + 1) body)
    have hmeta : ∀ w : World, w.redis = s.store.redis → w.clock = s.store.clock →
        w.uploadMeta userId uploadId = s.store.uploadMeta userId uploadId := by
      intro w hr hc
      rw [World.uploadMeta, World.uploadMeta, hr, hc]
    rcases ConcurrentCompletion.deliver_s3 cfg s.store
        (.uploadPart state.storageKey id (old.nextExpectedChunk + 1) body) with
      ⟨b, a, hb, hdeliver⟩ | ⟨e, -, hdeliver⟩
    · refine .inr ?_
      cases hput : s.store.filesBucket.uploadPart state.storageKey id (old.nextExpectedChunk + 1)
          body with
      | error e => simp [Bucket.perform, hput, bind, Except.bind] at hb
      | ok b' =>
        simp only [Bucket.perform, hput, bind, Except.bind, pure, Except.pure, Except.ok.injEq,
          Prod.mk.injEq] at hb
        obtain ⟨rfl, -⟩ := hb
        obtain ⟨u, hu, -⟩ := Bucket.uploadPart_ok hput
        have hafter := Bucket.upload_uploadPart hput
        rw [hu] at hafter
        refine ⟨id, u, old.nextExpectedChunk + 1, body, hid, hu, ?_, hmeta _ hredis hclock,
          fun found hfound => ?_⟩
        · rw [hdeliver]
          exact hafter
        · simp only [undisturbed, hfound, hread, hfailed, decide_false, Bool.false_or,
            Bool.or_eq_true, decide_eq_true_eq] at hrule
          rcases hrule with hunmoved | hlisted
          · exact .inl (by omega)
          · exact .inr hlisted
    · rw [hdeliver]
      exact .inl ⟨rfl, rfl⟩
  cases c with
  | late => exact absurd rfl hc
  | failed => exact .inl ⟨rfl, rfl⟩
  | delivered => exact hdelivered (by simp)
  | lost => exact hdelivered (by simp)

/-- What a call can do to the upload. -/
theorem after_cases (cfg : Config) (hi : Inv userId uploadId state s)
    (ha : (rules userId uploadId).allows s p q c = true) (hp : pre userId uploadId state s p q) :
    let w := ((requests cfg userId uploadId).after c p q s).store
    Same userId uploadId s.store w ∨ Stored userId uploadId state s.store w ∨
      Sent userId uploadId state s.store w := by
  obtain ⟨hdelivery, hrule⟩ := allowed_cases ha
  cases q with
  | now =>
    obtain rfl := delivered_of_allowed ha (by simp)
    exact .inl ⟨rfl, rfl⟩
  | random =>
    obtain rfl := delivered_of_allowed ha (by simp)
    exact .inl ⟨rfl, rfl⟩
  | redis command =>
    obtain rfl := delivered_of_allowed ha (by simp)
    cases command with
    | get key => exact .inl ⟨rfl, rfl⟩
    | «exists» key => exact .inl ⟨rfl, rfl⟩
    | setNX key value seconds => exact .inl ⟨Redis.get_congr (Redis.lookup_setNX hp), rfl⟩
    | compareAndDelete key token =>
      exact .inl ⟨Redis.get_congr (Redis.lookup_compareAndDelete hp), rfl⟩
    | multi ws =>
      obtain ⟨old, new, hknows, hstores, rfl⟩ := hp
      obtain ⟨found, hfound, -⟩ := hknows.extended
      obtain ⟨hfirst, hfits⟩ := hstores.extends hi hknows hrule hfound
      exact .inr (.inl ⟨found, new, hfound, World.uploadMeta_refresh cfg, hfirst, hfits, rfl⟩)
    | _ => exact hp.elim
  | s3 name r =>
    cases name with
    | mails => exact hp.elim
    | files =>
      cases r with
      | uploadPart key id n body =>
        have hc : c ≠ .late := by
          rcases hdelivery with rfl | ⟨hc, -⟩
          · simp
          · exact hc
        exact (uploadPart_cases hp hc hrule).imp_right .inr
      | _ => exact hp.elim
  | _ => exact hp.elim

theorem outline_kept : (outline userId uploadId state).Kept (requests cfg userId uploadId)
    (rules userId uploadId) where
  after := by
    intro s p q c hi ha hp found hfound
    rcases after_cases cfg hi ha hp with ⟨hmeta, -⟩ | ⟨_, new, -, hmeta, -, hfits, -⟩ |
      ⟨_, _, _, _, -, -, -, hmeta, -⟩
    · exact hi found (hmeta.symm.trans hfound)
    · cases hmeta.symm.trans hfound
      exact hfits
    · exact hi found (hmeta.symm.trans hfound)
  moved := fun hi hkeeps found hfound => hi found ((uploadMeta_moved hkeeps).symm.trans hfound)

theorem Extends.after (h : Extends userId uploadId parts s) (hi : Inv userId uploadId state s)
    (ha : (rules userId uploadId).allows s p q c = true) (hp : pre userId uploadId state s p q) :
    Extends userId uploadId parts ((requests cfg userId uploadId).after c p q s) := by
  obtain ⟨found, hfound, hfirst⟩ := h
  rcases after_cases cfg hi ha hp with ⟨hmeta, -⟩ |
    ⟨before, new, hbefore, hmeta, hadds, -, -⟩ | ⟨_, _, _, _, -, -, -, hmeta, -⟩
  · exact ⟨found, hmeta.trans hfound, hfirst⟩
  · cases hfound.symm.trans hbefore
    exact ⟨new, hmeta, hfirst.trans hadds⟩
  · exact ⟨found, hmeta.trans hfound, hfirst⟩

theorem holds_congr {w' : World} (hfound : Fits state found) (hnew : Fits state new)
    (hbucket : w'.filesBucket = w.filesBucket) : holds w' new part = holds w found part := by
  rw [holds, holds, hnew.storageKey, hnew.s3UploadId, hfound.storageKey, hfound.s3UploadId, hbucket]

/-- A listed chunk stays listed, whatever the others do. -/
theorem Listed.after (h : Listed userId uploadId chunkIndex s.store)
    (hi : Inv userId uploadId state s)
    (ha : (rules userId uploadId).allows s p q c = true) (hp : pre userId uploadId state s p q) :
    Listed userId uploadId chunkIndex ((requests cfg userId uploadId).after c p q s).store := by
  intro value hvalue
  rcases after_cases cfg hi ha hp with ⟨hmeta, hbucket⟩ |
    ⟨before, new, hbefore, hmeta, hadds, hfits, hbucket⟩ |
    ⟨id, u, partNumber, body, hid, hu, hput, hmeta, hnew⟩
  · obtain ⟨found, part, rfl, hlt, hmem, hnumber, hheld⟩ := h value (hmeta.symm.trans hvalue)
    have hfits := hi found (hmeta.symm.trans hvalue)
    exact ⟨found, part, rfl, hlt, hmem, hnumber, (holds_congr hfits hfits hbucket).trans hheld⟩
  · obtain rfl := Option.some.inj (hmeta.symm.trans hvalue)
    obtain ⟨found, part, heq, hlt, hmem, hnumber, hheld⟩ := h _ hbefore
    cases heq
    have hbefore := hi before hbefore
    refine ⟨new, part, rfl, ?_, hadds.subset hmem, hnumber,
      (holds_congr hbefore hfits hbucket).trans hheld⟩
    rw [← hfits.inOrder.length]
    exact Nat.lt_of_lt_of_le (hbefore.inOrder.length ▸ hlt) hadds.length_le
  · obtain ⟨found, part, rfl, hlt, hmem, hnumber, hheld⟩ := h value (hmeta.symm.trans hvalue)
    have hfound := hmeta.symm.trans hvalue
    have hfits := hi found hfound
    have hholds : ∀ part : UploadPart, holds ((requests cfg userId uploadId).after c p q s).store
        found part = ((u.putPart partNumber body).part part.partNumber).any
          fun body => body.digest == part.eTag := by
      intro part
      rw [holds, hfits.storageKey, hfits.s3UploadId, hid, Option.bind_some, hput, Option.bind_some]
    by_cases hsame : part.partNumber = partNumber
    · rcases hnew found hfound with hlater | hlisted
      · omega
      · refine ⟨found, _, rfl, hlt, hlisted, hsame.symm.trans hnumber, ?_⟩
        rw [hholds]
        simp
    · refine ⟨found, part, rfl, hlt, hmem, hnumber, ?_⟩
      rw [hholds, MultipartUpload.part_putPart_of_ne hsame]
      rw [holds, hfits.storageKey, hfits.s3UploadId, hid, Option.bind_some, hu, Option.bind_some]
        at hheld
      exact hheld

theorem Listed.moved {n : Nat} (h : Listed userId uploadId chunkIndex s.store)
    (hkeeps : keepsUpload userId uploadId s n = true) :
    Listed userId uploadId chunkIndex (s.store.tick n) :=
  fun value hvalue => h value ((uploadMeta_moved hkeeps).symm.trans hvalue)

/-- The moves of the others. -/
abbrev Steady (cfg : Config) (userId uploadId : Id) (state : UploadMeta) (p : Nat)
    (F : SharedWorld → Prop) : Prop :=
  Stable (requests cfg userId uploadId) (rules userId uploadId) (outline userId uploadId state) p F

theorem steady_newestOwn {x : Option α} :
    Steady cfg userId uploadId state p fun s => newestOwn f p s.log = x := by
  intro s s' h hs
  cases h with
  | other ne => exact (newestOwn_other ne).trans hs
  | drift => exact hs

theorem steady_extends : Steady cfg userId uploadId state p (Extends userId uploadId parts) := by
  intro s s' h hs
  cases h with
  | other _ hi ha hp => exact hs.after hi ha hp
  | drift _ hkeeps =>
    obtain ⟨found, hfound, hfirst⟩ := hs
    exact ⟨found, (uploadMeta_moved hkeeps).trans hfound, hfirst⟩

theorem steady_listed :
    Steady cfg userId uploadId state p fun s => Listed userId uploadId chunkIndex s.store := by
  intro s s' h hs
  cases h with
  | other _ hi ha hp => exact hs.after hi ha hp
  | drift _ hkeeps => exact hs.moved hkeeps

theorem steady_knows : Steady cfg userId uploadId state p (Knows userId uploadId state p old) :=
  fun _ _ h hs => ⟨steady_newestOwn h hs.read, hs.fits, steady_extends h hs.extended⟩

/-- Its own calls, but for another look at the metadata. -/
theorem Knows.own (cfg : Config) (h : Knows userId uploadId state p old s)
    (hi : Inv userId uploadId state s) (ha : (rules userId uploadId).allows s p q c = true)
    (hp : pre userId uploadId state s p q)
    (hsilent : readOf ⟨p, q, (requests cfg userId uploadId).reply c q s⟩ = none) :
    Knows userId uploadId state p old ((requests cfg userId uploadId).after c p q s) :=
  ⟨(newestOwn_silent hsilent).trans h.read, h.fits, h.extended.after hi ha hp⟩

/-- A routine that returns only once its chunk is listed. -/
abbrev Accepts (cfg : Config) (userId uploadId : Id) (state : UploadMeta) (p chunkIndex : Nat)
    (x : Routine Unit) (s : SharedWorld) : Prop :=
  Meets (requests cfg userId uploadId) (rules userId uploadId) (outline userId uploadId state) p x
    (fun r t => r = .ok () → Listed userId uploadId chunkIndex t.store) s

theorem Accepts.throw (e : Thrown) :
    Accepts cfg userId uploadId state p chunkIndex (.throw e) s :=
  Meets.throw (Stable.const True) trivial fun _ _ _ hr => by cases hr

/-- The guard touches neither the metadata nor the parts. -/
theorem canActivate_meets (hunsent : newestOwn sentOf p s.log = none) :
    Meets (requests cfg userId uploadId) (rules userId uploadId) (outline userId uploadId state) p
      (UploadChunkConcurrencyGuard.canActivate userId uploadId)
      (fun _ t => newestOwn sentOf p t.log = none) s := by
  refine Meets.await steady_newestOwn hunsent fun t hunsent _ c _ => ⟨trivial, fun token _ => ?_,
    fun e _ => Meets.throw steady_newestOwn ((newestOwn_silent rfl).trans hunsent) fun _ h _ => h⟩
  refine Meets.await steady_newestOwn ((newestOwn_silent rfl).trans hunsent) fun t hunsent _ c _ =>
    ⟨fun h => (by cases h), fun acquired _ => ?_,
      fun e _ => Meets.throw steady_newestOwn ((newestOwn_silent rfl).trans hunsent) fun _ h _ => h⟩
  refine Meets.throwIf (fun _ => ?_) fun _ => ?_
  · exact Meets.throw steady_newestOwn ((newestOwn_silent rfl).trans hunsent) fun _ h _ => h
  · exact Meets.ret steady_newestOwn ((newestOwn_silent rfl).trans hunsent) fun _ h _ => h

/-- The store of the metadata as it was read, before the part is sent. -/
theorem refresh_meets (hknows : Knows userId uploadId state p old s)
    (hunsent : newestOwn sentOf p s.log = none) (now : Time) :
    Meets (requests cfg userId uploadId) (rules userId uploadId) (outline userId uploadId state) p
      (FilesService.refreshUploadState userId uploadId { old with updatedAt := now })
      (fun _ t => Knows userId uploadId state p old t ∧ newestOwn sentOf p t.log = none) s := by
  refine Meets.call (steady_knows.and steady_newestOwn) ⟨hknows, hunsent⟩ fun t hready hi c ha => ?_
  obtain ⟨hknows, hunsent⟩ := hready
  have hpre : pre userId uploadId state t p (.redis (.multi (FilesService.refreshTransaction userId
      uploadId { old with updatedAt := now }))) :=
    ⟨old, _, hknows, .inl ⟨hunsent, now, rfl⟩, rfl⟩
  have hknows := hknows.own cfg hi ha hpre rfl
  have hunsent : newestOwn sentOf p ((requests cfg userId uploadId).after c p (.redis (.multi
      (FilesService.refreshTransaction userId uploadId { old with updatedAt := now }))) t).log =
        none :=
    (newestOwn_silent rfl).trans hunsent
  refine ⟨hpre, ?_⟩
  cases (requests cfg userId uploadId).reply c (.redis (.multi (FilesService.refreshTransaction
      userId uploadId { old with updatedAt := now }))) t with
  | ok _ => exact Meets.ret (steady_knows.and steady_newestOwn) ⟨hknows, hunsent⟩ fun _ h _ => h
  | error e =>
    exact Meets.throw (steady_knows.and steady_newestOwn) ⟨hknows, hunsent⟩ fun _ h _ => h

/-- The store that accepts the chunk. -/
theorem accept_meets {now later : Time} {eTag : Id} (hknows : Knows userId uploadId state p old s)
    (hsent : newestOwn sentOf p s.log = some ⟨old.nextExpectedChunk + 1, eTag⟩) :
    Accepts cfg userId uploadId state p old.nextExpectedChunk
      (FilesService.refreshUploadState userId uploadId (FilesService.acceptPart
        { old with updatedAt := now } (old.nextExpectedChunk + 1) eTag later)) s := by
  refine Meets.call (steady_knows.and steady_newestOwn) ⟨hknows, hsent⟩ fun t hready hi c ha => ?_
  obtain ⟨hknows, hsent⟩ := hready
  have hstores : Stores p old (FilesService.acceptPart { old with updatedAt := now }
      (old.nextExpectedChunk + 1) eTag later) t := .inr ⟨now, later, eTag, hsent, rfl⟩
  refine ⟨⟨old, _, hknows, hstores, rfl⟩, ?_⟩
  obtain rfl := delivered_of_allowed ha (by simp)
  obtain ⟨found, hfound, -⟩ := hknows.extended
  obtain ⟨-, hfits⟩ := hstores.extends hi hknows (allowed_cases ha).2 hfound
  have hheld := Stores.holds hi hknows hsent (allowed_cases ha).2 hfits
  refine Meets.ret steady_listed (fun value hvalue => ?_) fun _ h _ _ => h
  obtain rfl := Option.some.inj ((World.uploadMeta_refresh (s := t.store) cfg).symm.trans hvalue)
  exact ⟨_, ⟨old.nextExpectedChunk + 1, eTag⟩, rfl, Nat.lt_succ_self _, by
    simp [FilesService.acceptPart], rfl, hheld⟩

/-- The chunk that passes the checks is the next one. -/
theorem checkChunk_next {file : Blob} {id : Id}
    (h : FilesService.checkChunk found file chunkIndex = .ret id) :
    chunkIndex = found.nextExpectedChunk := by
  unfold FilesService.checkChunk at h
  cases hid : found.s3UploadId with
  | none =>
    rw [hid] at h
    cases h
  | some sid =>
    simp only [hid, Prog.throwIf, Prog.bind_eq, Prog.pure_eq] at h
    by_contra hne
    rw [if_pos hne] at h
    cases h

theorem handleChunk_meets {file : Blob} (hunsent : newestOwn sentOf p s.log = none) :
    Accepts cfg userId uploadId state p chunkIndex
      (FilesService.handleChunk userId uploadId file chunkIndex) s := by
  refine Meets.await steady_newestOwn hunsent fun t hunsent hi c ha =>
    ⟨trivial, fun value hvalue => ?_,
    fun e _ => Accepts.throw e⟩
  obtain rfl := delivered_of_allowed ha (by simp)
  obtain rfl : t.store.uploadMeta userId uploadId = value := Except.ok.inj hvalue
  cases hfound : t.store.uploadMeta userId uploadId with
  | none => exact Accepts.throw _
  | some value =>
    cases value with
    | upload old =>
      have hfits : Fits state old := hi old hfound
      have hread : newestOwn readOf p ((requests cfg userId uploadId).after .delivered p
          (.redis (.get (.uploadMeta userId uploadId))) t).log = some old :=
        newestOwn_own rfl (by rw [hvalue, hfound]; rfl)
      have hknows : Knows userId uploadId state p old ((requests cfg userId uploadId).after
          .delivered p (.redis (.get (.uploadMeta userId uploadId))) t) :=
        ⟨hread, hfits, old, hfound, List.prefix_rfl⟩
      have hunsent : newestOwn sentOf p ((requests cfg userId uploadId).after
          .delivered p (.redis (.get (.uploadMeta userId uploadId))) t).log = none :=
        (newestOwn_silent rfl).trans hunsent
      simp only [FilesService.parseUploadMeta, Prog.bind_eq, Prog.pure_eq, Prog.ret_bind]
      rcases CancelledUploads.checkChunk_result old file chunkIndex with
        ⟨e, hcheck⟩ | ⟨id, hid, hcheck⟩
      · rw [hcheck]
        exact Accepts.throw e
      obtain rfl := checkChunk_next hcheck
      rw [hcheck]
      refine Meets.await (steady_knows.and steady_newestOwn) ⟨hknows,
        hunsent⟩ fun t hready hi c ha =>
        ?_
      obtain ⟨hknows, hunsent⟩ := hready
      refine ⟨trivial, fun now _ => ?_, fun e _ => Accepts.throw e⟩
      refine .bind (outline_kept.after hi ha trivial) outline_kept ((refresh_meets
        (hknows.own cfg hi ha trivial rfl) ((newestOwn_silent rfl).trans hunsent) now).mono
          fun r t hi hready => ?_)
      obtain ⟨hknows, hunsent⟩ := hready
      rcases r with e | _
      · exact Accepts.throw e
      refine Meets.await (steady_knows.and steady_newestOwn) ⟨hknows,
        hunsent⟩ fun t hready hi c ha =>
        ?_
      obtain ⟨hknows, hunsent⟩ := hready
      have hpre : pre userId uploadId state t p (.s3 .files (.uploadPart old.storageKey id
          (old.nextExpectedChunk + 1) file)) :=
        ⟨old, hknows.read, rfl, hfits.storageKey, hfits.s3UploadId ▸ hid⟩
      refine ⟨hpre, fun eTag heTag => ?_, fun e _ => Accepts.throw e⟩
      have hsent : newestOwn sentOf p ((requests cfg userId uploadId).after c p (.s3 .files
          (.uploadPart old.storageKey id (old.nextExpectedChunk + 1) file)) t).log =
            some ⟨old.nextExpectedChunk + 1, eTag⟩ :=
        newestOwn_own rfl (by rw [heTag]; rfl)
      refine Meets.await (steady_knows.and steady_newestOwn) ⟨hknows.own cfg hi ha hpre rfl, hsent⟩
        fun t hready hi c ha => ?_
      obtain ⟨hknows, hsent⟩ := hready
      refine ⟨trivial, fun tracked htracked => ?_, fun e _ => Accepts.throw e⟩
      obtain rfl := delivered_of_allowed ha (by simp)
      obtain rfl : tracked = true := by
        obtain ⟨found, hfound, -⟩ := hknows.extended
        obtain ⟨e, he, -⟩ := Option.map_eq_some_iff.mp hfound
        have := Except.ok.inj htracked
        rw [← this]
        exact Option.isSome_iff_exists.mpr ⟨e, he⟩
      refine Meets.await (steady_knows.and steady_newestOwn) ⟨hknows.own cfg hi ha trivial rfl,
        (newestOwn_silent rfl).trans hsent⟩ fun t hready hi c ha => ?_
      obtain ⟨hknows, hsent⟩ := hready
      refine ⟨trivial, fun later _ => ?_, fun e _ => Accepts.throw e⟩
      exact accept_meets (hknows.own cfg hi ha trivial rfl) ((newestOwn_silent rfl).trans hsent)
    | _ => exact Accepts.throw _

end

/-- In every run in which no other data is accepted between what a request reads and what it stores,
no accepted chunk is lost. -/
theorem never_lost {cfg : Config} {userId uploadId : Id} {start : World}
    {s : Pool Request Reply Thrown Unit World Call} {as : List (Action Call Delivery Nat)}
    (hstart : ∀ found, start.uploadMeta userId uploadId = some (.upload found) → InOrder found)
    (h : (requests cfg userId uploadId).run (rules userId uploadId) (.initial start) as = some s) :
    NeverLost userId uploadId s := by
  obtain ⟨state, hstate⟩ := ConcurrentCompletion.exists_state start userId uploadId
  have hinitial : Inv userId uploadId state (.initial start) := by
    intro found hfound
    obtain rfl := hstate found hfound
    exact ⟨hstart found hfound, rfl, rfl⟩
  have hrespects : s.Respects (requests cfg userId uploadId) (rules userId uploadId)
      (outline userId uploadId state) fun _ call r t => ∀ file chunkIndex,
        call = .chunk file chunkIndex → r = .ok () → Listed userId uploadId chunkIndex t.store := by
    refine Pool.Respects.run outline_kept (fun t p call hi _ hnew => ?_)
      (Pool.Respects.initial hinitial) h
    cases call with
    | chunk file chunkIndex =>
      refine .bind hi outline_kept ((canActivate_meets (newestOwn_fresh hnew)).mono
        fun r t _ hunsent => ?_)
      cases r with
      | ok token =>
        have hmeets : Accepts cfg userId uploadId state p chunkIndex
            (FilesService.handleChunk userId uploadId file chunkIndex) t :=
          handleChunk_meets hunsent
        refine hmeets.mono fun r u _ hu file' i heq => ?_
        cases heq
        exact hu
      | error e => exact Meets.throw (Stable.const True) trivial fun _ _ _ _ _ _ hr => by cases hr
    | release token =>
      refine Meets.call (Stable.const True) trivial fun u _ _ c _ =>
        ⟨fun hkey => (by cases hkey), ?_⟩
      cases (requests cfg userId uploadId).reply c (.redis (.compareAndDelete
          (.uploadRequestLock userId uploadId) token)) u with
      | ok _ => exact Meets.ret (Stable.const True) trivial fun _ _ _ _ _ heq => by cases heq
      | error e => exact Meets.throw (Stable.const True) trivial fun _ _ _ _ _ heq => by cases heq
  intro file chunkIndex hmem
  obtain ⟨p, hp⟩ := List.getElem?_of_mem hmem
  exact hrespects.returned hp file chunkIndex rfl rfl

open CancelledUploads (trackedWorld)

def send : Action Call Delivery Nat := .start (.chunk ⟨1028, 7⟩ 0)

/-- A chunk that is sent again after it was accepted. -/
def resent : List (Action Call Delivery Nat) :=
  send :: List.replicate 9 (.advance 0 .delivered) ++
    .start (.release 100) :: .advance 1 .delivered ::
    send :: List.replicate 3 (.advance 2 .delivered)

theorem tracked_inOrder : ∀ found, trackedWorld.uploadMeta 1 50 = some (.upload found) →
    InOrder found := by
  intro found h
  cases h
  rfl

theorem never_lost_resent : ∃ s, (requests demoConfig 1 50).run (rules 1 50)
    (.initial trackedWorld) resent = some s ∧ s.idle = true ∧ NeverLost 1 50 s := by
  have key : ((requests demoConfig 1 50).run (rules 1 50) (.initial trackedWorld) resent).any
      Pool.idle = true := by decide +kernel
  obtain ⟨s, hs, hidle⟩ := (Option.any_eq_true _ _).mp key
  exact ⟨s, hs, hidle, never_lost tracked_inOrder hs⟩

/-- The client of a request disconnects and sends the chunk again. The second request accepts it,
and then the first one stores the metadata that it had read. -/
def overtaken : List (Action Call Delivery Nat) :=
  send :: List.replicate 3 (.advance 0 .delivered) ++
    .start (.release 100) :: .advance 1 .delivered ::
    send :: List.replicate 9 (.advance 2 .delivered) ++ List.replicate 2 (.advance 0 .delivered)

def accepted : Call × Routine Unit → Bool
  | (.chunk _ _, .ret _) => true
  | _ => false

theorem eq_of_accepted {proc : Call × Routine Unit} (h : accepted proc = true) :
    ∃ file chunkIndex, proc = (.chunk file chunkIndex, .ret ()) := by
  obtain ⟨call, x⟩ := proc
  cases call with
  | release => cases h
  | chunk file chunkIndex =>
    cases x with
    | ret _ => exact ⟨file, chunkIndex, rfl⟩
    | throw => cases h
    | call => cases h

/-- The upload waits for its first chunk. -/
def startsOver : Option RedisValue → Bool
  | some (.upload found) => found.nextExpectedChunk == 0
  | _ => false

theorem overtaken_loses : ∃ s, (requests demoConfig 1 50).run (anyDisconnect 1 50)
    (.initial trackedWorld) overtaken = some s ∧ ¬ NeverLost 1 50 s := by
  have key : ((requests demoConfig 1 50).run (anyDisconnect 1 50) (.initial trackedWorld)
      overtaken).any (fun s => s.procs.any accepted &&
        startsOver (s.shared.store.uploadMeta 1 50)) = true := by
    decide +kernel
  obtain ⟨s, hs, hx⟩ := (Option.any_eq_true _ _).mp key
  obtain ⟨haccepted, hover⟩ := Bool.and_eq_true_iff.mp hx
  refine ⟨s, hs, fun hkept => ?_⟩
  obtain ⟨proc, hmem, hproc⟩ := List.any_eq_true.mp haccepted
  obtain ⟨file, chunkIndex, rfl⟩ := eq_of_accepted hproc
  have hlisted := hkept file chunkIndex hmem
  cases hvalue : s.shared.store.uploadMeta 1 50 with
  | none =>
    rw [hvalue] at hover
    cases hover
  | some value =>
    rw [hvalue] at hover
    obtain ⟨found, -, rfl, hlt, -⟩ := hlisted value hvalue
    rw [beq_iff_eq.mp hover] at hlt
    exact absurd hlt (Nat.not_lt_zero _)

end AcceptedChunks
end Redbox
