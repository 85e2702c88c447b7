import Redbox.Backend.Transactions
import Mathlib.Data.List.AList

/-! Redis, whose keys run out, and the S3 buckets with their multipart uploads. -/
namespace Redbox

structure UploadPart where
  partNumber : Nat
  eTag : Id
  deriving DecidableEq

structure UploadMeta where
  totalChunks : Nat
  nextExpectedChunk : Nat
  fileSize : Nat
  passwordHash : Option String
  expiresIn : String
  storageKey : Id
  s3UploadId : Option Id
  parts : List UploadPart
  createdAt : Time
  updatedAt : Time
  deriving DecidableEq

inductive RedisKey where
  | masterKey (userId : Id)
  | uploadMeta (userId uploadId : Id)
  | uploadActive (userId : Id)
  | uploadIndex (s3UploadId : Id)
  | uploadInitLock (userId : Id)
  | uploadRequestLock (userId uploadId : Id)
  deriving DecidableEq

structure UploadStorageIndex where
  metaKey : RedisKey
  activeKey : RedisKey
  uploadId : Id
  deriving DecidableEq

/-- A value by what its readers make of it. A text is no JSON of an upload. -/
inductive RedisValue where
  | text (s : String)
  | token (t : Id)
  | upload (state : UploadMeta)
  | index (i : UploadStorageIndex)
  | members (ids : List Id)

structure RedisEntry where
  value : RedisValue
  expiresAt : Option Time

abbrev Redis := AList fun _ : RedisKey => RedisEntry

inductive RedisWrite where
  | set (key : RedisKey) (value : RedisValue) (seconds : Nat)
  | expire (key : RedisKey) (seconds : Nat)
  | del (key : RedisKey)
  | sadd (key : RedisKey) (member : Id)
  | srem (key : RedisKey) (member : Id)

/-- The key that a write concerns. -/
def RedisWrite.key : RedisWrite → RedisKey
  | .set key _ _ | .expire key _ | .del key | .sadd key _ | .srem key _ => key

namespace Redis

/-- The entry of a key that has not run out. -/
def live (r : Redis) (now : Time) (key : RedisKey) : Option RedisEntry :=
  (r.lookup key).filter fun e => e.expiresAt.all fun t => decide (now < t)

def get (r : Redis) (now : Time) (key : RedisKey) : Option RedisValue :=
  (r.live now key).map (·.value)

/-- The members of a set, which is empty where the key is missing. -/
def smembers (r : Redis) (now : Time) (key : RedisKey) : List Id :=
  match r.get now key with
  | some (.members ids) => ids
  | _ => []

def deadline (now : Time) (seconds : Nat) : Option Time := some (now + seconds * 1000)

def write (r : Redis) (now : Time) : RedisWrite → Redis
  | .set key value seconds => r.insert key ⟨value, deadline now seconds⟩
  | .expire key seconds => match r.live now key with
    | some e => r.insert key ⟨e.value, deadline now seconds⟩
    | none => r
  | .del key => r.erase key
  | .sadd key member => match r.live now key with
    | some e => r.insert key ⟨.members ((r.smembers now key).insert member), e.expiresAt⟩
    | none => r.insert key ⟨.members [member], none⟩
  | .srem key member => match r.live now key with
    | some e => match (r.smembers now key).erase member with
      | [] => r.erase key
      | ids => r.insert key ⟨.members ids, e.expiresAt⟩
    | none => r

def writeAll (r : Redis) (now : Time) (ws : List RedisWrite) : Redis := ws.foldl (·.write now) r

section
variable {r : Redis} {now now' seconds : Nat} {key : RedisKey} {value : RedisValue}

/-- A write leaves the other keys alone. -/
theorem lookup_write {w : RedisWrite} (h : key ≠ w.key) :
    (r.write now w).lookup key = r.lookup key := by
  cases w with
  | set k v n => exact AList.lookup_insert_ne h
  | expire k n =>
    simp only [write]
    split
    · exact AList.lookup_insert_ne h
    · rfl
  | del k => exact AList.lookup_erase_ne h
  | sadd k x =>
    simp only [write]
    split
    · exact AList.lookup_insert_ne h
    · exact AList.lookup_insert_ne h
  | srem k x =>
    simp only [write]
    split
    · split
      · exact AList.lookup_erase_ne h
      · exact AList.lookup_insert_ne h
    · rfl

theorem lookup_writeAll {ws : List RedisWrite} (h : ∀ w ∈ ws, key ≠ w.key) :
    (r.writeAll now ws).lookup key = r.lookup key := by
  induction ws generalizing r with
  | nil => rfl
  | cons w ws ih =>
    have hrest : ∀ w ∈ ws, key ≠ w.key := fun w hw => h w (List.mem_cons_of_mem _ hw)
    exact (ih hrest).trans (lookup_write (h w List.mem_cons_self))

@[simp] theorem lookup_set : (r.write now (.set key value seconds)).lookup key = some ⟨value,
      deadline now seconds⟩ :=
  AList.lookup_insert r

@[simp] theorem lookup_del : (r.write now (.del key)).lookup key = none := AList.lookup_erase key r

/-- What a key holds depends on its entry alone. -/
theorem live_congr {r' : Redis} (h : r'.lookup key = r.lookup key) :
    r'.live now key = r.live now key := by
  rw [live, live, h]

theorem get_congr {r' : Redis} (h : r'.lookup key = r.lookup key) :
    r'.get now key = r.get now key := by
  rw [get, get, live_congr h]

theorem get_of_lookup {t : Option Time} (h : r.lookup key = some ⟨value, t⟩)
    (ht : ∀ x ∈ t, now < x) :
    r.get now key = some value := by
  have hall : t.all (fun x => decide (now < x)) = true := by
    cases t with
    | none => rfl
    | some x => simpa using ht x rfl
  simp [get, live, h, Option.filter, hall]

/-- While a key lives, it holds what it held. -/
theorem get_later (hle : now ≤ now') (h : (r.live now' key).isSome = true) :
    r.get now' key = r.get now key := by
  obtain ⟨e, he⟩ := Option.isSome_iff_exists.mp h
  obtain ⟨hlook, hlive⟩ := Option.filter_eq_some_iff.mp he
  rw [Option.all_eq_true] at hlive
  have hnow : e.expiresAt.all (fun t => decide (now < t)) = true := by
    rw [Option.all_eq_true]
    intro t ht
    exact decide_eq_true (Nat.lt_of_le_of_lt hle (of_decide_eq_true (hlive t ht)))
  rw [get, get, he, live, hlook, Option.filter_some, if_pos hnow]

end
end Redis

/-- The body of an upload: its length and its MD5 digest, which is the part's ETag. -/
structure Blob where
  size : Nat
  digest : Id
  deriving DecidableEq

structure MultipartUpload where
  key : Id
  parts : List (Nat × Blob)
  deriving DecidableEq

/-- Objects by their lengths, and the multipart uploads that S3 lists. -/
structure Bucket where
  objects : AList fun _ : Id => Nat
  uploads : AList fun _ : Id => MultipartUpload

namespace MultipartUpload

def part (u : MultipartUpload) (partNumber : Nat) : Option Blob := u.parts.lookup partNumber

def putPart (u : MultipartUpload) (partNumber : Nat) (body : Blob) : MultipartUpload :=
  { u with parts := (partNumber, body) :: u.parts.filter fun x => x.1 != partNumber }

/-- The length of the object that the listed parts make, if S3 holds them. -/
def assemble (u : MultipartUpload) (parts : List UploadPart) : Option Nat :=
  (parts.mapM fun x => ((u.part x.partNumber).filter fun b => b.digest == x.eTag).map (·.size)).map
    List.sum

section
variable {u : MultipartUpload} {n k : Nat} {body : Blob}

@[simp] theorem key_putPart : (u.putPart n body).key = u.key := rfl

@[simp] theorem part_putPart : (u.putPart n body).part n = some body := by simp [part, putPart]

theorem part_putPart_of_ne (h : k ≠ n) : (u.putPart n body).part k = u.part k := by
  have hk : (k == n) = false := beq_eq_false_iff_ne.mpr h
  simp only [part, putPart, List.lookup_cons, hk]
  induction u.parts with
  | nil => rfl
  | cons x xs ih =>
    rw [List.filter_cons]
    by_cases hx : x.1 = n
    · rw [if_neg (by simp [hx]), ih, List.lookup_cons, hx, hk]
    · rw [if_pos (by simp [hx]), List.lookup_cons, List.lookup_cons, ih]

end
end MultipartUpload

inductive S3Request where
  | createMultipartUpload (key : Id)
  | uploadPart (key s3UploadId : Id) (partNumber : Nat) (body : Blob)
  | completeMultipartUpload (key : Id) (s3UploadId : Option Id) (parts : List UploadPart)
  | abortMultipartUpload (key : Id) (s3UploadId : Option Id)
  | headObject (key : Id)
  | putObject (key : Id) (size : Nat)
  | deleteObject (key : Id)

namespace Bucket

/-- A request names a multipart upload by its key and its id. -/
def upload (b : Bucket) (key s3UploadId : Id) : Option MultipartUpload :=
  (b.uploads.lookup s3UploadId).filter fun u => u.key == key

def uploadPart (b : Bucket) (key s3UploadId : Id) (partNumber : Nat)
    (body : Blob) : Except Thrown Bucket :=
  match b.upload key s3UploadId with
  | some u => .ok { b with uploads := b.uploads.insert s3UploadId (u.putPart partNumber body) }
  | none => .error (.fault .noSuchUpload)

/-- The part of a request that was under way when its upload was aborted. -/
def uploadLatePart (b : Bucket) (key s3UploadId : Id) (partNumber : Nat) (body : Blob) : Bucket :=
  let u := (b.upload key s3UploadId).getD ⟨key, []⟩
  { b with uploads := b.uploads.insert s3UploadId (u.putPart partNumber body) }

def complete (b : Bucket) (key : Id) (s3UploadId : Option Id) (parts : List UploadPart) :
    Except Thrown Bucket :=
  match s3UploadId with
  | none => .error (.fault .noSuchUpload)
  | some id => match b.upload key id with
    | none => .error (.fault .noSuchUpload)
    | some u => match u.assemble parts with
      | none => .error (.fault .invalidPart)
      | some size =>
        if parts = [] then .error (.fault .invalidPart)
        else .ok ⟨b.objects.insert key size, b.uploads.erase id⟩

def abort (b : Bucket) (key : Id) (s3UploadId : Option Id) : Except Thrown Bucket :=
  match s3UploadId with
  | none => .error (.fault .noSuchUpload)
  | some id =>
    if (b.upload key id).isSome then .ok { b with uploads := b.uploads.erase id }
    else .error (.fault .noSuchUpload)

section
variable {b b' : Bucket} {key i : Id} {s3UploadId : Option Id} {n : Nat} {body : Blob}

theorem upload_eq_some {u : MultipartUpload} :
    b.upload key i = some u ↔ b.uploads.lookup i = some u ∧ u.key = key := by
  simp [upload, Option.filter_eq_some_iff]

theorem uploadPart_ok (h : b.uploadPart key i n body = .ok b') :
    ∃ u, b.upload key i = some u ∧ b' =
      { b with uploads := b.uploads.insert i (u.putPart n body) } := by
  unfold uploadPart at h
  split at h
  · rename_i u hu
    exact ⟨u, hu, (Except.ok.inj h).symm⟩
  · cases h

/-- The upload holds the part that was sent. -/
theorem upload_uploadPart (h : b.uploadPart key i n body = .ok b') :
    b'.upload key i = (b.upload key i).map fun u => u.putPart n body := by
  obtain ⟨u, hu, rfl⟩ := uploadPart_ok h
  rw [hu, Option.map_some, upload_eq_some]
  exact ⟨AList.lookup_insert _, (upload_eq_some.mp hu).2⟩

theorem abort_ok (h : b.abort key s3UploadId = .ok b') :
    ∃ id u, s3UploadId = some id ∧ b.upload key id = some u ∧
    b' = { b with uploads := b.uploads.erase id } := by
  unfold abort at h
  split at h
  · cases h
  · rename_i id
    split at h
    · rename_i hsome
      obtain ⟨u, hu⟩ := Option.isSome_iff_exists.mp hsome
      exact ⟨id, u, rfl, hu, (Except.ok.inj h).symm⟩
    · cases h

theorem complete_ok {parts : List UploadPart} (h : b.complete key s3UploadId parts = .ok b') :
    ∃ id u size, s3UploadId = some id ∧ b.upload key id = some u ∧ u.assemble parts = some size ∧
      b' = ⟨b.objects.insert key size, b.uploads.erase id⟩ := by
  unfold complete at h
  split at h
  · cases h
  rename_i id
  split at h
  · cases h
  rename_i u hu
  split at h
  · cases h
  rename_i size hsize
  split at h
  · cases h
  exact ⟨id, u, size, rfl, hu, hsize, (Except.ok.inj h).symm⟩

end
end Bucket
end Redbox
