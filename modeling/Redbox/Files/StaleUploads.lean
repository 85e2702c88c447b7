import Mathlib.Data.Prod.Lex
import Mathlib.Data.String.Basic
import Mathlib.Algebra.Order.Ring.Rat
import Mathlib.Order.WithBot
import Redbox.Files.ActiveUploads
import Redbox.Listings.Paging

/-! The job that aborts stale multipart uploads, over any listing of S3 and any strings of Redis. -/
namespace Redbox.StaleUploads

/-- What `JSON.parse` gives. A number that is too large for a double is infinite, here `none`. -/
inductive JsonValue where
  | null
  | bool (b : Bool)
  | number (n : Option Rat)
  | string (s : String)
  | array (items : List JsonValue)
  | object (fields : List (String × JsonValue))

/-- A string in Redis, as `JSON.parse` takes it. -/
inductive Stored where
  | empty
  | malformed
  | json (value : JsonValue)

/-- What the language and the Redis client make of a value. -/
structure Conversions where
  /-- `Number` of a text, where that is a finite number. -/
  textToNumber : String → Option Rat
  /-- `String` of an array or an object. -/
  toText : JsonValue → String
  /-- The words that the Redis client sends for an argument. -/
  words : Option JsonValue → List String

namespace JsonValue

/-- A member of a value: `undefined` is an inner `none`, and `null` has no members to ask for. -/
def property (name : String) : JsonValue → Option (Option JsonValue)
  | null => none
  | object fields => some (fields.lookup name)
  | _ => some none

/-- The operator `??`. -/
def orElse : Option JsonValue → Option JsonValue → Option JsonValue
  | none, other => other
  | some null, other => other
  | some value, _ => some value

/-- `Number` of a value, where that is finite. -/
def toNumber (js : Conversions) : JsonValue → Option Rat
  | null => some 0
  | bool b => some (if b then 1 else 0)
  | number n => n
  | string s => js.textToNumber s
  | value => js.textToNumber (js.toText value)

/-- The finite number that a value is. -/
def finite? : JsonValue → Option Rat
  | number n => n
  | _ => none

end JsonValue
open JsonValue

/-- The keys of Redis. A key that is not there has no string and the empty set. -/
@[ext] structure Redis where
  strings : String → Option Stored
  sets : String → List String
  one_kind : ∀ key, strings key = none ∨ sets key = []

namespace Redis

/-- What is read of a key with `get` and `JSON.parse`. It is `none` where there is nothing to parse
or that throws. -/
def parsed (redis : Redis) (key : String) : Option JsonValue :=
  match redis.strings key with
  | some (.json value) => some value
  | _ => none

def del (keys : List String) (redis : Redis) : Redis where
  strings key := if key ∈ keys then none else redis.strings key
  sets key := if key ∈ keys then [] else redis.sets key
  one_kind key := by
    split
    · exact .inl rfl
    · exact redis.one_kind key

/-- A key with a string is left as it is, and the command fails. -/
def srem (key : String) (members : List String) (redis : Redis) : Redis where
  strings := redis.strings
  sets k := if k = key then (redis.sets k).filter (· ∉ members) else redis.sets k
  one_kind k := by
    refine (redis.one_kind k).imp_right fun h => ?_
    rw [h]
    exact ite_self _

end Redis

def uploadStorageIndexKey (s3UploadId : String) : String := "upload:s3:" ++ s3UploadId

/-- The arguments of the commands that remove what an index names. -/
structure UploadStorageIndex where
  metaKey : List String
  activeKey : String
  uploadId : List String

/-- Redis refuses a transaction in which a command has too few words. -/
def UploadStorageIndex.read (js : Conversions) (value : JsonValue) : Option UploadStorageIndex := do
  let metaKey := js.words (← value.property "metaKey")
  let active := js.words (← value.property "activeKey") ++ js.words (← value.property "uploadId")
  match metaKey, active with
  | _ :: _, activeKey :: id :: ids => some ⟨metaKey, activeKey, id :: ids⟩
  | _, _ => none

structure UploadPart where
  partNumber : Nat
  lastModified : Option Int

structure MultipartUpload where
  key : String
  uploadId : String
  initiated : Option Int
  parts : List UploadPart
  key_ne : key ≠ ""
  uploadId_ne : uploadId ≠ ""

/-- The uploads that S3 lists, in any order, and Redis. -/
structure Cloud where
  uploads : List MultipartUpload
  redis : Redis
  distinct : (uploads.map MultipartUpload.uploadId).Nodup

/-- A place in the listing. Behind a key without an id lies what has a later key. -/
abbrev UploadMarker := String ×ₗ WithTop String

def MultipartUpload.position (u : MultipartUpload) : UploadMarker :=
  toLex (u.key, (u.uploadId : WithTop String))

def listMultipartUploads (marker next : Option UploadMarker)
    (cloud : Cloud) : List MultipartUpload :=
  cloud.uploads.filter fun u => Paging.beyond marker u.position && Paging.upTo next u.position

def listParts (upload : MultipartUpload) (marker next : Option Nat) : List UploadPart :=
  upload.parts.filter fun part => Paging.beyond marker part.partNumber &&
    Paging.upTo next part.partNumber

/-- `meta.updatedAt ?? meta.createdAt`. It is `none` where there is none, or where reading it
throws. -/
def timestamp (js : Conversions) (redis : Redis) (uploadId : String) : Option JsonValue := do
  let index ← redis.parsed (uploadStorageIndexKey uploadId)
  match js.words (← index.property "metaKey") with
  | [metaKey] =>
    let state ← redis.parsed metaKey
    orElse (← state.property "updatedAt") (← state.property "createdAt")
  | _ => none

/-- The pages of the listing of parts end at the given places. -/
def latestPart (cuts : List Nat) (upload : MultipartUpload) : Int :=
  Paging.run (fun marker next latest =>
      (listParts upload marker next).foldl (fun latest part =>
        max latest (part.lastModified.getD 0)) latest)
    cuts none (upload.initiated.getD 0)

/-- It is `none` where the index cannot be read because the key has a set. -/
def getMultipartLastActivity (js : Conversions) (cuts : List Nat) (redis : Redis)
    (upload : MultipartUpload) : Option Rat :=
  if redis.sets (uploadStorageIndexKey upload.uploadId) ≠ [] then none
  else match (timestamp js redis upload.uploadId).bind (toNumber js) with
    | some updatedAt => some updatedAt
    | none => some (latestPart cuts upload)

def abortMultipartUpload (key uploadId : String) (cloud : Cloud) : Cloud where
  uploads := cloud.uploads.filter fun u => !(u.key == key && u.uploadId == uploadId)
  redis := cloud.redis
  distinct := cloud.distinct.sublist (List.filter_sublist.map _)

def removeTrackedUploadState (js : Conversions) (s3UploadId : String) (redis : Redis) : Redis :=
  let indexKey := uploadStorageIndexKey s3UploadId
  match redis.strings indexKey with
  | none | some .empty => redis
  | some .malformed => redis.del [indexKey]
  | some (.json value) => match UploadStorageIndex.read js value with
    | some index => ((redis.del index.metaKey).srem index.activeKey index.uploadId).del [indexKey]
    | none => redis.del [indexKey]

/-- One upload of a page. -/
def abortStaleUpload (js : Conversions) (cutoff : Int) (partCuts : MultipartUpload → List Nat)
    (cloud : Cloud) (upload : MultipartUpload) : Cloud :=
  if upload.key = "" ∨ upload.uploadId = "" then cloud
  else match getMultipartLastActivity js (partCuts upload) cloud.redis upload with
    | none => cloud
    | some lastActivity =>
      if cutoff < lastActivity then cloud
      else
        let aborted := abortMultipartUpload upload.key upload.uploadId cloud
        { aborted with redis := removeTrackedUploadState js upload.uploadId aborted.redis }

/-- The pages of the listings end at the given places. -/
def cleanupStaleMultipartUploads (js : Conversions) (now : Int) (cuts : List UploadMarker)
    (partCuts : MultipartUpload → List Nat) (cloud : Cloud) : Cloud :=
  let cutoff := now - incompleteUploadStaleMs
  Paging.run (fun marker next cloud =>
    (listMultipartUploads marker next cloud).foldl (abortStaleUpload js cutoff partCuts) cloud)
    cuts none cloud

/-- The time of S3: the latest of what the upload and its parts have. -/
def storageActivity (upload : MultipartUpload) : Int :=
  (upload.parts.map fun part => part.lastModified.getD 0).foldr max (upload.initiated.getD 0)

/-- The tracked time, where that is a finite number, and otherwise the time of S3. -/
def lastActivity (js : Conversions) (redis : Redis) (upload : MultipartUpload) : Rat :=
  match (timestamp js redis upload.uploadId).bind finite? with
  | some n => n
  | none => storageActivity upload

def stale (js : Conversions) (cutoff : Int) (redis : Redis) (upload : MultipartUpload) : Bool :=
  decide (lastActivity js redis upload ≤ cutoff)

namespace Redis

/-- What an upload's index names. -/
def index (js : Conversions) (redis : Redis) (upload : MultipartUpload) :
    Option UploadStorageIndex :=
  (redis.parsed (uploadStorageIndexKey upload.uploadId)).bind (UploadStorageIndex.read js)

def trackedKeys (js : Conversions) (redis : Redis) (upload : MultipartUpload) : List String :=
  uploadStorageIndexKey upload.uploadId :: (redis.index js upload).elim []
    UploadStorageIndex.metaKey

/-- Keys of sets, with what is tracked in these. -/
def memberships (js : Conversions) (redis : Redis) (upload : MultipartUpload) :
    List (String × String) :=
  (redis.index js upload).elim [] fun index => index.uploadId.map fun id => (index.activeKey, id)

/-- Redis without some keys and without some members of its sets. -/
def without (keys : List String) (members : List (String × String)) (redis : Redis) : Redis where
  strings key := if key ∈ keys then none else redis.strings key
  sets key := if key ∈ keys then [] else (redis.sets key).filter fun member =>
    (key, member) ∉ members
  one_kind key := by
    split
    · exact .inl rfl
    · refine (redis.one_kind key).imp_right fun h => ?_
      rw [h]
      rfl

/-- Redis without what is tracked of some uploads. -/
def untracked (js : Conversions) (uploads : List MultipartUpload) (redis : Redis) : Redis :=
  redis.without (uploads.flatMap (redis.trackedKeys js)) (uploads.flatMap (redis.memberships js))

end Redis

/-- Exactly the stale uploads are gone, and exactly what was tracked of these. -/
structure Swept (js : Conversions) (cutoff : Int) (before after : Cloud) : Prop where
  uploads : after.uploads = before.uploads.filter fun u => !stale js cutoff before.redis u
  redis : after.redis = before.redis.untracked js
    (before.uploads.filter (stale js cutoff before.redis))

end Redbox.StaleUploads
