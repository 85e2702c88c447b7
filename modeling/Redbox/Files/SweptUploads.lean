import Mathlib.Data.List.Fold
import Mathlib.Data.List.Induction
import Redbox.Files.StaleUploads

/-! What the job takes away: the uploads that S3 or Redis has as stale, with what is tracked of
these. -/
namespace Redbox.StaleUploads
open JsonValue

/-- What is read of an upload. -/
def stateKeys (js : Conversions) (redis : Redis) (upload : MultipartUpload) : List String :=
  uploadStorageIndexKey upload.uploadId ::
    ((redis.parsed (uploadStorageIndexKey upload.uploadId)).bind (property "metaKey")).elim []
      js.words

/-- The tracked time as the code takes it. -/
def inspected (js : Conversions) (redis : Redis) (upload : MultipartUpload) : Rat :=
  match (timestamp js redis upload.uploadId).bind (toNumber js) with
  | some n => n
  | none => storageActivity upload

def aborts (js : Conversions) (cutoff : Int) (redis : Redis) (upload : MultipartUpload) : Bool :=
  decide (inspected js redis upload ≤ cutoff)

/-- An index with the empty string is not seen. -/
def indexSeen (redis : Redis) (upload : MultipartUpload) : Bool :=
  match redis.strings (uploadStorageIndexKey upload.uploadId) with
  | some .empty => false
  | _ => true

/-- What is removed of one upload is not read of another. -/
def Unlinked (js : Conversions) (cutoff : Int) (cloud : Cloud) : Prop :=
  ∀ u ∈ cloud.uploads, aborts js cutoff cloud.redis u = true → ∀ v ∈ cloud.uploads,
    v.uploadId ≠ u.uploadId →
    ∀ key ∈ cloud.redis.trackedKeys js u, cloud.redis.strings key ≠ none →
      key ∉ stateKeys js cloud.redis v

theorem latestPart_eq (cuts : List Nat) (upload : MultipartUpload) :
    latestPart cuts upload = storageActivity upload := by
  obtain ⟨seq, hperm, hrun⟩ := Paging.run_foldl UploadPart.partNumber (fun _ : Int => upload.parts)
    (fun latest part => max latest (part.lastModified.getD 0)) (fun _ _ _ _ => rfl) cuts none
      (upload.initiated.getD 0)
  have hall : (upload.parts.filter fun part => Paging.beyond none part.partNumber) = upload.parts :=
    List.filter_eq_self.mpr fun _ _ => rfl
  rw [hall] at hperm
  have hmax := (hperm.map fun part => part.lastModified.getD 0).foldr_eq (f := max) (b :=
    upload.initiated.getD 0)
  calc latestPart cuts upload = seq.foldl (fun latest part =>
    max latest (part.lastModified.getD 0)) (upload.initiated.getD 0) := hrun
    _ = (seq.map fun part => part.lastModified.getD 0).foldl max (upload.initiated.getD 0) :=
      List.foldl_map.symm
    _ = (seq.map fun part => part.lastModified.getD 0).foldr max (upload.initiated.getD 0) :=
      List.foldl_eq_foldr
    _ = storageActivity upload := hmax

theorem getMultipartLastActivity_eq {js : Conversions} {cuts : List Nat} {redis : Redis}
    {upload : MultipartUpload} (h : redis.sets (uploadStorageIndexKey upload.uploadId) = []) :
    getMultipartLastActivity js cuts redis upload = some (inspected js redis upload) := by
  unfold getMultipartLastActivity inspected
  rw [if_neg (not_not.mpr h), latestPart_eq]
  cases (timestamp js redis upload.uploadId).bind (toNumber js) with
  | none => rfl
  | some n => rfl

namespace Redis
variable {js : Conversions} {redis redis' : Redis} {u : MultipartUpload}

theorem without_nil (redis : Redis) : redis.without [] [] = redis := by
  apply Redis.ext
  · rfl
  · funext key
    exact List.filter_eq_self.mpr fun _ _ => rfl

theorem without_without (redis : Redis) (keys keys' : List String)
    (members members' : List (String × String)) :
    (redis.without keys members).without keys' members' = redis.without (keys ++ keys')
    (members ++ members') := by
  apply Redis.ext
  · funext key
    simp only [without, List.mem_append]
    by_cases h : key ∈ keys
    · simp [h]
    · simp [h]
  · funext key
    simp only [without, List.mem_append, not_or, Bool.decide_and]
    by_cases h : key ∈ keys
    · simp [h]
    · by_cases h' : key ∈ keys'
      · simp [h']
      · simp [h, h', List.filter_filter, Bool.and_comm]

theorem without_congr {keys keys' : List String} {members members' : List (String × String)}
    (hkeys : ∀ key, key ∈ keys ↔ key ∈ keys') (hmembers : ∀ m, m ∈ members ↔ m ∈ members') :
    redis.without keys members = redis.without keys' members' := by
  apply Redis.ext
  · funext key
    simp only [without, hkeys]
  · funext key
    simp only [without, hkeys, hmembers]

theorem untracked_perm {l l' : List MultipartUpload} (h : l.Perm l') :
    redis.untracked js l = redis.untracked js l' :=
  without_congr (fun _ => (h.flatMap_right _).mem_iff) fun _ => (h.flatMap_right _).mem_iff

theorem untracked_append (l l' : List MultipartUpload) :
    redis.untracked js (l ++ l') = (redis.untracked js l).without
      (l'.flatMap (redis.trackedKeys js)) (l'.flatMap (redis.memberships js)) := by
  rw [untracked, untracked, without_without, List.flatMap_append, List.flatMap_append]

theorem untracked_eq_without {l : List MultipartUpload}
    (h : ∀ u ∈ l, redis'.index js u = redis.index js u) :
    redis'.untracked js l = redis'.without (l.flatMap (redis.trackedKeys js))
    (l.flatMap (redis.memberships js)) := by
  have hkeys : l.flatMap (redis'.trackedKeys js) = l.flatMap (redis.trackedKeys js) := by
    apply List.flatMap_congr
    intro u hu
    rw [trackedKeys, trackedKeys, h u hu]
  have hmembers : l.flatMap (redis'.memberships js) = l.flatMap (redis.memberships js) := by
    apply List.flatMap_congr
    intro u hu
    rw [memberships, memberships, h u hu]
  rw [untracked, hkeys, hmembers]

/-- A string that nobody tracks stays. -/
theorem strings_untracked {l : List MultipartUpload} {key : String}
    (h : ∀ v ∈ l, key ∈ redis.trackedKeys js v → redis.strings key = none) :
    (redis.untracked js l).strings key = redis.strings key := by
  change (if key ∈ l.flatMap (redis.trackedKeys js) then none else redis.strings key) = _
  by_cases hmem : key ∈ l.flatMap (redis.trackedKeys js)
  · obtain ⟨v, hv, hkey⟩ := List.mem_flatMap.mp hmem
    rw [if_pos hmem, h v hv hkey]
  · exact if_neg hmem

theorem sets_untracked {l : List MultipartUpload} {key : String} (h : redis.sets key = []) :
    (redis.untracked js l).sets key = [] := by
  change (if key ∈ l.flatMap (redis.trackedKeys js) then [] else (redis.sets key).filter _) = []
  rw [h]
  exact ite_self _

/-- What is read of an upload goes by the keys that it names. -/
theorem read_congr (h : ∀ key ∈ stateKeys js redis u, redis'.strings key = redis.strings key) :
    timestamp js redis' u.uploadId = timestamp js redis u.uploadId ∧
    redis'.index js u = redis.index js u := by
  have hparsed : ∀ key ∈ stateKeys js redis u, redis'.parsed key = redis.parsed key := by
    intro key hkey
    unfold parsed
    rw [h key hkey]
  have hindex := hparsed _ List.mem_cons_self
  refine ⟨?_, by rw [index, hindex, index]⟩
  unfold timestamp
  rw [hindex]
  cases hvalue : redis.parsed (uploadStorageIndexKey u.uploadId) with
  | none => rfl
  | some value =>
    cases hproperty : property "metaKey" value with
    | none => simp [hproperty]
    | some metaKey =>
      simp only [hproperty, Option.bind_eq_bind, Option.bind_some]
      split
      · rename_i key hwords
        have hmem : key ∈ stateKeys js redis u := by
          unfold stateKeys
          rw [hvalue, Option.bind_some, hproperty, Option.elim_some, hwords]
          exact List.mem_cons_of_mem _ List.mem_cons_self
        rw [hparsed key hmem]
      · rfl

theorem del_eq (key : String) : redis.del [key] = redis.without [key] [] := by
  apply Redis.ext
  · rfl
  · funext k
    change _ = if k ∈ [key] then [] else (redis.sets k).filter fun _ => true
    rw [List.filter_true]
    rfl

theorem without_absent {key : String} (hstring : redis.strings key = none)
    (hset : redis.sets key = []) : redis.without [key] [] = redis := by
  rw [← del_eq]
  apply Redis.ext
  · funext k
    simp only [del, List.mem_singleton]
    split
    · rename_i h
      rw [h, hstring]
    · rfl
  · funext k
    simp only [del, List.mem_singleton]
    split
    · rename_i h
      rw [h, hset]
    · rfl

/-- The commands for an index, one after the other. -/
theorem commands_eq (found : UploadStorageIndex) (key : String) :
    ((redis.del found.metaKey).srem found.activeKey found.uploadId).del [key] =
      redis.without (key :: found.metaKey) (found.uploadId.map fun id =>
        (found.activeKey, id)) := by
  apply Redis.ext
  · funext k
    simp only [del, srem, without, List.mem_cons, List.not_mem_nil, or_false]
    by_cases hk : k = key
    · simp [hk]
    · simp [hk]
  · funext k
    simp only [del, srem, without, List.mem_cons, List.not_mem_nil, or_false]
    by_cases hk : k = key
    · simp [hk]
    · by_cases hmeta : k ∈ found.metaKey
      · simp [hk, hmeta]
      · by_cases hactive : k = found.activeKey
        · have hkey : found.activeKey ≠ key := fun h => hk (hactive.trans h)
          have hnot : found.activeKey ∉ found.metaKey := fun h => hmeta (hactive ▸ h)
          simp [hactive, hkey, hnot]
        · simp [hk, hmeta, hactive, Ne.symm hactive]

theorem untracked_singleton : redis.untracked js [u] = redis.without (redis.trackedKeys js u)
    (redis.memberships js u) := by
  rw [untracked, List.flatMap_singleton, List.flatMap_singleton]

theorem untracked_nil : redis.untracked js [] = redis := redis.without_nil

theorem removeTrackedUploadState_eq (h : redis.sets (uploadStorageIndexKey u.uploadId) = []) :
    removeTrackedUploadState js u.uploadId redis =
      redis.untracked js ([u].filter (indexSeen redis)) := by
  cases hstored : redis.strings (uploadStorageIndexKey u.uploadId) with
  | none =>
    have hseen : [u].filter (indexSeen redis) = [u] := by simp [indexSeen, hstored]
    have hindex : redis.index js u = none := by simp [index, parsed, hstored]
    rw [hseen, untracked_singleton, trackedKeys, memberships, hindex]
    unfold removeTrackedUploadState
    simp only [hstored]
    exact (without_absent hstored h).symm
  | some stored =>
    cases stored with
    | empty =>
      have hseen : [u].filter (indexSeen redis) = [] := by simp [indexSeen, hstored]
      rw [hseen, untracked_nil]
      unfold removeTrackedUploadState
      simp only [hstored]
    | malformed =>
      have hseen : [u].filter (indexSeen redis) = [u] := by simp [indexSeen, hstored]
      have hindex : redis.index js u = none := by simp [index, parsed, hstored]
      rw [hseen, untracked_singleton, trackedKeys, memberships, hindex]
      unfold removeTrackedUploadState
      simp only [hstored]
      exact del_eq _
    | json value =>
      have hseen : [u].filter (indexSeen redis) = [u] := by simp [indexSeen, hstored]
      have hindex : redis.index js u = UploadStorageIndex.read js value := by
        simp [index, parsed, hstored]
      rw [hseen, untracked_singleton, trackedKeys, memberships, hindex]
      unfold removeTrackedUploadState
      simp only [hstored]
      cases hread : UploadStorageIndex.read js value with
      | none => exact del_eq _
      | some found => exact commands_eq found _

end Redis

section
variable {js : Conversions} {cutoff : Int} {partCuts : MultipartUpload → List Nat} {cloud : Cloud}
  {u : MultipartUpload}

/-- What one upload of a page comes to. -/
theorem abortStaleUpload_eq (js : Conversions) (cutoff : Int)
    (partCuts : MultipartUpload → List Nat)
    (h : cloud.redis.sets (uploadStorageIndexKey u.uploadId) = []) :
    (abortStaleUpload js cutoff partCuts cloud u).uploads =
        (if aborts js cutoff cloud.redis u then cloud.uploads.filter (fun v =>
          !(v.key == u.key && v.uploadId == u.uploadId))
          else cloud.uploads) ∧
      (abortStaleUpload js cutoff partCuts cloud u).redis =
        cloud.redis.untracked js ([u].filter fun v => aborts js cutoff cloud.redis v &&
          indexSeen cloud.redis v) := by
  unfold abortStaleUpload
  rw [if_neg (not_or.mpr ⟨u.key_ne, u.uploadId_ne⟩), getMultipartLastActivity_eq h]
  by_cases hdue : inspected js cloud.redis u ≤ cutoff
  · have haborts : aborts js cutoff cloud.redis u = true := decide_eq_true hdue
    simp only [if_neg (not_lt.mpr hdue), if_pos haborts]
    refine ⟨rfl, ?_⟩
    have hsame : [u].filter (indexSeen cloud.redis) = [u].filter fun v =>
        aborts js cutoff cloud.redis v && indexSeen cloud.redis v := by
      apply List.filter_congr
      intro v hv
      rw [List.mem_singleton.mp hv, haborts, Bool.true_and]
    rw [← hsame]
    exact Redis.removeTrackedUploadState_eq h
  · have haborts : ¬ aborts js cutoff cloud.redis u = true := by
      rw [aborts, decide_eq_true_eq]
      exact hdue
    have hnone : ([u].filter fun v => aborts js cutoff cloud.redis v && indexSeen cloud.redis v) =
        [] := by
      simp [haborts]
    simp only [if_pos (not_le.mp hdue), if_neg haborts, hnone]
    exact ⟨trivial, Redis.untracked_nil.symm⟩

/-- The uploads have different ids. -/
theorem Cloud.eq_of_uploadId {v : MultipartUpload} (hu : u ∈ cloud.uploads) (hv : v ∈ cloud.uploads)
    (h : v.uploadId = u.uploadId) : v = u :=
  List.inj_on_of_nodup_map cloud.distinct hv hu h

/-- What is read of an upload is not touched when others are removed. -/
theorem reads_kept (hlinks : Unlinked js cutoff cloud) {l : List MultipartUpload}
    (hl : ∀ v ∈ l, v ∈ cloud.uploads ∧ aborts js cutoff cloud.redis v = true ∧
      u.uploadId ≠ v.uploadId) (hu : u ∈ cloud.uploads) :
    ∀ key ∈ stateKeys js cloud.redis u,
      (cloud.redis.untracked js l).strings key = cloud.redis.strings key := by
  intro key hkey
  apply Redis.strings_untracked
  intro v hv htracked
  obtain ⟨hmem, haborts, hne⟩ := hl v hv
  by_contra hsome
  exact hlinks v hmem haborts u hu hne key htracked hsome hkey

/-- The uploads of a sequence, one after the other: what comes before is no matter for an upload. -/
theorem foldl_abortStaleUpload (partCuts : MultipartUpload → List Nat)
    (hget : ∀ u ∈ cloud.uploads, cloud.redis.sets (uploadStorageIndexKey u.uploadId) = [])
    (hlinks : Unlinked js cutoff cloud) {seq : List MultipartUpload}
    (hmem : ∀ u ∈ seq, u ∈ cloud.uploads) (hnodup : (seq.map MultipartUpload.uploadId).Nodup) :
    (seq.foldl (abortStaleUpload js cutoff partCuts) cloud).uploads =
        cloud.uploads.filter (fun v => !seq.any fun u => aborts js cutoff cloud.redis u &&
          v.uploadId == u.uploadId) ∧
      (seq.foldl (abortStaleUpload js cutoff partCuts) cloud).redis =
        cloud.redis.untracked js (seq.filter fun u => aborts js cutoff cloud.redis u &&
          indexSeen cloud.redis u) := by
  induction seq using List.reverseRecOn with
  | nil => exact ⟨(List.filter_eq_self.mpr fun _ _ => rfl).symm, Redis.untracked_nil.symm⟩
  | append_singleton seq u ih =>
    rw [List.forall_mem_append, List.forall_mem_singleton] at hmem
    rw [List.map_append, List.nodup_append] at hnodup
    obtain ⟨huploads, hredis⟩ := ih hmem.1 hnodup.1
    rw [List.foldl_append, List.foldl_cons, List.foldl_nil]
    generalize seq.foldl (abortStaleUpload js cutoff partCuts) cloud = s at huploads hredis ⊢
    have hkept : ∀ key ∈ stateKeys js cloud.redis u,
        s.redis.strings key = cloud.redis.strings key := by
      rw [hredis]
      refine reads_kept hlinks (fun v hv => ?_) hmem.2
      obtain ⟨hv, haborts⟩ := List.mem_filter.mp hv
      rw [Bool.and_eq_true] at haborts
      refine ⟨hmem.1 v hv, haborts.1, fun h => ?_⟩
      exact hnodup.2.2 v.uploadId (List.mem_map_of_mem hv) u.uploadId
        (List.mem_map_of_mem (List.mem_singleton_self u)) h.symm
    obtain ⟨htimestamp, hindex⟩ := Redis.read_congr hkept
    have haborts : aborts js cutoff s.redis u = aborts js cutoff cloud.redis u := by
      unfold aborts inspected
      rw [htimestamp]
    have hseen : indexSeen s.redis u = indexSeen cloud.redis u := by
      unfold indexSeen
      rw [hkept _ List.mem_cons_self]
    have hset : s.redis.sets (uploadStorageIndexKey u.uploadId) = [] := by
      rw [hredis]
      exact Redis.sets_untracked (hget u hmem.2)
    obtain ⟨hstepUploads, hstepRedis⟩ := abortStaleUpload_eq js cutoff partCuts hset
    refine ⟨?_, ?_⟩
    · rw [hstepUploads, haborts, huploads]
      cases hdies : aborts js cutoff cloud.redis u with
      | false => simp [List.any_append, hdies]
      | true =>
        rw [if_pos rfl, List.filter_filter]
        apply List.filter_congr
        intro v hv
        have hsame : (v.key == u.key && v.uploadId == u.uploadId) = (v.uploadId == u.uploadId) := by
          by_cases hid : v.uploadId = u.uploadId
          · rw [Cloud.eq_of_uploadId hmem.2 hv hid, beq_self_eq_true, Bool.true_and]
          · rw [beq_false_of_ne hid, Bool.and_false]
        rw [hsame, List.any_append, List.any_cons, List.any_nil, hdies, Bool.true_and,
          Bool.or_false, Bool.not_or, Bool.and_comm]
    · have hfilter : [u].filter (fun v => aborts js cutoff s.redis v && indexSeen s.redis v) =
          [u].filter fun v => aborts js cutoff cloud.redis v && indexSeen cloud.redis v := by
        apply List.filter_congr
        intro v hv
        rw [List.mem_singleton.mp hv, haborts, hseen]
      rw [hstepRedis, hfilter, List.filter_append, Redis.untracked_append, ← hredis]
      apply Redis.untracked_eq_without
      intro v hv
      rw [List.mem_singleton.mp (List.mem_of_mem_filter hv)]
      exact hindex

/-- Of the listing only the upload itself goes. -/
theorem abortStaleUpload_filter {p : UploadMarker → Bool} (hp : p u.position = false) :
    (abortStaleUpload js cutoff partCuts cloud u).uploads.filter (fun v => p v.position) =
      cloud.uploads.filter fun v => p v.position := by
  have haborted : (abortMultipartUpload u.key u.uploadId cloud).uploads.filter (fun v =>
    p v.position) =
      cloud.uploads.filter fun v => p v.position := by
    unfold abortMultipartUpload
    rw [List.filter_filter]
    apply List.filter_congr
    intro v _
    cases hid : (v.key == u.key && v.uploadId == u.uploadId) with
    | false => rw [Bool.not_false, Bool.and_true]
    | true =>
      simp only [Bool.and_eq_true, beq_iff_eq] at hid
      have hposition : v.position = u.position := by
        unfold MultipartUpload.position
        rw [hid.1, hid.2]
      rw [hposition, hp, Bool.false_and]
  unfold abortStaleUpload
  split
  · rfl
  · split
    · rfl
    · split
      · rfl
      · exact haborted

/-- The pages come to one pass over the uploads. -/
theorem cleanupStaleMultipartUploads_eq (now : Int) (cuts : List UploadMarker)
    (partCuts : MultipartUpload → List Nat)
    (hget : ∀ u ∈ cloud.uploads, cloud.redis.sets (uploadStorageIndexKey u.uploadId) = [])
    (hlinks : Unlinked js (now - incompleteUploadStaleMs) cloud) :
    (cleanupStaleMultipartUploads js now cuts partCuts cloud).uploads =
        cloud.uploads.filter (fun u => !aborts js (now - incompleteUploadStaleMs) cloud.redis u) ∧
      (cleanupStaleMultipartUploads js now cuts partCuts cloud).redis = cloud.redis.untracked js
        (cloud.uploads.filter fun u => aborts js (now - incompleteUploadStaleMs) cloud.redis u &&
          indexSeen cloud.redis u) := by
  obtain ⟨seq, hperm, hrun⟩ := Paging.run_foldl MultipartUpload.position Cloud.uploads
    (abortStaleUpload js (now - incompleteUploadStaleMs) partCuts) (fun _ _ _ hp =>
      abortStaleUpload_filter hp) cuts none cloud
  have hall : (cloud.uploads.filter fun u => Paging.beyond none u.position) = cloud.uploads :=
    List.filter_eq_self.mpr fun _ _ => rfl
  rw [hall] at hperm
  obtain ⟨huploads, hredis⟩ := foldl_abortStaleUpload partCuts hget hlinks (fun u hu =>
    hperm.mem_iff.mp hu)
    ((hperm.map _).nodup_iff.mpr cloud.distinct)
  have hcleanup : cleanupStaleMultipartUploads js now cuts partCuts cloud =
      seq.foldl (abortStaleUpload js (now - incompleteUploadStaleMs) partCuts) cloud := hrun
  rw [hcleanup]
  refine ⟨?_, ?_⟩
  · rw [huploads]
    apply List.filter_congr
    intro v hv
    congr 1
    rw [Bool.eq_iff_iff, List.any_eq_true]
    constructor
    · rintro ⟨u, hu, hdies⟩
      rw [Bool.and_eq_true, beq_iff_eq] at hdies
      rw [Cloud.eq_of_uploadId (hperm.mem_iff.mp hu) hv hdies.2]
      exact hdies.1
    · intro hdies
      exact ⟨v, hperm.mem_iff.mpr hv, by rw [hdies, beq_self_eq_true]; rfl⟩
  · rw [hredis]
    exact Redis.untracked_perm (hperm.filter _)

/-- The tracked times that are no numbers but that the code converts to one lead to the same
decisions, and no index of a stale upload is the empty string. -/
structure WellTracked (js : Conversions) (cutoff : Int) (cloud : Cloud) : Prop where
  converted : ∀ u ∈ cloud.uploads, ∀ value, timestamp js cloud.redis u.uploadId = some value →
    value.finite? = none →
    ∀ n, value.toNumber js = some n → (n ≤ cutoff ↔ storageActivity u ≤ cutoff)
  index : ∀ u ∈ cloud.uploads, stale js cutoff cloud.redis u = true →
    cloud.redis.strings (uploadStorageIndexKey u.uploadId) ≠ some .empty

theorem toNumber_of_finite {value : JsonValue} {n : Rat} (h : value.finite? = some n) :
    value.toNumber js = some n := by
  cases value with
  | number m => exact h
  | _ => cases h

theorem aborts_eq_stale_iff {redis : Redis} : aborts js cutoff redis u = stale js cutoff redis u ↔
    ∀ value, timestamp js redis u.uploadId = some value → value.finite? = none →
      ∀ n, value.toNumber js = some n → (n ≤ cutoff ↔ storageActivity u ≤ cutoff) := by
  unfold aborts stale inspected lastActivity
  cases htimestamp : timestamp js redis u.uploadId with
  | none => simp
  | some value =>
    rw [Option.bind_some, Option.bind_some]
    cases hfinite : value.finite? with
    | some n => simp [toNumber_of_finite hfinite, hfinite]
    | none =>
      cases hnumber : value.toNumber js with
      | none => simp [hnumber]
      | some n => simp [hfinite, hnumber, decide_eq_decide, Rat.intCast_le_intCast]

/-- The sweep is exact where what is read as a time is one. -/
theorem swept_iff {now : Int} {cuts : List UploadMarker}
    (hget : ∀ u ∈ cloud.uploads, cloud.redis.sets (uploadStorageIndexKey u.uploadId) = [])
    (hlinks : Unlinked js (now - incompleteUploadStaleMs) cloud) :
    Swept js (now - incompleteUploadStaleMs) cloud
      (cleanupStaleMultipartUploads js now cuts partCuts cloud) ↔
      WellTracked js (now - incompleteUploadStaleMs) cloud := by
  obtain ⟨huploads, hredis⟩ := cleanupStaleMultipartUploads_eq now cuts partCuts hget hlinks
  generalize cleanupStaleMultipartUploads js now cuts partCuts cloud = after at huploads hredis
  generalize now - (incompleteUploadStaleMs : Int) = cutoff at *
  constructor
  · intro h
    have hsame : ∀ u ∈ cloud.uploads,
        aborts js cutoff cloud.redis u = stale js cutoff cloud.redis u := by
      intro u hu
      have hkept : u ∈ cloud.uploads.filter (fun u => !aborts js cutoff cloud.redis u) ↔
          u ∈ cloud.uploads.filter fun u => !stale js cutoff cloud.redis u := by
        rw [← huploads, h.uploads]
      rw [List.mem_filter, List.mem_filter, and_iff_right hu, and_iff_right hu] at hkept
      exact Bool.not_inj (Bool.eq_iff_iff.mpr hkept)
    refine ⟨fun u hu => aborts_eq_stale_iff.mp (hsame u hu), ?_⟩
    intro u hu hstale hempty
    have hkept : after.redis.strings (uploadStorageIndexKey u.uploadId) = some .empty := by
      rw [hredis, ← hempty]
      refine reads_kept hlinks (fun v hv => ?_) hu _ List.mem_cons_self
      obtain ⟨hv, hdies⟩ := List.mem_filter.mp hv
      rw [Bool.and_eq_true] at hdies
      refine ⟨hv, hdies.1, fun hid => ?_⟩
      rw [← Cloud.eq_of_uploadId hv hu hid, indexSeen, hempty] at hdies
      cases hdies.2
    have hgone : after.redis.strings (uploadStorageIndexKey u.uploadId) = none := by
      rw [h.redis]
      exact if_pos (List.mem_flatMap.mpr ⟨u, List.mem_filter.mpr ⟨hu, hstale⟩, List.mem_cons_self⟩)
    cases hkept.symm.trans hgone
  · intro h
    have hsame : ∀ u ∈ cloud.uploads,
        aborts js cutoff cloud.redis u = stale js cutoff cloud.redis u :=
      fun u hu => aborts_eq_stale_iff.mpr (h.converted u hu)
    refine ⟨?_, ?_⟩
    · rw [huploads]
      exact List.filter_congr fun u hu => congrArg not (hsame u hu)
    · rw [hredis]
      congr 1
      apply List.filter_congr
      intro u hu
      rw [hsame u hu]
      cases hstale : stale js cutoff cloud.redis u with
      | false => rfl
      | true =>
        rw [Bool.true_and]
        have hindex := h.index u hu hstale
        unfold indexSeen
        split
        · exact absurd ‹_› hindex
        · rfl

end

/-- Texts as words are sent as they are. -/
def plainConversions : Conversions where
  textToNumber _ := none
  toText _ := "[object Object]"
  words
    | some (.string s) => [s]
    | _ => [""]

def firstUpload (initiated : Int) : MultipartUpload where
  key := "file"
  uploadId := "1"
  initiated := some initiated
  parts := []
  key_ne := by decide
  uploadId_ne := by decide

/-- An upload of user a, with a tracked time. -/
def oneUpload (initiated : Int) (createdAt : JsonValue) : Cloud where
  uploads := [firstUpload initiated]
  redis := {
    strings := fun key =>
      if key = "upload:s3:1" then some (.json (.object [("metaKey", .string "upload:meta:a:1"),
        ("activeKey", .string "upload:active:a"), ("uploadId", .string "1")]))
      else if key = "upload:meta:a:1" then some (.json (.object [("createdAt", createdAt)]))
      else none
    sets := fun key => if key = "upload:active:a" then ["1"] else []
    one_kind := by
      intro key
      by_cases h : key = "upload:active:a"
      · rw [h]
        exact .inl rfl
      · exact .inr (if_neg h) }
  distinct := List.nodup_singleton _

section
variable {initiated : Int} {createdAt : JsonValue}

theorem oneUpload_get : ∀ u ∈ (oneUpload initiated createdAt).uploads,
    (oneUpload initiated createdAt).redis.sets (uploadStorageIndexKey u.uploadId) = [] := by
  intro u hu
  rw [List.mem_singleton.mp hu]
  rfl

theorem oneUpload_unlinked {js : Conversions} {cutoff : Int} :
    Unlinked js cutoff (oneUpload initiated createdAt) := by
  intro u hu _ v hv hne
  rw [List.mem_singleton.mp hu, List.mem_singleton.mp hv] at hne
  exact absurd rfl hne

theorem oneUpload_timestamp :
    timestamp plainConversions (oneUpload initiated createdAt).redis
      (firstUpload initiated).uploadId = some createdAt := by
  rfl

end

theorem swept_iff_tracked : Swept plainConversions ((7200000 : Int) - incompleteUploadStaleMs)
    (oneUpload 7200000 (.number (some 5))) (cleanupStaleMultipartUploads plainConversions 7200000 []
      (fun _ => []) (oneUpload 7200000 (.number (some 5)))) :=
  (swept_iff oneUpload_get oneUpload_unlinked).mpr {
    converted := by
      intro u hu value hvalue hfinite
      rw [List.mem_singleton.mp hu] at hvalue
      rw [oneUpload_timestamp] at hvalue
      cases hvalue
      cases hfinite
    index := by
      intro u hu _ hempty
      rw [List.mem_singleton.mp hu] at hempty
      cases hempty }

/-- An upload that has just begun, with metadata without a time. -/
theorem live_upload_aborted : ¬ Swept plainConversions ((7200000 : Int) - incompleteUploadStaleMs)
    (oneUpload 7200000 .null) (cleanupStaleMultipartUploads plainConversions 7200000 []
      (fun _ => []) (oneUpload 7200000 .null)) := by
  intro h
  have huploads := (cleanupStaleMultipartUploads_eq 7200000 [] (fun _ => []) oneUpload_get
    oneUpload_unlinked).1.symm.trans h.uploads
  have haborted : aborts plainConversions ((7200000 : Int) - incompleteUploadStaleMs)
    (oneUpload 7200000 .null).redis
      (firstUpload 7200000) = true := by decide
  have hlive : stale plainConversions ((7200000 : Int) - incompleteUploadStaleMs)
    (oneUpload 7200000 .null).redis
      (firstUpload 7200000) = false := by decide
  have hkept : firstUpload 7200000 ∈ (oneUpload 7200000 .null).uploads.filter fun u =>
      !stale plainConversions ((7200000 : Int) - incompleteUploadStaleMs)
        (oneUpload 7200000 .null).redis u := by
    apply List.mem_filter.mpr
    exact ⟨List.mem_singleton_self _, by rw [hlive]; rfl⟩
  rw [← huploads, List.mem_filter, haborted] at hkept
  cases hkept.2

end Redbox.StaleUploads
