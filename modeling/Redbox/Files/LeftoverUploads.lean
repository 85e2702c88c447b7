import Redbox.Files.SingleUpload
import Redbox.Files.UploadAdmission
import Redbox.Accounts.DeletionPaths
import Mathlib.Data.List.Pairwise

/-! When the uploads that were left behind let a new one be initialized. -/
namespace Redbox
open Interleaving

/-- Every call is delivered, and the session of the user does not run out. -/
def sessionLasts (userId : Id) : BackendRules where
  starts := fun _ _ => true
  allows := fun _ _ _ d => decide (d = .delivered)
  drifts := fun s n => (s.store.redis.live s.store.clock (.masterKey userId)).isNone ||
    (s.store.redis.live (s.store.clock + n) (.masterKey userId)).isSome

namespace LeftoverUploads

/-- What `makeRoomForActiveUpload` replaces when it reads the set at `t₁` and the metadata at `t₂`.
-/
def replaced (userId : Id) (w : World) (t₁ t₂ : Time) : List (Id × UploadMeta) :=
  let uploadIds := w.redis.smembers t₁ (.uploadActive userId)
  FilesService.candidates (uploadIds.zip
    ((uploadIds.map (RedisKey.uploadMeta userId)).map (w.redis.get t₂)))

/-- S3 knows the multipart upload. -/
def Known (uploads : Id → Option MultipartUpload) (x : Id × UploadMeta) : Prop :=
  ∀ i ∈ x.2.s3UploadId, ∃ u, uploads i = some u ∧ u.key = x.2.storageKey

/-- S3 knows the multipart uploads of all, and no two have the same. -/
structure Abortable (uploads : Id → Option MultipartUpload) (l : List (Id × UploadMeta)) :
    Prop where
  known : ∀ x ∈ l, Known uploads x
  apart : l.Pairwise fun x y => ∀ i ∈ x.2.s3UploadId, i ∉ y.2.s3UploadId

/-- What is left of the uploads. -/
def aborted (uploads : Id → Option MultipartUpload) (x : Id × UploadMeta)
    (i : Id) : Option MultipartUpload :=
  if x.2.s3UploadId = some i then none else uploads i

section
variable {uploads : Id → Option MultipartUpload} {x : Id × UploadMeta}
  {l l' : List (Id × UploadMeta)}

theorem abortable_cons : Abortable uploads (x :: l) ↔ Known uploads x ∧
    Abortable (aborted uploads x) l := by
  constructor
  · rintro ⟨hknown, hapart⟩
    rw [List.pairwise_cons] at hapart
    refine ⟨hknown x List.mem_cons_self, fun y hy i hi => ?_, hapart.2⟩
    have hne : x.2.s3UploadId ≠ some i := fun hx => hapart.1 y hy i hx hi
    rw [aborted, if_neg hne]
    exact hknown y (List.mem_cons_of_mem x hy) i hi
  · rintro ⟨hx, hknown, hapart⟩
    constructor
    · intro y hy i hi
      rcases List.mem_cons.mp hy with rfl | hy
      · exact hx i hi
      · obtain ⟨u, hu, hkey⟩ := hknown y hy i hi
        rw [aborted] at hu
        split at hu
        · cases hu
        · exact ⟨u, hu, hkey⟩
    · refine List.pairwise_cons.mpr ⟨fun y hy i hi hi' => ?_, hapart⟩
      obtain ⟨u, hu, -⟩ := hknown y hy i hi'
      rw [aborted, if_pos (Option.mem_def.mp hi)] at hu
      cases hu

/-- Fewer uploads can be aborted as well. -/
theorem Abortable.of_sublist (h : Abortable uploads l) {m : List (Id × UploadMeta)}
    (hm : m.Sublist l) : Abortable uploads m :=
  ⟨fun y hy => h.known y (hm.subset hy), h.apart.sublist hm⟩

/-- Their order does not matter. -/
theorem Abortable.perm (h : Abortable uploads l) (hperm : l.Perm l') : Abortable uploads l' := by
  refine ⟨fun y hy => h.known y (hperm.mem_iff.mpr hy),
    (hperm.pairwise_iff fun hxy i hi hi' => ?_).mp h.apart⟩
  exact hxy i hi' hi

end

section
variable {userId : Id} {w : World} {t₁ t₂ : Time}

/-- The metadata of an active upload that can be read. -/
def readable (userId : Id) (w : World) (t : Time) (id : Id) : Option (Id × UploadMeta) :=
  match w.redis.get t (.uploadMeta userId id) with
  | some (.upload state) => some (id, state)
  | _ => none

theorem replaced_perm : (replaced userId w t₁ t₂).Perm
      ((w.redis.smembers t₁ (.uploadActive userId)).filterMap (readable userId w t₂)) := by
  rw [replaced, FilesService.candidates, List.map_map, List.zip_map_right, List.zip_eq_zipWith,
    List.zipWith_self, List.map_map, List.filterMap_map]
  exact List.mergeSort_perm _ _

theorem filterMap_sublist {α β : Type} {f g : α → Option β} (h : ∀ a b, g a = some b → f a = some b)
    (l : List α) :
    (l.filterMap g).Sublist (l.filterMap f) := by
  induction l with
  | nil => exact .slnil
  | cons a l ih =>
    cases hg : g a with
    | none =>
      rw [List.filterMap_cons_none hg]
      exact ih.trans (List.Sublist.filterMap f (List.sublist_cons_self a l))
    | some b =>
      rw [List.filterMap_cons_some hg, List.filterMap_cons_some (h a b hg)]
      exact ih.cons_cons b

/-- What could be replaced earlier can be replaced later, when less is left. -/
theorem abortable_later {uploads : Id → Option MultipartUpload}
    (h : Abortable uploads (replaced userId w w.clock w.clock)) (h₁ : w.clock ≤ t₁)
    (h₂ : w.clock ≤ t₂) : Abortable uploads (replaced userId w t₁ t₂) := by
  have hread : ∀ id y, readable userId w t₂ id = some y →
      readable userId w w.clock id = some y := by
    intro id y hy
    rw [readable] at hy ⊢
    cases hget : w.redis.get t₂ (.uploadMeta userId id) with
    | none =>
      rw [hget] at hy
      cases hy
    | some v =>
      have hnow : w.redis.get w.clock (.uploadMeta userId id) = some v := by
        have hlive : (w.redis.live t₂ (.uploadMeta userId id)).isSome = true := by
          rw [Redis.get] at hget
          exact Option.isSome_map.symm.trans (congrArg Option.isSome hget)
        exact (Redis.get_later h₂ hlive).symm.trans hget
      rw [hnow, ← hget]
      exact hy
  have hbase := h.perm replaced_perm
  refine Abortable.perm ?_ replaced_perm.symm
  by_cases hlive : (w.redis.live t₁ (.uploadActive userId)).isSome = true
  · have hmembers : w.redis.smembers t₁ (.uploadActive userId) =
        w.redis.smembers w.clock (.uploadActive userId) := by
      rw [Redis.smembers, Redis.smembers, Redis.get_later h₁ hlive]
    rw [hmembers]
    exact hbase.of_sublist (filterMap_sublist hread _)
  · have hnone : w.redis.smembers t₁ (.uploadActive userId) = [] := by
      rw [Redis.smembers, Redis.get, Option.not_isSome_iff_eq_none.mp hlive]
      rfl
    rw [hnone]
    exact ⟨fun y hy => (by cases hy), List.Pairwise.nil⟩

end
section
variable {cfg : Config} {p : Nat} {userId uploadId : Id} {s : SharedWorld} {w : World}
  {t₁ t₂ n : Time} {α β : Type} {F : SharedWorld → Prop}
  {Q : Except Thrown α → SharedWorld → Prop} {q : Request} {d : Delivery} {uploads : Id →
    Option MultipartUpload} {A : Prop}

theorem delivered_in_session (h : (sessionLasts userId).allows s p q d = true) : d = .delivered :=
  of_decide_eq_true h

/-- A call that is answered, in front of the rest of a routine. -/
theorem answered {f : q.Answer → Routine α}
    (hF : Stable (backend cfg) (sessionLasts userId) (.alone p) p F) (hs : F s)
    (h : ∀ t, F t → ∃ a, (t.store.deliver cfg q).2 = .ok a ∧
      Meets (backend cfg) (sessionLasts userId) (.alone p) p (f a) Q
        ((backend cfg).after .delivered p q t)) :
    Meets (backend cfg) (sessionLasts userId) (.alone p) p ((await q).bind f) Q s := by
  refine Meets.await hF hs fun t ht _ d ha => ?_
  cases delivered_in_session ha
  obtain ⟨a, hr, hrest⟩ := h t ht
  refine ⟨rfl, fun b hb => ?_, fun e he => ?_⟩
  · cases hr.symm.trans hb
    exact hrest
  · cases hr.symm.trans he

/-- The buckets are as given, and it is `n` at least. -/
structure Stands (N : Id) (uploads : Id → Option MultipartUpload) (n : Time) (s : SharedWorld) :
    Prop where
  uploads : ∀ i < N, s.store.filesBucket.uploads.lookup i = uploads i
  clock : n ≤ s.store.clock

theorem Stands.stable {N : Id} : Stable (backend cfg) (sessionLasts userId)
    (.alone p) p (Stands N uploads n) :=
  Stable.alone fun _ m _ h => ⟨h.uploads, Nat.le_trans h.clock (Nat.le_add_right _ m)⟩

/-- Whether a routine returns is decided, and it is `n` at least. -/
def Decides (A : Prop) (n : Time) (a : Except Thrown α) (s : SharedWorld) : Prop :=
  ((∃ x, a = .ok x) ↔ A) ∧ n ≤ s.store.clock

theorem decides_ret {N : Id} {a : α} (hA : A) (hs : Stands N uploads n s) :
    Meets (backend cfg) (sessionLasts userId) (.alone p) p (.ret a) (Decides A n) s :=
  Meets.ret Stands.stable hs fun _ ht _ => ⟨iff_of_true ⟨a, rfl⟩ hA, ht.clock⟩

theorem decides_throw {N : Id} {e : Thrown} (hA : ¬ A) (hs : Stands N uploads n s) :
    Meets (backend cfg) (sessionLasts userId) (.alone p) p (.throw e : Routine α)
    (Decides A n) s := by
  refine Meets.throw Stands.stable hs fun _ ht _ => ⟨iff_of_false ?_ hA, ht.clock⟩
  rintro ⟨x, hx⟩
  cases hx

/-- A call to Redis leaves the buckets alone. -/
theorem Stands.redis {N : Id} {c : RedisCommand} {f : c.Answer → Routine α}
    (hs : Stands N uploads n s) (h : ∀ a t, Stands N uploads n t → Meets (backend cfg)
      (sessionLasts userId) (.alone p) p (f a) Q t) :
    Meets (backend cfg) (sessionLasts userId) (.alone p) p ((await (.redis c)).bind f) Q s :=
  answered Stands.stable hs fun _ ht => ⟨_, rfl, h _ _ ⟨ht.uploads, ht.clock⟩⟩

/-- One upload makes room if S3 knows it, and then it is gone. -/
theorem abortActiveUpload_decides {N : Id} {x : Id × UploadMeta} (hx : ∀ i ∈ x.2.s3UploadId, i < N)
    (hs : Stands N uploads n s) :
    Meets (backend cfg) (sessionLasts userId)
    (.alone p) p (FilesService.abortActiveUpload userId x.1 x.2)
      (fun a t => Decides (Known uploads x) n a t ∧
        ((∃ y, a = .ok y) → Stands N (aborted uploads x) n t)) s := by
  have hdone : ∀ t, Known uploads x → Stands N (aborted uploads x) n t →
    Meets (backend cfg) (sessionLasts userId) (.alone p) p
      ((await (.redis (.write (.del (.uploadMeta userId x.1))))).bind fun _ =>
        FilesService.releaseActiveUpload userId x.1)
      (fun a t => Decides (Known uploads x) n a t ∧
        ((∃ y, a = .ok y) → Stands N (aborted uploads x) n t)) t := by
    intro t hk ht
    refine ht.redis fun _ t ht => ?_
    rw [FilesService.releaseActiveUpload, ← Prog.bind_ret (await _)]
    exact ht.redis fun a _ ht => Meets.ret Stands.stable ht
      fun _ ht _ => ⟨⟨iff_of_true ⟨a, rfl⟩ hk, ht.clock⟩, fun _ => ht⟩
  obtain ⟨id, state⟩ := x
  cases hsid : state.s3UploadId with
  | none =>
    have hsame : aborted uploads (id, state) = uploads := by
      funext i
      rw [aborted, if_neg (by simp [hsid])]
    have hknown : Known uploads (id, state) := fun i hi => by cases hsid.symm.trans hi
    rw [FilesService.abortActiveUpload, if_neg (by simp [hsid])]
    exact hdone s hknown (by rw [hsame]; exact hs)
  | some i =>
    rw [FilesService.abortActiveUpload, if_pos (by simp [hsid])]
    have hknown : ∀ t, Stands N uploads n t →
        (Known uploads (id, state) ↔
      (t.store.filesBucket.upload state.storageKey i).isSome = true) := by
      intro t ht
      have hlook : t.store.filesBucket.uploads.lookup i = uploads i := ht.uploads i (hx i hsid)
      constructor
      · intro hk
        obtain ⟨u, hu, hkey⟩ := hk i hsid
        exact Option.isSome_iff_exists.mpr ⟨u, Bucket.upload_eq_some.mpr ⟨hlook.trans hu, hkey⟩⟩
      · intro hsome j hj
        cases hsid.symm.trans (Option.mem_def.mp hj)
        obtain ⟨u, hu⟩ := Option.isSome_iff_exists.mp hsome
        obtain ⟨hfound, hkey⟩ := Bucket.upload_eq_some.mp hu
        exact ⟨u, hlook.symm.trans hfound, hkey⟩
    refine Meets.await (q := .s3 .files (.abortMultipartUpload state.storageKey state.s3UploadId))
      Stands.stable hs fun t ht _ d ha => ?_
    cases delivered_in_session ha
    by_cases hup : (t.store.filesBucket.upload state.storageKey i).isSome = true
    · have hdeliver : t.store.deliver cfg (.s3 .files
        (.abortMultipartUpload state.storageKey state.s3UploadId)) =
          ({ t.store with
              filesBucket := { t.store.filesBucket with uploads := t.store.filesBucket.uploads.erase i }
              nextId := t.store.nextId + 1 }, .ok ()) := by
        have habort : t.store.filesBucket.abort state.storageKey (some i) =
            .ok { t.store.filesBucket with uploads := t.store.filesBucket.uploads.erase i } :=
              if_pos hup
        simp only [World.deliver, World.bucket, Bucket.perform, hsid, habort, bind, Except.bind,
          pure, Except.pure]
        rfl
      refine ⟨rfl, fun _ _ => ?_, fun e he => ?_⟩
      · have hgone : Stands N (aborted uploads (id, state)) n
            ((backend cfg).after .delivered p
              (.s3 .files (.abortMultipartUpload state.storageKey state.s3UploadId)) t) := by
          constructor
          · intro j hj
            rw [after_delivered, hdeliver, aborted, hsid]
            by_cases hij : i = j
            · subst hij
              rw [if_pos rfl]
              exact AList.lookup_erase _ _
            · rw [if_neg (by simpa using hij)]
              exact (AList.lookup_erase_ne (Ne.symm hij)).trans (ht.uploads j hj)
          · rw [after_delivered, hdeliver]
            exact ht.clock
        unfold FilesService.delUploadIndex
        split
        · exact hgone.redis fun _ u hu => hdone u ((hknown t ht).mpr hup) hu
        · rename_i hnone
          cases hsid.symm.trans hnone
      · rw [reply_delivered, hdeliver] at he
        cases he
    · have hdeliver : (t.store.deliver cfg
        (.s3 .files (.abortMultipartUpload state.storageKey state.s3UploadId))) =
          (t.store, .error (.fault .noSuchUpload)) := by
        have habort : t.store.filesBucket.abort state.storageKey (some i) =
            .error (.fault .noSuchUpload) := if_neg hup
        simp only [World.deliver, World.bucket, Bucket.perform, hsid, habort, bind, Except.bind]
      refine ⟨rfl, fun _ hr => ?_, fun e _ => ?_⟩
      · rw [reply_delivered, hdeliver] at hr
        cases hr
      · have hsame : Stands N uploads n
            ((backend cfg).after .delivered p
          (.s3 .files (.abortMultipartUpload state.storageKey state.s3UploadId)) t) := by
          constructor
          · rw [after_delivered, hdeliver]
            exact ht.uploads
          · rw [after_delivered, hdeliver]
            exact ht.clock
        have hnot : ¬ Known uploads (id, state) := fun hk => hup ((hknown t ht).mp hk)
        exact (decides_throw hnot hsame).mono fun r u _ h => ⟨h, fun hy => absurd (h.1.mp hy) hnot⟩

/-- All make room if S3 knows all. -/
theorem abortAll_decides {N : Id} {l : List (Id × UploadMeta)}
    (hl : ∀ x ∈ l, ∀ i ∈ x.2.s3UploadId, i < N) (hs : Stands N uploads n s) :
    Meets (backend cfg) (sessionLasts userId) (.alone p) p
      (Prog.forEach l fun x => FilesService.abortActiveUpload userId x.1 x.2)
        (Decides (Abortable uploads l) n) s := by
  induction l generalizing s uploads with
  | nil => exact decides_ret ⟨fun y hy => (by cases hy), List.Pairwise.nil⟩ hs
  | cons x l ih =>
    refine (abortActiveUpload_decides (hl x List.mem_cons_self) hs).next (fun e t _ h => ?_)
      fun a t _ h => ?_
    · refine ⟨iff_of_false ?_ fun hall => ?_, h.1.2⟩
      · rintro ⟨y, hy⟩
        cases hy
      · obtain ⟨y, hy⟩ := h.1.1.mpr (abortable_cons.mp hall).1
        cases hy
    · refine (ih (fun y hy => hl y (List.mem_cons_of_mem x hy)) (h.2 ⟨a, rfl⟩)).mono
        fun r t _ hrest => ⟨?_, hrest.2⟩
      rw [hrest.1, abortable_cons]
      exact ⟨fun hrest => ⟨h.1.1.mp ⟨a, rfl⟩, hrest⟩, fun hall => hall.2⟩

/-- The uploads of the user are those of `w`. -/
structure Unchanged (userId : Id) (w : World) (s : SharedWorld) : Prop where
  active : s.store.redis.lookup (.uploadActive userId) = w.redis.lookup (.uploadActive userId)
  states : ∀ id < w.nextId, s.store.redis.lookup (.uploadMeta userId id) =
    w.redis.lookup (.uploadMeta userId id)
  uploads : ∀ i < w.nextId, s.store.filesBucket.uploads.lookup i = w.filesBucket.uploads.lookup i
  clock : w.clock ≤ s.store.clock
  nextId : w.nextId ≤ s.store.nextId

theorem Unchanged.stable : Stable (backend cfg) (sessionLasts userId)
    (.alone p) p (Unchanged userId w) :=
  Stable.alone fun _ m _ h => ⟨h.active, h.states, h.uploads,
    Nat.le_trans h.clock (Nat.le_add_right _ m), h.nextId⟩

/-- A routine returns exactly if all that it has to replace can be aborted, read at some two moments
since. -/
def Verdict (userId : Id) (w : World) (a : Except Thrown α) (s : SharedWorld) : Prop :=
  ∃ t₁ t₂, w.clock ≤ t₁ ∧ t₁ ≤ t₂ ∧
    Decides (Abortable (w.filesBucket.uploads.lookup ·) (replaced userId w t₁ t₂)) t₂ a s

/-- What is to be replaced has names that have been drawn. -/
theorem drawn_of_replaced (hw : Drawn userId w) {x : Id × UploadMeta}
    (hx : x ∈ replaced userId w t₁ t₂) : ∀ i ∈ x.2.s3UploadId, i < w.nextId := by
  intro i hi
  obtain ⟨id, -, hread⟩ := List.mem_filterMap.mp (replaced_perm.mem_iff.mp hx)
  rw [readable] at hread
  split at hread
  · rename_i state hget
    cases hread
    obtain ⟨t, hlook⟩ := Redis.lookup_of_get hget
    exact hw.uploads _ _ t hlook i hi
  · cases hread

theorem makeRoom_verdict (hw : Drawn userId w) (hs : Unchanged userId w s) :
    Meets (backend cfg) (sessionLasts userId)
    (.alone p) p (FilesService.makeRoomForActiveUpload userId) (Verdict userId w) s := by
  refine answered Unchanged.stable hs fun t ht =>
    ⟨w.redis.smembers t.store.clock (.uploadActive userId), ?_, ?_⟩
  · show Except.ok (t.store.redis.smembers _ _) = _
    rw [Redis.smembers, Redis.smembers, Redis.get_congr ht.active]
  have hfirst : w.clock ≤ t.store.clock := ht.clock
  have hids : ∀ id ∈ w.redis.smembers t.store.clock (.uploadActive userId), id < w.nextId := by
    intro id hid
    obtain ⟨ids, time, hlook, hmem⟩ := Redis.mem_of_mem_smembers hid
    exact hw.active ids time hlook id hmem
  have hread : Unchanged userId w ((backend cfg).after .delivered p
    (.redis (.smembers (.uploadActive userId))) t) :=
    ⟨ht.active, ht.states, ht.uploads, ht.clock, ht.nextId⟩
  have hlater : t.store.clock ≤ ((backend cfg).after .delivered p
    (.redis (.smembers (.uploadActive userId))) t).store.clock := Nat.le_refl _
  generalize (backend cfg).after .delivered p (.redis (.smembers (.uploadActive userId))) t =
    u at hread hlater
  generalize t.store.clock = t₁ at hfirst hids hlater
  by_cases hempty : (w.redis.smembers t₁ (.uploadActive userId)).length < maxActiveUploadsPerUser
  · have hnil : w.redis.smembers t₁ (.uploadActive userId) = [] :=
      List.length_eq_zero_iff.mp (Nat.lt_one_iff.mp hempty)
    simp only [if_pos hempty]
    have hnone : Abortable (w.filesBucket.uploads.lookup ·) (replaced userId w t₁ t₁) := by
      refine Abortable.perm ?_ replaced_perm.symm
      rw [hnil]
      exact ⟨fun y hy => (by cases hy), List.Pairwise.nil⟩
    have hstands : Stands w.nextId (w.filesBucket.uploads.lookup ·) t₁ u := ⟨hread.uploads, hlater⟩
    exact (decides_ret hnone hstands).mono fun _ _ _ h => ⟨t₁, t₁, hfirst, Nat.le_refl _, h⟩
  · simp only [if_neg hempty]
    have stable : Stable (backend cfg) (sessionLasts userId) (.alone p) p fun u =>
        Unchanged userId w u ∧ t₁ ≤ u.store.clock :=
      Unchanged.stable.and (Stable.alone fun u m _ h =>
        Nat.le_trans h (Nat.le_add_right u.store.clock m))
    refine answered stable ⟨hread, hlater⟩ fun t ht =>
      ⟨((w.redis.smembers t₁ (.uploadActive userId)).map (RedisKey.uploadMeta userId)).map
        (w.redis.get t.store.clock), ?_, ?_⟩
    · show Except.ok (List.map _ _) = _
      refine congrArg Except.ok (List.map_congr_left fun k hk => ?_)
      obtain ⟨id, hid, rfl⟩ := List.mem_map.mp hk
      exact Redis.get_congr (ht.1.states id (hids id hid))
    have hstands : Stands w.nextId (w.filesBucket.uploads.lookup ·) t.store.clock
      ((backend cfg).after .delivered p
        (.redis (.mget ((w.redis.smembers t₁ (.uploadActive userId)).map
          (RedisKey.uploadMeta userId)))) t) :=
      ⟨ht.1.uploads, Nat.le_refl _⟩
    have horder : t₁ ≤ t.store.clock := ht.2
    generalize (backend cfg).after .delivered p
        (.redis (.mget ((w.redis.smembers t₁ (.uploadActive userId)).map
          (RedisKey.uploadMeta userId)))) t = u at hstands
    generalize t.store.clock = t₂ at hstands horder
    have hloop : ∀ u, Stands w.nextId (w.filesBucket.uploads.lookup ·) t₂ u →
      Meets (backend cfg) (sessionLasts userId) (.alone p) p
        (Prog.forEach ((replaced userId w t₁ t₂).take ((replaced userId w t₁ t₂).length + 1 -
          maxActiveUploadsPerUser))
          fun x => FilesService.abortActiveUpload userId x.1 x.2) (Verdict userId w) u := by
      intro u hu
      have hall : (replaced userId w t₁ t₂).take ((replaced userId w t₁ t₂).length + 1 -
        maxActiveUploadsPerUser) = replaced userId w t₁ t₂ :=
        List.take_length
      rw [hall]
      exact (abortAll_decides (fun x hx => drawn_of_replaced hw hx) hu).mono fun _ _ _ h =>
        ⟨t₁, t₂, hfirst, horder, h⟩
    have hmalformed : ∀ (c : Prop) [Decidable c] (writes : List RedisWrite) (u : SharedWorld),
      Stands w.nextId (w.filesBucket.uploads.lookup ·) t₂ u →
        Meets (backend cfg) (sessionLasts userId) (.alone p) p
          (if c then (await (.redis (.multi writes))).bind fun _ =>
            Prog.forEach ((replaced userId w t₁ t₂).take ((replaced userId w t₁ t₂).length + 1 -
              maxActiveUploadsPerUser))
              fun x => FilesService.abortActiveUpload userId x.1 x.2
          else Prog.forEach ((replaced userId w t₁ t₂).take ((replaced userId w t₁ t₂).length + 1 -
            maxActiveUploadsPerUser))
            fun x => FilesService.abortActiveUpload userId x.1 x.2) (Verdict userId w) u := by
      intro c _ writes u hu
      split
      · exact hu.redis fun _ v hv => hloop v hv
      · exact hloop u hu
    split
    · exact hstands.redis fun _ v hv => hmalformed _ _ v hv
    · exact hmalformed _ _ _ hstands

theorem clock_stable : Stable (backend cfg) (sessionLasts userId) (.alone p) p fun t =>
      n ≤ t.store.clock :=
  Stable.alone fun s m _ h => Nat.le_trans h (Nat.le_add_right s.store.clock m)

/-- Time only passes. -/
theorem clock_later {x : Routine α} :
    Meets (backend cfg) (sessionLasts userId)
    (.alone p) p x (fun _ t => s.store.clock ≤ t.store.clock) s := by
  refine Meets.frame (Prog.calls_true x) clock_stable (fun t q d _ _ ha ht => ⟨rfl, ?_⟩)
    (Nat.le_refl _)
  cases delivered_in_session ha
  exact Nat.le_trans ht (Nat.le_of_eq (DeletionPaths.clock_deliver cfg t.store q).symm)

/-- The routine returns, whatever it finds. -/
def Answers (cfg : Config) (p : Nat) (userId : Id) (x : Routine α) : Prop :=
  ∀ s, Meets (backend cfg) (sessionLasts userId) (.alone p) p x (fun a _ => ∃ y, a = .ok y) s

theorem Answers.ret {a : α} : Answers cfg p userId (.ret a) := fun _ _ _ _ => ⟨a, rfl⟩

theorem Answers.last {c : RedisCommand} : Answers cfg p userId (await (.redis c)) := by
  intro s
  rw [← Prog.bind_ret (await _)]
  exact answered (Stable.const True) trivial fun _ _ => ⟨_, rfl, Answers.ret _⟩

theorem Answers.redis {c : RedisCommand} {f : c.Answer → Routine α}
    (hf : ∀ a, Answers cfg p userId (f a)) :
    Answers cfg p userId ((await (.redis c)).bind f) :=
  fun _ => answered (Stable.const True) trivial fun _ _ => ⟨_, rfl, hf _ _⟩

/-- What is sure to return does not change the verdict. -/
theorem Verdict.next {x : Routine α} {f : α → Routine β}
    (hx : Meets (backend cfg) (sessionLasts userId) (.alone p) p x (Verdict userId w) s)
    (hf : ∀ a, Answers cfg p userId (f a)) :
    Meets (backend cfg) (sessionLasts userId) (.alone p) p (x.bind f) (Verdict userId w) s := by
  refine Meets.next hx (fun e t _ h => ?_) fun a t _ h => ?_
  · obtain ⟨t₁, t₂, h₁, h₂, hdecides, hlater⟩ := h
    refine ⟨t₁, t₂, h₁, h₂, iff_of_false ?_ fun hall => ?_, hlater⟩
    · rintro ⟨y, hy⟩
      cases hy
    · obtain ⟨y, hy⟩ := hdecides.mpr hall
      cases hy
  · obtain ⟨t₁, t₂, h₁, h₂, hdecides, hlater⟩ := h
    exact ((hf a t).and clock_later).mono fun r u _ hu =>
      ⟨t₁, t₂, h₁, h₂, iff_of_true hu.1 (hdecides.mp ⟨a, rfl⟩), Nat.le_trans hlater hu.2⟩

/-- A catch block that throws does not change it either. -/
theorem Verdict.caught {x : Routine α} {f : Thrown → Routine α}
    (hx : Meets (backend cfg) (sessionLasts userId) (.alone p) p x (Verdict userId w) s)
    (hf : ∀ e, (f e).Returns fun _ => False) :
    Meets (backend cfg) (sessionLasts userId) (.alone p) p (x.handle f) (Verdict userId w) s := by
  refine Meets.caught (hx.mono fun r t _ h => ?_)
  cases r with
  | ok a => exact h
  | error e =>
    obtain ⟨t₁, t₂, h₁, h₂, hdecides, hlater⟩ := h
    refine ((Meets.returns (hf e)).and clock_later).mono fun r u _ hu =>
      ⟨t₁, t₂, h₁, h₂, iff_of_false ?_ fun hall => ?_, Nat.le_trans hlater hu.2⟩
    · rintro ⟨y, hy⟩
      exact hu.1 y hy
    · obtain ⟨y, hy⟩ := hdecides.mpr hall
      cases hy

theorem undoRegistration_throws {state : UploadMeta} {sid : Id} {created : Bool} {e : Thrown} :
    (FilesService.undoRegistration userId uploadId state sid created e).Returns fun _ => False := by
  refine .bind fun _ => ?_
  exact .ite (.bind fun _ => .bind fun _ => trivial) (.bind fun _ => trivial)

/-- A write to other keys. -/
theorem Unchanged.write {x : RedisWrite} (hs : Unchanged userId w s)
    (hactive : RedisKey.uploadActive userId ≠ x.key)
    (hstates : ∀ id < w.nextId, RedisKey.uploadMeta userId id ≠ x.key) :
    Unchanged userId w ((backend cfg).after .delivered p (.redis (.write x)) s) :=
  ⟨(Redis.lookup_write hactive).trans hs.active,
    fun id hid => (Redis.lookup_write (hstates id hid)).trans (hs.states id hid),
    hs.uploads, hs.clock,
    hs.nextId⟩

theorem registerUpload_verdict {state : UploadMeta} {sid : Id} (hw : Drawn userId w)
    (hid : w.nextId ≤ uploadId) (hs : Unchanged userId w s) :
    Meets (backend cfg) (sessionLasts userId)
    (.alone p) p (FilesService.registerUpload userId uploadId state sid) (Verdict userId w) s := by
  refine Meets.next (Q := fun a t => a = .ok () ∧ Unchanged userId w t) (Meets.caught ?_)
    (fun e t _ h => by cases h.1) fun _ t _ h => ?_
  · rw [← Prog.bind_ret (await _)]
    refine answered Unchanged.stable hs fun t ht => ⟨(), rfl, ?_⟩
    refine Meets.ret Unchanged.stable (ht.write (by simp [RedisWrite.key]) fun id hlt => ?_)
      fun _ h _ => ⟨rfl, h⟩
    simp only [RedisWrite.key, ne_eq, RedisKey.uploadMeta.injEq, true_and]
    exact Nat.ne_of_lt (Nat.lt_of_lt_of_le hlt hid)
  · refine Verdict.caught ?_ fun e => undoRegistration_throws
    refine answered Unchanged.stable h.2 fun t ht => ⟨(), rfl, ?_⟩
    have hindexed : Unchanged userId w
      ((backend cfg).after .delivered p (.redis (.write (.set (.uploadIndex sid)
        (.index ⟨.uploadMeta userId uploadId, .uploadActive userId, uploadId⟩)
          uploadMetaTtlSeconds))) t) :=
      ht.write (by simp [RedisWrite.key]) (by simp [RedisWrite.key])
    exact Verdict.next (makeRoom_verdict hw hindexed) fun _ => Answers.redis fun _ => Answers.last

/-- What `w` has, before a multipart upload is created. -/
structure Untouched (w : World) (s : SharedWorld) : Prop where
  db : s.store.db = w.db
  redis : s.store.redis = w.redis
  filesBucket : s.store.filesBucket = w.filesBucket
  clock : w.clock ≤ s.store.clock
  nextId : w.nextId ≤ s.store.nextId

theorem Untouched.stable : Stable (backend cfg) (sessionLasts userId) (.alone p) p (Untouched w) :=
  Stable.alone fun _ m _ h => ⟨h.db, h.redis, h.filesBucket,
    Nat.le_trans h.clock (Nat.le_add_right _ m), h.nextId⟩

theorem Untouched.random (h : Untouched w s) :
    Untouched w ((backend cfg).after .delivered p .random s) :=
  ⟨h.db, h.redis, h.filesBucket, h.clock, Nat.le_succ_of_le h.nextId⟩

end

/-- A request that the checks of `initializeUpload` let pass, while no other is being initialized.
-/
structure WithinLimits (cfg : Config) (userId : Id) (dto : InitUploadDto) (w : World) : Prop where
  masterKey : ∃ key, w.redis.get w.clock (.masterKey userId) = some (.text key)
  totalChunks : dto.totalChunks = chunkCount dto.fileSize
  allowance : w.db.checkUploadAllowance cfg userId dto.fileSize = .ok ()
  initLock : w.redis.get w.clock (.uploadInitLock userId) = none

section
variable {cfg : Config} {p : Nat} {userId uploadId : Id} {s : SharedWorld} {w : World}
  {dto : InitUploadDto}

/-- The lock is free, so the process gets it. -/
theorem acquireUploadInitLock_unchanged (hlock : w.redis.get w.clock (.uploadInitLock userId) =
      none) (hs : Untouched w s) :
    Meets (backend cfg) (sessionLasts userId)
    (.alone p) p (FilesService.acquireUploadInitLock userId)
      (fun a t => (∃ token, a = .ok token) ∧ Unchanged userId w t) s := by
  refine answered (q := .random) Untouched.stable hs fun t ht => ⟨t.store.nextId, rfl, ?_⟩
  generalize t.store.nextId = token
  refine answered Untouched.stable ht.random fun u hu => ⟨true, ?_, ?_⟩
  · have hfree : ¬ (u.store.redis.live u.store.clock (.uploadInitLock userId)).isSome = true := by
      have hnone : w.redis.get u.store.clock (.uploadInitLock userId) = none :=
        DeletionPaths.get_later_none hu.clock hlock
      rw [hu.redis, Option.map_eq_none_iff.mp hnone]
      exact Bool.false_ne_true
    show Except.ok (u.store.redis.perform u.store.clock
      (.setNX (.uploadInitLock userId) (.token token) uploadInitLockTtlSeconds)).2 = _
    simp only [Redis.perform, if_neg hfree]
  · refine Meets.throwIf (fun h => by cases h) fun _ => ?_
    refine Meets.ret Unchanged.stable ⟨?_, fun id hid => ?_, fun i hi => ?_, hu.clock,
      hu.nextId⟩ fun _ h _ => ⟨⟨_, rfl⟩, h⟩
    · exact (Redis.lookup_setNX (by simp)).trans (congrArg (AList.lookup _) hu.redis)
    · exact (Redis.lookup_setNX (by simp)).trans (congrArg (AList.lookup _) hu.redis)
    · exact congrArg (fun b : Bucket => b.uploads.lookup i) hu.filesBucket

theorem initializeUpload_verdict (hlimits : WithinLimits cfg userId dto w) (hw : Drawn userId w) :
    Meets (backend cfg) (sessionLasts userId)
    (.alone p) p (FilesService.initializeUpload cfg userId dto) (Verdict userId w)
    (.initial w) := by
  obtain ⟨key, hkey⟩ := hlimits.masterKey
  have hstart : Untouched w (.initial w) := ⟨rfl, rfl, rfl, Nat.le_refl _, Nat.le_refl _⟩
  have session : Stable (backend cfg) (sessionLasts userId) (.alone p) p
      fun t => t.store.redis.get t.store.clock (.masterKey userId) = some (.text key) := by
    refine Stable.alone fun t m hd ht => ?_
    have hlive : (t.store.redis.live t.store.clock (.masterKey userId)).isSome = true := by
      rw [Redis.get] at ht
      exact Option.isSome_map.symm.trans (congrArg Option.isSome ht)
    have hlater : (t.store.redis.live (t.store.clock + m) (.masterKey userId)).isSome = true := by
      simpa [sessionLasts, ← Option.not_isSome, hlive] using hd
    exact (Redis.get_later (Nat.le_add_right _ m) hlater).trans ht
  refine Meets.next (Q := fun a t => (∃ y, a = .ok y) ∧ Untouched w t) ?_ (fun e t _ h => ?_)
    fun _ t _ h => ?_
  · refine answered (Untouched.stable.and session) ⟨hstart, hkey⟩ fun t ht =>
      ⟨some (.text key), congrArg Except.ok ht.2, ?_⟩
    exact Meets.ret Untouched.stable ⟨ht.1.db, ht.1.redis, ht.1.filesBucket, ht.1.clock,
      ht.1.nextId⟩ fun _ h _ => ⟨⟨_, rfl⟩, h⟩
  · obtain ⟨y, hy⟩ := h.1
    cases hy
  refine Meets.throwIf (fun hne => absurd hlimits.totalChunks hne) fun _ => ?_
  refine answered Untouched.stable h.2 fun t ht => ⟨(), ?_, ?_⟩
  · rw [← hlimits.allowance, ← ht.db]
    rfl
  have ht : Untouched w ((backend cfg).after .delivered p
    (.query (.uploadAllowance userId dto.fileSize)) t) :=
    ⟨ht.db, ht.redis, ht.filesBucket, ht.clock, ht.nextId⟩
  refine answered (q := .random) Untouched.stable ht fun t ht => ⟨t.store.nextId, rfl, ?_⟩
  have hfresh : w.nextId ≤ t.store.nextId := ht.nextId
  generalize t.store.nextId = uploadId at hfresh
  refine answered (q := .random) Untouched.stable ht.random fun t ht => ⟨t.store.nextId, rfl, ?_⟩
  generalize t.store.nextId = storageKey
  refine answered (q := .random) Untouched.stable ht.random fun t ht => ⟨t.store.nextId, rfl, ?_⟩
  generalize (dto.password.filter fun x => decide (x ≠ "")).map (fun p =>
    cfg.bcryptHash p t.store.nextId) = passwordHash
  refine (acquireUploadInitLock_unchanged hlimits.initLock ht.random).next (fun e t _ h => ?_)
    fun token t _ h => ?_
  · obtain ⟨y, hy⟩ := h.1
    cases hy
  refine Verdict.next (Verdict.caught ?_ fun e => .bind fun _ => trivial) fun _ => ?_
  · refine answered Unchanged.stable h.2 fun t ht => ⟨t.store.nextId, rfl, ?_⟩
    have hcreated : Unchanged userId w
        ((backend cfg).after .delivered p (.s3 .files (.createMultipartUpload storageKey)) t) := by
      refine ⟨ht.active, ht.states, fun i hi => ?_, ht.clock, Nat.le_succ_of_le ht.nextId⟩
      exact (AList.lookup_insert_ne (Nat.ne_of_lt (Nat.lt_of_lt_of_le hi ht.nextId))).trans
        (ht.uploads i hi)
    refine answered (q := .now) Unchanged.stable hcreated fun u hu => ⟨u.store.clock, rfl, ?_⟩
    exact registerUpload_verdict hw hfresh ⟨hu.active, hu.states, hu.uploads, hu.clock, hu.nextId⟩
  · intro s
    refine Meets.call (Stable.const True) trivial fun t _ _ d ha => ⟨rfl, ?_⟩
    cases delivered_in_session ha
    have hret : Answers cfg p userId (.ret uploadId : Routine Id) := Answers.ret
    exact hret _

/-- Each routine has an end before time has passed. -/
theorem ends_at_once (cfg : Config) (userId : Id) {α : Type} (x : Routine α) (s : SharedWorld) :
    ∃ a t, Ends (backend cfg) (sessionLasts userId) 0 x s a t ∧ t.store.clock = s.store.clock :=
  ⟨_, _, Ends.finish (fun _ _ => rfl) x s, DeletionPaths.clock_finish⟩

end
end LeftoverUploads

open LeftoverUploads

/-- Each active upload of the user that has readable metadata is one that S3 knows. No two have one
multipart upload. -/
def World.Replaceable (userId : Id) (w : World) : Prop :=
  Abortable (w.filesBucket.uploads.lookup ·) (replaced userId w w.clock w.clock)

/-- Whatever time it takes, a new upload is initialized. -/
def InitializeSucceeds (cfg : Config) (userId : Id) (dto : InitUploadDto) (w : World) : Prop :=
  ∀ a t, Ends (backend cfg) (sessionLasts userId) 0 (FilesService.initializeUpload cfg userId dto)
    (.initial w) a t → ∃ uploadId, a = .ok uploadId

theorem initialize_succeeds_iff {cfg : Config} {userId : Id} {dto : InitUploadDto} {w : World}
    (hlimits : WithinLimits cfg userId dto w) (hw : Drawn userId w) :
    InitializeSucceeds cfg userId dto w ↔ w.Replaceable userId := by
  constructor
  · intro h
    obtain ⟨a, t, hends, hclock⟩ :=
      ends_at_once cfg userId (FilesService.initializeUpload cfg userId dto) (.initial w)
    obtain ⟨t₁, t₂, h₁, h₂, hdecides, hlater⟩ := (initializeUpload_verdict hlimits hw).ends hends
    have heq : t₂ = w.clock := Nat.le_antisymm (Nat.le_trans hlater (Nat.le_of_eq hclock))
      (Nat.le_trans h₁ h₂)
    have heq' : t₁ = w.clock := Nat.le_antisymm (Nat.le_trans h₂ (Nat.le_of_eq heq)) h₁
    rw [heq, heq'] at hdecides
    exact hdecides.mp (h a t hends)
  · intro h a t hends
    obtain ⟨t₁, t₂, h₁, h₂, hdecides, -⟩ := (initializeUpload_verdict hlimits hw).ends hends
    exact hdecides.mpr (abortable_later h h₁ (Nat.le_trans h₁ h₂))
namespace LeftoverUploads

/-- A user who is logged in has an upload that S3 knows. -/
def replaceableWorld : World :=
  { DeletionPaths.uploadingWorld with
    redis := DeletionPaths.uploadingWorld.redis.insert (.masterKey 1) ⟨.text "master", none⟩ }

theorem replaceableWorld_drawn : Drawn 1 replaceableWorld := by
  constructor
  · intro ids t h id hid
    cases h
    cases List.mem_singleton.mp hid
    decide
  · intro id state t h sid hsid
    by_cases hid : id = 50
    · subst hid
      cases h
      cases hsid
      decide
    · have hnone : replaceableWorld.redis.lookup (.uploadMeta 1 id) = none :=
        (AList.lookup_insert_ne (by simp)).trans
          ((AList.lookup_insert_ne (by simpa using hid)).trans
          ((AList.lookup_insert_ne (by simp)).trans rfl))
      cases hnone.symm.trans h

def isText : RedisValue → Bool
  | .text _ => true
  | _ => false

/-- An upload of one chunk, up to the completion of the multipart upload, after which the server
crashes. -/
def crashedFinalize : List (Action UploadOperation Delivery Nat) :=
  .start (.initializeUpload 1 ⟨1000, 1, none, none⟩) :: List.replicate 15 (.advance 0 .delivered) ++
    .start (.handleChunk 1 100 ⟨1028, 7⟩ 0) :: List.replicate 7 (.advance 1 .delivered) ++
      .start (.finalizeUpload 1 100 ⟨"a.txt", "text/plain", "key", 1⟩) ::
        List.replicate 4 (.advance 2 .delivered)

end LeftoverUploads

theorem initialize_succeeds_iff_demo :
    InitializeSucceeds demoConfig 1 ⟨1000, 1, none, none⟩ replaceableWorld := by
  refine (initialize_succeeds_iff ⟨⟨"master", rfl⟩, by decide +kernel, by decide +kernel, rfl⟩
    replaceableWorld_drawn).mpr ?_
  have hone : replaced 1 replaceableWorld 0 0 =
      [(50, ⟨1, 0, 10, none, "30d", 70, some 60, [], 0, 0⟩)] := by decide +kernel
  show Abortable _ (replaced 1 replaceableWorld 0 0)
  rw [hone]
  refine ⟨fun x hx i hi => ?_, List.pairwise_singleton _ _⟩
  cases List.mem_singleton.mp hx
  cases hi
  exact ⟨⟨70, []⟩, rfl, rfl⟩

/-- Redis still has an upload that S3 does not know any more. -/
theorem crashed_finalize_blocks : ∃ s,
      (uploads demoConfig).run locksOutlast (.initial loggedInUploads) crashedFinalize = some s ∧
    WithinLimits demoConfig 1 ⟨1000, 1, none, none⟩ s.shared.store.world ∧
    ¬ InitializeSucceeds demoConfig 1 ⟨1000, 1, none, none⟩ s.shared.store.world := by
  have key : (((uploads demoConfig).run locksOutlast (.initial loggedInUploads) crashedFinalize).any
    fun s =>
      (s.shared.store.world.redis.get s.shared.store.world.clock (.masterKey 1)).any
        LeftoverUploads.isText &&
      (s.shared.store.world.db.checkUploadAllowance demoConfig 1 1000).isOk &&
      (s.shared.store.world.redis.get s.shared.store.world.clock (.uploadInitLock 1)).isNone &&
      !((backend demoConfig).finish .delivered 0 (FilesService.initializeUpload demoConfig 1 ⟨1000,
        1, none, none⟩)
        (.initial s.shared.store.world)).1.isOk) = true := by decide +kernel
  obtain ⟨s, hs, hx⟩ := (Option.any_eq_true _ _).mp key
  simp only [Bool.and_eq_true, Bool.not_eq_true'] at hx
  obtain ⟨⟨⟨hkey, hallowed⟩, hlock⟩, hfails⟩ := hx
  refine ⟨s, hs, ⟨?_, rfl, ?_, Option.isNone_iff_eq_none.mp hlock⟩, fun h => ?_⟩
  · obtain ⟨v, hv, htext⟩ := (Option.any_eq_true _ _).mp hkey
    cases v with
    | text key => exact ⟨key, hv⟩
    | _ => cases htext
  · cases hallowance : s.shared.store.world.db.checkUploadAllowance demoConfig 1 1000 with
    | ok a => rfl
    | error e =>
      rw [hallowance] at hallowed
      cases hallowed
  · obtain ⟨uploadId, hok⟩ := h _ _ (Ends.finish (c := .delivered) (fun _ _ => rfl) _ _)
    rw [hok] at hfails
    cases hfails

end Redbox
