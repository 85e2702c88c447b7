import Redbox.Backend.Commits
import Redbox.Interleaving.Sequential

/-! No dangling files. Uploading, finishing, cancelling, deleting and expiring, one
after another, while calls fail. -/
namespace Redbox
open Interleaving

/-- The object of a file is there, with the length that the size of the file asks for. -/
def Backed (w : World) (file : File) : Prop :=
  ∃ size, FilesService.getExpectedEncryptedSize file.size = .ok size ∧
    w.filesBucket.objects.lookup file.storageName = some size

/-- No file is stored under the key. -/
def Unused (key : Id) (w : World) : Prop := ∀ f ∈ w.db.files, f.storageName ≠ key

namespace DanglingFiles

/-- The requests and jobs that store and remove files. -/
def ofFiles : Operation → Bool
  | .initializeUpload _ _ | .uploadChunk _ _ _ _ | .releaseUploadLock _ _ _ | .completeUpload _ _ _
  | .cancelUpload _ _ | .deleteFile _ _ | .downloadFile _ _ | .handleCleanup => true
  | _ => false

/-- Any call may fail, before or after it took effect. -/
def anyFailure : BackendRules where
  starts := fun _ op => ofFiles op
  allows := fun _ _ _ d => decide (d ≠ .late)
  drifts := fun _ _ => true

/-- The process has sent the transaction that stores the file of the key. -/
def sentFile (p : Nat) (key : Id) (log : List BackendEvent) : Bool :=
  log.any fun e => e.pid == p && match e.req with
    | .statement (.createFile _ _ _ state _ _) => state.storageKey == key
    | _ => false

/-- Where the transaction of `finalizeUpload` took effect, the object is not deleted after all,
and where `deleteFileInternal` deleted the object, the deletion of the row does not fail. -/
def consistently (s : SharedWorld) (p : Nat) (q : Request) (d : Delivery) : Bool :=
  match q with
  | .s3 .files (.deleteObject key) =>
    !(sentFile p key s.log && s.store.db.files.any fun f => f.storageName == key) ||
      decide (d = .failed)
  | .statement (.deleteFile id) =>
    ((s.store.db.findFile id).all fun f =>
      (s.store.filesBucket.objects.lookup f.storageName).isSome) ||
      decide (d ≠ .failed)
  | _ => true

def rules : BackendRules := anyFailure.also consistently

/-- Names of objects belong to one file or one multipart upload, and none has yet to be drawn. -/
structure Tidy (w : World) : Prop where
  names : (w.db.files.map (·.storageName)).Nodup
  drawn : ∀ f ∈ w.db.files, f.storageName < w.nextId
  pending : ∀ i u, w.filesBucket.uploads.lookup i = some u → u.key < w.nextId ∧ Unused u.key w
  apart : ∀ i j u v, w.filesBucket.uploads.lookup i = some u →
    w.filesBucket.uploads.lookup j = some v →
    u.key = v.key → i = j

structure Sound (w : World) : Prop extends Tidy w where
  backed : ∀ f ∈ w.db.files, Backed w f

/-- Only the bookkeeping of uploads has changed, and no upload has been created. -/
structure Settled (w w' : World) : Prop where
  files : w'.db.files = w.db.files
  objects : w'.filesBucket.objects = w.filesBucket.objects
  uploads : ∀ i u', w'.filesBucket.uploads.lookup i = some u' →
    ∃ u, w.filesBucket.uploads.lookup i = some u ∧ u.key = u'.key
  nextId : w.nextId ≤ w'.nextId

section
variable {w w' : World} {key : Id}

theorem Settled.refl (w : World) : Settled w w := ⟨rfl, rfl, fun _ u h => ⟨u, h, rfl⟩, le_refl _⟩

theorem Unused.settled (hw : Settled w w') (h : Unused key w) : Unused key w' := by
  intro f hf
  rw [hw.files] at hf
  exact h f hf

theorem Backed.settled (hw : Settled w w') {f : File} (h : Backed w f) : Backed w' f := by
  obtain ⟨size, hsize, hobj⟩ := h
  exact ⟨size, hsize, hw.objects ▸ hobj⟩

theorem Tidy.settled (hw : Settled w w') (h : Tidy w) : Tidy w' where
  names := hw.files ▸ h.names
  drawn := by
    intro f hf
    rw [hw.files] at hf
    exact Nat.lt_of_lt_of_le (h.drawn f hf) hw.nextId
  pending := by
    intro i u' hu'
    obtain ⟨u, hu, hkey⟩ := hw.uploads i u' hu'
    obtain ⟨hlt, hun⟩ := h.pending i u hu
    rw [hkey] at hlt hun
    exact ⟨Nat.lt_of_lt_of_le hlt hw.nextId, Unused.settled hw hun⟩
  apart := by
    intro i j u' v' hu' hv' hkey
    obtain ⟨u, hu, hukey⟩ := hw.uploads i u' hu'
    obtain ⟨v, hv, hvkey⟩ := hw.uploads j v' hv'
    exact h.apart i j u v hu hv (by rw [hukey, hvkey, hkey])

theorem Sound.settled (hw : Settled w w') (h : Sound w) : Sound w' where
  toTidy := h.toTidy.settled hw
  backed := by
    intro f hf
    rw [hw.files] at hf
    exact Backed.settled hw (h.backed f hf)

end

/-- A call that changes nothing but the bookkeeping of uploads. -/
def still (q : Request) : Bool :=
  match q with
  | .query _ => true
  | q => q.tracks

theorem still_of_tracks {q : Request} (h : q.tracks = true) : still q = true := by
  unfold still
  split
  · rfl
  · exact h

section
variable {cfg : Config} {w : World} {key n : Id}

theorem settled_bucket {b : Bucket} (hobj : b.objects = w.filesBucket.objects)
    (hup : ∀ i u', b.uploads.lookup i = some u' → ∃ u, w.filesBucket.uploads.lookup i = some u ∧
      u.key = u'.key) :
    Settled w { w with filesBucket := b, nextId := w.nextId + 1 } :=
  ⟨rfl, hobj, hup, Nat.le_succ _⟩

theorem settled_uploadPart {i : Id} {number : Nat} {body : Blob} {b : Bucket}
    (h : w.filesBucket.uploadPart key i number body = .ok b) :
    Settled w { w with filesBucket := b, nextId := w.nextId + 1 } := by
  obtain ⟨u, hu, rfl⟩ := Bucket.uploadPart_ok h
  refine settled_bucket rfl fun j u' hj => ?_
  by_cases hji : j = i
  · subst hji
    rw [AList.lookup_insert] at hj
    cases hj
    exact ⟨u, (Bucket.upload_eq_some.mp hu).1, rfl⟩
  · rw [AList.lookup_insert_ne hji] at hj
    exact ⟨u', hj, rfl⟩

theorem settled_abort {s3UploadId : Option Id} {b : Bucket}
    (h : w.filesBucket.abort key s3UploadId = .ok b) :
    Settled w { w with filesBucket := b, nextId := w.nextId + 1 } := by
  obtain ⟨i, u, rfl, hu, rfl⟩ := Bucket.abort_ok h
  refine settled_bucket rfl fun j u' hj => ?_
  by_cases hji : j = i
  · subst hji
    rw [AList.lookup_erase] at hj
    cases hj
  · rw [AList.lookup_erase_ne hji] at hj
    exact ⟨u', hj, rfl⟩

theorem settled_deliver {q : Request} (hq : still q = true) : Settled w (w.deliver cfg q).1 := by
  cases q with
  | query q => exact .refl w
  | redis c => exact ⟨rfl, rfl, fun _ u h => ⟨u, h, rfl⟩, le_refl _⟩
  | now => exact .refl w
  | random => exact ⟨rfl, rfl, fun _ u h => ⟨u, h, rfl⟩, Nat.le_succ _⟩
  | s3 name q =>
    cases name with
    | mails => cases hq
    | files =>
      cases q with
      | uploadPart key i number body =>
        cases h : w.filesBucket.uploadPart key i number body with
        | ok b =>
          simp only [World.deliver, World.bucket, Bucket.perform, h]
          exact settled_uploadPart h
        | error e =>
          simp only [World.deliver, World.bucket, Bucket.perform, h]
          exact .refl w
      | abortMultipartUpload key i =>
        cases h : w.filesBucket.abort key i with
        | ok b =>
          simp only [World.deliver, World.bucket, Bucket.perform, h]
          exact settled_abort h
        | error e =>
          simp only [World.deliver, World.bucket, Bucket.perform, h]
          exact .refl w
      | headObject key =>
        cases h : w.filesBucket.objects.lookup key with
        | some size =>
          simp only [World.deliver, World.bucket, Bucket.perform, h]
          exact settled_bucket rfl fun _ u h => ⟨u, h, rfl⟩
        | none =>
          simp only [World.deliver, World.bucket, Bucket.perform, h]
          exact .refl w
      | _ => cases hq
  | _ => cases hq

/-- What a call can leave behind, if no part is stored late. -/
theorem exec_cases {q : Request} {d : Delivery} (hd : d ≠ .late) :
    (w.exec cfg d q).1 = (w.deliver cfg q).1 ∨ (w.exec cfg d q).1 = w ∧ d = .failed := by
  cases d with
  | delivered => exact .inl rfl
  | failed => exact .inr ⟨rfl, rfl⟩
  | lost => exact .inl rfl
  | late => exact absurd rfl hd

/-- An answer means that the call was delivered. -/
theorem delivered_of_ok {q : Request} {d : Delivery} {a : q.Answer} (hd : d ≠ .late)
    (h : (w.exec cfg d q).2 = .ok a) : d = .delivered := by
  cases d with
  | delivered => rfl
  | failed => cases h
  | lost => cases h
  | late => exact absurd rfl hd

theorem settled_exec {q : Request} {d : Delivery} (hq : still q = true) (hd : d ≠ .late) :
    Settled w (w.exec cfg d q).1 := by
  rcases exec_cases hd with h | ⟨h, _⟩
  · rw [h]
    exact settled_deliver hq
  · rw [h]
    exact .refl w

end
/-- No multipart upload will make an object of the key. -/
def NoPending (key : Id) (w : World) : Prop :=
  ∀ i u, w.filesBucket.uploads.lookup i = some u → u.key ≠ key

section
variable {w : World} {key : Id}

/-- An object that no file is stored under may come, go or change. -/
theorem Sound.objects (h : Sound w) (hun : Unused key w) {objects : AList fun _ : Id => Nat}
    (ho : ∀ k, k ≠ key → objects.lookup k = w.filesBucket.objects.lookup k) {n : Id}
    (hn : w.nextId ≤ n) :
    Sound { w with filesBucket := { w.filesBucket with objects := objects }, nextId := n } where
  names := h.names
  drawn := fun f hf => Nat.lt_of_lt_of_le (h.drawn f hf) hn
  pending := fun i u hu => ⟨Nat.lt_of_lt_of_le (h.pending i u hu).1 hn, (h.pending i u hu).2⟩
  apart := h.apart
  backed := by
    intro f hf
    obtain ⟨size, hsize, hobj⟩ := h.backed f hf
    exact ⟨size, hsize, (ho _ (hun f hf)).trans hobj⟩

/-- The name has been drawn, and no file or upload has it. -/
structure Spare (key : Id) (w : World) : Prop extends Sound w where
  drawn_key : key < w.nextId
  unused : Unused key w
  noPending : NoPending key w

theorem Spare.settled {w' : World} (hw : Settled w w') (h : Spare key w) : Spare key w' where
  toSound := h.toSound.settled hw
  drawn_key := Nat.lt_of_lt_of_le h.drawn_key hw.nextId
  unused := Unused.settled hw h.unused
  noPending := by
    intro i u' hu'
    obtain ⟨u, hu, hkey⟩ := hw.uploads i u' hu'
    exact hkey ▸ h.noPending i u hu

/-- The multipart upload that becomes an object belongs to no file. -/
theorem spare_complete (h : Sound w) {s3UploadId : Option Id} {parts : List UploadPart} {b : Bucket}
    (hc : w.filesBucket.complete key s3UploadId parts = .ok b) :
    Spare key { w with filesBucket := b, nextId := w.nextId + 1 } := by
  obtain ⟨i, u, size, rfl, hu, _, rfl⟩ := Bucket.complete_ok hc
  obtain ⟨hlook, rfl⟩ := Bucket.upload_eq_some.mp hu
  have hun : Unused u.key w := (h.pending i u hlook).2
  have herase : Settled w { w with filesBucket :=
    { w.filesBucket with uploads := w.filesBucket.uploads.erase i } } := by
    refine ⟨rfl, rfl, fun j v hv => ?_, le_refl _⟩
    by_cases hji : j = i
    · subst hji
      rw [AList.lookup_erase] at hv
      cases hv
    · rw [AList.lookup_erase_ne hji] at hv
      exact ⟨v, hv, rfl⟩
  refine ⟨?_, Nat.lt_succ_of_lt (h.pending i u hlook).1, hun, fun j v hv hkey => ?_⟩
  · exact (h.settled herase).objects (Unused.settled herase hun) (fun k hk =>
      AList.lookup_insert_ne hk) (Nat.le_succ _)
  · by_cases hji : j = i
    · subst hji
      rw [AList.lookup_erase] at hv
      cases hv
    · rw [AList.lookup_erase_ne hji] at hv
      exact hji (h.apart j i v u hv hlook hkey)

theorem sound_deleteObject (h : Sound w) (hun : Unused key w) {n : Id} (hn : w.nextId ≤ n) :
    Sound { w with filesBucket := { w.filesBucket with objects := w.filesBucket.objects.erase key }, nextId := n } :=
  h.objects hun (fun _ hk => AList.lookup_erase_ne hk) hn

/-- A new upload of a name that nothing else has. -/
theorem sound_createMultipartUpload (h : Spare key w) {i : Id} : Sound { w with
      filesBucket := { w.filesBucket with uploads := w.filesBucket.uploads.insert i ⟨key, []⟩ }
      nextId := w.nextId + 1 } where
  names := h.names
  drawn := fun f hf => Nat.lt_succ_of_lt (h.drawn f hf)
  pending := by
    intro j u hu
    by_cases hji : j = i
    · subst hji
      rw [AList.lookup_insert] at hu
      cases hu
      exact ⟨Nat.lt_succ_of_lt h.drawn_key, h.unused⟩
    · rw [AList.lookup_insert_ne hji] at hu
      exact ⟨Nat.lt_succ_of_lt (h.pending j u hu).1, (h.pending j u hu).2⟩
  apart := by
    intro j k u v hu hv hkey
    by_cases hji : j = i
    · by_cases hki : k = i
      · exact hji.trans hki.symm
      · subst hji
        rw [AList.lookup_insert] at hu
        rw [AList.lookup_insert_ne hki] at hv
        cases hu
        exact absurd hkey.symm (h.noPending k v hv)
    · rw [AList.lookup_insert_ne hji] at hu
      by_cases hki : k = i
      · subst hki
        rw [AList.lookup_insert] at hv
        cases hv
        exact absurd hkey (h.noPending j u hu)
      · rw [AList.lookup_insert_ne hki] at hv
        exact h.apart j k u v hu hv hkey
  backed := h.backed

/-- The row of a complete object of the right length. -/
theorem sound_createFile {file : File} (h : Spare file.storageName w) (hb : Backed w file)
    {db : Database} (hdb : db.files = file :: w.db.files) {n : Id} (hn : w.nextId ≤ n) :
    Sound { w with db := db, nextId := n } where
  names := by
    simp only [hdb, List.map_cons, List.nodup_cons]
    refine ⟨fun hmem => ?_, h.names⟩
    obtain ⟨f, hf, hname⟩ := List.mem_map.mp hmem
    exact h.unused f hf hname
  drawn := by
    intro f hf
    simp only [hdb, List.mem_cons] at hf
    rcases hf with rfl | hf
    · exact Nat.lt_of_lt_of_le h.drawn_key hn
    · exact Nat.lt_of_lt_of_le (h.drawn f hf) hn
  pending := by
    intro i u hu
    refine ⟨Nat.lt_of_lt_of_le (h.pending i u hu).1 hn, fun f hf => ?_⟩
    simp only [hdb, List.mem_cons] at hf
    rcases hf with rfl | hf
    · exact (h.noPending i u hu).symm
    · exact (h.pending i u hu).2 f hf
  apart := h.apart
  backed := by
    intro f hf
    simp only [hdb, List.mem_cons] at hf
    rcases hf with rfl | hf
    · exact hb
    · exact h.backed f hf

end

/-- The object of the file has been deleted; every other file still has its own. -/
structure Emptied (file : File) (w : World) : Prop extends Tidy w where
  gone : w.filesBucket.objects.lookup file.storageName = none
  others : ∀ f ∈ w.db.files, f.storageName ≠ file.storageName → Backed w f

section
variable {w : World} {file : File}

theorem emptied_deleteObject (h : Sound w) : Emptied file { w with
    filesBucket := { w.filesBucket with objects := w.filesBucket.objects.erase file.storageName }
    nextId := w.nextId + 1 } where
  names := h.names
  drawn := fun f hf => Nat.lt_succ_of_lt (h.drawn f hf)
  pending := fun i u hu => ⟨Nat.lt_succ_of_lt (h.pending i u hu).1, (h.pending i u hu).2⟩
  apart := h.apart
  gone := AList.lookup_erase _ _
  others := by
    intro f hf hname
    obtain ⟨size, hsize, hobj⟩ := h.backed f hf
    exact ⟨size, hsize, (AList.lookup_erase_ne hname).trans hobj⟩

/-- Without its row the store is sound again, whether its object is gone or not. -/
theorem sound_deleteFile {id : Id} (ht : Tidy w) (hf : w.db.findFile id = some file)
    (hb : ∀ f ∈ w.db.files, f.storageName ≠ file.storageName → Backed w f) {db : Database}
    (hdb : db.files = w.db.files.filter fun f => f.id != id) {n : Id} (hn : w.nextId ≤ n) :
    Sound { w with db := db, nextId := n } where
  names := by
    simp only [hdb]
    exact ht.names.sublist (List.Sublist.map _ List.filter_sublist)
  drawn := by
    intro f hmem
    simp only [hdb, List.mem_filter] at hmem
    exact Nat.lt_of_lt_of_le (ht.drawn f hmem.1) hn
  pending := by
    intro i u hu
    refine ⟨Nat.lt_of_lt_of_le (ht.pending i u hu).1 hn, fun f hmem => ?_⟩
    simp only [hdb, List.mem_filter] at hmem
    exact (ht.pending i u hu).2 f hmem.1
  apart := ht.apart
  backed := by
    intro f hmem
    simp only [hdb, List.mem_filter, bne_iff_ne] at hmem
    refine hb f hmem.1 fun hname => hmem.2 ?_
    have hfile : file ∈ w.db.files := List.mem_of_find?_eq_some hf
    have hid : file.id = id := by simpa using List.find?_some hf
    rw [List.inj_on_of_nodup_map ht.names hmem.1 hfile hname, hid]

end

/-- An assertion that bookkeeping and later events keep. -/
def Lasting (F : SharedWorld → Prop) : Prop :=
  ∀ ⦃s s'⦄, Settled s.store s'.store → s.log <:+ s'.log → F s → F s'

theorem Lasting.sound : Lasting fun s => Sound s.store := fun _ _ hs _ h => h.settled hs
theorem Lasting.spare {key : Id} : Lasting fun s => Spare key s.store :=
  fun _ _ hs _ h => h.settled hs

/-- The object of the key is no file's, or it is the process's own file that is. -/
def Disposable (p : Nat) (key : Id) (s : SharedWorld) : Prop :=
  Sound s.store ∧ (Unused key s.store ∨ sentFile p key s.log = true)

theorem Lasting.disposable {p : Nat} {key : Id} : Lasting (Disposable p key) := by
  intro s s' hs hl h
  refine ⟨h.1.settled hs, h.2.imp (Unused.settled hs) fun hsent => ?_⟩
  obtain ⟨e, he, hx⟩ := List.any_eq_true.mp hsent
  exact List.any_eq_true.mpr ⟨e, hl.subset he, hx⟩

section
variable {cfg : Config} {p : Nat} {α : Type} {F : SharedWorld → Prop} {s : SharedWorld}
  {Q : Except Thrown α → SharedWorld → Prop}

theorem not_late {q : Request} {d : Delivery} (h : rules.allows s p q d = true) : d ≠ .late := by
  simp only [rules, Rules.also, anyFailure, Bool.and_eq_true, decide_eq_true_eq] at h
  exact h.1

theorem consistently_of_allowed {q : Request} {d : Delivery} (h : rules.allows s p q d = true) :
    consistently s p q d = true := by
  simp only [rules, Rules.also, Bool.and_eq_true] at h
  exact h.2

/-- What a call can leave behind. -/
theorem after_cases (cfg : Config) {q : Request} {d : Delivery} (h : rules.allows s p q d = true) :
    ((backend cfg).after d p q s).store = (s.store.deliver cfg q).1 ∨
      ((backend cfg).after d p q s).store = s.store ∧ d = .failed :=
  exec_cases (not_late h)

theorem Lasting.held (hF : Lasting F) :
    Held (backend cfg) rules (.alone p) p (fun q => still q = true) F where
  stable := by
    refine Stable.alone fun t n _ ht => hF (s := t) ?_ (List.suffix_refl t.log) ht
    exact ⟨rfl, rfl, fun _ u h => ⟨u, h, rfl⟩, le_refl _⟩
  own := fun hq _ ha _ hs => hF (settled_exec hq (not_late ha)) (List.suffix_cons _ _) hs

/-- Bookkeeping in front of the rest of a routine. -/
theorem track {q : Request} (hq : still q = true) (hF : Lasting F) (hs : F s)
    {f : q.Answer → Routine α} (hQ : ∀ e t, F t → Q (.error e) t)
    (h : ∀ a t, F t → Meets (backend cfg) rules (.alone p) p (f a) Q t) :
    Meets (backend cfg) rules (.alone p) p ((await q).bind f) Q s :=
  Meets.held hF.held hq (fun _ _ _ _ _ => rfl) Outline.alone_kept hs hQ fun a t _ ht => h a t ht

theorem tracksOnly {x : Routine α} (hx : x.Calls fun q => still q = true) (hF : Lasting F)
    (hs : F s) :
    Meets (backend cfg) rules (.alone p) p x (fun _ t => F t) s :=
  Meets.heldCalls hF.held hx (fun _ h => h) (fun _ _ _ _ _ _ _ => rfl) hs

/-- One routine after another. -/
theorem sequel {β : Type} {x : Routine β} {f : β → Routine α} (hF : Lasting F)
    (hx : Meets (backend cfg) rules (.alone p) p x (fun _ t => F t) s)
    (hQ : ∀ e t, F t → Q (.error e) t)
    (h : ∀ a t, F t → Meets (backend cfg) rules (.alone p) p (f a) Q t) :
    Meets (backend cfg) rules (.alone p) p (x.bind f) Q s := by
  refine Meets.bind trivial Outline.alone_kept (hx.mono fun r t _ ht => ?_)
  cases r with
  | ok a => exact h a t ht
  | error e => exact Meets.throw hF.held.stable ht fun u hu _ => hQ e u hu

/-- One call that is more than bookkeeping. -/
theorem attempt {q : Request} (hF : Lasting F) (hs : F s) {f : q.Answer → Routine α}
    {G : q.Answer → SharedWorld → Prop} {H : SharedWorld → Prop} (hH : Lasting H)
    (hQ : ∀ e t, H t → Q (.error e) t) (effect : ∀ t d, F t → rules.allows t p q d = true →
      (∀ a, (backend cfg).reply d q t = .ok a → G a ((backend cfg).after d p q t)) ∧
      ∀ e, (backend cfg).reply d q t = .error e → H ((backend cfg).after d p q t))
    (h : ∀ a t, G a t → Meets (backend cfg) rules (.alone p) p (f a) Q t) :
    Meets (backend cfg) rules (.alone p) p ((await q).bind f) Q s := by
  refine Meets.await hF.held.stable hs fun t ht _ d ha => ?_
  obtain ⟨hok, herr⟩ := effect t d ht ha
  refine ⟨rfl, fun a hr => h a _ (hok a hr), fun e hr => ?_⟩
  exact Meets.throw hH.held.stable (herr e hr) fun u hu _ => hQ _ u hu

/-- Such a call at the end of a routine. -/
theorem attemptLast {q : Request} {Q : Except Thrown q.Answer → SharedWorld → Prop} (hF : Lasting F)
    (hs : F s) {H : SharedWorld → Prop} (hH : Lasting H) (hQ : ∀ r t, H t → Q r t)
    (effect : ∀ t d, F t → rules.allows t p q d = true → H ((backend cfg).after d p q t)) :
    Meets (backend cfg) rules (.alone p) p (await q) Q s := by
  rw [← Prog.bind_ret (await q)]
  refine attempt (G := fun _ t => H t) hF hs hH (fun e t ht => hQ _ t ht) (fun t d ht ha => ?_)
    fun a t ht => ?_
  · exact ⟨fun _ _ => effect t d ht ha, fun _ _ => effect t d ht ha⟩
  · exact Meets.ret hH.held.stable ht fun u hu _ => hQ _ u hu

/-- A call whose failure is ignored, in front of the rest of a routine. -/
theorem ignored {x : Routine Unit} {f : Unit → Routine α} (hF : Lasting F)
    (hx : Meets (backend cfg) rules (.alone p) p x (fun _ t => F t) s)
    (h : ∀ t, F t → Meets (backend cfg) rules (.alone p) p (f ()) Q t) :
    Meets (backend cfg) rules (.alone p) p ((FilesService.ignoring x).bind f) Q s := by
  have hend : Meets (backend cfg) rules (.alone p) p (FilesService.ignoring x) (fun r t =>
    r = .ok () ∧ F t) s := by
    refine Meets.handle trivial Outline.alone_kept (hx.mono fun r t _ ht => ?_)
    cases r with
    | ok _ => exact Meets.ret hF.held.stable ht fun _ hu _ => ⟨rfl, hu⟩
    | error _ => exact Meets.ret hF.held.stable ht fun _ hu _ => ⟨rfl, hu⟩
  refine Meets.bind trivial Outline.alone_kept (hend.mono fun r t _ ht => ?_)
  obtain ⟨rfl, ht⟩ := ht
  exact h t ht

end

section
variable {cfg : Config} {p : Nat} {s : SharedWorld} {fileId : Id}

/-- The row has been found, and its object is there or has been deleted. -/
def Deleting (fileId : Id) (file : File) (s : SharedWorld) : Prop :=
  s.store.db.findFile fileId = some file ∧ (Sound s.store ∨ Emptied file s.store)

theorem Lasting.deleting {file : File} : Lasting (Deleting fileId file) := by
  intro s s' hs _ h
  refine ⟨?_, h.2.imp (Sound.settled hs) fun he => ?_⟩
  · rw [Database.findFile, hs.files]
    exact h.1
  · refine ⟨he.toTidy.settled hs, by rw [hs.objects]; exact he.gone, fun f hf hname => ?_⟩
    rw [hs.files] at hf
    exact Backed.settled hs (he.others f hf hname)

theorem deleteObject_deleting {file : File} {d : Delivery} (h : Deleting fileId file s)
    (hs : Sound s.store) (ha : rules.allows s p (.s3 .files (.deleteObject file.storageName)) d =
      true) :
    Deleting fileId file ((backend cfg).after d p (.s3 .files (.deleteObject file.storageName))
      s) := by
  unfold Deleting
  rcases after_cases cfg ha with he | ⟨he, _⟩
  · rw [he]
    exact ⟨h.1, .inr (emptied_deleteObject hs)⟩
  · rw [he]
    exact ⟨h.1, .inl hs⟩

/-- The row goes if its object has gone. -/
theorem deleteRow_sound {file : File} {d : Delivery} (h : Deleting fileId file s)
    (ha : rules.allows s p (.statement (.deleteFile fileId)) d = true) :
    Sound ((backend cfg).after d p (.statement (.deleteFile fileId)) s).store := by
  have hfound : (s.store.db.findFile fileId).isSome = true := by rw [h.1]; rfl
  have hdel : (s.store.deliver cfg (.statement (.deleteFile fileId))).1 = { s.store with
      db := { s.store.db with files := s.store.db.files.filter fun f => f.id != fileId }
      nextId := s.store.nextId + 2 } := by
    simp [World.deliver, Database.perform, Database.deleteFile, hfound]
  rcases after_cases cfg ha with he | ⟨he, rfl⟩
  · rw [he, hdel]
    rcases h.2 with hs | hg
    · exact sound_deleteFile hs.toTidy h.1 (fun f hf _ => hs.backed f hf) rfl (Nat.le_add_right _ 2)
    · exact sound_deleteFile hg.toTidy h.1 hg.others rfl (Nat.le_add_right _ 2)
  · rw [he]
    rcases h.2 with hs | hg
    · exact hs
    · have hcond := consistently_of_allowed ha
      simp [consistently, h.1, hg.gone] at hcond

theorem deleteFileInternal_sound (hs : Sound s.store) :
    Meets (backend cfg) rules (.alone p) p (FilesService.deleteFileInternal fileId)
    (fun _ t => Sound t.store) s := by
  refine attempt (G := fun row t => Sound t.store ∧ t.store.db.findFile fileId = row) Lasting.sound
    hs Lasting.sound
    (fun _ _ ht => ht) (fun t d ht ha => ⟨fun a hr => ?_, fun _ _ => ?_⟩) fun row t ht => ?_
  · cases delivered_of_ok (not_late ha) hr
    exact ⟨ht, Except.ok.inj hr⟩
  · exact Lasting.sound.held.own rfl trivial ha rfl ht
  cases row with
  | none => exact Meets.ret Lasting.sound.held.stable ht.1 fun _ h _ => h
  | some file =>
    have hF : Lasting fun t => t.store.db.findFile fileId = some file ∧ Sound t.store := by
      intro u u' hu _ h
      exact ⟨by rw [Database.findFile, hu.files]; exact h.1, h.2.settled hu⟩
    have hobject : Meets (backend cfg) rules (.alone p) p
      (await (.s3 .files (.deleteObject file.storageName)))
        (fun _ t => Deleting fileId file t) t :=
      attemptLast hF ht.symm Lasting.deleting (fun _ _ hu => hu) fun u d hu ha =>
        deleteObject_deleting ⟨hu.1, .inl hu.2⟩ hu.2 ha
    refine ignored Lasting.deleting hobject fun u hu => ?_
    exact attemptLast Lasting.deleting hu Lasting.sound (fun _ _ h => h) fun v d hv ha =>
      deleteRow_sound hv ha

theorem handleCleanup_sound (hs : Sound s.store) :
    Meets (backend cfg) rules (.alone p) p FilesService.handleCleanup (fun _ t =>
      Sound t.store) s := by
  refine track (q := .query .expiredFiles) rfl Lasting.sound hs (fun _ _ h => h) fun rows t ht => ?_
  exact Meets.forEach Outline.alone_kept Lasting.sound.held.stable
    (fun file _ u hu _ => deleteFileInternal_sound hu) trivial ht

theorem deleteFile_sound {userId : Id} (hs : Sound s.store) :
    Meets (backend cfg) rules (.alone p) p (FilesService.deleteFile userId fileId)
    (fun _ t => Sound t.store) s := by
  refine track (q := .query (.file fileId)) rfl Lasting.sound hs (fun _ _ h => h) fun row t ht => ?_
  cases row with
  | none => exact Meets.throw Lasting.sound.held.stable ht fun _ h _ => h
  | some file =>
    refine Meets.throwIf (fun _ => ?_) fun _ => deleteFileInternal_sound ht
    exact Meets.throw Lasting.sound.held.stable ht fun _ h _ => h

theorem getDownloadableFile_sound {token : Id} (hs : Sound s.store) :
    Meets (backend cfg) rules (.alone p) p (FilesService.getDownloadableFile fileId token)
    (fun _ t => Sound t.store) s := by
  refine track (q := .query (.file fileId)) rfl Lasting.sound hs (fun _ _ h => h) fun row t ht => ?_
  cases row with
  | none => exact Meets.throw Lasting.sound.held.stable ht fun _ h _ => h
  | some file =>
    refine Meets.throwIf (fun _ => ?_) fun _ => ?_
    · exact Meets.throw Lasting.sound.held.stable ht fun _ h _ => h
    refine track (q := .now) rfl Lasting.sound ht (fun _ _ h => h) fun now u hu => ?_
    by_cases hexp : file.expiresAt < now
    · rw [if_pos hexp]
      refine sequel Lasting.sound (deleteFileInternal_sound hu) (fun _ _ h => h) fun _ v hv => ?_
      exact Meets.throw Lasting.sound.held.stable hv fun _ h _ => h
    · rw [if_neg hexp]
      exact Meets.ret Lasting.sound.held.stable hu fun _ h _ => h

/-- The object of the upload is complete and has the length of a file of the given size. -/
def Stored (state : UploadMeta) (s : SharedWorld) : Prop :=
  Spare state.storageKey s.store ∧ ∃ size,
    FilesService.getExpectedEncryptedSize state.fileSize = .ok size ∧
    s.store.filesBucket.objects.lookup state.storageKey = some size

theorem Lasting.stored {state : UploadMeta} : Lasting (Stored state) := by
  intro s s' hs _ ⟨h, size, hsize, hobj⟩
  exact ⟨h.settled hs, size, hsize, hs.objects ▸ hobj⟩

theorem sentFile_after {userId : Id} {name mimetype key : String} {state : UploadMeta} {iv : Id}
    {d : Delivery} :
    sentFile p state.storageKey
      ((backend cfg).after d p (.statement (.createFile userId name mimetype state key iv)) s).log =
        true := by
  simp [sentFile, System.after]

/-- After the transaction was sent the object belongs to no file or to the new one. -/
theorem createFile_disposable {userId : Id} {name mimetype key : String} {state : UploadMeta}
    {iv : Id} {d : Delivery} (h : Stored state s)
    (ha : rules.allows s p (.statement (.createFile userId name mimetype state key iv)) d = true) :
    Disposable p state.storageKey
      ((backend cfg).after d p (.statement (.createFile userId name mimetype state key iv)) s) := by
  refine ⟨?_, .inr sentFile_after⟩
  rcases after_cases cfg ha with he | ⟨he, _⟩
  · rw [he]
    simp only [World.deliver]
    split
    · rename_i db file hp
      obtain ⟨hname, hsize, _, _, _, rfl⟩ := Database.createFile_ok hp
      obtain ⟨hspare, size, hexp, hobj⟩ := h
      rw [← hname] at hspare hobj
      exact sound_createFile hspare ⟨size, hsize ▸ hexp, hobj⟩ rfl (Nat.le_add_right _ 2)
    · exact h.1.toSound
  · rw [he]
    exact h.1.toSound

/-- `HeadObject` answers with the length of the object. -/
theorem headObject_ok {w : World} {key n : Id}
    (h : (w.deliver cfg (.s3 .files (.headObject key))).2 = .ok n) :
    w.filesBucket.objects.lookup key = some n := by
  cases hl : w.filesBucket.objects.lookup key with
  | some size =>
    simp only [World.deliver, World.bucket, Bucket.perform, hl] at h
    exact congrArg some (Except.ok.inj h)
  | none =>
    simp only [World.deliver, World.bucket, Bucket.perform, hl] at h
    cases h

theorem storeCompletedUpload_disposable {userId uploadId iv : Id} {dto : CompleteUploadDto}
    {state : UploadMeta} {key : String} (hs : Spare state.storageKey s.store) :
    Meets (backend cfg) rules (.alone p) p
      (FilesService.storeCompletedUpload userId uploadId dto state key iv)
      (fun _ t => Disposable p state.storageKey t) s := by
  have spare : ∀ t : SharedWorld, Spare state.storageKey t.store →
      Disposable p state.storageKey t :=
    fun _ ht => ⟨ht.toSound, .inl ht.unused⟩
  refine attempt (G := fun size t => Spare state.storageKey t.store ∧
    t.store.filesBucket.objects.lookup state.storageKey = some size) Lasting.spare hs Lasting.spare
    (fun _ t ht => spare t ht) (fun t d ht ha => ⟨fun a hr => ?_, fun _ _ => ?_⟩) fun size t ht =>
      ?_
  · have hsettled : Settled t.store
        ((backend cfg).after d p (.s3 .files (.headObject state.storageKey)) t).store :=
      settled_exec rfl (not_late ha)
    cases delivered_of_ok (not_late ha) hr
    have hanswer : (t.store.deliver cfg (.s3 .files (.headObject state.storageKey))).2 = .ok a := hr
    exact ⟨ht.settled hsettled, hsettled.objects ▸ headObject_ok hanswer⟩
  · exact Lasting.spare.held.own rfl trivial ha rfl ht
  cases hsize : FilesService.getExpectedEncryptedSize state.fileSize with
  | error e => exact Meets.throw Lasting.spare.held.stable ht.1 fun u hu _ => spare u hu
  | ok expected =>
    refine Meets.throwIf (fun _ => ?_) fun heq => ?_
    · exact Meets.throw Lasting.spare.held.stable ht.1 fun u hu _ => spare u hu
    rw [not_not] at heq
    subst heq
    refine attempt (G := fun _ t => Disposable p state.storageKey t) Lasting.stored ⟨ht.1, _,
      hsize, ht.2⟩
      Lasting.disposable (fun _ _ hu => hu) (fun u d hu ha => ?_) fun file u hu => ?_
    · exact ⟨fun _ _ => createFile_disposable hu ha, fun _ _ => createFile_disposable hu ha⟩
    · refine sequel Lasting.disposable
        (tracksOnly (FilesService.forgetUpload_calls fun _ => still_of_tracks)
        Lasting.disposable hu) (fun _ _ hv => hv) fun _ v hv => ?_
      exact Meets.ret Lasting.disposable.held.stable hv fun _ hv _ => hv

/-- The catch block of a failed transaction removes an object only if it belongs to no file. -/
theorem deleteObject_sound {key : Id} (hs : Disposable p key s) :
    Meets (backend cfg) rules (.alone p) p
      (await (.s3 .files (.deleteObject key))) (fun _ t => Sound t.store) s := by
  refine attemptLast Lasting.disposable hs Lasting.sound (fun _ _ h => h) fun t d ht ha => ?_
  by_cases hun : Unused key t.store
  · rcases after_cases cfg ha with he | ⟨he, _⟩
    · rw [he]
      exact sound_deleteObject ht.1 hun (Nat.le_succ _)
    · rw [he]
      exact ht.1
  · -- The file is the process's own, so the deletion of its object fails.
    have hown : (t.store.db.files.any fun f => f.storageName == key) = true := by
      simpa [Unused] using hun
    have hcond := consistently_of_allowed ha
    simp only [consistently, ht.2.resolve_left hun, hown, Bool.and_self, Bool.not_true,
      Bool.false_or,
      decide_eq_true_eq] at hcond
    subst hcond
    exact ht.1

theorem undoFinalize_sound {userId uploadId : Id} {state : UploadMeta} {removal : Routine Unit}
    {e : Thrown} (hr : Meets (backend cfg) rules (.alone p) p removal (fun _ t =>
      Sound t.store) s) :
    Meets (backend cfg) rules (.alone p) p
      (FilesService.undoFinalize userId uploadId state removal e)
      (fun _ t => Sound t.store) s := by
  refine ignored Lasting.sound hr fun t ht => ?_
  refine sequel Lasting.sound (tracksOnly (FilesService.forgetUpload_calls fun _ => still_of_tracks)
    Lasting.sound ht)
    (fun _ _ h => h) fun _ u hu => ?_
  exact Meets.throw Lasting.sound.held.stable hu fun _ h _ => h

theorem complete_sound {w : World} {key : Id} {s3UploadId : Option Id} {parts : List UploadPart}
    (h : Sound w) :
    Sound (w.deliver cfg (.s3 .files (.completeMultipartUpload key s3UploadId parts))).1 ∧
      ∀ a, (w.deliver cfg (.s3 .files (.completeMultipartUpload key s3UploadId parts))).2 = .ok a →
        Spare key (w.deliver cfg (.s3 .files
          (.completeMultipartUpload key s3UploadId parts))).1 := by
  cases hc : w.filesBucket.complete key s3UploadId parts with
  | ok b =>
    have hspare := spare_complete h hc
    simp only [World.deliver, World.bucket, Bucket.perform, hc]
    exact ⟨hspare.toSound, fun _ _ => hspare⟩
  | error e =>
    simp only [World.deliver, World.bucket, Bucket.perform, hc]
    exact ⟨h, fun _ ha => by cases ha⟩

/-- The multipart upload is complete, or nothing is known but that the store is sound. -/
def AfterCompletion (key : Id) : Except Thrown (Except Thrown Unit) → SharedWorld → Prop
  | .ok (.ok _), t => Spare key t.store
  | _, t => Sound t.store

theorem completeMultipartUpload_spare {state : UploadMeta} (hs : Sound s.store) :
    Meets (backend cfg) rules (.alone p) p (FilesService.completeMultipartUpload state)
      (AfterCompletion state.storageKey) s := by
  refine Meets.handle trivial Outline.alone_kept ?_
  refine attempt (G := fun _ t => Spare state.storageKey t.store) Lasting.sound hs Lasting.sound
    (fun e t ht => ?_)
    (fun t d ht ha => ⟨fun a hr => ?_, fun _ _ => ?_⟩) fun _ t ht => ?_
  · exact Meets.ret Lasting.sound.held.stable ht fun _ h _ => h
  · cases delivered_of_ok (not_late ha) hr
    exact (complete_sound ht).2 a hr
  · rcases after_cases cfg ha with he | ⟨he, _⟩
    · rw [he]
      exact (complete_sound ht).1
    · rw [he]
      exact ht
  · refine Meets.ret Lasting.spare.held.stable ht fun u hu _ => ?_
    exact Meets.ret Lasting.spare.held.stable hu fun _ h _ => h

theorem finalizeChecked_sound {userId uploadId iv : Id} {dto : CompleteUploadDto}
    {state : UploadMeta} {key : String} (hs : Sound s.store) :
    Meets (backend cfg) rules (.alone p) p
      (FilesService.finalizeChecked userId uploadId dto state key iv)
      (fun _ t => Sound t.store) s := by
  refine Meets.bind trivial Outline.alone_kept
    ((completeMultipartUpload_spare hs).mono fun r t _ ht => ?_)
  rcases r with e | ⟨e | _⟩
  · exact Meets.throw Lasting.sound.held.stable ht fun _ h _ => h
  · exact undoFinalize_sound (tracksOnly (.await rfl) Lasting.sound ht)
  · refine Meets.handle trivial Outline.alone_kept
      ((storeCompletedUpload_disposable ht).mono fun r u _ hu => ?_)
    cases r with
    | ok file => exact Meets.ret Lasting.disposable.held.stable hu fun _ h _ => h.1
    | error e => exact undoFinalize_sound (deleteObject_sound hu)

theorem finalizeUpload_sound {userId uploadId : Id} {dto : CompleteUploadDto} (hs : Sound s.store) :
    Meets (backend cfg) rules (.alone p) p (FilesService.finalizeUpload cfg userId uploadId dto)
      (fun _ t => Sound t.store) s := by
  refine sequel Lasting.sound (tracksOnly (FilesService.getMasterKeyForUser_calls fun _ =>
    still_of_tracks)
    Lasting.sound hs) (fun _ _ h => h) fun masterKey t ht => ?_
  refine track (q := .random) rfl Lasting.sound ht (fun _ _ h => h) fun iv u hu => ?_
  refine track (q := .redis (.get (.uploadMeta userId uploadId))) rfl Lasting.sound hu (fun _ _ h =>
    h) fun value v hv => ?_
  cases value with
  | none => exact Meets.throw Lasting.sound.held.stable hv fun _ h _ => h
  | some value =>
    refine sequel Lasting.sound (tracksOnly FilesService.parseUploadMeta_calls Lasting.sound hv)
      (fun _ _ h => h)
      fun state w hw => ?_
    refine Meets.throwIf (fun _ => Meets.throw Lasting.sound.held.stable hw fun _ h _ => h) fun _ =>
      ?_
    refine Meets.throwIf (fun _ => Meets.throw Lasting.sound.held.stable hw fun _ h _ => h) fun _ =>
      ?_
    exact finalizeChecked_sound hw

/-- A name that has just been drawn is spare. -/
theorem random_spare {w : World} (h : Sound w) :
    Spare w.nextId { w with nextId := w.nextId + 1 } := by
  have hsettled : Settled w { w with nextId := w.nextId + 1 } :=
    ⟨rfl, rfl, fun _ u h => ⟨u, h, rfl⟩, Nat.le_succ _⟩
  refine ⟨h.settled hsettled, Nat.lt_succ_self _, fun f hf => ?_, fun i u hu => ?_⟩
  · exact Nat.ne_of_lt (h.drawn f hf)
  · exact Nat.ne_of_lt (h.pending i u hu).1

theorem createMultipartUpload_sound {w : World} {key : Id} (h : Spare key w) :
    Sound (w.deliver cfg (.s3 .files (.createMultipartUpload key))).1 :=
  sound_createMultipartUpload h

theorem initializeUpload_sound {userId : Id} {dto : InitUploadDto} (hs : Sound s.store) :
    Meets (backend cfg) rules (.alone p) p (FilesService.initializeUpload cfg userId dto)
    (fun _ t => Sound t.store) s := by
  refine sequel Lasting.sound (tracksOnly (FilesService.getMasterKeyForUser_calls fun _ =>
    still_of_tracks)
    Lasting.sound hs) (fun _ _ h => h) fun _ t ht => ?_
  refine Meets.throwIf (fun _ => Meets.throw Lasting.sound.held.stable ht fun _ h _ => h) fun _ =>
    ?_
  refine track (q := .query (.uploadAllowance userId dto.fileSize)) rfl Lasting.sound ht
    (fun _ _ h => h) fun _ t ht => ?_
  refine track (q := .random) rfl Lasting.sound ht (fun _ _ h => h) fun uploadId t ht => ?_
  refine attempt (q := .random) (G := fun key t => Spare key t.store) Lasting.sound ht Lasting.sound
    (fun _ _ h => h)
    (fun t d ht ha => ⟨fun a hr => ?_, fun _ _ => ?_⟩) fun storageKey t ht => ?_
  · cases delivered_of_ok (not_late ha) hr
    cases hr
    exact random_spare ht
  · exact Lasting.sound.held.own rfl trivial ha rfl ht
  refine track (q := .random) rfl Lasting.spare ht (fun _ _ h => h.toSound) fun salt t ht => ?_
  refine sequel Lasting.spare (tracksOnly (FilesService.acquireUploadInitLock_calls fun _ =>
    still_of_tracks)
    Lasting.spare ht) (fun _ _ h => h.toSound) fun token t ht => ?_
  have release : (await (.redis (.compareAndDelete (.uploadInitLock userId) token))).Calls fun q =>
      still q = true :=
    .await rfl
  have hregister : Meets (backend cfg) rules (.alone p) p
      ((await (.s3 .files (.createMultipartUpload storageKey))).bind fun s3UploadId =>
        (await .now).bind fun now =>
        FilesService.registerUpload userId uploadId
          (FilesService.newUploadMeta dto ((dto.password.filter (· ≠ "")).map fun p =>
            cfg.bcryptHash p salt)
            storageKey s3UploadId now) s3UploadId) (fun _ t => Sound t.store) t := by
    refine attempt (G := fun _ t => Sound t.store) Lasting.spare ht Lasting.sound (fun _ _ h => h)
      (fun u d hu ha => ?_)
      fun s3UploadId u hu => ?_
    · have hsound : Sound ((backend cfg).after d p (.s3 .files (.createMultipartUpload storageKey))
        u).store := by
        rcases after_cases cfg ha with he | ⟨he, _⟩
        · rw [he]
          exact createMultipartUpload_sound hu
        · rw [he]
          exact hu.toSound
      exact ⟨fun _ _ => hsound, fun _ _ => hsound⟩
    · refine track (q := .now) rfl Lasting.sound hu (fun _ _ h => h) fun now u hu => ?_
      exact tracksOnly (FilesService.registerUpload_calls fun _ => still_of_tracks) Lasting.sound hu
  refine sequel Lasting.sound (Meets.handle trivial Outline.alone_kept
    (hregister.mono fun r u _ hu => ?_))
    (fun _ _ h => h) fun _ u hu => ?_
  · cases r with
    | ok _ => exact Meets.ret Lasting.sound.held.stable hu fun _ h _ => h
    | error e =>
      exact ignored Lasting.sound (tracksOnly release Lasting.sound hu) fun v hv =>
        Meets.throw Lasting.sound.held.stable hv fun _ h _ => h
  · exact ignored Lasting.sound (tracksOnly release Lasting.sound hu) fun v hv =>
      Meets.ret Lasting.sound.held.stable hv fun _ h _ => h

/-- The answer at the end of a request. -/
theorem answered {α : Type} {x : Routine α} {f : α → Outcome}
    (hx : Meets (backend cfg) rules (.alone p) p x (fun _ t => Sound t.store) s) :
    Meets (backend cfg) rules (.alone p) p (x.bind fun a => .ret (f a))
    (fun _ t => Sound t.store) s :=
  sequel Lasting.sound hx (fun _ _ h => h) fun _ _ ht =>
    Meets.ret Lasting.sound.held.stable ht fun _ h _ => h

theorem validate_calls {payload : TokenPayload} :
    (JwtStrategy.validate payload).Calls fun q => still q = true :=
  .bind (.await rfl) fun
    | none => trivial
    | some _ => .bind .throwIf fun _ => .bind .throwIf fun _ => trivial

theorem guarded_sound {payload : TokenPayload} {body : Id → Routine Outcome} (hs : Sound s.store)
    (h : ∀ userId t, Sound t.store → Meets (backend cfg) rules (.alone p) p (body userId)
      (fun _ t => Sound t.store) t) :
    Meets (backend cfg) rules (.alone p) p (Operation.guarded payload body)
    (fun _ t => Sound t.store) s :=
  sequel Lasting.sound (tracksOnly validate_calls Lasting.sound hs) (fun _ _ h => h)
    fun user t ht => h user.id t ht

/-- Each request leaves the store sound, whatever fails on its way. -/
theorem program_sound {op : Operation} (hop : ofFiles op = true) (hs : Sound s.store) :
    Meets (backend cfg) rules (.alone p) p (op.program cfg) (fun _ t => Sound t.store) s := by
  have tracks : ∀ q : Request, q.tracks = true → still q = true := fun _ => still_of_tracks
  cases op <;> simp only [Operation.program, Prog.bind_eq, Prog.pure_eq]
  case initializeUpload payload dto =>
    exact guarded_sound hs fun _ _ ht => answered (initializeUpload_sound ht)
  case uploadChunk payload uploadId file chunkIndex =>
    refine guarded_sound hs fun userId t ht => tracksOnly ?_ Lasting.sound ht
    exact .bind (.bind (.await rfl) fun _ => .bind (.await rfl) fun _ => .bind .throwIf fun _ =>
      trivial) fun _ =>
      .bind .throwIf fun _ => .bind (FilesService.handleChunk_calls tracks) fun _ => trivial
  case releaseUploadLock userId uploadId token =>
    exact tracksOnly (.bind (.await rfl) fun _ => trivial) Lasting.sound hs
  case completeUpload payload uploadId dto =>
    exact guarded_sound hs fun _ _ ht => answered (finalizeUpload_sound ht)
  case cancelUpload payload uploadId =>
    refine guarded_sound hs fun userId t ht => tracksOnly ?_ Lasting.sound ht
    exact .bind (FilesService.cancelUpload_calls tracks) fun _ => trivial
  case deleteFile payload fileId =>
    exact guarded_sound hs fun _ _ ht => answered (deleteFile_sound ht)
  case downloadFile fileId token => exact answered (getDownloadableFile_sound hs)
  case handleCleanup => exact answered (handleCleanup_sound hs)
  all_goals cases hop

end
end DanglingFiles

open DanglingFiles

/-- In every state without a request in progress, each file has its object. -/
def NoDanglingFiles (cfg : Config) (R : BackendRules) (w : World) : Prop :=
  ∀ as s, (backend cfg).runAlone R (.initial w) as = some s → s.idle = true →
    ∀ f ∈ s.shared.store.db.files, Backed s.shared.store f

/-- No file dangles in the runs where `finalizeUpload` does not delete the object of a file that it
has stored, and no deletion of a row fails once its object has been deleted. -/
theorem no_dangling_files (cfg : Config) (w : World) (hw : Sound w) :
    NoDanglingFiles cfg DanglingFiles.rules w := by
  intro as s h hidle
  have hsteady : s.Steady (backend cfg) DanglingFiles.rules fun t => Sound t.store := by
    refine Pool.Steady.run (fun t n _ ht => ?_) (fun t p op ht _ hop => program_sound hop ht)
      (.initial hw) h
    exact Sound.settled (w := t.store) ⟨rfl, rfl, fun _ u h => ⟨u, h, rfl⟩, le_refl _⟩ ht
  exact (hsteady.idle hidle).backed

namespace DanglingFiles

/-- An upload of one byte, whose only part has been accepted. -/
def demoUpload : UploadMeta := ⟨1, 1, 1, none, "1h", 40, some 50, [⟨1, 7⟩], 0, 0⟩

/-- The user is logged in and has sent his upload. -/
def demoStore : World :=
  { demoWorld with
    redis := (AList.insert (.masterKey 1) ⟨.text "master", none⟩ ∅).insert (.uploadMeta 1 9)
      ⟨.upload demoUpload, none⟩
    filesBucket := ⟨∅, AList.insert 50 ⟨40, [(1, ⟨29, 7⟩)]⟩ ∅⟩ }

def demoComplete : Operation := .completeUpload demoToken 9 ⟨"a.txt", "text/plain", "key", 1⟩

/-- The transaction commits, and then Redis fails to delete the metadata. -/
def failureAfterCommit : List BackendAction :=
  .start demoComplete :: calls 0 7 ++ .advance 0 .failed :: calls 0 4

/-- Redis fails when the metadata is read, and the second attempt goes through. -/
def failureBeforeCommit : List BackendAction :=
  .start demoComplete :: calls 0 3 ++ .advance 0 .failed :: .start demoComplete :: calls 1 10

theorem demo_sound : Sound demoStore := by
  have hup : ∀ i u, demoStore.filesBucket.uploads.lookup i = some u → i = 50 ∧ u.key = 40 := by
    intro i u hu
    by_cases hi : i = 50
    · subst hi
      rw [demoStore, AList.lookup_insert] at hu
      cases hu
      exact ⟨rfl, rfl⟩
    · rw [demoStore, AList.lookup_insert_ne hi] at hu
      cases hu
  refine ⟨⟨by decide, by simp [demoStore, demoWorld], fun i u hu => ⟨?_, by
    simp [Unused, demoStore, demoWorld]⟩,
    fun i j u v hu hv _ => (hup i u hu).1.trans (hup j v hv).1.symm⟩, by
      simp [demoStore, demoWorld]⟩
  rw [(hup i u hu).2]
  decide

end DanglingFiles

/-- The object of the new file is deleted. -/
theorem completed_file_dangles : ¬ NoDanglingFiles demoConfig anyFailure demoStore := by
  have key : (((backend demoConfig).runAlone anyFailure (.initial demoStore) failureAfterCommit).any
    fun s => s.idle &&
      s.shared.store.db.files.any fun f =>
        (s.shared.store.filesBucket.objects.lookup f.storageName).isNone) = true := by
    decide +kernel
  intro h
  obtain ⟨s, hs, hx⟩ := (Option.any_eq_true _ _).mp key
  rw [Bool.and_eq_true, List.any_eq_true] at hx
  obtain ⟨hidle, f, hf, hnone⟩ := hx
  obtain ⟨size, _, hobj⟩ := h _ s hs hidle f hf
  rw [hobj] at hnone
  cases hnone

/-- A run of the kind the theorem is about: a file is stored although a call has failed. -/
theorem no_dangling_files_demo : ∃ s f,
    (backend demoConfig).runAlone DanglingFiles.rules (.initial demoStore) failureBeforeCommit =
      some s ∧
    f ∈ s.shared.store.db.files ∧ Backed s.shared.store f := by
  have key : (((backend demoConfig).runAlone DanglingFiles.rules (.initial demoStore)
    failureBeforeCommit).any fun s =>
      s.idle && !s.shared.store.db.files.isEmpty) = true := by decide +kernel
  obtain ⟨s, hs, hx⟩ := (Option.any_eq_true _ _).mp key
  rw [Bool.and_eq_true, Bool.not_eq_true'] at hx
  obtain ⟨f, hf⟩ := List.exists_mem_of_ne_nil s.shared.store.db.files (by simpa using hx.2)
  exact ⟨s, f, hs, hf, no_dangling_files demoConfig demoStore demo_sound _ s hs hx.1 f hf⟩

end Redbox
