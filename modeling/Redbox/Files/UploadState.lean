import Redbox.Backend.Commits
import Redbox.Interleaving.Sequential

/-! The metadata of one upload in Redis and its parts in S3, as the chunk requests see them. -/
namespace Redbox
open Interleaving

namespace Redis
variable {r : Redis} {now now' userId uploadId seconds : Nat} {state : UploadMeta}
  {key k : RedisKey} {value : RedisValue} {token : Id}

theorem lookup_refresh : (r.writeAll now
      (FilesService.refreshTransaction userId uploadId state)).lookup
    (.uploadMeta userId uploadId) = some ⟨.upload state, deadline now uploadMetaTtlSeconds⟩ := by
  have hrest : ∀ w ∈ RedisWrite.expire (.uploadActive userId) uploadMetaTtlSeconds ::
      (state.s3UploadId.map fun id =>
        RedisWrite.expire (.uploadIndex id) uploadMetaTtlSeconds).toList,
      RedisKey.uploadMeta userId uploadId ≠ w.key := by
    intro w hw
    rcases List.mem_cons.mp hw with rfl | hw
    · simp [RedisWrite.key]
    · obtain ⟨id, _, rfl⟩ : ∃ id, state.s3UploadId = some id ∧
          .expire (.uploadIndex id) uploadMetaTtlSeconds = w := by
        simpa using hw
      simp [RedisWrite.key]
  exact (lookup_writeAll hrest).trans lookup_set

/-- The stored metadata can be read back. -/
theorem get_refresh : (r.writeAll now (FilesService.refreshTransaction userId uploadId state)).get
      now
    (.uploadMeta userId uploadId) = some (.upload state) := by
  refine get_of_lookup lookup_refresh fun t ht => ?_
  cases ht
  exact Nat.lt_add_of_pos_right (by decide)

theorem mem_of_mem_smembers {id : Id} (h : id ∈ r.smembers now key) :
    ∃ ids t, r.lookup key = some ⟨.members ids, t⟩ ∧ id ∈ ids := by
  unfold smembers get live at h
  split at h
  · rename_i ids hget
    obtain ⟨e, he, hv⟩ := Option.map_eq_some_iff.mp hget
    obtain ⟨hlook, _⟩ := Option.filter_eq_some_iff.mp he
    exact ⟨ids, e.expiresAt, by rw [hlook, ← hv], h⟩
  · cases h

theorem lookup_of_get (h : r.get now key = some value) : ∃ t, r.lookup key = some ⟨value, t⟩ := by
  obtain ⟨e, he, rfl⟩ := Option.map_eq_some_iff.mp h
  exact ⟨e.expiresAt, (Option.filter_eq_some_iff.mp he).1⟩

theorem lookup_setNX (h : k ≠ key) :
    (r.perform now (.setNX key value seconds)).1.lookup k = r.lookup k := by
  simp only [perform]
  split
  · rfl
  · exact lookup_write h

theorem lookup_compareAndDelete (h : k ≠ key) :
    (r.perform now (.compareAndDelete key token)).1.lookup k = r.lookup k := by
  simp only [perform]
  split
  · split
    · exact lookup_write h
    · rfl
  · rfl

end Redis

/-- Time passes, but not so much that the metadata of the upload runs out. -/
def keepsUpload (userId uploadId : Id) (s : SharedWorld) (n : Nat) : Bool :=
  (s.store.redis.live s.store.clock (.uploadMeta userId uploadId)).isNone ||
    (s.store.redis.live (s.store.clock + n) (.uploadMeta userId uploadId)).isSome

namespace World
variable {s : World} {userId uploadId : Id} {state : UploadMeta}

/-- The metadata of the upload that Redis holds. -/
def uploadMeta (s : World) (userId uploadId : Id) : Option RedisValue :=
  s.redis.get s.clock (.uploadMeta userId uploadId)

theorem uploadMeta_tick {s : SharedWorld} {n : Nat} (h : keepsUpload userId uploadId s n = true)
    (hs : (s.store.uploadMeta userId uploadId).isSome = true) :
    (s.store.tick n).uploadMeta userId uploadId = s.store.uploadMeta userId uploadId := by
  have hlive : (s.store.redis.live s.store.clock (.uploadMeta userId uploadId)).isSome = true := by
    simpa [uploadMeta, Redis.get] using hs
  rw [keepsUpload, ← Option.not_isSome, hlive, Bool.not_true, Bool.false_or] at h
  exact Redis.get_later (Nat.le_add_right _ n) h

theorem uploadMeta_refresh (cfg : Config) : (s.deliver cfg (.redis (.multi
    (FilesService.refreshTransaction userId uploadId state)))).1.uploadMeta userId uploadId =
      some (.upload state) :=
  Redis.get_refresh

end World
end Redbox
