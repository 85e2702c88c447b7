import Redbox.Files.UploadRoutines

/-! At most one upload of a user is active, whatever requests and jobs overlap and whatever fails.
-/
namespace Redbox
open Interleaving FilesService

section
variable {cfg : Config} {p : Nat} {s : SharedUploads} {u uploadId token i : Id} {α β : Type}
  {F : SharedUploads → Prop}
  {P : UploadRequest → Prop}

/-- One call, from wherever the others leave off. -/
theorem Gives.step {q : Request} {f : q.Answer → Routine α} {G : α → SharedUploads → Prop}
    (hF : Held (uploads cfg) locksOutlast uploadsOutline p P F) (hs : F s)
    (h : ∀ t, F t → UploadsInv t → uploadsOutline.pre t p (.backend q) ∧
      ∀ c a, (uploads cfg).reply c (.backend q) t = .ok a →
        UploadsInv ((uploads cfg).after c p (.backend q) t) →
        Grows t ((uploads cfg).after c p (.backend q) t) →
          Gives cfg p (liftUpload (f a)) G ((uploads cfg).after c p (.backend q) t)) :
    Gives cfg p (liftUpload ((Redbox.await q).bind f)) G s := by
  rw [liftUpload_bind, liftUpload_await]
  refine Meets.await hF.stable hs fun t ht hi c ha => ?_
  obtain ⟨hp, hnext⟩ := h t ht hi
  exact ⟨hp, fun a hr => hnext c a hr (uploads_kept.after hi ha hp) (hi.grows_after _),
    fun _ _ => Gives.throw⟩

/-- The calls whose events are of kind `K`, however they end. -/
def Always (p : Nat) (K : UploadEvent → Prop) (q : UploadRequest) : Prop := ∀ r, K ⟨p, q, r⟩

theorem Own.held {K : UploadEvent → Prop} :
    Held (uploads cfg) locksOutlast uploadsOutline p (Always p K) fun s => Own p K s.log :=
  Held.ownEvents fun _ r hq => hq r

theorem HoldsLock.iff_own : ended p s.log = false ↔
    Own p (fun e => UploadEvent.givesBack e = false) s.log := by
  rw [ended, List.any_eq_false]
  exact forall₂_congr fun e _ => by simp

theorem HoldsLock.held {K : UploadEvent → Prop} (hK : ∀ e, K e → UploadEvent.givesBack e = false) :
    Held (uploads cfg) locksOutlast uploadsOutline p (Always p K) fun s =>
      HoldsLock p u token s.log := by
  have own : Held (uploads cfg) locksOutlast uploadsOutline p (Always p K)
      fun s => Took p u token s.log ∧ Own p (fun e => UploadEvent.givesBack e = false) s.log :=
    (Held.growing fun _ _ hg h => h.mono hg.log).and (Held.ownEvents fun _ r hq => hK _ (hq r))
  have heq : ∀ s : SharedUploads, HoldsLock p u token s.log ↔
      Took p u token s.log ∧ Own p (fun e => UploadEvent.givesBack e = false) s.log :=
    fun s => ⟨fun h => ⟨h.took, HoldsLock.iff_own.mp h.goesOn⟩,
      fun h => ⟨h.1, HoldsLock.iff_own.mpr h.2⟩⟩
  exact ⟨fun _ _ hstep h => (heq _).mpr (own.stable hstep ((heq _).mp h)),
    fun hq hi ha hp h => (heq _).mpr (own.own hq hi ha hp ((heq _).mp h))⟩

/-- The active uploads of the user are among these. -/
def ActiveAmong (u : Id) (ids : List Id) (s : SharedUploads) : Prop :=
  ∀ e, s.store.world.redis.live s.store.world.clock (.uploadActive u) = some e → ∃ x ∈ ids,
    e.value = .members [x]

theorem ActiveAmong.congr {ids : List Id} {t : SharedUploads} (h : ActiveAmong u ids s)
    (hlook : t.store.world.redis.lookup (.uploadActive u) = s.store.world.redis.lookup
      (.uploadActive u)) (hclock : s.store.world.clock ≤ t.store.world.clock) :
    ActiveAmong u ids t := by
  intro e he
  refine h e ?_
  obtain ⟨hl, hlive⟩ := Option.filter_eq_some_iff.mp he
  refine Option.filter_eq_some_iff.mpr ⟨hlook ▸ hl, ?_⟩
  rw [Option.all_eq_true] at hlive ⊢
  exact fun x hx => decide_eq_true (Nat.lt_of_le_of_lt hclock (of_decide_eq_true (hlive x hx)))

/-- What others may write adds no active upload to those of a user whose lock the process holds. -/
theorem ActiveAmong.write {ids : List Id} {w : RedisWrite} {p' : Nat} (h : ActiveAmong u ids s)
    (hw : WriteAllowed p' s w) (hadds : ∀ x, w ≠ .sadd (.uploadActive u) x) :
    ActiveAmong u ids (withRedis s (s.store.world.redis.write s.store.world.clock w)) := by
  by_cases hkey : .uploadActive u = w.key
  case neg => exact h.congr (Redis.lookup_write hkey) (Nat.le_refl _)
  cases w with
  | set key value n => exact absurd hkey.symm (hw.2.1 u)
  | del key => exact absurd hkey.symm (hw.1 u)
  | sadd key x =>
    obtain rfl : .uploadActive u = key := hkey
    exact absurd rfl (hadds x)
  | expire key n =>
    obtain rfl : .uploadActive u = key := hkey
    intro e he
    cases hlive : s.store.world.redis.live s.store.world.clock (.uploadActive u) with
    | none =>
      simp only [withRedis, Redis.write, hlive] at he
      cases he
    | some e' =>
      have hlook := Redis.lookup_of_live he
      simp only [withRedis, Redis.write, hlive] at hlook
      cases (AList.lookup_insert _).symm.trans hlook
      exact h e' hlive
  | srem key x =>
    obtain rfl : .uploadActive u = key := hkey
    intro e he
    cases hlive : s.store.world.redis.live s.store.world.clock (.uploadActive u) with
    | none =>
      simp only [withRedis, Redis.write, hlive] at he
      cases he
    | some e' =>
      obtain ⟨y, hy, hvalue⟩ := h e' hlive
      obtain ⟨value, t⟩ := e'
      cases hvalue
      have hlook := (Redis.lookup_srem hlive).symm.trans (Redis.lookup_of_live he)
      split at hlook
      · cases hlook
      · cases hlook
        exact ⟨y, hy, rfl⟩

theorem ActiveAmong.writeAll {ids : List Id} {ws : List RedisWrite} {p' : Nat} (hi : UploadsInv s)
    (h : ActiveAmong u ids s) (hws : ∀ w ∈ ws, WriteAllowed p' s w)
    (hadds : ∀ w ∈ ws, ∀ key x, w ≠ .sadd key x) :
    ActiveAmong u ids (withRedis s (s.store.world.redis.writeAll s.store.world.clock ws)) := by
  induction ws generalizing s with
  | nil => exact h
  | cons w ws ih =>
    have hw := hws w List.mem_cons_self
    refine ih (hi.write hw) (h.write hw (hadds w List.mem_cons_self _)) (fun w' hw' => ?_)
      fun w' hw' => hadds w' (List.mem_cons_of_mem _ hw')
    exact (hws w' (List.mem_cons_of_mem _ hw')).withRedis (hadds w' (List.mem_cons_of_mem _ hw'))

/-- The calls that add no active upload of the user. -/
def AddsNone (u : Id) (q : UploadRequest) : Prop :=
  ∀ x, q ≠ .backend (.redis (.write (.sadd (.uploadActive u) x)))

theorem ActiveAmong.after {ids : List Id} {q : UploadRequest} {p' : Nat} {c : Delivery}
    (hi : UploadsInv s) (h : ActiveAmong u ids s) (hp : uploadsOutline.pre s p' q)
    (hq : AddsNone u q) : ActiveAmong u ids ((uploads cfg).after c p' q s) := by
  cases q with
  | listMultipartUploads m => cases c <;> exact h.congr rfl (Nat.le_refl _)
  | listParts key id => cases c <;> exact h.congr rfl (Nat.le_refl _)
  | backend q =>
    by_cases hredis : ∃ x, q = .redis x
    case neg =>
      obtain ⟨hr, hc⟩ := World.exec_outside_redis cfg s.store.world c fun x hx => hredis ⟨x, hx⟩
      exact h.congr (congrArg (AList.lookup _) hr) (Nat.le_of_eq hc.symm)
    obtain ⟨x, rfl⟩ := hredis
    rcases after_redis cfg p' s c x with ⟨e, heq⟩ | ⟨r, _, heq⟩
    · rw [heq]
      exact h
    rw [heq]
    have hkept : ActiveAmong u ids (withRedis s
      (s.store.world.redis.perform s.store.world.clock x).1) := by
      cases x with
      | write w =>
        exact h.write (hp.2.2 w (List.mem_singleton_self w)) fun x hx => hq x (by rw [hx])
      | multi ws => exact h.writeAll hi hp.2.2 hp.1
      | setNX key value n =>
        obtain ⟨u', t, rfl, _⟩ := hp.1
        exact h.congr (Redis.lookup_setNX (by simp)) (Nat.le_refl _)
      | compareAndDelete key t =>
        obtain ⟨u', rfl, _⟩ := hp.1
        exact h.congr (Redis.lookup_compareAndDelete (by simp)) (Nat.le_refl _)
      | _ => exact h
    exact hkept

/-- While a process holds the lock of a user, nobody else makes an upload of that user active. -/
theorem ActiveAmong.held {ids : List Id} {K : UploadEvent → Prop}
    (hK : ∀ e, K e → UploadEvent.givesBack e = false) (hadds : ∀ q, Always p K q → AddsNone u q) :
    Held (uploads cfg) locksOutlast uploadsOutline p (Always p K) fun s =>
      HoldsLock p u token s.log ∧ ActiveAmong u ids s where
  stable s s' hstep h := by
    refine ⟨(@HoldsLock.held cfg _ _ _ _ hK).stable hstep h.1, ?_⟩
    cases hstep with
    | drift => exact h.2.congr rfl (Nat.le_add_right _ _)
    | other ne hi _ hp =>
      refine h.2.after hi hp fun x heq => ?_
      subst heq
      obtain ⟨_, _, heq, hh, _⟩ := hp.2.2 _ (List.mem_singleton_self _)
      cases heq
      exact ne (hi.unique hh h.1)
  own hq hi ha hp h := ⟨(@HoldsLock.held cfg _ _ _ _ hK).own hq hi ha hp h.1,
    h.2.after hi hp (hadds _ hq)⟩

/-- What a process knows of its events while it makes room. -/
structure Inside (e : UploadEvent) : Prop where
  goesOn : UploadEvent.givesBack e = false
  unread : UploadEvent.reads e = []
  adds : UploadEvent.reserves e = none

theorem Inside.addsNone (q : UploadRequest) (h : Always p Inside q) : AddsNone u q := by
  rintro x rfl
  cases (h (.ok ())).adds

/-- The process holds the lock of the user, whose active uploads are among these. -/
def Guarded (p u token : Nat) (ids : List Id) (s : SharedUploads) : Prop :=
  HoldsLock p u token s.log ∧ ActiveAmong u ids s

theorem Guarded.held {ids : List Id} :
    Held (uploads cfg) locksOutlast uploadsOutline p (Always p Inside) (Guarded p u token ids) :=
  ActiveAmong.held (fun _ h => h.goesOn) Inside.addsNone

/-- The process has begun to make room. -/
def Looked (p : Nat) (s : SharedUploads) : Prop :=
  ¬ Own p (fun e => UploadEvent.looks e = false) s.log

theorem Looked.held : Held (uploads cfg) locksOutlast uploadsOutline p P (Looked p) :=
  Held.growing fun _ _ hg h hown => h (hown.anti hg.log)

/-- All that the process read to make room was this. -/
def ReadOnly (p u x : Id) (state : UploadMeta) (s : SharedUploads) : Prop :=
  Own p (fun e => ∀ r ∈ UploadEvent.reads e, r = (u, x, state)) s.log

theorem ReadOnly.held {x : Id} {state : UploadMeta} {K : UploadEvent → Prop}
    (hK : ∀ e, K e → UploadEvent.reads e = []) :
    Held (uploads cfg) locksOutlast uploadsOutline p (Always p K) (ReadOnly p u x state) :=
  Held.ownEvents fun q r hq => by rw [hK _ (hq r)]; exact fun _ h => by cases h

/-- After its multipart upload was aborted, an upload may be removed. -/
theorem ReadOnly.orderly {x : Id} {state : UploadMeta} {q : UploadRequest}
    (h : ReadOnly p u x state s) (ha : Aborted p state s.log) : Orderly p q s.log := by
  intro e he hp u' x' state' hr w _ _
  cases h e he hp _ hr
  exact ha

/-- The removal of a set's only member leaves none. -/
theorem ActiveAmong.srem {x : Id} (h : ActiveAmong u [x] s) :
    ActiveAmong u [] (withRedis s (s.store.world.redis.write s.store.world.clock
      (.srem (.uploadActive u) x))) := by
  intro e he
  cases hlive : s.store.world.redis.live s.store.world.clock (.uploadActive u) with
  | none =>
    simp only [withRedis, Redis.write, hlive] at he
    cases he
  | some e' =>
    obtain ⟨y, hy, hvalue⟩ := h e' hlive
    cases List.mem_singleton.mp hy
    obtain ⟨value, t⟩ := e'
    cases hvalue
    have hlook := (Redis.lookup_srem hlive).symm.trans (Redis.lookup_of_live he)
    rw [if_pos rfl] at hlook
    cases hlook

/-- What a call to Redis left, where it was answered. -/
theorem after_redis_ok {x : RedisCommand} {c : Delivery} {a : x.Answer}
    (h : (uploads cfg).reply c (.backend (.redis x)) s = .ok a) :
    a = (s.store.world.redis.perform s.store.world.clock x).2 ∧
      (uploads cfg).after c p (.backend (.redis x)) s =
        ⟨(withRedis s (s.store.world.redis.perform s.store.world.clock x).1).store,
          ⟨p, .backend (.redis x), .ok a⟩ :: s.log⟩ := by
  cases c <;> cases h <;> exact ⟨rfl, rfl⟩

/-- The upload that makes room was made by another process, and goes in the right order. -/
theorem abortActiveUpload_gives {x p' : Id} {state : UploadMeta} (hs : Guarded p u token [x] s)
    (hread : ReadOnly p u x state s) (htracked : Tracked x state p' s) (hne : p' ≠ p) :
    Gives cfg p (liftUpload (abortActiveUpload u x state)) (fun _ t => ActiveAmong u [] t) s := by
  have known : Held (uploads cfg) locksOutlast uploadsOutline p (Always p Inside)
      fun t => Guarded p u token [x] t ∧ ReadOnly p u x state t ∧ Tracked x state p' t :=
    Guarded.held.and ((ReadOnly.held fun _ h => h.unread).and Tracked.held)
  have aborted : Held (uploads cfg) locksOutlast uploadsOutline p (Always p Inside)
      fun t => Aborted p state t.log ∧ Guarded p u token [x] t ∧ ReadOnly p u x state t ∧
        Tracked x state p' t :=
    (Held.growing fun _ _ hg h => hg.log h).and known
  obtain ⟨i, t, hi3, hcreated, hle⟩ := htracked.created
  have rest : ∀ t, Aborted p state t.log ∧ Guarded p u token [x] t ∧ ReadOnly p u x state t ∧
    Tracked x state p' t →
      Gives cfg p (liftUpload ((await (.redis (.write (.del (.uploadMeta u x))))).bind fun _ =>
        releaseActiveUpload u x))
        (fun _ t => ActiveAmong u [] t) t := by
    intro t ht
    refine Gives.call aborted (fun _ => ⟨rfl, rfl, rfl⟩) ht fun t ⟨ha, _, hread, _⟩ _ =>
      ⟨pre_write trivial (hread.orderly ha) .delMeta, fun _ _ _ ht _ => ?_⟩
    rw [releaseActiveUpload, ← Prog.bind_ret (await _)]
    refine Gives.call aborted (fun _ => ⟨rfl, rfl, rfl⟩) ht fun t ⟨ha, hg, hread, htracked⟩ hi =>
      ⟨?_, fun c _ hr ht' _ => ?_⟩
    · exact pre_write trivial (hread.orderly ha) ⟨u, rfl,
        .inr ⟨token, hg.1, p', hne, htracked.drew⟩⟩
    · have hgone : ActiveAmong u []
          ((uploads cfg).after c p (.backend (.redis (.write (.srem (.uploadActive u) x)))) t) := by
        rw [(after_redis_ok hr).2]
        exact hg.2.srem
      exact Gives.ret (@Guarded.held cfg p u token []) ⟨ht'.2.1.1, hgone⟩ fun _ h => h.2
  unfold abortActiveUpload
  split
  · refine Gives.call known (fun _ => ⟨rfl, rfl, rfl⟩) ⟨hs, hread, htracked⟩ fun t _ _ =>
      ⟨pre_of_writes_nil trivial rfl, ?_⟩
    intro c _ hr ht' _
    have ha : Aborted p state ((uploads cfg).after c p (.backend (.s3 .files
        (.abortMultipartUpload state.storageKey state.s3UploadId))) t).log := by
      rw [Aborted, System.after, hr]
      exact List.mem_cons_self
    have hdel : delUploadIndex state.s3UploadId =
        await (.redis (.write (.del (.uploadIndex i)))) := by rw [hi3]; rfl
    rw [hdel]
    refine Gives.call aborted (fun _ => ⟨rfl, rfl, rfl⟩) ⟨ha, ht'⟩ fun t ⟨ha, _, hread, _⟩ _ =>
      ⟨pre_write trivial (hread.orderly ha) .delIndex, fun _ _ _ ht _ => rest _ ht⟩
  · rename_i hnone
    simp [hi3] at hnone

/-- Before it makes room, a process knows nothing of the uploads of others. -/
structure Outside (e : UploadEvent) : Prop where
  inside : Inside e
  looks : UploadEvent.looks e = false

/-- The members of a set that the process reads are uploads of others. -/
theorem others_of_live {e : RedisEntry} (hi : UploadsInv s) (hown : Own p Outside s.log)
    (h : s.store.world.redis.live s.store.world.clock (.uploadActive u) = some e) :
    ∃ x, e.value = .members [x] ∧ Others p x s.log := by
  obtain ⟨x, p', hvalue, hdrew, hlooked⟩ := hi.stored (Redis.lookup_of_live h)
  refine ⟨x, hvalue, p', ?_, hdrew⟩
  rintro rfl
  exact hlooked (hown.imp fun _ h => h.looks)

theorem HoldsLock.grow {log : List UploadEvent} {e : UploadEvent} (h : HoldsLock p u token log)
    (he : UploadEvent.givesBack e = false) : HoldsLock p u token (e :: log) := by
  refine ⟨h.took.mono (List.subset_cons_self _ _), ?_⟩
  rw [ended_cons, he, Bool.and_false, h.goesOn, Bool.or_false]

/-- The members of the set, of which there is at most one. -/
theorem smembers_cases (hi : UploadsInv s) (hown : Own p Outside s.log) :
    (s.store.world.redis.smembers s.store.world.clock (.uploadActive u) = [] ∧ ActiveAmong u [] s) ∨
    ∃ x, s.store.world.redis.smembers s.store.world.clock (.uploadActive u) = [x] ∧
    ActiveAmong u [x] s ∧ Others p x s.log := by
  cases hlive : s.store.world.redis.live s.store.world.clock (.uploadActive u) with
  | none =>
    refine .inl ⟨by rw [Redis.smembers, Redis.get, hlive]; rfl, fun e he => ?_⟩
    cases hlive.symm.trans he
  | some e =>
    obtain ⟨x, hvalue, hother⟩ := others_of_live hi hown hlive
    refine .inr ⟨x, by rw [Redis.smembers, Redis.get, hlive, Option.map_some, hvalue],
      fun e' he' => ?_, hother⟩
    cases hlive.symm.trans he'
    exact ⟨x, List.mem_singleton_self x, hvalue⟩

theorem candidates_none {x : Id} : candidates ([x].zip [none]) = [] := by simp [candidates]

theorem candidates_upload {x : Id} {state : UploadMeta} :
    candidates ([x].zip [some (.upload state)]) = [(x, state)] := by simp [candidates]

theorem Unread.inside : Held (uploads cfg) locksOutlast uploadsOutline p (Always p Inside)
    (Unread p) :=
  Held.ownEvents fun _ r hq => (hq r).unread

/-- An upload whose metadata is gone leaves the set. -/
theorem removeStale_gives {x : Id} (hs : Guarded p u token [x] s) (hlooked : Looked p s)
    (hother : Others p x s.log) (hread : Unread p s) :
    Gives cfg p (liftUpload ((await (.redis (.multi [.srem (.uploadActive u) x]))).bind fun _ =>
      .ret ()))
      (fun _ t => Guarded p u token [] t ∧ Looked p t) s := by
  have known : Held (uploads cfg) locksOutlast uploadsOutline p (Always p Inside)
      fun t => Guarded p u token [x] t ∧ Looked p t ∧ Others p x t.log ∧ Unread p t :=
    Guarded.held.and (Looked.held.and
      ((Held.growing fun _ _ hg h => h.mono hg.log).and Unread.inside))
  refine Gives.call known (fun _ => ⟨rfl, rfl, rfl⟩) ⟨hs, hlooked, hother, hread⟩ fun t ⟨hg, _,
    hother, hread⟩ _ =>
    ⟨⟨?_, hread.orderly, ?_⟩, fun c _ hr ht' _ => ?_⟩
  · intro w hw key member heq
    cases List.mem_singleton.mp hw
    cases heq
  · intro w hw
    cases List.mem_singleton.mp hw
    exact ⟨u, rfl, .inr ⟨token, hg.1, hother⟩⟩
  · have hgone : ActiveAmong u [] ((uploads cfg).after c p
      (.backend (.redis (.multi [.srem (.uploadActive u) x]))) t) := by
      rw [(after_redis_ok hr).2]
      exact hg.2.srem
    exact Gives.ret (Guarded.held.and Looked.held) ⟨⟨ht'.1.1, hgone⟩, ht'.2.1⟩ fun _ h => h

/-- An upload whose metadata was read is aborted. -/
theorem removeOldest_gives {x p' : Id} {state : UploadMeta} (hs : Guarded p u token [x] s)
    (hlooked : Looked p s) (hread : ReadOnly p u x state s) (htracked : Tracked x state p' s)
    (hne : p' ≠ p) :
    Gives cfg p (liftUpload (Prog.forEach [(x, state)] fun x => abortActiveUpload u x.1 x.2))
      (fun _ t => Guarded p u token [] t ∧ Looked p t) s := by
  have body : Gives cfg p (liftUpload (abortActiveUpload u x state)) (fun _ t =>
    Guarded p u token [] t ∧ Looked p t) s := by
    have inside : (abortActiveUpload u x state).Calls fun q => Always p Inside (.backend q) := by
      have rest : (do
          await (.redis (.write (.del (.uploadMeta u x))))
          releaseActiveUpload u x : Routine Unit).Calls fun q => Always p Inside (.backend q) :=
        .bind (.await fun _ => ⟨rfl, rfl, rfl⟩) fun _ => .await fun _ => ⟨rfl, rfl, rfl⟩
      refine .ite (.bind (.await fun _ => ⟨rfl, rfl, rfl⟩) fun _ => .bind ?_ fun _ => rest) rest
      unfold delUploadIndex
      split
      · exact .await fun _ => ⟨rfl, rfl, rfl⟩
      · trivial
    have lifted : (liftUpload (abortActiveUpload u x state)).Calls (Always p Inside) :=
      inside.expand fun q hq => ⟨hq, fun _ => trivial⟩
    have held : Held (uploads cfg) locksOutlast uploadsOutline p (Always p Inside)
        fun t => HoldsLock p u token t.log ∧ Looked p t :=
          (HoldsLock.held fun _ h => h.goesOn).and Looked.held
    have carried := Meets.carry held lifted (abortActiveUpload_gives hs hread htracked hne)
      ⟨hs.1, hlooked⟩
    exact Meets.mono carried fun r t _ ht a ha => ⟨⟨ht.2.1, ht.1 a ha⟩, ht.2.2⟩
  exact Gives.seq body fun _ t _ ht => Gives.ret (Guarded.held.and Looked.held) ht fun _ h => h

/-- Where a process has made room, no upload of the user is active. -/
theorem makeRoomForActiveUpload_gives (hs : HoldsLock p u token s.log)
    (hown : Own p Outside s.log) :
    Gives cfg p (liftUpload (makeRoomForActiveUpload u))
    (fun _ t => Guarded p u token [] t ∧ Looked p t) s := by
  have start : Held (uploads cfg) locksOutlast uploadsOutline p (Always p Outside)
      fun t => HoldsLock p u token t.log ∧ Own p Outside t.log :=
        (HoldsLock.held fun _ h => h.inside.goesOn).and Own.held
  refine Gives.step start ⟨hs, hown⟩ fun t ⟨hh, hown⟩ hi => ⟨pre_of_writes_nil trivial rfl,
    fun c uploadIds hr hi' hg => ?_⟩
  obtain ⟨hids, hafter⟩ := after_redis_ok (p := p) hr
  have hlooked : Looked p ((uploads cfg).after c p (.backend (.redis (.smembers (.uploadActive u))))
    t) := by
    rw [hafter]
    exact fun hown => by cases hown _ List.mem_cons_self rfl
  have hread : Unread p ((uploads cfg).after c p (.backend (.redis (.smembers (.uploadActive u))))
    t) := by
    rw [hafter]
    exact (hown.imp fun _ h => h.inside.unread).cons fun _ => rfl
  have hh' : HoldsLock p u token ((uploads cfg).after c p
    (.backend (.redis (.smembers (.uploadActive u)))) t).log := by
    rw [hafter]
    exact hh.grow rfl
  have hcases : (uploadIds = [] ∧ ActiveAmong u []
    ((uploads cfg).after c p (.backend (.redis (.smembers (.uploadActive u)))) t)) ∨
      ∃ x, uploadIds = [x] ∧ ActiveAmong u [x]
        ((uploads cfg).after c p (.backend (.redis (.smembers (.uploadActive u)))) t) ∧
        Others p x t.log := by
    rw [hids, hafter]
    exact smembers_cases hi hown
  clear hafter hids hr
  generalize (uploads cfg).after c p (.backend (.redis (.smembers (.uploadActive u)))) t = t₁ at *
  rcases hcases with ⟨rfl, hnone⟩ | ⟨x, rfl, hone, hother⟩
  · exact Gives.ret (Guarded.held.and Looked.held) ⟨⟨hh', hnone⟩, hlooked⟩ fun _ h => h
  have known : Held (uploads cfg) locksOutlast uploadsOutline p (Always p Inside)
      fun t => Guarded p u token [x] t ∧ Looked p t ∧ Others p x t.log ∧ Unread p t :=
    Guarded.held.and (Looked.held.and
      ((Held.growing fun _ _ hg h => h.mono hg.log).and Unread.inside))
  refine Gives.step known ⟨⟨hh', hone⟩, hlooked, hother.mono hg.log, hread⟩ fun t ⟨⟨hh, hone⟩,
    hlooked, hother, hread⟩ hi =>
    ⟨pre_of_writes_nil ?_ rfl, fun c values hr hi' hg => ?_⟩
  · intro key hkey
    cases List.mem_singleton.mp hkey
    exact ⟨u, x, rfl, hother⟩
  obtain ⟨hvalues, hafter⟩ := after_redis_ok (p := p) hr
  rw [hafter]
  have hlooked : Looked p ⟨t.store,
    ⟨p, .backend (.redis (.mget [.uploadMeta u x])), .ok values⟩ :: t.log⟩ :=
    fun hown => hlooked (hown.anti (List.subset_cons_self _ _))
  have hguard : Guarded p u token [x] ⟨t.store,
    ⟨p, .backend (.redis (.mget [.uploadMeta u x])), .ok values⟩ :: t.log⟩ :=
    ⟨hh.grow rfl, hone⟩
  have hother := hother.mono (List.subset_cons_self ⟨p, .backend (.redis (.mget [.uploadMeta u x])),
    .ok values⟩ t.log)
  cases hget : t.store.world.redis.get t.store.world.clock (.uploadMeta u x) with
  | none =>
    obtain rfl : values = [none] := hvalues.trans (congrArg (· :: []) hget)
    have hunread : Unread p ⟨t.store,
      ⟨p, .backend (.redis (.mget [.uploadMeta u x])), .ok [none]⟩ :: t.log⟩ :=
      hread.cons fun _ => rfl
    have hdone := @removeStale_gives cfg p _ u token x hguard hlooked hother hunread
    have hstale : staleUploadIds ([x].zip [(none : Option RedisValue)]) = [x] := rfl
    have hmalformed : malformedUploadIds ([x].zip [(none : Option RedisValue)]) = [] := rfl
    simp only [hstale, hmalformed, candidates_none, ne_eq, List.cons_ne_nil, not_false_eq_true,
      if_true, not_true_eq_false,
      if_false, List.take_nil, Prog.forEach]
    exact hdone
  | some value =>
    obtain ⟨time, hlook⟩ := Redis.lookup_of_get hget
    obtain ⟨state, p', rfl, htracked⟩ := hi.stored hlook
    obtain rfl : values = [some (.upload state)] := hvalues.trans (congrArg (· :: []) hget)
    have hread : ReadOnly p u x state ⟨t.store,
      ⟨p, .backend (.redis (.mget [.uploadMeta u x])), .ok [some (.upload state)]⟩ :: t.log⟩ := by
      refine Own.cons (fun e he hp r hr => ?_) fun _ r hr => List.mem_singleton.mp hr
      rw [hread e he hp] at hr
      cases hr
    obtain ⟨p'', hne, hdrew⟩ := hother
    have htracked : Tracked x state p' ⟨t.store,
      ⟨p, .backend (.redis (.mget [.uploadMeta u x])), .ok [some (.upload state)]⟩ :: t.log⟩ :=
      htracked.grows .record
    have hne : p' ≠ p := by
      rw [hafter] at hi'
      exact hi'.once hdrew htracked.drew ▸ hne
    have hdone := @removeOldest_gives cfg p _ u token x p' state hguard hlooked hread htracked hne
    have hstale : staleUploadIds ([x].zip [some (.upload state)]) = [] := rfl
    have hmalformed : malformedUploadIds ([x].zip [some (.upload state)]) = [] := rfl
    simp only [hstale, hmalformed, candidates_upload, ne_eq, not_true_eq_false, if_false]
    exact hdone

/-- What goes to the name that a process has drawn is none of what it read of others. -/
theorem orderly_own {w : RedisWrite} {x : Id} (hi : UploadsInv s)
    (hw : w = .del (.uploadMeta u x) ∧ Drew p x s.log ∨
      w = .del (.uploadIndex x) ∧ Created p x s.log) :
        Orderly p (.backend (.redis (.write w))) s.log := by
  intro e he hp u' x' state hr w' hw' hremoves
  cases List.mem_singleton.mp hw'
  obtain ⟨p', hne, htracked⟩ := hi.reads e he u' x' state hr
  rw [hp] at hne
  rcases hw with ⟨rfl, hdrew⟩ | ⟨rfl, hcreated⟩
  · obtain ⟨_, rfl⟩ := of_decide_eq_true hremoves
    exact absurd (hi.once htracked.drew hdrew) hne
  · obtain ⟨i, t, hi3, hcreated', _⟩ := htracked.created
    cases (of_decide_eq_true hremoves).symm.trans hi3
    exact absurd (hi.once (Drew.of_created hcreated'.1) (Drew.of_created hcreated)) hne

theorem orderly_of_not_removes {w : RedisWrite} (hw : ∀ u x state, w.removes u x state = false) :
    Orderly p (.backend (.redis (.write w))) s.log := by
  intro e he hp u' x' state hr w' hw' hremoves
  cases List.mem_singleton.mp hw'
  cases (hw u' x' state).symm.trans hremoves

/-- The new upload becomes active once no other is. -/
theorem reserveActiveUpload_gives (hs : HoldsLock p u token s.log) (hown : Own p Outside s.log)
    (hdrew : Drew p uploadId s.log) :
    Gives cfg p (liftUpload (reserveActiveUpload u uploadId)) (fun _ _ => True) s := by
  have drew : Held (uploads cfg) locksOutlast uploadsOutline p (fun _ => True) fun t =>
      Drew p uploadId t.log :=
    Held.growing fun _ _ hg h => h.mono hg.log
  refine Gives.seq (Meets.mono (Meets.carry drew (Prog.calls_true _)
    (makeRoomForActiveUpload_gives hs hown) hdrew)
    fun r t _ ht a ha => (⟨ht.1 a ha, ht.2⟩ : (Guarded p u token [] t ∧ Looked p t) ∧
      Drew p uploadId t.log)) fun _ t _ ht => ?_
  have ready : Held (uploads cfg) locksOutlast uploadsOutline p (Always p Inside)
      fun t => (Guarded p u token [] t ∧ Looked p t) ∧ Drew p uploadId t.log :=
    (Guarded.held.and Looked.held).and (Held.growing fun _ _ hg h => h.mono hg.log)
  refine Gives.step ready ht fun t ⟨⟨hguard, hlooked⟩, hdrew⟩ hi => ⟨?_, fun c _ hr hi' hg => ?_⟩
  · refine pre_write trivial (orderly_of_not_removes fun _ _ _ => rfl) ⟨u, token, rfl, hguard.1,
      hdrew, hlooked, ?_⟩
    cases hlive : t.store.world.redis.live t.store.world.clock (.uploadActive u) with
    | none => rfl
    | some e =>
      obtain ⟨x, hx, _⟩ := hguard.2 e hlive
      cases hx
  · obtain ⟨_, hafter⟩ := after_redis_ok (p := p) hr
    rw [hafter]
    have reserved : Held (uploads cfg) locksOutlast uploadsOutline p (Always p fun e =>
      UploadEvent.givesBack e = false)
        fun t => HoldsLock p u token t.log ∧ Reserved p u uploadId t.log :=
      (HoldsLock.held fun _ h => h).and (Held.growing fun _ _ hg h => h.mono hg.log)
    rw [← Prog.bind_ret (await _)]
    refine Gives.call reserved (fun _ => rfl) ⟨hguard.1.grow rfl, _, List.mem_cons_self, rfl,
      rfl⟩ fun t ⟨hh, hr⟩ _ =>
      ⟨?_, fun _ _ _ ht _ => Gives.ret reserved ht fun _ _ => trivial⟩
    exact pre_write ⟨token, uploadId, hh, hr⟩ (orderly_of_not_removes fun _ _ _ => rfl) ⟨rfl,
      fun _ h => RedisKey.noConfusion h⟩

/-- What was registered of the new upload may be undone. -/
theorem undoRegistration_gives {state : UploadMeta} {created : Bool} {e : Thrown}
    {G : Unit → SharedUploads → Prop} (hdrew : Drew p uploadId s.log)
    (hcreated : Created p i s.log) :
    Gives cfg p (liftUpload (undoRegistration u uploadId state i created e)) G s := by
  have known : Held (uploads cfg) locksOutlast uploadsOutline p (fun _ => True)
      fun t => Drew p uploadId t.log ∧ Created p i t.log :=
    Held.growing fun _ _ hg h => ⟨h.1.mono hg.log, h.2.mono hg.log⟩
  have delIndex : ∀ t, Drew p uploadId t.log ∧ Created p i t.log →
      Gives cfg p (liftUpload ((await (.redis (.write (.del (.uploadIndex i))))).bind fun _ =>
        .throw e : Routine Unit)) G t :=
    fun t ht => Gives.call known trivial ht fun t ht hi =>
      ⟨pre_write trivial (orderly_own (u := u) hi (.inr ⟨rfl, ht.2⟩)) .delIndex,
        fun _ _ _ _ _ => Gives.throw⟩
  refine Gives.seq (G := fun _ t => Drew p uploadId t.log ∧ Created p i t.log) ?_ fun _ t _ ht => ?_
  · rw [ignoring, Prog.tryCatch_eq, liftUpload_handle, abortMultipartUpload,
      ← Prog.bind_ret (await _)]
    refine Gives.attempt known (Prog.calls_true _) ⟨hdrew, hcreated⟩ ?_ fun _ t ht _ =>
      Gives.ret known ht fun _ h => h
    exact Gives.call known trivial ⟨hdrew, hcreated⟩ fun t _ _ => ⟨pre_of_writes_nil trivial rfl,
      fun _ _ _ ht _ => Gives.ret known ht fun _ h => h⟩
  · split
    · exact Gives.call known trivial ht fun t ht hi =>
        ⟨pre_write trivial (orderly_own hi (.inl ⟨rfl, ht.1⟩)) .delMeta,
          fun _ _ _ ht _ => delIndex _ ht⟩
    · exact delIndex t ht

/-- The metadata and the index entry of the new upload are stored, and it becomes active. -/
theorem registerUpload_gives {state : UploadMeta} (hs : HoldsLock p u token s.log)
    (hown : Own p Outside s.log) (htracked : Tracked uploadId state p s)
    (hcreated : Created p i s.log) :
    Gives cfg p (liftUpload (registerUpload u uploadId state i)) (fun _ _ => True) s := by
  have known : Held (uploads cfg) locksOutlast uploadsOutline p (fun _ => True)
      fun t => Drew p uploadId t.log ∧ Created p i t.log :=
    Held.growing fun _ _ hg h => ⟨h.1.mono hg.log, h.2.mono hg.log⟩
  have start : Held (uploads cfg) locksOutlast uploadsOutline p (Always p Outside)
      fun t => HoldsLock p u token t.log ∧ Own p Outside t.log ∧ Tracked uploadId state p t ∧
        Created p i t.log :=
    (HoldsLock.held fun _ h => h.inside.goesOn).and
      (Own.held.and (Tracked.held.and (Held.growing fun _ _ hg h => h.mono hg.log)))
  refine Gives.seq (G := fun _ t => HoldsLock p u token t.log ∧ Own p Outside t.log ∧
    Tracked uploadId state p t ∧ Created p i t.log)
    ?_ fun _ t _ ht => ?_
  · rw [Prog.tryCatch_eq, liftUpload_handle, ← Prog.bind_ret (await _)]
    refine Gives.attempt known (Prog.calls_true _) ⟨htracked.drew, hcreated⟩ ?_ fun e t ht _ => ?_
    · refine Gives.call start (fun _ => ⟨⟨rfl, rfl, rfl⟩, rfl⟩) ⟨hs, hown, htracked,
        hcreated⟩ fun t ht _ =>
        ⟨?_, fun _ _ _ ht _ => Gives.ret start ht fun _ h => h⟩
      exact pre_write trivial (orderly_of_not_removes fun _ _ _ => rfl)
        ⟨⟨state, p, rfl, ht.2.2.1⟩, fun _ h => RedisKey.noConfusion h,
          fun _ h => RedisKey.noConfusion h⟩
    · exact undoRegistration_gives ht.1 ht.2
  · rw [Prog.tryCatch_eq, liftUpload_handle]
    refine Gives.attempt known (Prog.calls_true _) ⟨ht.2.2.1.drew, ht.2.2.2⟩ ?_ fun e t ht _ =>
      undoRegistration_gives ht.1 ht.2
    refine Gives.call start (fun _ => ⟨⟨rfl, rfl, rfl⟩, rfl⟩) ht fun t ht _ =>
      ⟨?_, fun _ _ _ ht _ => ?_⟩
    · exact pre_write trivial (orderly_of_not_removes fun _ _ _ => rfl)
        ⟨⟨u, uploadId, p, rfl, ht.2.2.1.drew, ht.2.2.2⟩, fun _ h => RedisKey.noConfusion h,
          fun _ h => RedisKey.noConfusion h⟩
    · exact reserveActiveUpload_gives ht.1 ht.2.1 ht.2.2.1.drew

/-- Giving the lock back. -/
theorem releaseUploadInitLock_gives {G : Unit → SharedUploads → Prop} (hdrew : Drew p token s.log)
    (hG : ∀ t, Drew p token t.log → G () t) :
    Gives cfg p (liftUpload (ignoring
      (await (.redis (.compareAndDelete (.uploadInitLock u) token))))) G s := by
  have known : Held (uploads cfg) locksOutlast uploadsOutline p (fun _ => True) fun t =>
      Drew p token t.log :=
    Held.growing fun _ _ hg h => h.mono hg.log
  rw [ignoring, Prog.tryCatch_eq, liftUpload_handle, ← Prog.bind_ret (await _)]
  refine Gives.attempt known (Prog.calls_true _) hdrew ?_ fun _ t ht _ => Gives.ret known ht hG
  exact Gives.call known trivial hdrew fun t ht _ => ⟨pre_of_writes_nil ⟨u, rfl, ht⟩ rfl,
    fun _ _ _ ht _ => Gives.ret known ht hG⟩

/-- A process that has done nothing yet follows the outline. -/
theorem initializeUpload_gives {dto : InitUploadDto} (hs : Own p Unlocked s.log) :
    Gives cfg p (liftUpload (initializeUpload cfg u dto)) (fun _ _ => True) s := by
  have early : Held (uploads cfg) locksOutlast uploadsOutline p (Always p Unlocked) fun t =>
      Own p Unlocked t.log := Own.held
  have unlocked_random : Always p Unlocked (.backend .random) := by
    intro r
    exact ⟨rfl, rfl, rfl, rfl, rfl, rfl⟩
  refine Gives.seq (G := fun _ t => Own p Unlocked t.log) ?_ fun _ t _ ht => Gives.check fun _ => ?_
  · refine Gives.call early (fun r => ⟨rfl, rfl, rfl, rfl, rfl, rfl⟩) hs fun t _ _ =>
      ⟨pre_of_writes_nil trivial rfl, fun _ value _ ht _ => ?_⟩
    split
    · exact Gives.ret early ht fun _ h => h
    · exact Gives.throw
  refine Gives.call early (fun r => ⟨rfl, rfl, rfl, rfl, rfl, rfl⟩) ht fun t _ _ =>
    ⟨pre_of_writes_nil trivial rfl, fun _ _ _ ht _ => ?_⟩
  refine Gives.call (q := .random) early unlocked_random ht fun t _ _ =>
    ⟨pre_of_writes_nil trivial rfl, fun c uploadId hr ht _ => ?_⟩
  have hdrew : Drew p uploadId ((uploads cfg).after c p (.backend .random) t).log :=
    ⟨_, List.mem_cons_self, rfl, by rw [hr]; rfl⟩
  have named : Held (uploads cfg) locksOutlast uploadsOutline p (Always p Unlocked)
      fun t => Drew p uploadId t.log ∧ Own p Unlocked t.log :=
        (Held.growing fun _ _ hg h => h.mono hg.log).and Own.held
  refine Gives.call (q := .random) named unlocked_random ⟨hdrew, ht⟩ fun t _ _ =>
    ⟨pre_of_writes_nil trivial rfl, fun _ storageKey _ ht _ => ?_⟩
  refine Gives.call (q := .random) named unlocked_random ht fun t _ _ =>
    ⟨pre_of_writes_nil trivial rfl, fun _ salt _ ht _ => ?_⟩
  refine Gives.seq (G := fun token t => Drew p token t.log ∧ Drew p uploadId t.log ∧
    HoldsLock p u token t.log ∧ Own p Outside t.log) ?_
    fun token t _ ht => ?_
  · refine Gives.call (q := .random) named unlocked_random ht fun t _ _ =>
      ⟨pre_of_writes_nil trivial rfl, fun c token hr ht _ => ?_⟩
    have htoken : Drew p token ((uploads cfg).after c p (.backend .random) t).log :=
      ⟨_, List.mem_cons_self, rfl, by rw [hr]; rfl⟩
    have both : Held (uploads cfg) locksOutlast uploadsOutline p (Always p Unlocked)
        fun t => Drew p token t.log ∧ Drew p uploadId t.log ∧ Own p Unlocked t.log :=
      (Held.growing fun _ _ hg h => h.mono hg.log).and named
    refine Gives.step both ⟨htoken, ht⟩ fun t ht _ =>
      ⟨pre_of_writes_nil ⟨u, token, rfl, rfl, rfl, ht.1, ht.2.2⟩ rfl,
      fun c acquired hr _ hg => Gives.check fun hacquired => ?_⟩
    obtain ⟨_, hafter⟩ := after_redis_ok (p := p) hr
    obtain rfl : acquired = true := by simpa using hacquired
    have locked : Held (uploads cfg) locksOutlast uploadsOutline p (Always p Outside) fun t =>
        Drew p token t.log ∧ Drew p uploadId t.log ∧ HoldsLock p u token t.log ∧
          Own p Outside t.log :=
      (Held.growing fun _ _ hg h => h.mono hg.log).and
        ((Held.growing fun _ _ hg h => h.mono hg.log).and
        ((HoldsLock.held fun _ h => h.inside.goesOn).and Own.held))
    refine Gives.ret locked ⟨ht.1.mono hg.log, ht.2.1.mono hg.log, ?_⟩ fun _ h => h
    rw [hafter]
    refine ⟨⟨⟨_, List.mem_cons_self, rfl, rfl⟩, ?_⟩, (ht.2.2.imp fun e he => ?_).cons fun _ =>
      ⟨⟨rfl, rfl, rfl⟩, rfl⟩⟩
    · exact HoldsLock.iff_own (s :=
        ⟨s.store, _⟩) |>.mpr ((ht.2.2.imp fun _ he => he.2.2.2.1).cons fun _ => rfl)
    · exact ⟨⟨he.2.2.2.1, he.2.2.2.2.2, he.2.2.1⟩, he.2.2.2.2.1⟩
  have known : Held (uploads cfg) locksOutlast uploadsOutline p (fun _ => True) fun t =>
      Drew p token t.log :=
    Held.growing fun _ _ hg h => h.mono hg.log
  refine Gives.seq (G := fun _ t => Drew p token t.log) ?_ fun _ t _ ht => ?_
  · rw [Prog.tryCatch_eq, liftUpload_handle]
    refine Gives.attempt known (Prog.calls_true _) ht.1 ?_ fun e t ht _ =>
      Gives.seq (G := fun _ _ => True) (releaseUploadInitLock_gives ht fun _ _ => trivial)
        fun _ _ _ _ => Gives.throw
    have locked : Held (uploads cfg) locksOutlast uploadsOutline p (Always p Outside) fun t =>
        Drew p token t.log ∧ Drew p uploadId t.log ∧ HoldsLock p u token t.log ∧
          Own p Outside t.log :=
      (Held.growing fun _ _ hg h => h.mono hg.log).and
        ((Held.growing fun _ _ hg h => h.mono hg.log).and
        ((HoldsLock.held fun _ h => h.inside.goesOn).and Own.held))
    refine Gives.call locked (fun _ => ⟨⟨rfl, rfl, rfl⟩, rfl⟩) ht fun t ht hi =>
      ⟨pre_of_writes_nil ⟨u, token, ht.2.2.1⟩ rfl, fun c s3UploadId hr ht' hi' => ?_⟩
    have hcreated : Created p s3UploadId
        ((uploads cfg).after c p (.backend (.s3 .files (.createMultipartUpload storageKey)))
      t).log :=
      ⟨_, List.mem_cons_self, rfl, by rw [hr]; rfl⟩
    have started : Held (uploads cfg) locksOutlast uploadsOutline p (Always p Outside) fun t =>
        (Drew p token t.log ∧ Drew p uploadId t.log ∧ HoldsLock p u token t.log ∧
          Own p Outside t.log) ∧ Created p s3UploadId t.log :=
      locked.and (Held.growing fun _ _ hg h => h.mono hg.log)
    refine Gives.call (q := .now) started (fun _ => ⟨⟨rfl, rfl, rfl⟩, rfl⟩) ⟨ht',
      hcreated⟩ fun t ht hi =>
      ⟨pre_of_writes_nil trivial rfl, fun c now hnow ht' _ => ?_⟩
    have htracked : Tracked uploadId (newUploadMeta dto ((dto.password.filter (· ≠ "")).map fun p =>
      cfg.bcryptHash p salt)
        storageKey s3UploadId now) p ((uploads cfg).after c p (.backend .now) t) := by
      obtain ⟨⟨created, hdate, hle⟩, _⟩ := hi.created ht.2
      refine Tracked.grows ⟨ht.1.2.1, s3UploadId, created, rfl, ⟨ht.2, hdate⟩,
        ?_⟩ (hi.grows_after _)
      rw [(reply_now (p := p) hnow).1]
      exact hle
    have token : Held (uploads cfg) locksOutlast uploadsOutline p (fun _ => True) fun t =>
        Drew p token t.log := known
    exact Meets.mono (Meets.carry token (Prog.calls_true _)
      (registerUpload_gives ht'.1.2.2.1 ht'.1.2.2.2 htracked ht'.2) ht'.1.1) fun _ _ _ h _ _ => h.2
  · exact Gives.seq (G := fun _ _ => True) (releaseUploadInitLock_gives ht fun _ _ => trivial)
      fun _ _ _ _ =>
      Gives.ret (P := fun _ => True) (Held.const True) trivial fun _ _ => trivial

/-- Whoever had drawn a name that is handed out has given its lock back. -/
theorem settled_of_handedOut (h : handedOut s uploadId = true) : Settled uploadId s := by
  simp only [handedOut, Bool.and_eq_true, decide_eq_true_eq] at h
  refine ⟨h.1, fun p' ⟨e, he, hp, hdraws⟩ => ?_⟩
  have hall := List.all_eq_true.mp h.2 e he
  simpa [hdraws, hp] using hall

/-- Every request and job follows the outline. -/
theorem uploads_starts (s : SharedUploads) (p : Nat) (op : UploadOperation)
    (hop : locksOutlast.starts s op = true) (hp : ∀ e ∈ s.log, e.pid ≠ p) :
    Gives cfg p (op.program cfg) (fun _ _ => True) s := by
  have hread : Unread p s := fun e he heq => absurd heq (hp e he)
  have returns : ∀ {α : Type} {x : UploadRoutine α}, Gives cfg p x (fun _ _ => True) s →
      Gives cfg p (x.bind fun _ => .ret ()) (fun _ _ => True) s := fun hx =>
    Gives.bind hx fun _ _ _ _ => Gives.ret (P := fun _ => True) (Held.const True) trivial fun _ _ =>
      trivial
  cases op with
  | initializeUpload userId dto =>
    exact returns (initializeUpload_gives fun e he heq => absurd heq (hp e he))
  | handleChunk userId uploadId file chunkIndex => exact handleChunk_gives hread
  | finalizeUpload userId uploadId dto =>
    exact returns (withdraws_follows finalizeUpload_withdraws hread (settled_of_handedOut hop))
  | cancelUpload userId uploadId =>
    exact withdraws_follows cancelUpload_withdraws hread (settled_of_handedOut hop)
  | cleanupStaleMultipartUploads pages =>
    have past : Held (uploads cfg) locksOutlast uploadsOutline p NoMget fun t => Unread p t :=
      Unread.held
    refine Gives.attempt (P := fun _ => True) (Held.const True) (Prog.calls_true _) trivial ?_
      fun _ t _ _ =>
      Gives.ret (P := fun _ => True) (Held.const True) trivial fun _ _ => trivial
    refine Gives.await (q := .backend .now) past (fun _ heq => by cases heq) hread fun t _ _ =>
      ⟨pre_of_writes_nil trivial rfl, ?_⟩
    exact fun c now hnow ht _ => abortStaleUploads_gives ht
      (Nat.le_of_eq (reply_now (p := p) hnow).2)

end

/-- No user has begun an upload. -/
structure NoUploads (w : UploadWorld) : Prop where
  uploadMeta : ∀ userId uploadId, w.world.redis.lookup (.uploadMeta userId uploadId) = none
  uploadIndex : ∀ s3UploadId, w.world.redis.lookup (.uploadIndex s3UploadId) = none
  uploadActive : ∀ userId, w.world.redis.lookup (.uploadActive userId) = none
  named : ∀ i ∈ w.world.filesBucket.uploads, i < w.world.nextId

/-- One upload of each user is active: the set has at most one member; after a reservation it is the
new upload; and what a process read to make room it removes only after its multipart upload was
aborted. -/
structure OneActiveUpload (s : SharedUploads) : Prop where
  atMostOne : ∀ userId, (s.store.world.redis.smembers s.store.world.clock
    (.uploadActive userId)).length ≤ 1
  reserved : ∀ p userId seconds log,
    s.log = ⟨p, .backend (.redis (.write (.expire (.uploadActive userId) seconds))),
      .ok ()⟩ :: log →
      ∃ uploadId, Drew p uploadId log ∧ Reserved p userId uploadId log ∧
        s.store.world.redis.smembers s.store.world.clock (.uploadActive userId) = [uploadId]
  orderly : ∀ e log, e :: log <:+ s.log → Orderly e.pid e.req log

section
variable {cfg : Config} {w : UploadWorld} {s : SharedUploads}

theorem UploadsInv.initial (h : NoUploads w) : UploadsInv (.initial w) where
  drawn hd := by obtain ⟨e, he, _⟩ := hd; cases he
  once hd := by obtain ⟨e, he, _⟩ := hd; cases he
  created hc := by obtain ⟨e, he, _⟩ := hc; cases he
  took ht := by obtain ⟨e, he, _⟩ := ht; cases he
  reserved hr := by obtain ⟨e, he, _⟩ := hr; cases he
  named := h.named
  stored {key e} hk := by
    cases key with
    | uploadMeta u x => cases (h.uploadMeta u x).symm.trans hk
    | uploadIndex i => cases (h.uploadIndex i).symm.trans hk
    | uploadActive u => cases (h.uploadActive u).symm.trans hk
    | _ => trivial
  lease hh := by obtain ⟨e, he, _⟩ := hh.took; cases he
  reads e he := by cases he
  ordered hsuffix := by cases List.suffix_nil.mp hsuffix
  newest heq := by cases heq

theorem UploadsInv.oneActive (h : UploadsInv s) : OneActiveUpload s where
  atMostOne u := by
    cases hlive : s.store.world.redis.live s.store.world.clock (.uploadActive u) with
    | none =>
      rw [Redis.smembers, Redis.get, hlive]
      exact Nat.zero_le 1
    | some e =>
      obtain ⟨x, _, hvalue, _⟩ := h.stored (Redis.lookup_of_live hlive)
      rw [Redis.smembers, Redis.get, hlive, Option.map_some, hvalue]
      exact Nat.le_refl 1
  reserved p u seconds log hlog := by
    obtain ⟨token, x, hh, hr⟩ := h.newest hlog rfl
    obtain ⟨d, hd⟩ := h.lease hh
    have hr' : Reserved p u x s.log := by
      rw [hlog]
      exact hr.mono (List.subset_cons_self _ _)
    obtain ⟨t, hlook, ht⟩ := hd.reserved x hr'
    refine ⟨x, ?_, hr, ?_⟩
    · obtain ⟨e, he, hrest⟩ := h.reserved hr'
      rw [hlog] at he
      rcases List.mem_cons.mp he with rfl | he
      · cases hrest.2
      · exact ⟨e, he, hrest⟩
    · rw [Redis.smembers, Redis.get, hd.live hlook ht]
      rfl
  orderly e log hsuffix := h.ordered hsuffix

end

/-- A user who is logged in. -/
def loggedInUploads : UploadWorld :=
  ⟨{ demoWorld with redis := demoWorld.redis.insert (.masterKey 1) ⟨.text "master", none⟩ }, ∅, ∅⟩

theorem loggedIn_noUploads : NoUploads loggedInUploads := by
  have hlook : ∀ k, k ≠ .masterKey 1 → loggedInUploads.world.redis.lookup k = none :=
    fun k hk => (AList.lookup_insert_ne hk).trans rfl
  exact ⟨fun _ _ => hlook _ (by simp), fun _ => hlook _ (by simp), fun _ => hlook _ (by simp),
    fun _ h => absurd h (AList.notMem_empty _)⟩

/-- Two uploads of one user, the second of which replaces the first. -/
def twoUploads : List (Action UploadOperation Delivery Nat) :=
  .start (.initializeUpload 1 ⟨10, 1, none, none⟩) :: List.replicate 15 (.advance 0 .delivered) ++
    .start (.initializeUpload 1 ⟨20, 1, none, none⟩) :: List.replicate 18 (.advance 1 .delivered)

end Redbox
