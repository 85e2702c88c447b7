import Redbox.Content.BlogService
import Redbox.Backend.Effects
import Redbox.Interleaving.Sequential

/-! Rows and texts of blog posts, which are written one after the other. -/
namespace Redbox
open Interleaving

namespace BlogEvent

/-- The object that the process has written or deleted. -/
def touches : BlogEvent → Option Id
  | ⟨_, .putObject storageName _, .ok _⟩ => some storageName
  | ⟨_, .deleteObject storageName, .ok _⟩ => some storageName
  | _ => none

/-- The process has made its write to the rows, with or without success. -/
def settles : BlogEvent → Bool
  | ⟨_, .createPost _, _⟩ | ⟨_, .updatePost _ _, _⟩ | ⟨_, .deletePost _, _⟩ => true
  | _ => false

def inserts : BlogEvent → Bool
  | ⟨_, .createPost _, .ok _⟩ => true
  | _ => false

def draws : BlogEvent → Option Id
  | ⟨_, .random, .ok id⟩ => some id
  | _ => none

def reads : BlogEvent → Option (Id × BlogPost)
  | ⟨_, .findPost postId, .ok (some post)⟩ => some (postId, post)
  | _ => none

end BlogEvent

namespace BlogTexts

/-- The process that was the last to write or delete the object. -/
def lastTouch (log : List BlogEvent) (storageName : Id) : Option Nat :=
  (log.find? fun e => decide (BlogEvent.touches e = some storageName)).map (·.pid)

/-- The events of one process. -/
def own (p : Nat) (log : List BlogEvent) : List BlogEvent := log.filter fun e => e.pid == p

def settled (p : Nat) (log : List BlogEvent) : Bool := (own p log).any BlogEvent.settles

/-- The text has so many bytes. -/
def fits (w : BlogWorld) (storageName : Id) (contentSize : Nat) : Bool :=
  (w.objects.lookup storageName).any fun text => decide (text.utf8ByteSize = contentSize)

/-- A row names the object. -/
def named (w : BlogWorld) (storageName : Id) : Bool :=
  w.posts.entries.any fun e => e.2.storageName == storageName

/-- Another process than `p` was the last to write or delete the object, and will write the row. -/
def awaited (p : Nat) (log : List BlogEvent) (storageName : Id) : Bool :=
  (lastTouch log storageName).any fun p' => p' != p && !settled p' log

/-- The length of the row is that of the text, or will be set by another process. -/
def agreed (s : SharedBlog) (p : Nat) (storageName : Id) (contentSize : Nat) : Bool :=
  fits s.store storageName contentSize || awaited p s.log storageName

end BlogTexts

open BlogTexts in
/-- A row gets a new length, or misses the write that it was to get, only where its length is then
that of the text or another process has still to set it. No row loses the answer to its creation or
to a write of its object. -/
def textFirst : BlogRules where
  starts := fun _ _ => true
  allows := fun s p q d => match q with
    | .putObject storageName _ | .deleteObject storageName =>
      decide (d ≠ .lost) || !named s.store storageName
    | .createPost _ => decide (d ≠ .lost)
    | .updatePost postId data =>
      data.contentSize.all fun contentSize => (s.store.posts.lookup postId).all fun post =>
        agreed s p post.storageName (if d = .failed then post.contentSize else contentSize)
    | .deletePost postId => decide (d ≠ .failed) || (s.store.posts.lookup postId).all fun post =>
        agreed s p post.storageName post.contentSize
    | _ => true
  drifts := fun _ _ => true

/-- Without the condition. -/
def anyFaults : BlogRules where
  starts := fun _ _ => true
  allows := fun _ _ _ _ => true
  drifts := fun _ _ => true

/-- The rows and the names of objects before the first request. -/
structure WellNamed (w : BlogWorld) : Prop where
  drawn : ∀ postId post, w.posts.lookup postId = some post → post.storageName < w.nextId
  unique : ∀ i j post post', w.posts.lookup i = some post → w.posts.lookup j = some post' →
    post.storageName = post'.storageName → i = j

namespace BlogTexts

/-- A process that has drawn the name and has created no row. -/
def Holds (storageName : Id) (p : Nat) (log : List BlogEvent) : Prop :=
  (∃ e ∈ own p log, BlogEvent.draws e = some storageName) ∧ ∀ e ∈ own p log,
    BlogEvent.inserts e = false

/-- The process knows the object as its own or as that of a post. -/
def Knows (storageName : Id) (p : Nat) (log : List BlogEvent) : Prop :=
  (∃ e ∈ own p log, BlogEvent.draws e = some storageName) ∨
    ∃ e ∈ own p log, ∃ postId post, BlogEvent.reads e = some (postId, post) ∧
      post.storageName = storageName

/-- All objects that the process touched are that of the post it has read. -/
def Touches (postId p : Nat) (log : List BlogEvent) : Prop :=
  ∀ e ∈ own p log, ∀ storageName, BlogEvent.touches e = some storageName →
    ∃ e' ∈ own p log, ∃ post, BlogEvent.reads e' = some (postId, post) ∧
      post.storageName = storageName

/-- The length of each row is that of its text, or will be set by who has touched the text last. -/
structure Inv (s : SharedBlog) : Prop where
  named : WellNamed s.store
  reads : ∀ e ∈ s.log, ∀ i post, BlogEvent.reads e = some (i, post) →
    post.storageName < s.store.nextId ∧
    ∀ j post', s.store.posts.lookup j = some post' → post'.storageName = post.storageName → j = i
  drawn : ∀ p storageName, Holds storageName p s.log →
    (∀ j post', s.store.posts.lookup j = some post' → post'.storageName ≠ storageName) ∧
    ∀ e ∈ s.log, ∀ i post, BlogEvent.reads e = some (i, post) → post.storageName ≠ storageName
  below : ∀ e ∈ s.log, ∀ storageName, BlogEvent.draws e = some storageName →
    storageName < s.store.nextId
  once : ∀ e ∈ s.log, ∀ e' ∈ s.log, ∀ storageName, BlogEvent.draws e = some storageName →
    BlogEvent.draws e' = some storageName → e.pid = e'.pid
  agrees : ∀ i post, s.store.posts.lookup i = some post →
    fits s.store post.storageName post.contentSize = true ∨
    ∃ p, lastTouch s.log post.storageName = some p ∧ settled p s.log = false

/-- What a process knows and has done before each of its writes. -/
def outline : Outline BlogRequest BlogReply BlogWorld where
  inv := Inv
  pre s p q := match q with
    | .putObject storageName _ => Knows storageName p s.log ∧ settled p s.log = false
    | .deleteObject storageName =>
      Knows storageName p s.log ∧ (settled p s.log = false ∨ Holds storageName p s.log)
    | .createPost post =>
      Holds post.storageName p s.log ∧ fits s.store post.storageName post.contentSize = true ∧
        ∀ e ∈ own p s.log, ∀ storageName, BlogEvent.touches e = some storageName →
          storageName = post.storageName
    | .updatePost postId data => Touches postId p s.log ∧
        (data.contentSize = none → ∀ e ∈ own p s.log, BlogEvent.touches e = none)
    | .deletePost postId => Touches postId p s.log
    | _ => True

section
variable {p p' : Nat} {e : BlogEvent} {log : List BlogEvent} {storageName : Id}

theorem own_cons_self (h : e.pid = p) : own p (e :: log) = e :: own p log := by
  rw [own, List.filter_cons, if_pos (by simp [h])]
  rfl

theorem own_cons_of_ne (h : e.pid ≠ p) : own p (e :: log) = own p log := by
  rw [own, List.filter_cons, if_neg (by simp [h])]
  rfl

theorem mem_own : e ∈ own p log ↔ e ∈ log ∧ e.pid = p := by simp [own]

theorem own_subset_cons : own p log ⊆ own p (e :: log) :=
  fun _ h => mem_own.mpr ⟨List.mem_cons_of_mem _ (mem_own.mp h).1, (mem_own.mp h).2⟩

theorem settled_cons_of_ne (h : e.pid ≠ p) : settled p (e :: log) = settled p log := by
  rw [settled, own_cons_of_ne h, settled]

theorem settled_cons_quiet (h : BlogEvent.settles e = false) :
    settled p (e :: log) = settled p log := by
  by_cases hp : e.pid = p
  · rw [settled, own_cons_self hp, List.any_cons, h, Bool.false_or, settled]
  · exact settled_cons_of_ne hp

theorem lastTouch_cons_self (h : BlogEvent.touches e = some storageName) :
    lastTouch (e :: log) storageName = some e.pid := by
  rw [lastTouch, List.find?_cons_of_pos (by simp [h])]
  rfl

theorem lastTouch_cons_of_ne (h : BlogEvent.touches e ≠ some storageName) :
    lastTouch (e :: log) storageName = lastTouch log storageName := by
  rw [lastTouch, List.find?_cons_of_neg (by simp [h]), lastTouch]

/-- Who was the last to touch an object has touched it. -/
theorem touch_of_lastTouch (h : lastTouch log storageName = some p) :
    ∃ e ∈ own p log, BlogEvent.touches e = some storageName := by
  obtain ⟨e, he, hp⟩ := Option.map_eq_some_iff.mp h
  exact ⟨e, mem_own.mpr ⟨List.mem_of_find?_eq_some he, hp⟩, by simpa using List.find?_some he⟩

theorem awaited_iff : awaited p log storageName = true ↔
    ∃ p', lastTouch log storageName = some p' ∧ settled p' log = false ∧ p' ≠ p := by
  rw [awaited, Option.any_eq_true]
  constructor
  · rintro ⟨p', hp', hx⟩
    simp only [Bool.and_eq_true, bne_iff_ne, Bool.not_eq_true'] at hx
    exact ⟨p', hp', hx.2, hx.1⟩
  · rintro ⟨p', hp', hs, hne⟩
    exact ⟨p', hp', by simp [hs, hne]⟩

/-- Whoever holds a name after an event has held it before, or has just drawn it. -/
theorem holds_cons (h : Holds storageName p (e :: log)) :
    Holds storageName p log ∨ e.pid = p ∧ BlogEvent.draws e = some storageName := by
  obtain ⟨⟨e', he', hdraws⟩, hall⟩ := h
  rw [mem_own, List.mem_cons] at he'
  obtain ⟨rfl | he', hp⟩ := he'
  · exact .inr ⟨hp, hdraws⟩
  · exact .inl ⟨⟨e', mem_own.mpr ⟨he', hp⟩, hdraws⟩, fun x hx => hall x (own_subset_cons hx)⟩

theorem inserts_of_holds (h : Holds storageName p (e :: log)) (hp : e.pid = p) :
    BlogEvent.inserts e = false :=
  h.2 e (mem_own.mpr ⟨List.mem_cons_self, hp⟩)

end
section
variable {s : SharedBlog} {e : BlogEvent} {w : BlogWorld} {p : Nat}

/-- A step that shows something at most. -/
theorem Inv.quiet (hi : Inv s) (hposts : w.posts = s.store.posts)
    (hobjects : w.objects = s.store.objects) (hle : s.store.nextId ≤ w.nextId)
    (htouch : BlogEvent.touches e = none) (hsettle : BlogEvent.settles e = false)
    (hreads : ∀ i post, BlogEvent.reads e = some (i, post) → s.store.posts.lookup i = some post)
    (hdraws : ∀ storageName, BlogEvent.draws e = some storageName → storageName = s.store.nextId ∧
      w.nextId = storageName + 1) :
    Inv ⟨w, e :: s.log⟩ where
  named := ⟨fun i post h => (hi.named.drawn i post (hposts ▸ h)).trans_le hle,
    fun i j post post' h h' =>
    hi.named.unique i j post post' (hposts ▸ h) (hposts ▸ h')⟩
  reads e' he' i post h := by
    rcases List.mem_cons.mp he' with rfl | he'
    · refine ⟨(hi.named.drawn i post (hreads i post h)).trans_le hle, fun j post' hj hname => ?_⟩
      exact hi.named.unique j i post' post (hposts ▸ hj) (hreads i post h) hname
    · exact ⟨(hi.reads e' he' i post h).1.trans_le hle,
        fun j post' hj => (hi.reads e' he' i post h).2 j post' (hposts ▸ hj)⟩
  drawn p storageName h := by
    rcases holds_cons h with hheld | ⟨_, hdraw⟩
    · obtain ⟨hrows, hold⟩ := hi.drawn p storageName hheld
      refine ⟨fun j post' hj => hrows j post' (hposts ▸ hj), fun e' he' i post hread => ?_⟩
      rcases List.mem_cons.mp he' with rfl | he'
      · exact hrows i post (hreads i post hread)
      · exact hold e' he' i post hread
    · obtain rfl := (hdraws _ hdraw).1
      refine ⟨fun j post' hj => Nat.ne_of_lt (hi.named.drawn j post' (hposts ▸ hj)),
        fun e' he' i post hread => ?_⟩
      rcases List.mem_cons.mp he' with rfl | he'
      · exact Nat.ne_of_lt (hi.named.drawn i post (hreads i post hread))
      · exact Nat.ne_of_lt (hi.reads e' he' i post hread).1
  below e' he' storageName h := by
    rcases List.mem_cons.mp he' with rfl | he'
    · rw [(hdraws _ h).2]
      exact Nat.lt_succ_self _
    · exact (hi.below e' he' storageName h).trans_le hle
  once e₁ h₁ e₂ h₂ storageName hd₁ hd₂ := by
    rcases List.mem_cons.mp h₁ with he₁ | hold₁ <;> rcases List.mem_cons.mp h₂ with he₂ | hold₂
    · rw [he₁, he₂]
    · exact absurd (hdraws _ (he₁ ▸ hd₁)).1 (Nat.ne_of_lt (hi.below e₂ hold₂ storageName hd₂))
    · exact absurd (hdraws _ (he₂ ▸ hd₂)).1 (Nat.ne_of_lt (hi.below e₁ hold₁ storageName hd₁))
    · exact hi.once e₁ hold₁ e₂ hold₂ storageName hd₁ hd₂
  agrees i post h := by
    refine (hi.agrees i post (hposts ▸ h)).imp (fun hfits => ?_) fun ⟨p, hlast, hopen⟩ =>
      ⟨p, ?_, ?_⟩
    · rw [fits, hobjects]
      exact hfits
    · rw [lastTouch_cons_of_ne (by simp [htouch]), hlast]
    · rw [settled_cons_quiet hsettle, hopen]

/-- The object of a post is written or deleted, by who has still to write the row, or no row has its
name. -/
theorem Inv.touch (hi : Inv s) {storageName : Id} (hposts : w.posts = s.store.posts)
    (hnext : w.nextId = s.store.nextId)
    (hother : ∀ k, k ≠ storageName → w.objects.lookup k = s.store.objects.lookup k)
    (htouch : ∀ k, BlogEvent.touches e = some k → k = storageName)
    (hsettle : BlogEvent.settles e = false) (hreads : BlogEvent.reads e = none)
    (hdraws : BlogEvent.draws e = none) (hwho : BlogEvent.touches e = some storageName ∧
      settled e.pid s.log = false ∨
      ∀ j post, s.store.posts.lookup j = some post → post.storageName ≠ storageName) :
        Inv ⟨w, e :: s.log⟩ where
  named := ⟨fun i post h => hnext ▸ hi.named.drawn i post (hposts ▸ h), fun i j post post' h h' =>
    hi.named.unique i j post post' (hposts ▸ h) (hposts ▸ h')⟩
  reads e' he' i post h := by
    rcases List.mem_cons.mp he' with rfl | he'
    · cases hreads.symm.trans h
    · exact ⟨hnext ▸ (hi.reads e' he' i post h).1,
        fun j post' hj => (hi.reads e' he' i post h).2 j post' (hposts ▸ hj)⟩
  drawn p k h := by
    rcases holds_cons h with hheld | ⟨_, hdraw⟩
    · obtain ⟨hrows, hold⟩ := hi.drawn p k hheld
      refine ⟨fun j post' hj => hrows j post' (hposts ▸ hj), fun e' he' i post hread => ?_⟩
      rcases List.mem_cons.mp he' with rfl | he'
      · cases hreads.symm.trans hread
      · exact hold e' he' i post hread
    · cases hdraws.symm.trans hdraw
  below e' he' k h := by
    rcases List.mem_cons.mp he' with rfl | he'
    · cases hdraws.symm.trans h
    · exact hnext ▸ hi.below e' he' k h
  once e₁ h₁ e₂ h₂ k hd₁ hd₂ := by
    rcases List.mem_cons.mp h₁ with he₁ | hold₁
    · cases hdraws.symm.trans (he₁ ▸ hd₁)
    rcases List.mem_cons.mp h₂ with he₂ | hold₂
    · cases hdraws.symm.trans (he₂ ▸ hd₂)
    exact hi.once e₁ hold₁ e₂ hold₂ k hd₁ hd₂
  agrees i post h := by
    have hpost : s.store.posts.lookup i = some post := hposts ▸ h
    by_cases hname : post.storageName = storageName
    · obtain ⟨hdone, hopen⟩ | hnone := hwho
      · refine .inr ⟨e.pid, ?_, ?_⟩
        · rw [hname, lastTouch_cons_self hdone]
        · rw [settled_cons_quiet hsettle, hopen]
      · exact absurd hname (hnone i post hpost)
    · refine (hi.agrees i post hpost).imp (fun hfits => ?_) fun ⟨p, hlast, hopen⟩ => ⟨p, ?_, ?_⟩
      · rw [fits, hother _ hname]
        exact hfits
      · rw [lastTouch_cons_of_ne fun h => hname (htouch _ h), hlast]
      · rw [settled_cons_quiet hsettle, hopen]

/-- A process makes its write to the rows, with or without success. -/
theorem Inv.settle (hi : Inv s) (hobjects : w.objects = s.store.objects)
    (hle : s.store.nextId ≤ w.nextId) (hnamed : WellNamed w) (htouch : BlogEvent.touches e = none)
    (hreads : BlogEvent.reads e = none) (hdraws : BlogEvent.draws e = none)
    (hrows : ∀ j post', w.posts.lookup j = some post' →
      (∃ post, s.store.posts.lookup j = some post ∧ post.storageName = post'.storageName) ∨
      BlogEvent.inserts e = true ∧ Holds post'.storageName e.pid s.log)
    (hagree : ∀ j post', w.posts.lookup j = some post' →
      fits s.store post'.storageName post'.contentSize = true ∨
      ∃ p, lastTouch s.log post'.storageName = some p ∧ settled p s.log = false ∧ p ≠ e.pid) :
        Inv ⟨w, e :: s.log⟩ where
  named := hnamed
  reads e' he' i post h := by
    rcases List.mem_cons.mp he' with rfl | he'
    · cases hreads.symm.trans h
    obtain ⟨hlt, hsame⟩ := hi.reads e' he' i post h
    refine ⟨hlt.trans_le hle, fun j post' hj hname => ?_⟩
    obtain ⟨old, hold, holdname⟩ | ⟨_, hheld⟩ := hrows j post' hj
    · exact hsame j old hold (holdname.trans hname)
    · exact absurd hname.symm ((hi.drawn _ _ hheld).2 e' he' i post h)
  drawn p k h := by
    rcases holds_cons h with hheld | ⟨_, hdraw⟩
    · obtain ⟨hrow, hold⟩ := hi.drawn p k hheld
      refine ⟨fun j post' hj hname => ?_, fun e' he' i post hread => ?_⟩
      · obtain ⟨old, hold, holdname⟩ | ⟨hins, hheld'⟩ := hrows j post' hj
        · exact hrow j old hold (holdname.trans hname)
        · -- the name was drawn by one process only, which has now created its row
          obtain ⟨⟨e₁, h₁, hd₁⟩, _⟩ := hheld
          obtain ⟨⟨e₂, h₂, hd₂⟩, _⟩ := hheld'
          have hpid : p = e.pid := (mem_own.mp h₁).2.symm.trans
            ((hi.once e₁ (mem_own.mp h₁).1 e₂ (mem_own.mp h₂).1 k hd₁ (hname ▸ hd₂)).trans
              (mem_own.mp h₂).2)
          rw [inserts_of_holds h hpid.symm] at hins
          cases hins
      · rcases List.mem_cons.mp he' with rfl | he'
        · cases hreads.symm.trans hread
        · exact hold e' he' i post hread
    · cases hdraws.symm.trans hdraw
  below e' he' k h := by
    rcases List.mem_cons.mp he' with rfl | he'
    · cases hdraws.symm.trans h
    · exact (hi.below e' he' k h).trans_le hle
  once e₁ h₁ e₂ h₂ k hd₁ hd₂ := by
    rcases List.mem_cons.mp h₁ with he₁ | hold₁
    · cases hdraws.symm.trans (he₁ ▸ hd₁)
    rcases List.mem_cons.mp h₂ with he₂ | hold₂
    · cases hdraws.symm.trans (he₂ ▸ hd₂)
    exact hi.once e₁ hold₁ e₂ hold₂ k hd₁ hd₂
  agrees i post h := by
    refine (hagree i post h).imp (fun hfits => ?_) fun ⟨p, hlast, hopen, hne⟩ => ⟨p, ?_, ?_⟩
    · rw [fits, hobjects]
      exact hfits
    · rw [lastTouch_cons_of_ne (by simp [htouch]), hlast]
    · rw [settled_cons_of_ne hne.symm, hopen]

/-- The rows that other processes have to write are not that of this one. -/
theorem Inv.others (hi : Inv s) {postId j : Id} {post : BlogPost} (ht : Touches postId p s.log)
    (hj : s.store.posts.lookup j = some post) (hne : j ≠ postId) :
    fits s.store post.storageName post.contentSize = true ∨
      ∃ p', lastTouch s.log post.storageName = some p' ∧ settled p' s.log = false ∧ p' ≠ p := by
  refine (hi.agrees j post hj).imp id fun ⟨p', hlast, hopen⟩ =>
    ⟨p', hlast, hopen, fun heq => hne ?_⟩
  subst heq
  obtain ⟨e, he, htouch⟩ := touch_of_lastTouch hlast
  obtain ⟨e', he', read, hread, hname⟩ := ht e he _ htouch
  exact (hi.reads e' (mem_own.mp he').1 postId read hread).2 j post hj hname.symm

/-- A write to one row: the others stay as they are. -/
theorem Inv.write (hi : Inv s) {postId : Id} (hobjects : w.objects = s.store.objects)
    (hnext : w.nextId = s.store.nextId) (htouch : BlogEvent.touches e = none)
    (hreads : BlogEvent.reads e = none) (hdraws : BlogEvent.draws e = none)
    (ht : Touches postId e.pid s.log)
    (hrest : ∀ j ≠ postId, w.posts.lookup j = s.store.posts.lookup j)
    (hrow : ∀ post', w.posts.lookup postId = some post' → ∃ post,
      s.store.posts.lookup postId = some post ∧
      post.storageName = post'.storageName ∧
        (fits s.store post'.storageName post'.contentSize = true ∨
        ∃ p', lastTouch s.log post'.storageName = some p' ∧ settled p' s.log = false ∧
          p' ≠ e.pid)) : Inv ⟨w, e :: s.log⟩ := by
  have hold : ∀ j post', w.posts.lookup j = some post' →
      ∃ post, s.store.posts.lookup j = some post ∧ post.storageName = post'.storageName := by
    intro j post' hj
    by_cases hne : j = postId
    · subst hne
      obtain ⟨post, hpost, hname, _⟩ := hrow post' hj
      exact ⟨post, hpost, hname⟩
    · exact ⟨post', (hrest j hne).symm.trans hj, rfl⟩
  refine hi.settle hobjects (Nat.le_of_eq hnext.symm) ⟨fun i post h => ?_,
    fun i j post post' h h' hname => ?_⟩ htouch hreads hdraws
    (fun j post' hj => .inl (hold j post' hj)) fun j post' hj => ?_
  · obtain ⟨old, hpost, hname⟩ := hold i post h
    rw [hnext, ← hname]
    exact hi.named.drawn i old hpost
  · obtain ⟨old, hpost, holdname⟩ := hold i post h
    obtain ⟨old', hpost', holdname'⟩ := hold j post' h'
    exact hi.named.unique i j old old' hpost hpost' (holdname.trans (hname.trans holdname'.symm))
  · by_cases hne : j = postId
    · subst hne
      obtain ⟨_, _, _, hagree⟩ := hrow post' hj
      exact hagree
    · exact hi.others ht ((hrest j hne).symm.trans hj) hne

end
section
variable {s : SharedBlog} {p : Nat} {c : Delivery}

theorem named_iff {w : BlogWorld} {storageName : Id} (h : BlogTexts.named w storageName = false)
    {i : Id} {post : BlogPost} (hi : w.posts.lookup i = some post) :
    post.storageName ≠ storageName := by
  intro hname
  have hany : BlogTexts.named w storageName = true :=
    List.any_eq_true.mpr ⟨⟨i, post⟩, AList.mem_lookup_iff.mp hi, by simp [hname]⟩
  rw [h] at hany
  cases hany

theorem agreed_iff {storageName : Id} {contentSize : Nat}
    (h : agreed s p storageName contentSize = true) :
    fits s.store storageName contentSize = true ∨
      ∃ p', lastTouch s.log storageName = some p' ∧ settled p' s.log = false ∧ p' ≠ p := by
  rw [agreed, Bool.or_eq_true, awaited_iff] at h
  exact h

/-- A call that fails before it takes effect. -/
theorem Inv.failed (hi : Inv s) {q : BlogRequest}
    (hq : ∀ r : BlogReply q, BlogEvent.settles ⟨p, q, r⟩ = false) :
    Inv ⟨s.store, ⟨p, q, .error (.fault .unavailable)⟩ :: s.log⟩ := by
  have hevent : ∀ x, BlogEvent.touches ⟨p, q, .error x⟩ = none ∧
    BlogEvent.reads ⟨p, q, .error x⟩ = none ∧
      BlogEvent.draws ⟨p, q, .error x⟩ = none := by
    intro x
    cases q <;> exact ⟨rfl, rfl, rfl⟩
  obtain ⟨htouch, hreads, hdraws⟩ := hevent (.fault .unavailable)
  refine hi.quiet rfl rfl (Nat.le_refl _) htouch (hq _) (fun i post h => ?_) (fun k h => ?_)
  · cases hreads.symm.trans h
  · cases hdraws.symm.trans h

/-- What writing an object leaves. -/
theorem Inv.putObject (hi : Inv s) {storageName : Id} {body : String}
    (hopen : settled p s.log = false)
    (ha : c ≠ .lost ∨ BlogTexts.named s.store storageName = false) :
    Inv (blog.after c p (.putObject storageName body) s) := by
  have hother : ∀ k, k ≠ storageName →
      (s.store.objects.insert storageName body).lookup k = s.store.objects.lookup k :=
    fun k hk => AList.lookup_insert_ne hk
  cases c with
  | failed => exact hi.failed fun _ => rfl
  | lost =>
    exact hi.touch rfl rfl hother (fun k h => by cases h) rfl rfl rfl
      (.inr fun j post hj => named_iff (ha.resolve_left fun h => h rfl) hj)
  | delivered | late =>
    exact hi.touch rfl rfl hother (fun k h => (Option.some.inj h).symm) rfl rfl rfl
      (.inl ⟨rfl, hopen⟩)

/-- What deleting an object leaves. -/
theorem Inv.deleteObject (hi : Inv s) {storageName : Id}
    (hopen : settled p s.log = false ∨ Holds storageName p s.log)
    (ha : c ≠ .lost ∨ BlogTexts.named s.store storageName = false) :
    Inv (blog.after c p (.deleteObject storageName) s) := by
  have hother : ∀ k, k ≠ storageName →
      (s.store.objects.erase storageName).lookup k = s.store.objects.lookup k :=
    fun k hk => AList.lookup_erase_ne hk
  cases c with
  | failed => exact hi.failed fun _ => rfl
  | lost =>
    exact hi.touch rfl rfl hother (fun k h => by cases h) rfl rfl rfl
      (.inr fun j post hj => named_iff (ha.resolve_left fun h => h rfl) hj)
  | delivered | late =>
    refine hi.touch rfl rfl hother (fun k h => (Option.some.inj h).symm) rfl rfl rfl
      (hopen.imp (fun h => ⟨rfl, h⟩) fun h => ?_)
    exact fun j post hj => (hi.drawn p storageName h).1 j post hj

/-- A process whose creation fails leaves the rows as they are. -/
theorem Inv.notCreated (hi : Inv s) {post : BlogPost} {e : Thrown}
    (hheld : Holds post.storageName p s.log)
    (ht : ∀ e ∈ own p s.log, ∀ k, BlogEvent.touches e = some k → k = post.storageName) :
    Inv ⟨s.store, ⟨p, .createPost post, .error e⟩ :: s.log⟩ := by
  refine hi.settle rfl (Nat.le_refl _) hi.named rfl rfl rfl (fun j post' hj =>
    .inl ⟨post', hj, rfl⟩) fun j post' hj => ?_
  refine (hi.agrees j post' hj).imp id fun ⟨p', hlast, hopen⟩ => ⟨p', hlast, hopen, fun heq => ?_⟩
  obtain ⟨e', he', htouch⟩ := touch_of_lastTouch hlast
  have heq : p' = p := heq
  subst heq
  exact (hi.drawn p' _ hheld).1 j post' hj (ht e' he' _ htouch)

/-- The row of a text that is there. -/
theorem Inv.createPost (hi : Inv s) {post : BlogPost} (hheld : Holds post.storageName p s.log)
    (hfits : fits s.store post.storageName post.contentSize = true)
    (ht : ∀ e ∈ own p s.log, ∀ k, BlogEvent.touches e = some k → k = post.storageName)
    (ha : c ≠ .lost) :
    Inv (blog.after c p (.createPost post) s) := by
  have delivered : Inv ⟨(s.store.deliver (.createPost post)).1,
    ⟨p, .createPost post, (s.store.deliver (.createPost post)).2⟩ :: s.log⟩ := by
    simp only [BlogWorld.deliver]
    split
    · exact hi.notCreated hheld ht
    obtain ⟨e, he, hdraw⟩ := hheld.1
    have hlt : post.storageName < s.store.nextId := hi.below e (mem_own.mp he).1 _ hdraw
    have hrows := (hi.drawn p _ hheld).1
    have hcases : ∀ j post', (s.store.posts.insert s.store.nextId post).lookup j = some post' →
        j = s.store.nextId ∧ post' = post ∨ j ≠ s.store.nextId ∧
          s.store.posts.lookup j = some post' := by
      intro j post' hj
      by_cases hne : j = s.store.nextId
      · subst hne
        rw [AList.lookup_insert] at hj
        exact .inl ⟨rfl, (Option.some.inj hj).symm⟩
      · exact .inr ⟨hne, (AList.lookup_insert_ne hne).symm.trans hj⟩
    refine hi.settle rfl (Nat.le_succ _) ⟨fun j post' hj => ?_, fun i j q q' hq hq' hname => ?_⟩ rfl
      rfl rfl (fun j post' hj => ?_)
      fun j post' hj => ?_
    · obtain ⟨_, rfl⟩ | ⟨_, hold⟩ := hcases j post' hj
      · exact Nat.lt_succ_of_lt hlt
      · exact Nat.lt_succ_of_lt (hi.named.drawn j post' hold)
    · obtain ⟨rfl, rfl⟩ | ⟨_, hold⟩ := hcases i q hq <;> obtain ⟨rfl, rfl⟩ | ⟨_, hold'⟩ :=
        hcases j q' hq'
      · rfl
      · exact absurd hname.symm (hrows j q' hold')
      · exact absurd hname (hrows i q hold)
      · exact hi.named.unique i j q q' hold hold' hname
    · obtain ⟨_, rfl⟩ | ⟨_, hold⟩ := hcases j post' hj
      · exact .inr ⟨rfl, hheld⟩
      · exact .inl ⟨post', hold, rfl⟩
    · obtain ⟨_, rfl⟩ | ⟨_, hold⟩ := hcases j post' hj
      · exact .inl hfits
      · refine (hi.agrees j post' hold).imp id fun ⟨p', hlast, hopen⟩ =>
          ⟨p', hlast, hopen, fun heq => ?_⟩
        obtain ⟨e', he', htouch⟩ := touch_of_lastTouch hlast
        have heq : p' = p := heq
        subst heq
        exact hrows j post' hold (ht e' he' _ htouch)
  cases c with
  | failed => exact hi.notCreated hheld ht
  | lost => exact absurd rfl ha
  | delivered | late => exact delivered

/-- What an update leaves. -/
theorem Inv.updatePost (hi : Inv s) {postId : Id} {data : BlogPostUpdate}
    (ht : Touches postId p s.log) (hnone : data.contentSize = none → ∀ e ∈ own p s.log,
      BlogEvent.touches e = none) (ha : data.contentSize.all (fun contentSize =>
      (s.store.posts.lookup postId).all fun post =>
      agreed s p post.storageName (if c = .failed then post.contentSize else contentSize)) = true) :
    Inv (blog.after c p (.updatePost postId data) s) := by
  -- the row itself, as it was or with its new length
  have hrow : ∀ post, s.store.posts.lookup postId = some post →
      fits s.store post.storageName (if c = .failed then post.contentSize
        else data.contentSize.getD post.contentSize) = true ∨
        ∃ p', lastTouch s.log post.storageName = some p' ∧ settled p' s.log = false ∧ p' ≠ p := by
    intro post hpost
    cases hsize : data.contentSize with
    | none =>
      simp only [Option.getD_none, ite_self]
      refine (hi.agrees postId post hpost).imp id fun ⟨p', hlast, hopen⟩ =>
        ⟨p', hlast, hopen, fun heq => ?_⟩
      subst heq
      obtain ⟨e, he, htouch⟩ := touch_of_lastTouch hlast
      cases (hnone hsize e he).symm.trans htouch
    | some contentSize =>
      rw [hsize, hpost] at ha
      exact agreed_iff ha
  have hrest : ∀ (post : BlogPost) (j : Id), j ≠ postId →
      (s.store.posts.insert postId post).lookup j = s.store.posts.lookup j :=
    fun _ j hj => AList.lookup_insert_ne hj
  have same : ∀ r : BlogReply (.updatePost postId data),
    (∀ post, s.store.posts.lookup postId = some post → c = .failed) →
      Inv ⟨s.store, ⟨p, .updatePost postId data, r⟩ :: s.log⟩ := by
    intro r hfailed
    refine hi.write rfl rfl rfl rfl rfl ht (fun _ _ => rfl) fun post hpost => ⟨post, hpost, rfl, ?_⟩
    have h := hrow post hpost
    rwa [if_pos (hfailed post hpost)] at h
  have changed : ∀ r : BlogReply (.updatePost postId data), c ≠ .failed →
      Inv ⟨(s.store.deliver (.updatePost postId data)).1,
        ⟨p, .updatePost postId data, r⟩ :: s.log⟩ := by
    intro r hc
    simp only [BlogWorld.deliver]
    split
    · rename_i post hpost
      refine hi.write rfl rfl rfl rfl rfl ht (hrest _) fun post' hpost' => ?_
      rw [AList.lookup_insert] at hpost'
      obtain rfl := Option.some.inj hpost'
      have h := hrow post hpost
      rw [if_neg hc] at h
      exact ⟨post, hpost, rfl, h⟩
    · rename_i hpost
      exact same r fun post h => by cases hpost.symm.trans h
  cases c with
  | failed => exact same _ fun _ _ => rfl
  | delivered => exact changed _ fun h => by cases h
  | lost => exact changed _ fun h => by cases h
  | late => exact changed _ fun h => by cases h

/-- What deleting a row leaves. -/
theorem Inv.deletePost (hi : Inv s) {postId : Id} (ht : Touches postId p s.log)
    (ha : c ≠ .failed ∨ (s.store.posts.lookup postId).all (fun post =>
      agreed s p post.storageName post.contentSize) = true) :
    Inv (blog.after c p (.deletePost postId) s) := by
  have gone : ∀ r : BlogReply (.deletePost postId),
      Inv ⟨(s.store.deliver (.deletePost postId)).1, ⟨p, .deletePost postId, r⟩ :: s.log⟩ := by
    intro r
    simp only [BlogWorld.deliver]
    split
    · refine hi.write rfl rfl rfl rfl rfl ht (fun j hj => AList.lookup_erase_ne hj)
        fun post' hpost' => ?_
      cases (AList.lookup_erase postId s.store.posts).symm.trans hpost'
    · rename_i hpost
      exact hi.write rfl rfl rfl rfl rfl ht (fun _ _ => rfl) fun post' hpost' => by
        cases hpost.symm.trans hpost'
  cases c with
  | failed =>
    refine hi.write rfl rfl rfl rfl rfl ht (fun _ _ => rfl) fun post hpost => ⟨post, hpost, rfl, ?_⟩
    have h := ha.resolve_left fun h => h rfl
    have hold : s.store.posts.lookup postId = some post := hpost
    rw [hold] at h
    exact agreed_iff h
  | delivered | lost | late => exact gone _

/-- The step lemma. -/
theorem Inv.after (hi : Inv s) {q : BlogRequest} (hpre : outline.pre s p q)
    (ha : textFirst.allows s p q c = true) :
    Inv (blog.after c p q s) := by
  cases q with
  | findPost postId =>
    have hread : Inv ⟨s.store, ⟨p, .findPost postId, .ok (s.store.posts.lookup postId)⟩ ::
      s.log⟩ := by
      refine hi.quiet rfl rfl (Nat.le_refl _) rfl rfl (fun i post h => ?_) fun k h => by cases h
      cases hpost : s.store.posts.lookup postId with
      | none =>
        rw [hpost] at h
        cases h
      | some found =>
        rw [hpost] at h
        cases h
        exact hpost
    cases c with
    | failed => exact hi.failed fun _ => rfl
    | delivered | late => exact hread
    | lost =>
      exact hi.quiet rfl rfl (Nat.le_refl _) rfl rfl (fun i post h => by cases h) fun k h => by
        cases h
  | createPost post =>
    exact hi.createPost hpre.1 hpre.2.1 hpre.2.2 (of_decide_eq_true ha)
  | updatePost postId data => exact hi.updatePost hpre.1 hpre.2 ha
  | deletePost postId =>
    refine hi.deletePost hpre ?_
    simpa only [textFirst, Bool.or_eq_true, decide_eq_true_eq] using ha
  | putObject storageName body =>
    refine hi.putObject hpre.2 ?_
    simpa only [textFirst, Bool.or_eq_true, decide_eq_true_eq, Bool.not_eq_true'] using ha
  | deleteObject storageName =>
    refine hi.deleteObject hpre.2 ?_
    simpa only [textFirst, Bool.or_eq_true, decide_eq_true_eq, Bool.not_eq_true'] using ha
  | now =>
    exact hi.quiet rfl rfl (Nat.le_refl _) rfl rfl (fun i post h => by cases h) fun k h => by
      cases h
  | random =>
    exact hi.quiet rfl rfl (Nat.le_succ _) rfl rfl (fun i post h => by cases h) fun k h => by
      cases h; exact ⟨rfl, rfl⟩

theorem outline_kept : outline.Kept blog textFirst where
  after hi ha hp := hi.after hp ha
  moved hi _ := ⟨⟨hi.named.drawn, hi.named.unique⟩, hi.reads, hi.drawn, hi.below,
    hi.once, hi.agrees⟩

end
section
variable {α : Type} {s : SharedBlog} {p : Nat} {P : List BlogEvent → Prop}

/-- If the process has touched an object, it has made its write to the rows. -/
def Finished (l : List BlogEvent) : Prop := (∃ e ∈ l, ∃ k, BlogEvent.touches e = some k) →
    l.any BlogEvent.settles = true

/-- Process `p` follows the outline, and is finished at its end. -/
abbrev Goes (p : Nat) (x : BlogRoutine α) (s : SharedBlog) : Prop :=
  Meets blog textFirst outline p x (fun _ t => Finished (own p t.log)) s

/-- Others do not add to what a process has done. -/
theorem own_stable : Stable blog textFirst outline p fun s => P (own p s.log) := by
  intro s s' hi hs
  cases hi with
  | other ne _ _ _ =>
    show P (own p (_ :: s.log))
    rw [own_cons_of_ne ne]
    exact hs
  | drift _ _ => exact hs

theorem Goes.ret {a : α} (hs : P (own p s.log)) (h : ∀ l, P l → Finished l) : Goes p (.ret a) s :=
  Meets.ret own_stable hs fun _ ht _ => h _ ht

theorem Goes.throw {e : Thrown} (hs : P (own p s.log)) (h : ∀ l, P l → Finished l) :
    Goes p (.throw e : BlogRoutine α) s :=
  Meets.throw own_stable hs fun _ ht _ => h _ ht

theorem own_after {q : BlogRequest} {c : Delivery} :
    own p (blog.after c p q s).log = ⟨p, q, blog.reply c q s⟩ :: own p s.log := own_cons_self rfl

/-- One call in front of the rest of a routine. -/
theorem Goes.await {q : BlogRequest} {f : q.Answer → BlogRoutine α} (hs : P (own p s.log))
    (hpre : ∀ t, P (own p t.log) → Inv t → outline.pre t p q)
    (herror : ∀ l e, P l → Finished (⟨p, q, .error e⟩ :: l))
    (hok : ∀ t l a, P l → own p t.log = ⟨p, q, .ok a⟩ :: l → Goes p (f a) t) :
    Goes p ((awaitBlog q).bind f) s := by
  refine Meets.await own_stable hs fun t ht hi c _ => ⟨hpre t ht hi, fun a ha => ?_, fun e he => ?_⟩
  · refine hok _ (own p t.log) a ht ?_
    rw [own_after, ha]
  · have hown : own p (blog.after c p q t).log = ⟨p, q, .error e⟩ :: own p t.log := by
      rw [own_after, he]
    exact Goes.throw (P := fun l => l = ⟨p, q, .error e⟩ :: own p t.log) hown fun l hl =>
      hl ▸ herror _ e ht

/-- A process that has touched nothing and written no row. -/
def Clean (l : List BlogEvent) : Prop := ∀ e ∈ l, BlogEvent.touches e = none ∧
    BlogEvent.settles e = false

theorem Clean.finished {l : List BlogEvent} (h : Clean l) : Finished l := by
  rintro ⟨e, he, k, hk⟩
  cases (h e he).1.symm.trans hk

theorem Clean.cons {e : BlogEvent} {l : List BlogEvent} (h : Clean l)
    (htouch : BlogEvent.touches e = none) (hsettle : BlogEvent.settles e = false) :
    Clean (e :: l) := by
  intro e' he'
  rcases List.mem_cons.mp he' with rfl | he'
  · exact ⟨htouch, hsettle⟩
  · exact h e' he'

theorem finished_of_settles {e : BlogEvent} {l : List BlogEvent} (h : BlogEvent.settles e = true) :
    Finished (e :: l) :=
  fun _ => by rw [List.any_cons, h, Bool.true_or]

/-- A process that has read a post. -/
def Read (postId : Id) (post : BlogPost) (l : List BlogEvent) : Prop :=
  Clean l ∧ ∃ e ∈ l, BlogEvent.reads e = some (postId, post)

/-- A process that has read a post and touched its object. -/
def Touched (postId : Id) (post : BlogPost) (l : List BlogEvent) : Prop :=
  (∀ e ∈ l, ∀ k, BlogEvent.touches e = some k → k = post.storageName) ∧ ∃ e ∈ l,
    BlogEvent.reads e = some (postId, post)

theorem Read.cons {postId : Id} {post : BlogPost} {e : BlogEvent} {l : List BlogEvent}
    (h : Read postId post l) (htouch : BlogEvent.touches e = none)
    (hsettle : BlogEvent.settles e = false) : Read postId post (e :: l) :=
  ⟨h.1.cons htouch hsettle, h.2.imp fun _ he => ⟨List.mem_cons_of_mem _ he.1, he.2⟩⟩

theorem Read.touched {postId : Id} {post : BlogPost} {l : List BlogEvent} (h : Read postId post l) :
    Touched postId post l :=
  ⟨fun e he k hk => (Option.some_ne_none k (hk.symm.trans (h.1 e he).1)).elim, h.2⟩

theorem Read.cons_touch {postId : Id} {post : BlogPost} {e : BlogEvent} {l : List BlogEvent}
    (h : Read postId post l) (htouch : BlogEvent.touches e = some post.storageName) :
    Touched postId post (e :: l) := by
  refine ⟨fun e' he' k hk => ?_, h.2.imp fun _ he => ⟨List.mem_cons_of_mem _ he.1, he.2⟩⟩
  rcases List.mem_cons.mp he' with rfl | he'
  · exact (Option.some.inj (htouch.symm.trans hk)).symm
  · cases (h.1 e' he').1.symm.trans hk

theorem Touched.touches {postId : Id} {post : BlogPost} (h : Touched postId post (own p s.log)) :
    Touches postId p s.log := by
  intro e he k hk
  obtain ⟨e', he', hread⟩ := h.2
  exact ⟨e', he', post, hread, (h.1 e he k hk).symm⟩

theorem Read.knows {postId : Id} {post : BlogPost} (h : Read postId post (own p s.log)) :
    Knows post.storageName p s.log ∧ settled p s.log = false := by
  obtain ⟨e, he, hread⟩ := h.2
  refine ⟨.inr ⟨e, he, postId, post, hread, rfl⟩, ?_⟩
  rw [settled, List.any_eq_false]
  exact fun e he => by simp [(h.1 e he).2]

/-- The post that a routine is about is read first. -/
theorem Goes.find {postId : Id} {f : BlogPost → BlogRoutine α} (hs : Clean (own p s.log))
    (h : ∀ t post, Read postId post (own p t.log) → Goes p (f post) t) :
    Goes p ((BlogService.findBlogPostOrThrow postId).bind f) s := by
  rw [BlogService.findBlogPostOrThrow]
  simp only [Prog.bind_eq, Prog.bind_assoc]
  refine Goes.await hs (fun _ _ _ => trivial) (fun l e hl => (hl.cons rfl rfl).finished)
    fun t l post hl hown => ?_
  cases post with
  | none =>
    exact Goes.throw (P := Clean) (by rw [hown]; exact hl.cons rfl rfl) fun _ h => h.finished
  | some post =>
    refine h t post ?_
    rw [hown]
    exact ⟨hl.cons rfl rfl, _, List.mem_cons_self, rfl⟩

/-- The write to the row of the post that was read, at the end of a routine. -/
theorem Goes.updatePost {postId : Id} {post : BlogPost} {data : BlogPostUpdate} {a : α}
    (hs : Touched postId post (own p s.log))
    (hnone : data.contentSize = none → Clean (own p s.log)) :
    Goes p ((awaitBlog (.updatePost postId data)).bind fun _ => .ret a) s := by
  refine Goes.await (P := fun l => Touched postId post l ∧
    (data.contentSize = none → Clean l)) ⟨hs, hnone⟩
    (fun t ht _ => ⟨ht.1.touches, fun h e he => (ht.2 h e he).1⟩) (fun l e _ =>
      finished_of_settles rfl) fun t l _ _ hown => ?_
  exact Goes.ret (P := fun l => Finished l) (by rw [hown]; exact finished_of_settles rfl) fun _ h =>
    h

theorem Goes.orThrow {β : Type} {x : Except Thrown β} {f : β → BlogRoutine α}
    (hs : Clean (own p s.log)) (h : ∀ b, x = .ok b → Goes p (f b) s) :
    Goes p ((BlogService.orThrow x).bind f) s := by
  cases x with
  | ok b => exact h b rfl
  | error e => exact Goes.throw hs fun _ h => h.finished

theorem updateAdminBlogPost_goes {postId : Id} {dto : UpdateAdminBlogPostDto}
    (hs : Clean (own p s.log)) :
    Goes p (BlogService.updateAdminBlogPost postId dto) s := by
  refine Goes.find hs fun t post ht => Goes.orThrow ht.1 fun input _ => ?_
  cases hmarkdown : dto.markdown with
  | none =>
    simp only [Option.isSome_none]
    exact Goes.updatePost ht.touched fun _ => ht.1
  | some markdown =>
    simp only [Option.isSome_some, if_true]
    refine Goes.await ht (fun t ht _ => ht.knows) (fun l e hl => (hl.1.cons rfl rfl).finished)
      fun t l _ hl hown => ?_
    have htouched : Touched postId post (own p t.log) := by
      rw [hown]
      exact hl.cons_touch rfl
    exact Goes.updatePost htouched fun h => by simp [BlogService.updateData, hmarkdown] at h

theorem publishAdminBlogPost_goes {postId : Id} (hs : Clean (own p s.log)) :
    Goes p (BlogService.publishAdminBlogPost postId) s := by
  refine Goes.find hs fun t post ht => ?_
  split
  · exact Goes.ret ht fun _ h => h.1.finished
  · refine Goes.await ht (fun _ _ _ => trivial) (fun l e hl => (hl.1.cons rfl rfl).finished)
      fun t l now hl hown => ?_
    have hread : Read postId post (own p t.log) := by
      rw [hown]
      exact hl.cons rfl rfl
    exact Goes.updatePost hread.touched fun _ => hread.1

theorem withdrawAdminBlogPost_goes {postId : Id} (hs : Clean (own p s.log)) :
    Goes p (BlogService.withdrawAdminBlogPost postId) s := by
  refine Goes.find hs fun t post ht =>
    Meets.throwIf (fun _ => Goes.throw ht fun _ h => h.1.finished) fun _ => ?_
  refine Goes.await ht (fun _ _ _ => trivial) (fun l e hl => (hl.1.cons rfl rfl).finished)
    fun t l now hl hown => ?_
  have hread : Read postId post (own p t.log) := by
    rw [hown]
    exact hl.cons rfl rfl
  exact Goes.updatePost hread.touched fun _ => hread.1

theorem deleteAdminBlogPost_goes {postId : Id} (hs : Clean (own p s.log)) :
    Goes p (BlogService.deleteAdminBlogPost postId) s := by
  refine Goes.find hs fun t post ht =>
    Meets.throwIf (fun _ => Goes.throw ht fun _ h => h.1.finished) fun _ => ?_
  refine Goes.await ht (fun t ht _ => ⟨ht.knows.1, .inl ht.knows.2⟩) (fun l e hl =>
    (hl.1.cons rfl rfl).finished) fun t l _ hl hown => ?_
  have htouched : Touched postId post (own p t.log) := by
    rw [hown]
    exact hl.cons_touch rfl
  refine Goes.await htouched (fun t ht _ => ht.touches) (fun l e _ => finished_of_settles rfl)
    fun t l _ _ hown => ?_
  exact Goes.ret (P := fun l => Finished l) (by rw [hown]; exact finished_of_settles rfl) fun _ h =>
    h

/-- A process that has drawn a name, and touched no other object. -/
def Made (storageName : Id) (l : List BlogEvent) : Prop :=
  (∀ e ∈ l, ∀ k, BlogEvent.touches e = some k → k = storageName) ∧
    (∃ e ∈ l, BlogEvent.draws e = some storageName) ∧
    ∀ e ∈ l, BlogEvent.settles e = false

/-- A process whose row was not created. -/
def Undone (storageName : Id) (l : List BlogEvent) : Prop :=
  (∃ e ∈ l, BlogEvent.draws e = some storageName) ∧ (∀ e ∈ l, BlogEvent.inserts e = false) ∧
    l.any BlogEvent.settles = true

theorem inserts_of_settles {e : BlogEvent} (h : BlogEvent.settles e = false) :
    BlogEvent.inserts e = false := by
  obtain ⟨p, q, r⟩ := e
  cases q with
  | createPost post => cases h
  | _ => rfl

theorem Made.cons {storageName : Id} {e : BlogEvent} {l : List BlogEvent} (h : Made storageName l)
    (htouch : ∀ k, BlogEvent.touches e = some k → k = storageName)
    (hsettle : BlogEvent.settles e = false) : Made storageName (e :: l) := by
  refine ⟨fun e' he' k hk => ?_, h.2.1.imp fun _ he => ⟨List.mem_cons_of_mem _ he.1, he.2⟩,
    fun e' he' => ?_⟩
  · rcases List.mem_cons.mp he' with rfl | he'
    · exact htouch k hk
    · exact h.1 e' he' k hk
  · rcases List.mem_cons.mp he' with rfl | he'
    · exact hsettle
    · exact h.2.2 e' he'

theorem Made.holds {storageName : Id} (h : Made storageName (own p s.log)) :
    Holds storageName p s.log :=
  ⟨h.2.1, fun e he => inserts_of_settles (h.2.2 e he)⟩

/-- The text of a post that is being created, with its name known to one process only. -/
def Stored (storageName : Id) (body : String) (p : Nat) (s : SharedBlog) : Prop :=
  Made storageName (own p s.log) ∧ s.store.objects.lookup storageName = some body

/-- A call that writes or deletes another object, or none. -/
theorem objects_after {q : BlogRequest} {c : Delivery} {k : Id}
    (hput : ∀ body, q ≠ .putObject k body) (hdelete : q ≠ .deleteObject k) :
    (blog.after c p q s).store.objects.lookup k = s.store.objects.lookup k := by
  have hdeliver : (s.store.deliver q).1.objects.lookup k = s.store.objects.lookup k := by
    cases q with
    | putObject k' body => exact AList.lookup_insert_ne fun h => hput body (h ▸ rfl)
    | deleteObject k' => exact AList.lookup_erase_ne fun h => hdelete (h ▸ rfl)
    | createPost post =>
      simp only [BlogWorld.deliver]
      split <;> rfl
    | updatePost i data =>
      simp only [BlogWorld.deliver]
      split <;> rfl
    | deletePost i =>
      simp only [BlogWorld.deliver]
      split <;> rfl
    | findPost i => rfl
    | now => rfl
    | random => rfl
  show (BlogWorld.exec c q s.store).1.objects.lookup k = _
  unfold BlogWorld.exec
  split
  · cases c with
    | failed => rfl
    | delivered | lost | late => exact hdeliver
  · exact hdeliver

/-- No other process touches the object. -/
theorem Stored.stable {storageName : Id} {body : String} :
    Stable blog textFirst outline p (Stored storageName body p) := by
  intro s s' hinter hs
  refine ⟨own_stable (P := Made storageName) hinter hs.1, ?_⟩
  cases hinter with
  | drift _ _ => exact hs.2
  | @other p' _ _ ne hi _ hpre =>
    have hforeign : ¬ Knows storageName p' s.log := by
      rintro (⟨e, he, hdraw⟩ | ⟨e, he, i, post, hread, hname⟩)
      · obtain ⟨e', he', hdraw'⟩ := hs.1.2.1
        have hpid := hi.once e (mem_own.mp he).1 e' (mem_own.mp he').1 _ hdraw hdraw'
        exact ne ((mem_own.mp he).2.symm.trans (hpid.trans (mem_own.mp he').2))
      · exact (hi.drawn p _ hs.1.holds).2 e (mem_own.mp he).1 i post hread hname
    refine (objects_after (fun body hq => ?_) fun hq => ?_).trans hs.2
    · subst hq
      exact hforeign hpre.1
    · subst hq
      exact hforeign hpre.1

/-- The catch block of a creation. -/
theorem cleanup_goes {storageName : Id} {e : Thrown} (hs : Undone storageName (own p s.log)) :
    Goes p (do
    BlogService.deleteMarkdownObjectIgnoring storageName
    throw e : BlogRoutine α) s := by
  have hcalls : (do
      BlogService.deleteMarkdownObjectIgnoring storageName
      throw e : BlogRoutine α).Calls fun q => q = .deleteObject storageName :=
    .bind (.handle (.await rfl) fun _ => trivial) fun _ => trivial
  refine (Meets.frame hcalls (own_stable (P := Undone storageName)) ?_ hs).mono fun _ t _ ht _ =>
    ht.2.2
  rintro t q c rfl _ _ ⟨hdraw, hins, hsettled⟩
  refine ⟨⟨.inl hdraw, .inr ⟨hdraw, hins⟩⟩, ?_⟩
  rw [own_after]
  refine ⟨hdraw.imp fun _ he => ⟨List.mem_cons_of_mem _ he.1, he.2⟩, fun e' he' => ?_, by
    rw [List.any_cons, hsettled, Bool.or_true]⟩
  rcases List.mem_cons.mp he' with rfl | he'
  · rfl
  · exact hins e' he'

/-- The length that is to be stored is that of the text that is to be stored. -/
theorem contentSize_of_normalizeCreateInput {dto : SaveAdminBlogPostDto}
    {input : BlogService.NormalizedBlogInput}
    (h : BlogService.normalizeCreateInput dto = .ok input) :
    input.contentSize = input.markdown.utf8ByteSize := by
  obtain ⟨markdown, _, h⟩ := exceptBind_ok.mp h
  obtain ⟨subtitle, _, h⟩ := exceptBind_ok.mp h
  split at h
  · obtain ⟨authorName, _, h⟩ := exceptBind_ok.mp h
    obtain ⟨categories, _, h⟩ := exceptBind_ok.mp h
    cases h
    rfl
  · cases h

theorem createAdminBlogPost_goes {adminUserId : Id} {dto : SaveAdminBlogPostDto}
    {status : BlogPostStatus} (hs : Clean (own p s.log)) :
    Goes p (BlogService.createAdminBlogPost adminUserId dto status) s := by
  refine Goes.orThrow hs fun input hinput => ?_
  refine Goes.await (q := .random) hs (fun _ _ _ => trivial) (fun l e hl =>
    (hl.cons rfl rfl).finished) fun t l storageName hl hown => ?_
  have hmade : Clean (own p t.log) ∧ Made storageName (own p t.log) := by
    have hclean : Clean (own p t.log) := by
      rw [hown]
      exact hl.cons rfl rfl
    refine ⟨hclean, fun e he k hk => (Option.some_ne_none k (hk.symm.trans (hclean e he).1)).elim,
      ?_, fun e he => (hclean e he).2⟩
    rw [hown]
    exact ⟨_, List.mem_cons_self, rfl⟩
  -- the object is written
  refine Meets.await (own_stable (P := fun l => Clean l ∧ Made storageName l)) hmade
    fun t ht _ c _ =>
    ⟨⟨.inl ht.2.2.1, ?_⟩, fun _ hr => ?_, fun e he => ?_⟩
  · rw [settled, List.any_eq_false]
    exact fun e he => by simp [ht.2.2.2 e he]
  · have hstored : Stored storageName input.markdown p
        (blog.after c p (.putObject storageName input.markdown) t) := by
      refine ⟨?_, ?_⟩
      · rw [own_after, hr]
        exact ht.2.cons (fun k hk => (Option.some.inj hk).symm) rfl
      · cases c with
        | failed | lost => cases hr
        | delivered | late => exact AList.lookup_insert _
    -- and then the row
    refine Meets.caught ?_
    refine Meets.await Stored.stable hstored fun t ht _ c _ =>
      ⟨trivial, fun now hr => ?_, fun e he => by cases he⟩
    have hstored : Stored storageName input.markdown p (blog.after c p .now t) := by
      refine ⟨?_, ht.2⟩
      rw [own_after]
      exact ht.1.cons (fun k hk => by cases hk) rfl
    refine Meets.await Stored.stable hstored fun t ht _ c _ =>
      ⟨⟨ht.1.holds, ?_, ht.1.1⟩, fun postId hr => ?_, fun e he => ?_⟩
    · rw [fits, ht.2, Option.any_some, contentSize_of_normalizeCreateInput hinput]
      exact decide_eq_true rfl
    · refine Meets.ret (own_stable (P := Finished)) ?_ fun _ ht _ => ht
      rw [own_after]
      exact finished_of_settles rfl
    · refine Meets.throw (own_stable (P := Undone storageName)) ?_ fun t ht _ => cleanup_goes ht
      rw [own_after, he]
      refine ⟨ht.1.2.1.imp fun _ he => ⟨List.mem_cons_of_mem _ he.1, he.2⟩, fun e' he' => ?_, rfl⟩
      rcases List.mem_cons.mp he' with rfl | he'
      · rfl
      · exact inserts_of_settles (ht.1.2.2 e' he')
  · refine Goes.throw (P := Clean) ?_ fun _ h => h.finished
    rw [own_after, he]
    exact ht.1.cons rfl rfl

/-- Every request follows the outline. -/
theorem program_goes (op : BlogOperation) (hs : ∀ e ∈ s.log, e.pid ≠ p) : Goes p op.program s := by
  have hclean : Clean (own p s.log) := fun e he => absurd (mem_own.mp he).2 (hs e (mem_own.mp he).1)
  cases op with
  | createAdminBlogPost adminUserId dto status => exact createAdminBlogPost_goes hclean
  | updateAdminBlogPost postId dto => exact updateAdminBlogPost_goes hclean
  | publishAdminBlogPost postId => exact publishAdminBlogPost_goes hclean
  | withdrawAdminBlogPost postId => exact withdrawAdminBlogPost_goes hclean
  | deleteAdminBlogPost postId => exact deleteAdminBlogPost_goes hclean

end

theorem Inv.initial {w : BlogWorld} (hw : WellNamed w) (htexts : TextsMatch w) :
    Inv (.initial w) where
  named := hw
  reads e he := by cases he
  drawn p k h := by
    obtain ⟨⟨e, he, _⟩, _⟩ := h
    cases he
  below e he := by cases he
  once e he := by cases he
  agrees i post hpost := by
    obtain ⟨text, htext, hsize⟩ := htexts i post hpost
    refine .inl ?_
    rw [fits]
    have hlookup : (Shared.initial w : SharedBlog).store.objects.lookup post.storageName =
        some text := htext
    rw [hlookup, Option.any_some]
    exact decide_eq_true hsize

/-- Where no request is in progress, nobody has still to write a row. -/
theorem Inv.textsMatch {t : BlogPool} (hi : Inv t.shared)
    (hfinished : ∀ p < t.procs.length, Finished (own p t.shared.log))
    (hknown : ∀ e ∈ t.shared.log, e.pid < t.procs.length) :
    TextsMatch t.shared.store := by
  intro i post hpost
  rcases hi.agrees i post hpost with hfits | ⟨p, hlast, hopen⟩
  · obtain ⟨text, htext, hsize⟩ := Option.any_eq_true _ _ |>.mp hfits
    exact ⟨text, htext, of_decide_eq_true hsize⟩
  · obtain ⟨e, he, htouch⟩ := touch_of_lastTouch hlast
    have hp : p < t.procs.length := (mem_own.mp he).2 ▸ hknown e (mem_own.mp he).1
    rw [settled, hfinished p hp ⟨e, he, _, htouch⟩] at hopen
    cases hopen

end BlogTexts

def noPosts : BlogWorld := ⟨∅, ∅, 0, 100⟩

theorem noPosts_wellNamed : WellNamed noPosts where
  drawn _ _ h := by cases h
  unique _ _ _ _ h := by cases h

theorem noPosts_match : TextsMatch noPosts := fun _ _ h => by cases h

def newPost : BlogOperation := .createAdminBlogPost 1 ⟨none, "Subtitle", some ⟨"Author", none⟩,
      none, "text"⟩ .draft
def newText (text : String) : BlogOperation :=
  .updateAdminBlogPost 101 ⟨none, none, none, none, some (some text)⟩

/-- A post, and two updates of its text that overlap. The row is written in the order of the texts.
-/
def overlappingUpdates : List BlogAction :=
  .start newPost :: List.replicate 4 (.advance 0 .delivered) ++
    .start (newText "longer text") :: .start (newText "other") :: [.advance 1 .delivered,
      .advance 1 .delivered,
      .advance 2 .delivered, .advance 2 .delivered, .advance 1 .delivered, .advance 2 .delivered]

/-- How many calls of a run fail. -/
def failures (as : List BlogAction) : Nat := as.countP fun
  | .advance _ d => decide (d ≠ .delivered)
  | _ => false

/-- The text is replaced, and the write to the row fails. -/
def failedUpdate : List BlogAction :=
  .start newPost :: List.replicate 4 (.advance 0 .delivered) ++
    [.start (newText "longer text"), .advance 1 .delivered, .advance 1 .delivered,
      .advance 1 .failed]

end Redbox
