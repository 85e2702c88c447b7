import Redbox.RateLimit.EventStreams

/-! The slots that streams hold: how the counters stand for them. -/
namespace Redbox
open Interleaving

namespace EventStreams

/-- A stream that is not to give its slot of the key back. -/
def leaks (key : CounterKey) : StreamEvent → Bool
  | ⟨_, .subscribe userKey ipKey, .ok true⟩ => decide (key = userKey ∨ key = ipKey)
  | _ => false

def gives (key : CounterKey) : Kind StreamRequest StreamReply :=
  fun log e => releases key log e || leaks key e

/-- The streams that hold a slot of the key and are to give it back. -/
def claims (key : CounterKey) (log : List StreamEvent) : List Nat :=
  holders (counts key) (gives key) log

/-- A slot is counted within the limit. -/
def admits (limits : CounterKey → Nat) (key : CounterKey) : Kind StreamRequest StreamReply
  | _, ⟨_, .counter (.incr k), .ok count⟩ => decide (k = key ∧ count ≤ limits key)
  | _, _ => false

def slots (limits : CounterKey → Nat) (key : CounterKey) (log : List StreamEvent) : List Nat :=
  holders (admits limits key) (gives key) log

/-- A stream gives its slot back and finds that it was the last. -/
def zeroes (limits : CounterKey → Nat) (key : CounterKey) : Kind StreamRequest StreamReply
  | log, ⟨p, .counter (.decr k), .ok count⟩ =>
    decide (k = key ∧ count ≤ 0 ∧ p ∈ slots limits key log)
  | _, _ => false

def deletes (key : CounterKey) : Kind StreamRequest StreamReply
  | _, ⟨_, .counter (.del k), _⟩ => decide (k = key)
  | _, _ => false

/-- The streams that are about to delete the key. -/
def deleting (limits : CounterKey → Nat) (key : CounterKey) (log : List StreamEvent) : List Nat :=
  holders (zeroes limits key) (deletes key) log

/-- No stream counts a slot of a key that another is about to delete, and no expiry is immediate. -/
def orderly (limits : CounterKey → Nat) (s : StreamShared) : StreamRequest → Bool
  | .counter (.incr key) => (deleting limits key s.log).isEmpty
  | .counter (.expire _ seconds) => decide (0 < seconds)
  | _ => true

/-- A key runs out only when no stream holds a slot of it. -/
def outlasts (s : StreamShared) (n : Nat) : Bool :=
  (usedKeys s.log).all fun key =>
    (s.store.live key).isNone || ((s.store.tick n).live key).isSome || (claims key s.log).isEmpty

def holdsNothing (p : Nat) (log : List StreamEvent) : Bool :=
  (usedKeys log).all fun key => decide (p ∉ claims key log)

/-- A command may fail only for a stream that holds no slot, and before it takes effect; the
deletion of a key may fail in any way. -/
def harmless (s : StreamShared) (p : Nat) (q : StreamRequest) (c : StreamChoice) : Bool :=
  match q with
  | .counter (.del _) => true
  | .counter _ =>
    decide (c.delivery ≠ .lost) && (decide (c.delivery ≠ .failed) || holdsNothing p s.log)
  | _ => true

/-- What the rules have to see to for the counters to stand for the slots. -/
structure Tame (limits : CounterKey → Nat) (R : StreamRules) : Prop where
  starts : ∀ s o, R.starts s o = true → o.userLimit = limits o.userKey ∧ o.ipLimit = limits o.ipKey
  allows : ∀ s p q c, R.allows s p q c = true → orderly limits s q = true ∧ harmless s p q c = true
  drifts : ∀ s n, R.drifts s n = true → outlasts s n = true

/-- The counter of a key and the streams that hold its slots. -/
structure SoundAt (limits : CounterKey → Nat) (key : CounterKey) (s : StreamShared) : Prop where
  lower : (claims key s.log).length ≤ s.store.value key
  upper : s.store.value key ≤ (claims key s.log).length + s.log.countP (leaks key)
  bounded : (slots limits key s.log).length ≤ limits key
  finished : deleting limits key s.log ≠ [] → claims key s.log = []
  distinct : (openStreams key s.log).Nodup
  covered : ∀ p ∈ openStreams key s.log, p ∈ slots limits key s.log
  paired : Paired (counts key) (gives key) s.log

/-- Slots are given back by those who hold them, after the stream is closed. -/
def outline (limits : CounterKey → Nat) : Outline StreamRequest StreamReply Counters where
  inv := fun s => ∀ key, SoundAt limits key s
  pre := fun s p q => match q with
    | .counter (.decr key) => p ∈ claims key s.log ∧ p ∉ openStreams key s.log
    | .counter (.del key) => p ∈ deleting limits key s.log
    | .subscribe userKey ipKey =>
      userKey ≠ ipKey ∧ p ∈ slots limits userKey s.log ∧ p ∈ slots limits ipKey s.log ∧ ∀ key,
        p ∉ openStreams key s.log
    | _ => True

section
variable {limits : CounterKey → Nat} {key : CounterKey} {s t : StreamShared} {e : StreamEvent}
  {log : List StreamEvent}
  {p : Nat}

theorem counts_not_gives (log : List StreamEvent) (e : StreamEvent) (h : counts key log e = true) :
    gives key log e = false := by
  obtain ⟨p, q, r⟩ := e
  match q, r, h with
  | .counter (.incr k), .ok count, _ => rfl

theorem admits_counts (log : List StreamEvent) (e : StreamEvent)
    (h : admits limits key log e = true) :
    counts key log e = true := by
  obtain ⟨p, q, r⟩ := e
  match q, r, h with
  | .counter (.incr k), .ok count, h => exact decide_eq_true (of_decide_eq_true h).1

theorem slots_subperm : (slots limits key log).Subperm (claims key log) :=
  holders_subperm admits_counts counts_not_gives

theorem claims_of_slots (h : p ∈ slots limits key log) : p ∈ claims key log :=
  slots_subperm.subset h

/-- An event that has nothing to do with the key. -/
theorem SoundAt.aside (h : SoundAt limits key s) (hlog : t.log = e :: s.log)
    (hcounts : counts key s.log e = false) (hgives : gives key s.log e = false)
    (hopens : opens key s.log e = false) (hcloses : closes s.log e = false)
    (hzeroes : zeroes limits key s.log e = false) (hdeletes : deletes key s.log e = false)
    (hvalue : t.store.value key = s.store.value key) : SoundAt limits key t := by
  have hadmits : admits limits key s.log e = false := by
    rw [← Bool.not_eq_true]
    exact fun hfits => by simp [admits_counts _ _ hfits] at hcounts
  have hleaks : leaks key e = false := (Bool.or_eq_false_iff.mp hgives).2
  have hclaims : claims key t.log = claims key s.log := by
    rw [claims, hlog, holders_neither hcounts hgives]
    rfl
  have hslots : slots limits key t.log = slots limits key s.log := by
    rw [slots, hlog, holders_neither hadmits hgives]
    rfl
  have hopen : openStreams key t.log = openStreams key s.log := by
    rw [openStreams, hlog, holders_neither hopens hcloses]
    rfl
  have hdeleting : deleting limits key t.log = deleting limits key s.log := by
    rw [deleting, hlog, holders_neither hzeroes hdeletes]
    rfl
  have hcount : t.log.countP (leaks key) = s.log.countP (leaks key) := by
    rw [hlog, List.countP_cons_of_neg (by simp [hleaks])]
  refine ⟨?_, ?_, ?_, ?_, ?_, ?_, ?_⟩
  · rw [hclaims, hvalue]
    exact h.lower
  · rw [hclaims, hvalue, hcount]
    exact h.upper
  · rw [hslots]
    exact h.bounded
  · rw [hdeleting, hclaims]
    exact h.finished
  · rw [hopen]
    exact h.distinct
  · rw [hopen, hslots]
    exact h.covered
  · rw [hlog]
    exact ⟨fun _ hg => absurd (hgives.symm.trans hg) nofun, h.paired⟩

theorem countP_leaks (h : leaks key e = false) :
    (e :: log).countP (leaks key) = log.countP (leaks key) :=
  List.countP_cons_of_neg (by simp [h])

/-- One more slot. -/
theorem SoundAt.incr (h : SoundAt limits key s) (horder : deleting limits key s.log = []) :
    SoundAt limits key ⟨(s.store.add key 1).1,
      ⟨p, .counter (.incr key), .ok (s.store.add key 1).2⟩ :: s.log⟩ := by
  obtain ⟨hvalue, hreply⟩ := s.store.value_add key 1
  generalize hcount : (s.store.add key 1).2 = count at *
  have hcounts : counts key s.log ⟨p, .counter (.incr key), .ok count⟩ = true := decide_eq_true rfl
  have hclaims : claims key (⟨p, .counter (.incr key), .ok count⟩ :: s.log) = p ::
      claims key s.log :=
    holders_takes hcounts
  have hlower := h.lower
  have hupper := h.upper
  refine ⟨?_, ?_, ?_, ?_, h.distinct, ?_, fun ht => absurd (hcounts.symm.trans ht) nofun, h.paired⟩
  · rw [hclaims, hvalue, List.length_cons]
    omega
  · rw [hclaims, hvalue, List.length_cons,
      countP_leaks (e := ⟨p, .counter (.incr key), .ok count⟩) rfl]
    omega
  · by_cases hadmits : admits limits key s.log ⟨p, .counter (.incr key), .ok count⟩ = true
    · have hslots : slots limits key (⟨p, .counter (.incr key), .ok count⟩ :: s.log) = p ::
          slots limits key s.log :=
        holders_takes hadmits
      have hlimit : count ≤ limits key := (of_decide_eq_true hadmits).2
      have hle : (slots limits key s.log).length ≤ (claims key s.log).length :=
        slots_subperm.length_le
      rw [hslots, List.length_cons]
      omega
    · rw [Bool.not_eq_true] at hadmits
      have hslots : slots limits key (⟨p, .counter (.incr key), .ok count⟩ :: s.log) =
          slots limits key s.log :=
        holders_neither hadmits rfl
      rw [hslots]
      exact h.bounded
  · intro hne
    exact absurd horder hne
  · intro p' hp'
    have hmem := h.covered p' hp'
    by_cases hadmits : admits limits key s.log ⟨p, .counter (.incr key), .ok count⟩ = true
    · have hslots : slots limits key (⟨p, .counter (.incr key), .ok count⟩ :: s.log) = p ::
          slots limits key s.log :=
        holders_takes hadmits
      rw [hslots]
      exact List.mem_cons_of_mem p hmem
    · rw [Bool.not_eq_true] at hadmits
      have hslots : slots limits key (⟨p, .counter (.incr key), .ok count⟩ :: s.log) =
          slots limits key s.log :=
        holders_neither hadmits rfl
      rw [hslots]
      exact hmem

/-- A slot is given back by a stream that is closed. -/
theorem SoundAt.decr (h : SoundAt limits key s) (hp : p ∈ claims key s.log)
    (hclosed : p ∉ openStreams key s.log) :
    SoundAt limits key ⟨(s.store.add key (-1)).1,
      ⟨p, .counter (.decr key), .ok (s.store.add key (-1)).2⟩ :: s.log⟩ := by
  obtain ⟨hvalue, hreply⟩ := s.store.value_add key (-1)
  generalize hcount : (s.store.add key (-1)).2 = count at *
  have hgives : gives key s.log ⟨p, .counter (.decr key), .ok count⟩ = true :=
    Bool.or_eq_true_iff.mpr (.inl (decide_eq_true rfl))
  have hclaims : claims key (⟨p, .counter (.decr key), .ok count⟩ :: s.log) =
      (claims key s.log).erase p :=
    holders_gives rfl hgives
  have hslots : slots limits key (⟨p, .counter (.decr key), .ok count⟩ :: s.log) =
      (slots limits key s.log).erase p :=
    holders_gives rfl hgives
  have hlength := List.length_erase_of_mem hp
  have hpos := List.length_pos_of_mem hp
  have hlower := h.lower
  have hupper := h.upper
  refine ⟨?_, ?_, ?_, ?_, h.distinct, ?_, fun _ _ => hp, h.paired⟩
  · rw [hclaims, hvalue]
    omega
  · rw [hclaims, hvalue, countP_leaks (e := ⟨p, .counter (.decr key), .ok count⟩) rfl]
    omega
  · rw [hslots]
    exact (List.length_erase_le.trans h.bounded)
  · intro hne
    rw [hclaims]
    by_cases hzeroes : zeroes limits key s.log ⟨p, .counter (.decr key), .ok count⟩ = true
    · have hle : count ≤ 0 := (of_decide_eq_true hzeroes).2.1
      exact List.length_eq_zero_iff.mp (by omega)
    · rw [Bool.not_eq_true] at hzeroes
      have hdeleting : deleting limits key (⟨p, .counter (.decr key), .ok count⟩ :: s.log) =
          deleting limits key s.log :=
        holders_neither hzeroes rfl
      rw [hdeleting] at hne
      rw [h.finished hne]
      rfl
  · intro p' hp'
    have hne : p' ≠ p := fun hpp => hclosed (hpp ▸ hp')
    rw [hslots]
    exact (List.mem_erase_of_ne hne).mpr (h.covered p' hp')

/-- The key is deleted when nobody holds a slot, or the deletion fails. -/
theorem SoundAt.del (h : SoundAt limits key s) (hp : p ∈ deleting limits key s.log)
    {store : Counters} (hstore : store.value key = 0 ∨ store.value key = s.store.value key)
    (r : StreamReply (.counter (.del key))) :
    SoundAt limits key ⟨store, ⟨p, .counter (.del key), r⟩ :: s.log⟩ := by
  have hempty : claims key s.log = [] := h.finished (List.ne_nil_of_mem hp)
  have hclaims : claims key (⟨p, .counter (.del key), r⟩ :: s.log) = claims key s.log :=
    holders_neither rfl rfl
  have hlower := h.lower
  have hupper := h.upper
  rw [hempty] at hlower hupper
  refine ⟨?_, ?_, h.bounded, fun _ => hempty, h.distinct, h.covered,
    fun _ hg => absurd hg nofun, h.paired⟩
  · rw [hclaims, hempty]
    rcases hstore with hv | hv <;> rw [hv]
    · exact Int.le_refl 0
    · exact hlower
  · rw [hclaims, hempty, countP_leaks (e := ⟨p, .counter (.del key), r⟩) rfl]
    rcases hstore with hv | hv <;> rw [hv]
    · exact Int.natCast_nonneg _
    · exact hupper

/-- A stream is admitted to the key, and open. -/
theorem SoundAt.open (h : SoundAt limits key s) {userKey ipKey : CounterKey}
    (hkey : key = userKey ∨ key = ipKey) (hp : p ∈ slots limits key s.log)
    (hnew : p ∉ openStreams key s.log) :
    SoundAt limits key ⟨s.store, ⟨p, .subscribe userKey ipKey, .ok false⟩ :: s.log⟩ := by
  have hopens : opens key s.log ⟨p, .subscribe userKey ipKey, .ok false⟩ = true :=
    decide_eq_true hkey
  have hopen : openStreams key (⟨p, .subscribe userKey ipKey, .ok false⟩ :: s.log) = p ::
      openStreams key s.log :=
    holders_takes hopens
  refine ⟨h.lower, ?_, h.bounded, h.finished, ?_, ?_, fun _ hg => absurd hg nofun, h.paired⟩
  · rw [countP_leaks (e := ⟨p, .subscribe userKey ipKey, .ok false⟩) rfl]
    exact h.upper
  · rw [hopen]
    exact List.nodup_cons.mpr ⟨hnew, h.distinct⟩
  · intro p' hp'
    rw [hopen] at hp'
    rcases List.mem_cons.mp hp' with rfl | hp'
    · exact hp
    · exact h.covered p' hp'

/-- A stream that nobody reads keeps its slot. -/
theorem SoundAt.leak (h : SoundAt limits key s) {userKey ipKey : CounterKey}
    (hkey : key = userKey ∨ key = ipKey) (hp : p ∈ slots limits key s.log)
    (hnew : p ∉ openStreams key s.log) :
    SoundAt limits key ⟨s.store, ⟨p, .subscribe userKey ipKey, .ok true⟩ :: s.log⟩ := by
  have hleaks : leaks key (⟨p, .subscribe userKey ipKey, .ok true⟩ : StreamEvent) = true :=
    decide_eq_true hkey
  have hgives : gives key s.log ⟨p, .subscribe userKey ipKey, .ok true⟩ = true :=
    Bool.or_eq_true_iff.mpr (.inr hleaks)
  have hclaims : claims key (⟨p, .subscribe userKey ipKey, .ok true⟩ :: s.log) =
      (claims key s.log).erase p :=
    holders_gives rfl hgives
  have hslots : slots limits key (⟨p, .subscribe userKey ipKey, .ok true⟩ :: s.log) =
      (slots limits key s.log).erase p :=
    holders_gives rfl hgives
  have hclaim := claims_of_slots hp
  have hlength := List.length_erase_of_mem hclaim
  have hpos := List.length_pos_of_mem hclaim
  have hlower := h.lower
  have hupper := h.upper
  refine ⟨?_, ?_, ?_, ?_, h.distinct, ?_, fun _ _ => hclaim, h.paired⟩
  · rw [hclaims]
    exact Int.le_trans (by omega) hlower
  · change s.store.value key ≤ _
    rw [hclaims, List.countP_cons_of_pos hleaks]
    omega
  · rw [hslots]
    exact List.length_erase_le.trans h.bounded
  · intro hne
    rw [hclaims, h.finished hne]
    rfl
  · intro p' hp'
    have hne : p' ≠ p := fun hpp => hnew (hpp ▸ hp')
    rw [hslots]
    exact (List.mem_erase_of_ne hne).mpr (h.covered p' hp')

theorem SoundAt.close (h : SoundAt limits key s) :
    SoundAt limits key ⟨s.store, ⟨p, .teardown, .ok ()⟩ :: s.log⟩ := by
  have hopen : openStreams key (⟨p, .teardown, .ok ()⟩ :: s.log) = (openStreams key s.log).erase
      p := holders_gives rfl rfl
  refine ⟨h.lower, ?_, h.bounded, h.finished, ?_, ?_, fun _ hg => absurd hg nofun, h.paired⟩
  · rw [countP_leaks (e := ⟨p, .teardown, .ok ()⟩) rfl]
    exact h.upper
  · rw [hopen]
    exact h.distinct.erase p
  · intro p' hp'
    rw [hopen] at hp'
    exact h.covered p' (List.mem_of_mem_erase hp')

/-- A command on another key. -/
theorem SoundAt.other (h : SoundAt limits key s) {c : CounterRequest} (hkey : key ≠ c.key)
    {store : Counters} (hvalue : store.value key = s.store.value key)
    (r : StreamReply (.counter c)) :
    SoundAt limits key ⟨store, ⟨p, .counter c, r⟩ :: s.log⟩ := by
  have hne : ¬ c.key = key := fun h => hkey h.symm
  refine h.aside rfl ?_ ?_ rfl rfl ?_ ?_ hvalue
  all_goals cases c <;> cases r <;>
    first | rfl | exact decide_eq_false hne | exact decide_eq_false fun h => hne h.1 | skip
  all_goals exact Bool.or_eq_false_iff.mpr ⟨decide_eq_false hne, rfl⟩

/-- A command that fails before it takes effect. -/
theorem SoundAt.failed (h : SoundAt limits key s) {c : CounterRequest} (hdel : ∀ k, c ≠ .del k)
    (e : LimitThrown) :
    SoundAt limits key ⟨s.store, ⟨p, .counter c, .error e⟩ :: s.log⟩ := by
  refine h.aside rfl ?_ ?_ rfl rfl ?_ ?_ rfl
  all_goals cases c <;> first | rfl | exact absurd rfl (hdel _)

/-- A command that leaves the value of the key as it is. -/
theorem SoundAt.kept (h : SoundAt limits key s) {c : CounterRequest} (hincr : ∀ k, c ≠ .incr k)
    (hdecr : ∀ k, c ≠ .decr k) (hdel : ∀ k, c ≠ .del k) {store : Counters}
    (hvalue : store.value key = s.store.value key) (r : StreamReply (.counter c)) :
    SoundAt limits key ⟨store, ⟨p, .counter c, r⟩ :: s.log⟩ := by
  refine h.aside rfl ?_ ?_ rfl rfl ?_ ?_ hvalue
  all_goals cases c <;> first | rfl | exact absurd rfl (hdel _) | exact absurd rfl (hincr _) | exact absurd rfl (hdecr _)

theorem mem_usedKeys_cons (h : key ∈ usedKeys log) : key ∈ usedKeys (e :: log) := by
  obtain ⟨p, q, r⟩ := e
  cases q with
  | counter c =>
    cases c with
    | incr k =>
      cases r with
      | ok count => exact List.mem_cons_of_mem _ h
      | error e => exact h
    | _ => exact h
  | _ => exact h

theorem mem_usedKeys_of_counts {before : List StreamEvent} (hsuffix : e :: before <:+ log)
    (h : counts key before e = true) :
    key ∈ usedKeys log := by
  induction log with
  | nil => cases List.suffix_nil.mp hsuffix
  | cons e' log ih =>
    rcases List.suffix_cons_iff.mp hsuffix with heq | hsuffix
    · cases heq
      obtain ⟨p, q, r⟩ := e
      match q, r, h with
      | .counter (.incr k), .ok count, h =>
        cases of_decide_eq_true h
        exact List.mem_cons_self
    · exact mem_usedKeys_cons (ih hsuffix)

/-- Slots are held of keys that were counted. -/
theorem mem_usedKeys (h : p ∈ claims key log) : key ∈ usedKeys log := by
  obtain ⟨before, e, hsuffix, -, hcounts⟩ := exists_of_mem_holders h
  exact mem_usedKeys_of_counts hsuffix hcounts

theorem holdsNothing_iff : holdsNothing p log = true ↔ ∀ key, p ∉ claims key log := by
  simp only [holdsNothing, List.all_eq_true, decide_eq_true_eq]
  exact ⟨fun h key hp => h key (mem_usedKeys hp) hp, fun h key _ => h key⟩

end

section
variable {limits : CounterKey → Nat} {R : StreamRules}

theorem value_moved {s : StreamShared} {n : Nat} {key : CounterKey} (h : outlasts s n = true) :
    (s.store.tick n).value key = s.store.value key ∨
    ((s.store.tick n).value key = 0 ∧ claims key s.log = []) := by
  cases htick : (s.store.tick n).live key with
  | some c =>
    left
    rw [Counters.value, Counters.value, htick, Counters.live_tick htick]
  | none =>
    have hzero : (s.store.tick n).value key = 0 := by
      rw [Counters.value, htick]
      rfl
    by_cases hclaims : claims key s.log = []
    · exact .inr ⟨hzero, hclaims⟩
    · obtain ⟨p, hp⟩ := List.exists_mem_of_ne_nil _ hclaims
      have hkey := List.all_eq_true.mp h key (mem_usedKeys hp)
      rw [htick, Option.isSome_none, Bool.or_false, Bool.or_eq_true, Option.isNone_iff_eq_none,
        List.isEmpty_iff] at hkey
      left
      rw [hzero, Counters.value, hkey.resolve_right hclaims]
      rfl

/-- A command fails before it takes effect and for a stream without slots, or it is delivered. -/
theorem harmless_cases {s : StreamShared} {p : Nat} {cmd : CounterRequest} {c : StreamChoice}
    (h : harmless s p (.counter cmd) c = true) (hdel : ∀ k, cmd ≠ .del k) :
    ((s.store.exec c.delivery cmd).1 = s.store ∧ (∃ e, (s.store.exec c.delivery cmd).2 = .error e) ∧
      ∀ key, p ∉ claims key s.log) ∨
    ((s.store.exec c.delivery cmd).1 = (s.store.perform cmd).1 ∧
      (s.store.exec c.delivery cmd).2 = .ok (s.store.perform cmd).2) := by
  have hh : c.delivery ≠ .lost ∧ (c.delivery ≠ .failed ∨ holdsNothing p s.log = true) := by
    cases cmd with
    | del k => exact absurd rfl (hdel k)
    | _ => simpa [harmless] using h
  rcases Counters.exec_cases c.delivery cmd s.store with ⟨hd, hs, hr⟩ | ⟨hd, -⟩ | h
  · exact .inl ⟨hs, hr, holdsNothing_iff.mp (hh.2.resolve_left (not_not_intro hd))⟩
  · exact absurd hd hh.1
  · exact .inr h

theorem outline_kept (hR : Tame limits R) : (outline limits).Kept eventStreams R := by
  refine ⟨fun {s p q c} hi ha hp key => ?_, fun {s n} hi hd key => ?_⟩
  · obtain ⟨horder, hharm⟩ := hR.allows s p q c ha
    have h := hi key
    cases q with
    | counter cmd =>
      have hafter : eventStreams.after c p (.counter cmd) s =
          ⟨(s.store.exec c.delivery cmd).1, ⟨p, .counter cmd, (s.store.exec c.delivery cmd).2⟩ ::
            s.log⟩ := rfl
      rw [hafter]
      have delivered := harmless_cases hharm
      by_cases hkey : key = cmd.key
      · subst hkey
        cases cmd with
        | incr k =>
          rcases delivered (by simp) with ⟨hs, ⟨e, hr⟩, -⟩ | ⟨hs, hr⟩ <;> rw [hs, hr]
          · exact h.failed (by simp) e
          · exact h.incr (List.isEmpty_iff.mp horder)
        | decr k =>
          rcases delivered (by simp) with ⟨-, -, hnothing⟩ | ⟨hs, hr⟩
          · exact absurd hp.1 (hnothing k)
          · rw [hs, hr]
            exact h.decr hp.1 hp.2
        | expire k n =>
          rcases delivered (by simp) with ⟨hs, ⟨e, hr⟩, -⟩ | ⟨hs, hr⟩ <;> rw [hs, hr]
          · exact h.failed (by simp) e
          · refine h.kept (by simp) (by simp) (by simp) ?_ _
            exact congrArg (fun v : Option Int => v.getD 0)
              (Counters.value_expire (of_decide_eq_true horder))
        | ttl k =>
          rcases delivered (by simp) with ⟨hs, ⟨e, hr⟩, -⟩ | ⟨hs, hr⟩ <;> rw [hs, hr]
          · exact h.failed (by simp) e
          · exact h.kept (by simp) (by simp) (by simp) rfl _
        | get k =>
          rcases delivered (by simp) with ⟨hs, ⟨e, hr⟩, -⟩ | ⟨hs, hr⟩ <;> rw [hs, hr]
          · exact h.failed (by simp) e
          · exact h.kept (by simp) (by simp) (by simp) rfl _
        | del k =>
          have hgone : (s.store.perform (.del k)).1.value k = 0 := by
            rw [Counters.value, Counters.live_del]
            rfl
          refine h.del hp ?_ _
          rcases Counters.exec_cases c.delivery (.del k) s.store with ⟨-, hs, -⟩ | ⟨-, hs, -⟩ | ⟨hs,
            -⟩ <;> rw [hs]
          · exact .inr rfl
          · exact .inl hgone
          · exact .inl hgone
      · refine h.other hkey ?_ _
        rcases Counters.exec_cases c.delivery cmd s.store with ⟨-, hs, -⟩ | ⟨-, hs, -⟩ | ⟨hs, -⟩
          <;> rw [hs]
        · exact Counters.value_congr (Counters.live_perform hkey)
        · exact Counters.value_congr (Counters.live_perform hkey)
    | subscribe userKey ipKey =>
      obtain ⟨-, huser, hip, hnew⟩ := hp
      have hafter : eventStreams.after c p (.subscribe userKey ipKey) s =
          ⟨s.store, ⟨p, .subscribe userKey ipKey, .ok c.unsubscribed⟩ :: s.log⟩ := rfl
      rw [hafter]
      by_cases hkey : key = userKey ∨ key = ipKey
      · have hslot : p ∈ slots limits key s.log := by
          rcases hkey with rfl | rfl
          · exact huser
          · exact hip
        cases c.unsubscribed with
        | false => exact h.open hkey hslot (hnew key)
        | true => exact h.leak hkey hslot (hnew key)
      · have hno : decide (key = userKey ∨ key = ipKey) = false := decide_eq_false hkey
        cases c.unsubscribed with
        | false => exact h.aside rfl rfl rfl hno rfl rfl rfl rfl
        | true => exact h.aside rfl rfl (Bool.or_eq_false_iff.mpr ⟨rfl, hno⟩) rfl rfl rfl rfl rfl
    | teardown => exact h.close
  · have h := hi key
    have hlower := h.lower
    have hupper := h.upper
    have hvalue : (s.store.tick n).value key = _ ∨ (s.store.tick n).value key = 0 ∧ _ :=
      value_moved (hR.drifts s n hd)
    refine ⟨?_, ?_, h.bounded, h.finished, h.distinct, h.covered, h.paired⟩
    · show ((claims key s.log).length : Int) ≤ (s.store.tick n).value key
      rcases hvalue with hv | ⟨hv, hempty⟩
      · rw [hv]
        exact hlower
      · rw [hv, hempty]
        exact Int.le_refl 0
    · show (s.store.tick n).value key ≤ (claims key s.log).length + s.log.countP (leaks key)
      rcases hvalue with hv | ⟨hv, hempty⟩
      · rw [hv]
        exact hupper
      · rw [hv, hempty]
        exact Int.natCast_nonneg _

end
end EventStreams
end Redbox
