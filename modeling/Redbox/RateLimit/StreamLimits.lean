import Redbox.RateLimit.StreamSlots

/-! How many event streams are open, and what is left of them when they have ended. -/
namespace Redbox
open Interleaving

namespace EventStreams
open RateLimitService

variable {limits : CounterKey → Nat} {R : StreamRules}

/-- What a stream holds that is not open. -/
structure Holds (limits : CounterKey → Nat) (p : Nat) (held admitted : List CounterKey)
    (s : StreamShared) : Prop where
  claimed : ∀ key, (claims key s.log).count p = held.count key
  admitted : ∀ key ∈ admitted, p ∈ slots limits key s.log
  closed : ∀ key, p ∉ openStreams key s.log
  detached : (holders subscribes closes s.log).count p = 0

section
variable {O : Outline StreamRequest StreamReply Counters} {p : Nat}
  {held admitted : List CounterKey} {s : StreamShared}

theorem holds_stable : Stable eventStreams R O p (Holds limits p held admitted) := by
  intro s s' h hs
  exact ⟨fun key => Stable.holdsCount _ h (hs.claimed key),
    fun key hk => Stable.holds h (hs.admitted key hk),
    fun key => Stable.holdsNot h (hs.closed key), Stable.holdsCount _ h hs.detached⟩

/-- A call of its own that neither counts nor gives back. -/
theorem Holds.own (h : Holds limits p held admitted s) {q : StreamRequest} {c : StreamChoice}
    (hcounts : ∀ key, counts key s.log ⟨p, q, eventStreams.reply c q s⟩ = false)
    (hgives : ∀ key, gives key s.log ⟨p, q, eventStreams.reply c q s⟩ = false)
    (hopens : ∀ key, opens key s.log ⟨p, q, eventStreams.reply c q s⟩ = false)
    (hcloses : closes s.log ⟨p, q, eventStreams.reply c q s⟩ = false)
    (hsubscribes : subscribes s.log ⟨p, q, eventStreams.reply c q s⟩ = false) :
    Holds limits p held admitted (eventStreams.after c p q s) := by
  refine ⟨fun key => ?_, fun key hk => ?_, fun key => ?_, ?_⟩
  · exact (congrArg (List.count p) (holders_neither (hcounts key) (hgives key))).trans
      (h.claimed key)
  · have hadmits : admits limits key s.log ⟨p, q, eventStreams.reply c q s⟩ = false := by
      rw [← Bool.not_eq_true]
      exact fun hadmits => absurd ((hcounts key).symm.trans (admits_counts _ _ hadmits)) (by simp)
    have hsame : slots limits key (eventStreams.after c p q s).log = slots limits key s.log :=
      holders_neither hadmits (hgives key)
    rw [hsame]
    exact h.admitted key hk
  · have hsame : openStreams key (eventStreams.after c p q s).log = openStreams key s.log :=
      holders_neither (hopens key) hcloses
    rw [hsame]
    exact h.closed key
  · exact (congrArg (List.count p) (holders_neither hsubscribes hcloses)).trans h.detached

theorem Holds.congr (h : Holds limits p held admitted s) {held' admitted' : List CounterKey}
    (hh : ∀ key, held.count key = held'.count key) (ha : ∀ key ∈ admitted', key ∈ admitted) :
    Holds limits p held' admitted' s :=
  ⟨fun key => (h.claimed key).trans (hh key), fun key hk => h.admitted key (ha key hk),
    h.closed, h.detached⟩

/-- A stream for which a command fails holds nothing. -/
theorem Holds.nothing (h : Holds limits p held admitted s) (hnone : ∀ key, p ∉ claims key s.log) :
    Holds limits p [] [] s := by
  refine h.congr (fun key => ?_) nofun
  rw [← h.claimed key, List.count_nil]
  exact List.count_eq_zero.mpr (hnone key)

theorem Holds.mem (h : Holds limits p held admitted s) {key : CounterKey} (hk : key ∈ held) :
    p ∈ claims key s.log := by
  refine List.count_pos_iff.mp ?_
  rw [h.claimed key]
  exact List.count_pos_iff.mpr hk

/-- One more slot is counted. -/
theorem Holds.incr (h : Holds limits p held admitted s) {key : CounterKey} {c : StreamChoice}
    {count : Int} (hr : eventStreams.reply c (.counter (.incr key)) s = .ok count) :
    Holds limits p (key :: held) (if count ≤ limits key then key :: admitted else admitted)
      (eventStreams.after c p (.counter (.incr key)) s) := by
  have hlog : (eventStreams.after c p (.counter (.incr key)) s).log = ⟨p, .counter (.incr key),
    .ok count⟩ :: s.log := by
    rw [← hr]
    rfl
  have hslots : ∀ k, p ∈ slots limits k s.log →
      p ∈ slots limits k (eventStreams.after c p (.counter (.incr key)) s).log := by
    intro k hk
    rw [hlog, slots, holders]
    split
    · exact List.mem_cons_self
    · exact hk
  refine ⟨fun k => ?_, fun k hk => ?_, fun k => ?_, ?_⟩
  · rw [hlog, claims, count_holders_own (e := ⟨p, _, _⟩) rfl, List.count_cons, ← h.claimed k]
    by_cases hk : key = k
    · subst hk
      have hcounts : counts key s.log (⟨p, .counter (.incr key), .ok count⟩ : StreamEvent) = true :=
        decide_eq_true rfl
      simp [hcounts, claims]
    · have hcounts : counts k s.log (⟨p, .counter (.incr key), .ok count⟩ : StreamEvent) = false :=
        decide_eq_false hk
      have hgives : gives k s.log (⟨p, .counter (.incr key), .ok count⟩ : StreamEvent) = false :=
        rfl
      simp [hcounts, hgives, hk, claims]
  · split at hk
    · rename_i hle
      rcases List.mem_cons.mp hk with rfl | hk
      · rw [hlog, slots, holders_takes (decide_eq_true ⟨rfl, hle⟩)]
        exact List.mem_cons_self
      · exact hslots k (h.admitted k hk)
    · exact hslots k (h.admitted k hk)
  · exact h.closed k
  · exact h.detached

/-- A slot is given back. -/
theorem Holds.decr (h : Holds limits p held admitted s) {key : CounterKey} {c : StreamChoice}
    {count : Int} (hr : eventStreams.reply c (.counter (.decr key)) s = .ok count)
    (hk : key ∉ admitted) :
    Holds limits p (held.erase key) admitted (eventStreams.after c p (.counter (.decr key)) s) := by
  have hlog : (eventStreams.after c p (.counter (.decr key)) s).log = ⟨p, .counter (.decr key),
    .ok count⟩ :: s.log := by
    rw [← hr]
    rfl
  refine ⟨fun k => ?_, fun k hmem => ?_, fun k => ?_, ?_⟩
  · have hcounts : counts k s.log (⟨p, .counter (.decr key), .ok count⟩ : StreamEvent) = false :=
      rfl
    rw [hlog, claims, count_holders_own (e := ⟨p, _, _⟩) rfl, List.count_erase, ← h.claimed k]
    by_cases hk : key = k
    · subst hk
      have hgives : gives key s.log (⟨p, .counter (.decr key), .ok count⟩ : StreamEvent) = true :=
        Bool.or_eq_true_iff.mpr (.inl (decide_eq_true rfl))
      simp [hcounts, hgives, claims]
    · have hgives : gives k s.log (⟨p, .counter (.decr key), .ok count⟩ : StreamEvent) = false :=
        Bool.or_eq_false_iff.mpr ⟨decide_eq_false hk, rfl⟩
      simp [hcounts, hgives, hk, claims]
  · have hne : ¬ key = k := fun hkk => hk (hkk ▸ hmem)
    have hgives : gives k s.log (⟨p, .counter (.decr key), .ok count⟩ : StreamEvent) = false :=
      Bool.or_eq_false_iff.mpr ⟨decide_eq_false hne, rfl⟩
    rw [hlog, slots, holders_neither rfl hgives]
    exact h.admitted k hmem
  · exact h.closed k
  · exact h.detached

end

section
variable {p : Nat} {held admitted : List CounterKey} {s : StreamShared}

/-- The stream is about to delete the keys that it found at zero. -/
structure Owing (limits : CounterKey → Nat) (p : Nat)
    (results : List (CounterKey × Except LimitThrown Int)) (s : StreamShared) : Prop where
  distinct : (results.map Prod.fst).Nodup
  zero : ∀ key count, (key, .ok count) ∈ results → count ≤ 0 → p ∈ deleting limits key s.log

theorem owing_stable {results : List (CounterKey × Except LimitThrown Int)} :
    Stable eventStreams R (outline limits) p (Owing limits p results) :=
  fun _ _ h hs => ⟨hs.distinct, fun key count hmem hle =>
    Stable.holds h (hs.zero key count hmem hle)⟩

/-- Each key is counted down, and the stream holds nothing any more. -/
theorem decrAll_meets (hR : Tame limits R) (keys : List CounterKey)
    (done : List (CounterKey × Except LimitThrown Int)) (h : Holds limits p keys keys s)
    (howing : Owing limits p done s) (hdistinct : (done.map Prod.fst ++ keys).Nodup) :
    Meets eventStreams R (outline limits) p (liftStream (decrAll keys))
      (fun r t => ∃ results, r = .ok results ∧ Holds limits p [] [] t ∧
        Owing limits p (done ++ results) t) s := by
  induction keys generalizing done s with
  | nil =>
    refine Meets.ret (Stable.and holds_stable owing_stable) ⟨h, howing⟩ fun t ht _ =>
      ⟨[], rfl, ht.1, ?_⟩
    rw [List.append_nil]
    exact ht.2
  | cons key keys ih =>
    refine Meets.call (Stable.and holds_stable owing_stable) ⟨h, howing⟩ fun t ht _ c ha => ?_
    obtain ⟨horder, hharm⟩ := hR.allows t p _ c ha
    have hclaim : p ∈ claims key t.log := ht.1.mem List.mem_cons_self
    refine ⟨⟨hclaim, ht.1.closed key⟩, ?_⟩
    rcases harmless_cases hharm (by simp) with ⟨-, -, hnone⟩ | ⟨-, hr⟩
    · exact absurd hclaim (hnone key)
    · have hreply : eventStreams.reply c (.counter (.decr key)) t =
          .ok (t.store.perform (.decr key)).2 := hr
      obtain ⟨hdone, hkeys, hdisjoint⟩ := List.nodup_append.mp hdistinct
      obtain ⟨hnot, hkeys⟩ := List.nodup_cons.mp hkeys
      have hweak : Holds limits p (key :: keys) keys t :=
        ht.1.congr (fun _ => rfl) fun k hk => List.mem_cons_of_mem _ hk
      have hafter : Holds limits p keys keys (eventStreams.after c p (.counter (.decr key)) t) := by
        have hdecr := hweak.decr hreply hnot
        rwa [List.erase_cons_head] at hdecr
      have howing' : Owing limits p (done ++ [(key, .ok (t.store.perform (.decr key)).2)])
          (eventStreams.after c p (.counter (.decr key)) t) := by
        have hlog : (eventStreams.after c p (.counter (.decr key)) t).log =
            ⟨p, .counter (.decr key), .ok (t.store.perform (.decr key)).2⟩ :: t.log := by
          rw [← hreply]
          rfl
        refine ⟨?_, fun k count hmem hle => ?_⟩
        · rw [List.map_append]
          refine List.nodup_append.mpr ⟨hdone, List.nodup_singleton key, fun a ha b hb => ?_⟩
          exact hdisjoint a ha b (List.mem_singleton.mp hb ▸ List.mem_cons_self)
        · rw [hlog, deleting]
          rcases List.mem_append.mp hmem with hmem | hmem
          · have hne : k ≠ key := hdisjoint k (List.mem_map_of_mem hmem) key List.mem_cons_self
            have hzeroes : zeroes limits k t.log ⟨p, .counter (.decr key),
              .ok (t.store.perform (.decr key)).2⟩ = false :=
              decide_eq_false fun hk => hne hk.1.symm
            rw [holders_neither hzeroes rfl]
            exact ht.2.zero k count hmem hle
          · cases List.mem_singleton.mp hmem
            have hzeroes : zeroes limits key t.log ⟨p, .counter (.decr key),
              .ok (t.store.perform (.decr key)).2⟩ = true :=
              decide_eq_true ⟨rfl, hle, ht.1.admitted key List.mem_cons_self⟩
            rw [holders_takes hzeroes]
            exact List.mem_cons_self
      rw [hreply]
      change Meets eventStreams R (outline limits) p (liftStream ((decrAll keys).bind fun rest =>
        .ret ((key, .ok (t.store.perform (.decr key)).2) :: rest))) _ _
      rw [liftStream_bind]
      refine Meets.next (ih _ hafter howing' ?_) (fun e u _ hu => ?_) fun rest u _ hu => ?_
      · rwa [List.map_append, List.append_assoc]
      · obtain ⟨results, hresults, -⟩ := hu
        cases hresults
      · obtain ⟨results, hresults, hholds, hdone⟩ := hu
        cases hresults
        refine Meets.ret (Stable.and holds_stable owing_stable) ⟨hholds, hdone⟩ fun v hv _ =>
          ⟨_, rfl, hv.1, ?_⟩
        have howing := hv.2
        rwa [List.append_assoc] at howing

/-- The keys that were found at zero are deleted, whatever becomes of it. -/
theorem settleAll_meets (results : List (CounterKey × Except LimitThrown Int))
    (h : Holds limits p [] [] s) (howing : Owing limits p results s) :
    Meets eventStreams R (outline limits) p (liftStream (settleAll results))
    (fun _ t => Holds limits p [] [] t) s := by
  have rest : ∀ {key : CounterKey} {r : Except LimitThrown Int} {results : List
    (CounterKey × Except LimitThrown Int)}
      {t : StreamShared}, Owing limits p ((key, r) :: results) t → Owing limits p results t :=
    fun h => ⟨(List.nodup_cons.mp h.distinct).2,
      fun k count hmem => h.zero k count (List.mem_cons_of_mem _ hmem)⟩
  have after : ∀ {α : Type} {x : StreamRoutine α} {t : StreamShared} {f : α → Option LimitThrown},
      Meets eventStreams R (outline limits) p x (fun _ t => Holds limits p [] [] t) t →
      Meets eventStreams R (outline limits) p (x.bind fun a => .ret (f a)) (fun _ t =>
        Holds limits p [] [] t) t :=
    fun hx => hx.next (fun _ _ _ hu => hu) fun _ _ _ hu => Meets.ret holds_stable hu fun _ hv _ =>
      hv
  induction results generalizing s with
  | nil => exact Meets.ret holds_stable h fun _ hv _ => hv
  | cons x results ih =>
    obtain ⟨key, r⟩ := x
    cases r with
    | error e =>
      rw [settleAll, Prog.bind_eq, liftStream_bind]
      exact after (ih h (rest howing))
    | ok count =>
      rw [settleAll]
      split
      · rename_i hle
        refine Meets.call (Stable.and holds_stable owing_stable) ⟨h, howing⟩ fun t ht _ c _ => ?_
        refine ⟨ht.2.zero key count List.mem_cons_self hle, ?_⟩
        have hafter : Holds limits p [] [] (eventStreams.after c p (.counter (.del key)) t) :=
          ht.1.own (fun _ => rfl) (fun _ => rfl) (fun _ => rfl) rfl rfl
        have howing' : Owing limits p results (eventStreams.after c p (.counter (.del key)) t) := by
          refine ⟨(rest ht.2).distinct, fun k n hmem hn => ?_⟩
          have hne : ¬ key = k := by
            intro hk
            have hmem' : key ∈ results.map Prod.fst := hk ▸ List.mem_map_of_mem hmem
            exact (List.nodup_cons.mp ht.2.distinct).1 hmem'
          have hsame : deleting limits k (eventStreams.after c p (.counter (.del key)) t).log =
              deleting limits k t.log :=
            holders_neither rfl (decide_eq_false hne)
          rw [hsame]
          exact (rest ht.2).zero k n hmem hn
        cases hr : eventStreams.reply c (.counter (.del key)) t with
        | ok a => exact ih hafter howing'
        | error e =>
          show Meets _ _ _ _ (liftStream ((settleAll results).bind fun _ => .ret (some e))) _ _
          rw [liftStream_bind]
          exact after (ih hafter howing')
      · exact ih h (rest howing)

theorem releaseConcurrentKeys_meets (hR : Tame limits R) {keys : List CounterKey}
    (hdistinct : keys.Nodup) (h : Holds limits p keys keys s) :
    Meets eventStreams R (outline limits) p (liftStream (releaseConcurrentKeys keys))
      (fun _ t => Holds limits p [] [] t) s := by
  rw [releaseConcurrentKeys, Prog.bind_eq, liftStream_bind]
  refine Meets.next (decrAll_meets hR keys [] h ⟨List.nodup_nil, nofun⟩ hdistinct) (fun e t _ ht =>
    ?_) fun results t _ ht => ?_
  · obtain ⟨results, hresults, -⟩ := ht
    cases hresults
  · obtain ⟨results, hresults, hholds, howing⟩ := ht
    cases hresults
    rw [Prog.bind_eq, liftStream_bind]
    refine Meets.next (settleAll_meets results hholds howing) (fun _ _ _ hu => hu) fun o u _ hu =>
      ?_
    cases o with
    | none => exact Meets.ret holds_stable hu fun _ hv _ => hv
    | some e => exact Meets.throw holds_stable hu fun _ hv _ => hv

/-- What the acquisition of slots ends in. -/
def Acquired (limits : CounterKey → Nat) (p : Nat) (keys : List CounterKey)
    (r : Except LimitThrown Unit) (t : StreamShared) : Prop :=
  match r with
  | .ok _ => Holds limits p keys keys t
  | .error _ => Holds limits p [] [] t

/-- A command that counts nothing, in front of the rest. -/
theorem Meets.quiet (hR : Tame limits R) {cmd : CounterRequest} {α : Type}
    {f : cmd.Answer → StreamRoutine α} {Q : Except LimitThrown α → StreamShared → Prop}
    (hincr : ∀ k, cmd ≠ .incr k) (hdecr : ∀ k, cmd ≠ .decr k) (hdel : ∀ k, cmd ≠ .del k)
    (h : Holds limits p held admitted s) (hthrow : ∀ e t, Holds limits p [] [] t → Q (.error e) t)
    (hf : ∀ a t, Holds limits p held admitted t →
      Meets eventStreams R (outline limits) p (f a) Q t) :
    Meets eventStreams R (outline limits) p ((awaitStream (.counter cmd)).bind f) Q s := by
  refine Meets.await holds_stable h fun t ht _ c ha => ?_
  have hafter : Holds limits p held admitted (eventStreams.after c p (.counter cmd) t) := by
    refine ht.own (fun key => ?_) (fun key => ?_) (fun key => rfl) rfl rfl
    all_goals cases cmd <;> first | rfl | exact absurd rfl (hincr _) | exact absurd rfl (hdecr _)
  have hpre : (outline limits).pre t p (.counter cmd) := by
    cases cmd with
    | decr k => exact absurd rfl (hdecr k)
    | del k => exact absurd rfl (hdel k)
    | _ => trivial
  refine ⟨hpre, fun a _ => hf a _ hafter, fun e he => ?_⟩
  rcases harmless_cases (hR.allows t p _ c ha).2 hdel with ⟨-, -, hnone⟩ | ⟨-, hr⟩
  · refine Meets.throw holds_stable (hafter.nothing fun key => ?_) fun v hv _ => hthrow _ v hv
    have hzero : (claims key (eventStreams.after c p (.counter cmd) t).log).count p = 0 := by
      rw [hafter.claimed key, ← ht.claimed key]
      exact List.count_eq_zero.mpr (hnone key)
    exact List.count_eq_zero.mp hzero
  · exact absurd (hr.symm.trans he) nofun

theorem acquireConcurrentKeys_meets (hR : Tame limits R) (ttlSeconds : Nat)
    (entries : List (CounterKey × Nat)) (acquired : List CounterKey)
    (hlimits : ∀ x ∈ entries, x.2 = limits x.1)
    (hdistinct : (acquired ++ entries.map Prod.fst).Nodup)
    (h : Holds limits p acquired acquired s) :
    Meets eventStreams R (outline limits) p
      (liftStream (acquireConcurrentKeys acquired ttlSeconds entries))
      (Acquired limits p (acquired ++ entries.map Prod.fst)) s := by
  induction entries generalizing acquired s with
  | nil =>
    rw [List.map_nil, List.append_nil]
    exact Meets.ret holds_stable h fun _ hv _ => hv
  | cons x entries ih =>
    obtain ⟨key, limit⟩ := x
    have hlimit : limit = limits key := hlimits _ List.mem_cons_self
    subst hlimit
    simp only [acquireConcurrentKeys, Prog.bind_eq, liftStream_bind]
    rw [liftStream_await (.incr _)]
    obtain ⟨-, hkeys, hdisjoint⟩ := List.nodup_append.mp hdistinct
    have hnew : key ∉ acquired := fun hmem => hdisjoint key hmem key List.mem_cons_self rfl
    have hacquired : acquired.Nodup := (List.nodup_append.mp hdistinct).1
    -- what follows the count and the expiry
    have rest : ∀ (count : Int) {u : StreamShared},
        Holds limits p (key :: acquired) (if count ≤ limits key then key :: acquired
          else acquired) u →
        Meets eventStreams R (outline limits) p (liftStream (if count > limits key then
            (awaitCounter (.decr key)).bind fun _ => (releaseConcurrentKeys acquired).bind fun _ =>
              (Prog.throw (.exceeded "Too many open event streams" none)).bind fun (_ : Unit) =>
                acquireConcurrentKeys (acquired ++ [key]) ttlSeconds entries
          else acquireConcurrentKeys (acquired ++ [key]) ttlSeconds entries))
          (Acquired limits p (acquired ++ key :: entries.map Prod.fst)) u := by
      intro count u hu
      split
      · rename_i hover
        rw [if_neg (Int.not_le.mpr hover)] at hu
        rw [liftStream_bind, liftStream_await (.decr _)]
        refine Meets.await holds_stable hu fun v hv _ c ha => ?_
        have hclaim : p ∈ claims key v.log := hv.mem List.mem_cons_self
        refine ⟨⟨hclaim, hv.closed key⟩, fun n hn => ?_, fun e he => ?_⟩
        · have hdecr := hv.decr hn hnew
          rw [List.erase_cons_head] at hdecr
          rw [liftStream_bind]
          refine Meets.next (releaseConcurrentKeys_meets hR hacquired hdecr) (fun _ _ _ hw => hw)
            fun _ _ _ hw => ?_
          exact Meets.throw holds_stable hw fun _ hx _ => hx
        · rcases harmless_cases (hR.allows v p _ c ha).2 (by simp) with ⟨-, -, hnone⟩ | ⟨-, hr⟩
          · exact absurd hclaim (hnone key)
          · exact absurd (hr.symm.trans he) nofun
      · rename_i hle
        rw [if_pos (Int.not_lt.mp hle)] at hu
        have hnext : Holds limits p (acquired ++ [key]) (acquired ++ [key]) u := by
          refine hu.congr (fun k => ?_) fun k hk => ?_
          · rw [List.count_append, List.count_cons, List.count_cons, List.count_nil]
            omega
          · rcases List.mem_append.mp hk with hk | hk
            · exact List.mem_cons_of_mem key hk
            · exact List.mem_singleton.mp hk ▸ List.mem_cons_self
        have hnext := ih (acquired ++ [key]) (fun x hx => hlimits x (List.mem_cons_of_mem _ hx))
          (by rw [List.append_assoc]; exact hdistinct) hnext
        rwa [List.append_assoc] at hnext
    refine Meets.await holds_stable h fun t ht _ c ha => ⟨trivial, fun count hcount => ?_,
      fun e he => ?_⟩
    · have hincr := ht.incr hcount
      split
      · rw [liftStream_bind, liftStream_await (.expire _ _)]
        refine Meets.quiet hR (by simp) (by simp) (by simp) hincr (fun _ _ hu => hu) fun _ u hu =>
          ?_
        exact rest count hu
      · exact rest count hincr
    · rcases harmless_cases (hR.allows t p _ c ha).2 (by simp) with ⟨-, -, hnone⟩ | ⟨-, hr⟩
      · have hcounts : ∀ k, counts k t.log ⟨p, .counter (.incr key),
          eventStreams.reply c (.counter (.incr key)) t⟩ = false := by
          intro k
          rw [he]
          rfl
        have hafter := (ht.nothing hnone).own hcounts (fun _ => rfl) (fun _ => rfl) rfl rfl
        exact Meets.throw holds_stable hafter fun _ hv _ => hv
      · exact absurd (hr.symm.trans he) nofun

/-- A stream that has ended holds nothing, and its source is given up unless its client left early.
-/
def Quit (p : Nat) (t : StreamShared) : Prop :=
  (∀ key, (claims key t.log).count p = 0) ∧
    ((holders subscribes closes t.log).count p = 0 ∨ t.log.any (forgets []) = true)

theorem Holds.quit (h : Holds limits p [] [] s) : Quit p s := ⟨h.claimed, .inl h.detached⟩

theorem quit_stable : Stable eventStreams R (outline limits) p (Quit p) := by
  intro s s' h hs
  refine ⟨fun key => Stable.holdsCount 0 h (hs.1 key), ?_⟩
  rcases hs.2 with hcount | hany
  · exact .inl (Stable.holdsCount 0 h hcount)
  · cases h with
    | other => exact .inr (by rw [System.after, List.any_cons, hany, Bool.or_true])
    | drift => exact .inr hany

/-- A stream whose client is gone gives up its slots. -/
theorem Holds.forgotten {userKey ipKey : CounterKey} {c : StreamChoice}
    (h : Holds limits p [userKey, ipKey] [userKey, ipKey] s) (hne : userKey ≠ ipKey)
    (hr : eventStreams.reply c (.subscribe userKey ipKey) s = .ok true) :
    Quit p (eventStreams.after c p (.subscribe userKey ipKey) s) := by
  have hlog : (eventStreams.after c p (.subscribe userKey ipKey) s).log =
      ⟨p, .subscribe userKey ipKey, .ok true⟩ :: s.log := by
    rw [← hr]
    rfl
  refine ⟨fun key => ?_, .inr (by rw [hlog]; rfl)⟩
  have hcounts : counts key s.log (⟨p, .subscribe userKey ipKey, .ok true⟩ : StreamEvent) = false :=
    rfl
  have hclaimed : (holders (counts key) (gives key) s.log).count p = [userKey, ipKey].count key :=
    h.claimed key
  rw [hlog, claims, count_holders_own (e := ⟨p, _, _⟩) rfl, hcounts, hclaimed]
  by_cases hkey : key = userKey ∨ key = ipKey
  · have hgives : gives key s.log (⟨p, .subscribe userKey ipKey, .ok true⟩ : StreamEvent) = true :=
      Bool.or_eq_true_iff.mpr (.inr (decide_eq_true hkey))
    have hone : [userKey, ipKey].count key ≤ 1 :=
      List.nodup_iff_count_le_one.mp (by simpa using hne) key
    rw [if_neg Bool.false_ne_true, if_pos hgives]
    exact Nat.sub_eq_zero_of_le hone
  · have hgives : gives key s.log (⟨p, .subscribe userKey ipKey, .ok true⟩ : StreamEvent) = false :=
      Bool.or_eq_false_iff.mpr ⟨rfl, decide_eq_false hkey⟩
    rw [hgives]
    push Not at hkey
    simp [hkey.1.symm, hkey.2.symm]

/-- A stream that is open. -/
structure IsOpen (limits : CounterKey → Nat) (p : Nat) (keys : List CounterKey) (s : StreamShared) :
    Prop where
  claimed : ∀ key, (claims key s.log).count p = keys.count key
  admitted : ∀ key ∈ keys, p ∈ slots limits key s.log
  attached : (holders subscribes closes s.log).count p = 1

theorem isOpen_stable {keys : List CounterKey} :
    Stable eventStreams R (outline limits) p (IsOpen limits p keys) :=
  fun _ _ h hs => ⟨fun key => Stable.holdsCount _ h (hs.claimed key),
    fun key hk => Stable.holds h (hs.admitted key hk),
    Stable.holdsCount 1 h hs.attached⟩

theorem Holds.opened {keys : List CounterKey} {userKey ipKey : CounterKey} {c : StreamChoice}
    (h : Holds limits p keys keys s)
    (hr : eventStreams.reply c (.subscribe userKey ipKey) s = .ok false) :
    IsOpen limits p keys (eventStreams.after c p (.subscribe userKey ipKey) s) := by
  have hlog : (eventStreams.after c p (.subscribe userKey ipKey) s).log =
      ⟨p, .subscribe userKey ipKey, .ok false⟩ :: s.log := by
    rw [← hr]
    rfl
  refine ⟨fun key => ?_, fun key hk => ?_, ?_⟩
  · rw [hlog]
    exact h.claimed key
  · rw [hlog]
    exact h.admitted key hk
  · have hsubscribes : subscribes s.log (⟨p, .subscribe userKey ipKey, .ok false⟩ : StreamEvent) =
        true := rfl
    rw [hlog, count_holders_own (e := ⟨p, _, _⟩) rfl, if_pos hsubscribes, h.detached]

theorem IsOpen.torn {keys : List CounterKey} {c : StreamChoice} (h : IsOpen limits p keys s)
    (hdistinct : ∀ key, (openStreams key s.log).Nodup) :
    Holds limits p keys keys (eventStreams.after c p .teardown s) := by
  refine ⟨h.claimed, h.admitted, fun key => ?_, ?_⟩
  · have hopen : openStreams key (eventStreams.after c p .teardown s).log =
        (openStreams key s.log).erase p :=
      holders_gives rfl rfl
    rw [hopen]
    exact (hdistinct key).not_mem_erase
  · have hcount : (holders subscribes closes (eventStreams.after c p .teardown s).log).count p =
        (holders subscribes closes s.log).count p - 1 :=
          count_holders_own (e := (⟨p, .teardown, .ok ()⟩ : StreamEvent)) rfl
    rw [hcount, h.attached]

theorem trackConcurrentSse_meets (hR : Tame limits R) {o : StreamOptions}
    (hlimits : o.userLimit = limits o.userKey ∧ o.ipLimit = limits o.ipKey)
    (h : Holds limits p [] [] s) :
    Meets eventStreams R (outline limits) p (trackConcurrentSse o) (fun _ t => Quit p t) s := by
  have hne : o.userKey ≠ o.ipKey := o.userKey_ne_ipKey
  simp only [trackConcurrentSse, Prog.bind_eq, Prog.pure_eq]
  refine Meets.next (acquireConcurrentKeys_meets hR _ [(o.userKey, o.userLimit),
    (o.ipKey, o.ipLimit)] [] ?_ (by simpa using hne) h)
    (fun e t _ ht => Holds.quit ht) fun _ t _ ht => ?_
  · intro x hx
    rcases List.mem_cons.mp hx with rfl | hx
    · exact hlimits.1
    · exact List.mem_singleton.mp hx ▸ hlimits.2
  · have ht : Holds limits p [o.userKey, o.ipKey] [o.userKey, o.ipKey] t := ht
    refine Meets.await holds_stable ht fun u hu _ c _ =>
      ⟨⟨hne, ?_, ?_, hu.closed⟩, fun gone hgone => ?_, fun e he => absurd he nofun⟩
    · exact hu.admitted o.userKey List.mem_cons_self
    · exact hu.admitted o.ipKey (List.mem_cons_of_mem _ List.mem_cons_self)
    · cases gone with
      | true => exact Meets.ret quit_stable (hu.forgotten hne hgone) fun _ hv _ => hv
      | false =>
        refine Meets.await isOpen_stable (hu.opened hgone) fun v hv hi c _ =>
          ⟨trivial, fun _ _ => ?_, fun e he => absurd he nofun⟩
        have htorn := hv.torn (c := c) fun key => (hi key).distinct
        exact (releaseConcurrentKeys_meets hR (by simpa using hne) htorn).mono fun _ _ _ hw =>
          hw.quit

theorem holds_fresh (h : ∀ e ∈ s.log, e.pid ≠ p) : Holds limits p [] [] s :=
  ⟨fun _ => List.count_eq_zero.mpr (not_mem_holders_fresh h), nofun,
    fun _ => not_mem_holders_fresh h,
    List.count_eq_zero.mpr (not_mem_holders_fresh h)⟩

/-- In every run under tame rules the counters stand for the slots. -/
theorem respects (hR : Tame limits R) {r : Counters} (hr : ∀ key, r.value key = 0)
    {as : List (Action StreamOptions StreamChoice Nat)} {t : StreamPool}
    (h : eventStreams.run R (.initial r) as = some t) :
    t.Respects eventStreams R (outline limits) fun p _ _ t => Quit p t := by
  refine Pool.Respects.run (outline_kept hR) (fun s p o _ hst hnew => ?_) (.initial fun key => ?_) h
  · exact trackConcurrentSse_meets hR (hR.starts s o hst) (holds_fresh hnew)
  · refine ⟨?_, ?_, Nat.zero_le _, fun hne => absurd rfl hne, List.nodup_nil, nofun, trivial⟩
    · exact (hr key).symm ▸ Int.le_refl 0
    · exact (hr key).symm ▸ Int.le_refl 0

end

/-- Streams open and close, no slot of a key is counted while another stream is about to delete the
key, and no key runs out while a stream holds a slot of it that it is to give back. -/
def countedStreams (limits : CounterKey → Nat) : StreamRules where
  starts := (streams limits).starts
  allows := fun s p q c => (streams limits).allows s p q c && orderly limits s q
  drifts := outlasts

/-- No client unsubscribes before its slots are acquired, no command fails for a stream that holds a
slot (but for the deletion of a key), and no slot of a key is counted while another stream is about
to delete the key. -/
def returnedStreams (limits : CounterKey → Nat) : StreamRules where
  starts := (failingStreams limits).starts
  allows := fun s p q c => orderly limits s q && harmless s p q c &&
    (match q with
    | .subscribe _ _ => !c.unsubscribed
    | _ => true)
  drifts := (failingStreams limits).drifts

theorem counted_tame : Tame limits (countedStreams limits) := by
  refine ⟨fun s o h => of_decide_eq_true h, fun s p q c h => ?_, fun s n h => h⟩
  simp only [countedStreams, streams, Bool.and_eq_true, decide_eq_true_eq] at h
  refine ⟨h.2, ?_⟩
  cases q with
  | counter cmd => cases cmd <;> simp [harmless, h.1]
  | _ => rfl

theorem returned_tame : Tame limits (returnedStreams limits) := by
  refine ⟨fun s o h => of_decide_eq_true h, fun s p q c h => ?_, fun s n h => ?_⟩
  · simp only [returnedStreams, Bool.and_eq_true] at h
    exact h.1
  · refine List.all_eq_true.mpr fun key hkey => ?_
    have hlive := List.all_eq_true.mp h key hkey
    rw [hlive, Bool.true_or]

/-- Under these rules no client leaves early. -/
theorem none_forgotten {r : Counters} {as : List (Action StreamOptions StreamChoice Nat)}
    {t : StreamPool} (h : eventStreams.run (returnedStreams limits) (.initial r) as = some t) :
    ∀ e ∈ t.shared.log, forgets [] e = false ∧ ∀ key, leaks key e = false := by
  refine System.run_invariant (I := fun t : StreamPool => ∀ e ∈ t.shared.log, forgets [] e = false ∧
    ∀ key, leaks key e = false)
    (fun {s a s'} hs hstep => ?_) (by simp [Pool.initial, Shared.initial]) h
  obtain ⟨o, -, -, rfl⟩ | ⟨p, c, o, q, k, -, -, ha, rfl⟩ | ⟨n, -, -, rfl⟩ := System.step_cases hstep
  · exact hs
  · intro e he
    rcases List.mem_cons.mp he with rfl | he
    · cases q with
      | subscribe userKey ipKey =>
        simp only [returnedStreams, Bool.and_eq_true, Bool.not_eq_true'] at ha
        have hreply : eventStreams.reply c (.subscribe userKey ipKey) s.shared =
            .ok c.unsubscribed := rfl
        rw [hreply, ha.2]
        exact ⟨rfl, fun _ => rfl⟩
      | counter cmd => exact ⟨rfl, fun _ => rfl⟩
      | teardown => exact ⟨rfl, fun _ => rfl⟩
    · exact hs e he
  · exact hs

end EventStreams

open EventStreams

/-- The counters limit the streams that are open. -/
theorem streams_are_limited (limits : CounterKey → Nat) (r : Counters)
    (h : ∀ key, r.value key = 0) :
    StreamsAreLimited limits (countedStreams limits) r := by
  intro as s hs key
  have hsound := (respects counted_tame h hs).inv key
  have hsub : (openStreams key s.shared.log).Subperm (slots limits key s.shared.log) :=
    List.subperm_of_subset hsound.distinct hsound.covered
  exact hsub.length_le.trans hsound.bounded

/-- The slots of all streams are returned when all have ended. -/
theorem no_slot_leaks (limits : CounterKey → Nat) (r : Counters) (h : ∀ key, r.value key = 0) :
    NoSlotLeaks (returnedStreams limits) r := by
  intro as s hs hidle
  have hr := respects returned_tame h hs
  have hforgotten := none_forgotten hs
  -- every process has ended, and holds nothing
  have quit : ∀ p, Quit p s.shared := by
    intro p
    cases hp : s.procs[p]? with
    | none =>
      refine Holds.quit (show Holds limits p [] [] s.shared from holds_fresh fun e he hpid => ?_)
      have hlt := hr.known e he
      rw [List.getElem?_eq_none_iff] at hp
      omega
    | some x =>
      obtain ⟨o, x⟩ := x
      cases x with
      | ret a => exact hr.meets p o _ hp s.shared .refl hr.inv
      | throw e => exact hr.meets p o _ hp s.shared .refl hr.inv
      | call q k => exact absurd hp (Pool.not_waiting_of_idle hidle p o q k)
  have hclaims : ∀ key, claims key s.shared.log = [] := fun key =>
    List.eq_nil_iff_forall_not_mem.mpr fun p => List.count_eq_zero.mp ((quit p).1 key)
  refine ⟨fun key e he => ?_, fun p key => ?_, ?_⟩
  · have hsound := hr.inv key
    have hlower := hsound.lower
    have hupper := hsound.upper
    have hleaks : s.shared.log.countP (leaks key) = 0 :=
      List.countP_eq_zero.mpr fun e he => by simp [(hforgotten e he).2 key]
    have hvalue : s.shared.store.value key = e.value := by
      rw [Counters.value, he]
      rfl
    rw [hclaims key, hvalue] at hlower
    rw [hclaims key, hleaks, hvalue] at hupper
    exact Int.le_antisymm hupper hlower
  · have htimes := (hr.inv key).paired.times (p := p) counts_not_gives
    have hzero : (holders (counts key) (gives key) s.shared.log).count p = 0 := (quit p).1 key
    have hgives : timesOf p (gives key) s.shared.log = timesOf p (releases key) s.shared.log :=
      timesOf_congr fun before e he => by rw [gives, (hforgotten e he).2 key, Bool.or_false]
    rw [hzero, hgives] at htimes
    exact htimes.symm
  · refine List.eq_nil_iff_forall_not_mem.mpr fun p => List.count_eq_zero.mp ?_
    rcases (quit p).2 with hcount | hany
    · exact hcount
    · obtain ⟨e, he, hforgets⟩ := List.any_eq_true.mp hany
      rw [(hforgotten e he).1] at hforgets
      cases hforgets

def noCounters : Counters := ⟨fun _ => none, 0⟩

def oneStream : CounterKey → Nat := fun _ => 1

def demoStream : StreamOptions := ⟨"mail:events", "alice", 1, "203.0.113.7", 1, none⟩

abbrev StreamAction := Action StreamOptions StreamChoice Nat

/-- Process `p` makes its next `n` calls. -/
def streamCalls (p n : Nat) : List StreamAction := List.replicate n (.advance p ⟨.delivered, false⟩)

/-- A stream stays open for two hours, and another is opened. -/
def longStream : List StreamAction :=
  .start demoStream :: streamCalls 0 5 ++ .environ 7200000 :: .start demoStream :: streamCalls 1 5

theorem long_stream_is_forgotten : ¬ StreamsAreLimited oneStream (streams oneStream)
      noCounters := by
  intro h
  have key : ((eventStreams.run (streams oneStream) (.initial noCounters) longStream).any fun s =>
      decide ((openStreams demoStream.userKey s.shared.log).length = 2)) = true := by decide +kernel
  obtain ⟨s, hs, hx⟩ := (Option.any_eq_true _ _).mp key
  have hle := h _ s hs demoStream.userKey
  rw [of_decide_eq_true hx] at hle
  exact absurd hle (by decide)

/-- A second stream of the user is turned away. -/
theorem streams_are_limited_demo : ∃ s, eventStreams.run (countedStreams oneStream)
    (.initial noCounters)
      (.start demoStream :: streamCalls 0 5 ++ .start demoStream :: streamCalls 1 2) = some s ∧
    (openStreams demoStream.userKey s.shared.log).length = 1 ∧
    StreamsAreLimited oneStream (countedStreams oneStream) noCounters := by
  have key : ((eventStreams.run (countedStreams oneStream) (.initial noCounters)
      (.start demoStream :: streamCalls 0 5 ++ .start demoStream :: streamCalls 1 2)).any fun s =>
        decide ((openStreams demoStream.userKey s.shared.log).length = 1)) = true := by
          decide +kernel
  obtain ⟨s, hs, hx⟩ := (Option.any_eq_true _ _).mp key
  exact ⟨s, hs, of_decide_eq_true hx, streams_are_limited oneStream noCounters fun _ => rfl⟩

/-- The client unsubscribes while its slots are being acquired. -/
def earlyUnsubscribe : List StreamAction :=
  .start demoStream :: streamCalls 0 4 ++ [.advance 0 ⟨.delivered, true⟩]

theorem early_unsubscribe_leaks : ¬ NoSlotLeaks (failingStreams oneStream) noCounters := by
  intro h
  have key : ((eventStreams.run (failingStreams oneStream) (.initial noCounters)
    earlyUnsubscribe).any fun s =>
      s.idle && decide (s.shared.store.live demoStream.userKey = some ⟨1, some 7200000⟩)) =
        true := by decide +kernel
  obtain ⟨s, hs, hx⟩ := (Option.any_eq_true _ _).mp key
  rw [Bool.and_eq_true, decide_eq_true_eq] at hx
  exact absurd ((h _ s hs hx.1).counters _ _ hx.2) (by decide)

/-- A stream that is opened and closed. -/
theorem no_slot_leaks_demo : ∃ s, eventStreams.run (returnedStreams oneStream) (.initial noCounters)
      (.start demoStream :: streamCalls 0 10) = some s ∧ s.idle = true ∧ SlotsAreReturned s := by
  have key : ((eventStreams.run (returnedStreams oneStream) (.initial noCounters)
      (.start demoStream :: streamCalls 0 10)).any fun s => s.idle) = true := by decide +kernel
  obtain ⟨s, hs, hidle⟩ := (Option.any_eq_true _ _).mp key
  exact ⟨s, hs, hidle, no_slot_leaks oneStream noCounters (fun _ => rfl) _ s hs hidle⟩

end Redbox
