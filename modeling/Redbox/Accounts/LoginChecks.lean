import Redbox.Accounts.AccountFootprints

/-! What the checks of a login establish for a process that is alone. -/
namespace Redbox
open Interleaving

/-- No token for a user is signed. -/
def Unsigned (q : Request) : Prop := ∀ payload, q ≠ .sign .user payload

theorem unsigned_within {kinds : List RequestKind} (h : .sign ∉ kinds) (q : Request)
    (hq : Within kinds q) : Unsigned q := by
  rintro payload rfl
  rcases hq with hq | hq
  · cases hq
  · exact h hq

namespace LoginChecks
variable {cfg : Config} {R : BackendRules} {p : Nat} {s : SharedWorld} {I : SharedWorld → Prop}
  {A : SharedWorld → Request → Prop}

theorem stable_db {G : Database → Prop} :
    Stable (backend cfg) R (.solo p I A) p fun t => G t.store.db :=
  .solo fun _ _ _ hs => hs

/-- The user, if there is one, has the status. -/
def HasStatus (v : Id) (status : UserStatus) (db : Database) : Prop := ∀ u, db.findUser v = some u →
    u.status = status

def Activates (v : Id) (r : Except Thrown Unit) (t : SharedWorld) : Prop :=
  ∀ a, r = .ok a → HasStatus v .active t.store.db

theorem activates_error {v : Id} (e : Thrown) (t : SharedWorld) : Activates v (.error e) t :=
  fun _ h => by cases h

theorem throw_activates {v : Id} {e : Thrown} :
    Meets (backend cfg) R (.solo p I A) p (.throw e) (Activates v) s :=
  Meets.throw (Stable.const True) trivial fun t _ _ => activates_error e t

theorem ret_activates {v : Id} (hs : HasStatus v .active s.store.db) :
    Meets (backend cfg) R (.solo p I A) p (.ret ()) (Activates v) s :=
  Meets.ret stable_db hs fun _ ht _ _ _ => ht

variable (hA : ∀ t q, Unsigned q → A t q)
include hA

/-- A process keeps to the outline in a routine that signs nothing. -/
theorem unsigned_follows {α : Type} {x : Routine α} (hx : x.Calls Unsigned) :
    Follows (backend cfg) R (.solo p I A) p x s :=
  Meets.frame hx (Stable.const True) (fun t q _ hq _ _ _ => ⟨⟨rfl, hA t q hq⟩, trivial⟩) trivial

section
variable {α : Type} {G : Database → Prop} {Q : Except Thrown α → SharedWorld → Prop}

/-- A read in front of the rest of the routine. -/
theorem read_meets {q : Query} {f : q.Answer → Routine α} (hs : G s.store.db)
    (hQ : ∀ e t, Q (.error e) t) (h : ∀ a t₀ t, I t₀ → t.store = t₀.store → G t.store.db →
      t.store.db.read cfg t.store.clock q = .ok a →
      Meets (backend cfg) R (.solo p I A) p (f a) Q t) :
    Meets (backend cfg) R (.solo p I A) p ((await (.query q)).bind f) Q s := by
  refine Meets.await stable_db hs fun t ht hi d _ =>
    ⟨⟨rfl, hA t _ fun _ h => by cases h⟩, fun a hr => ?_, fun e _ => ?_⟩
  · have hstore : ((backend cfg).after d p (.query q) t).store = t.store := World.exec_query
    refine h a t _ hi hstore ?_ ?_
    · rw [hstore]
      exact ht
    · rw [hstore]
      exact World.exec_query_ok hr
  · exact Meets.throw (Stable.const True) trivial fun t _ _ => hQ _ t

/-- A call that leaves the database alone. -/
theorem beside_meets {q : Request} {f : q.Answer → Routine α} (hq : Unsigned q)
    (hdb : ∀ d w, (World.exec cfg d q w).1.db = w.db) (hs : G s.store.db)
    (hQ : ∀ e t, Q (.error e) t) (h : ∀ a t, G t.store.db →
      Meets (backend cfg) R (.solo p I A) p (f a) Q t) :
    Meets (backend cfg) R (.solo p I A) p ((await q).bind f) Q s := by
  refine Meets.await stable_db hs fun t ht _ d _ => ⟨⟨rfl, hA t q hq⟩, fun a _ => ?_, fun e _ => ?_⟩
  · refine h a _ ?_
    have hstore : ((backend cfg).after d p q t).store.db = t.store.db := hdb d t.store
    rw [hstore]
    exact ht
  · exact Meets.throw (Stable.const True) trivial fun t _ _ => hQ _ t

/-- A statement in front of the rest. -/
theorem statement_meets {w : Statement} {f : w.Answer → Routine α} (hs : G s.store.db)
    (hQ : ∀ e t, Q (.error e) t) (h : ∀ a t db now fresh, G db →
      db.perform cfg now fresh w = .ok (t.store.db, a) →
      Meets (backend cfg) R (.solo p I A) p (f a) Q t) :
    Meets (backend cfg) R (.solo p I A) p ((await (.statement w)).bind f) Q s := by
  refine Meets.await stable_db hs fun t ht _ d _ =>
    ⟨⟨rfl, hA t _ fun _ h => by cases h⟩, fun a hr => ?_, fun e _ => ?_⟩
  · exact h a _ t.store.db t.store.clock t.store.nextId ht (World.exec_statement_ok hr)
  · exact Meets.throw (Stable.const True) trivial fun t _ _ => hQ _ t

end

/-- A reactivation that returns has found the user and made him active. -/
theorem reactivateUser_activates {v : Id} {options : ReactivationOptions} :
    Meets (backend cfg) R (.solo p I A) p (UsersService.reactivateUser v options)
    (Activates v) s := by
  unfold UsersService.reactivateUser
  refine read_meets hA (G := fun _ => True) trivial activates_error fun row _ t _ _ _ _ => ?_
  cases row with
  | none => exact throw_activates
  | some u =>
    refine Meets.throwIf (fun _ => throw_activates) fun _ => ?_
    refine statement_meets hA (G :=
      fun _ => True) trivial activates_error fun a t db now fresh _ hperform => ?_
    have hactive : HasStatus v .active t.store.db := by
      intro u hu
      have hstatus := Database.statusOf_perform_sets hperform rfl
      rw [Database.statusOf, hu] at hstatus
      exact Option.some.inj hstatus
    refine Meets.mono (Meets.frame (P := fun q => ∃ c, q = .redis c) (F :=
      fun t => HasStatus v .active t.store.db)
      (.await ⟨_, rfl⟩) stable_db ?_ hactive) fun r t _ ht _ _ => ht
    rintro t q d ⟨c, rfl⟩ _ _ ht
    refine ⟨⟨rfl, hA t _ fun _ h => by cases h⟩, ?_⟩
    have hstore : ((backend cfg).after d p (.redis c) t).store.db = t.store.db := World.exec_redis
    rw [hstore]
    exact ht

/-- A pending account without an open request is active again when the login goes on. -/
theorem preparePendingDeletionLogin_meets {v : Id} (hs : HasStatus v .pending s.store.db) :
    Meets (backend cfg) R (.solo p I A) p (UsersService.preparePendingDeletionLogin v)
      (fun r t => r = .ok none → HasStatus v .active t.store.db) s := by
  have fails : ∀ {α : Type} {P : Except Thrown α →
    Prop} {e : Thrown} {t : SharedWorld} (_ : ¬ P (.error e)),
      Meets (backend cfg) R (.solo p I A) p (.throw e) (fun r t => P r →
        HasStatus v .active t.store.db) t :=
    fun h => Meets.throw (Stable.const True) trivial fun _ _ _ hp => absurd hp h
  unfold UsersService.preparePendingDeletionLogin
  refine read_meets hA (G := HasStatus v .pending) hs (fun _ _ h => by
    cases h) fun row _ t _ _ ht hread => ?_
  have hrow : t.store.db.findUser v = row := Except.ok.inj hread
  cases row with
  | none =>
    refine Meets.ret (stable_db (G := fun db => db.findUser v = none)) hrow ?_
    intro t' hnone _ _ u hu
    rw [hnone] at hu
    cases hu
  | some u =>
    simp only [Prog.pure_eq, Prog.bind_eq]
    rw [if_neg (not_not.mpr (ht u hrow))]
    refine read_meets hA (G := fun db => db.findUser v = some u) hrow (fun _ _ h => by
      cases h) fun request _ t _ _ hrow _ => ?_
    cases request with
    | some request =>
      refine beside_meets hA (fun _ h => by cases h) (fun _ _ => congrArg World.db World.exec_now)
        (G := fun _ => True) trivial
        (fun _ _ h => by cases h) fun now t _ => ?_
      split
      · refine Meets.returned (F :=
          fun _ _ => True) ((unsigned_follows hA ?_).mono fun _ _ _ _ _ _ => trivial)
          (fun _ _ h => by cases h) fun _ t _ _ => fails (by simp)
        exact (UsersService.finalizePendingDeletion_calls
          (by simp : RequestKind.processDeletion ∈ [.processDeletion])).mono
          (unsigned_within (by simp))
      · exact Meets.ret (Stable.const True) trivial fun _ _ _ h => by cases h
    | none =>
      have huid : u.id = v := Database.findUser_id hrow
      refine Meets.returned (reactivateUser_activates hA) (fun _ _ h => by
        cases h) fun _ t _ hactive => ?_
      rw [huid] at hactive
      exact Meets.ret stable_db (hactive) fun _ h _ _ => h

/-- A user whose row allows a login is active when the check has passed. -/
theorem assertUserCanLogin_activates {u : User} (hs : HasStatus u.id u.status s.store.db) :
    Meets (backend cfg) R (.solo p I A) p (UsersService.assertUserCanLogin cfg u)
    (Activates u.id) s := by
  unfold UsersService.assertUserCanLogin
  split
  · rename_i hactive
    exact ret_activates (hactive ▸ hs)
  · exact throw_activates
  · rename_i hpending
    refine Meets.returned (F := fun r t => r = none → HasStatus u.id .active t.store.db)
      ((preparePendingDeletionLogin_meets hA (hpending ▸ hs)).mono fun r t _ h a hr ha =>
        h (hr.trans (congrArg _ ha)))
      activates_error fun r t _ h => ?_
    cases r with
    | none => exact ret_activates (h rfl)
    | some r => exact throw_activates
  · exact read_meets hA (G := fun _ => True) trivial activates_error fun _ _ _ _ _ _ _ =>
      throw_activates
  · refine read_meets hA (G := fun _ => True) trivial activates_error fun _ _ t _ _ _ _ => ?_
    refine beside_meets hA (fun _ h => by cases h) (fun _ _ => congrArg World.db World.exec_now)
      (G := fun _ => True) trivial
      activates_error fun now t _ => ?_
    split
    · exact reactivateUser_activates hA
    · exact throw_activates

end LoginChecks
end Redbox
