import Redbox.Interleaving.Outline
import Mathlib.Data.List.Perm.Subperm

/-! Who holds something, read from a history: events of one kind take, events of
another kind give back. What an event is may depend on the history before it. -/
namespace Interleaving
variable {Req : Type} {Resp : Req → Type} {ε ρ σ Op Choice Env : Type}

/-- A kind of event, in view of the history before it. -/
abbrev Kind (Req : Type) (Resp : Req → Type) : Type := List (Event Req Resp) → Event Req Resp → Bool

/-- The processes that have taken and not given back, once for each time. -/
def holders (takes gives : Kind Req Resp) : List (Event Req Resp) → List Nat
  | [] => []
  | e :: log =>
    if takes log e then e.pid :: holders takes gives log
    else if gives log e then (holders takes gives log).erase e.pid
    else holders takes gives log

/-- Whoever gives back has taken. -/
def Paired (takes gives : Kind Req Resp) : List (Event Req Resp) → Prop
  | [] => True
  | e :: log =>
    (takes log e = false → gives log e = true → e.pid ∈ holders takes gives log) ∧
      Paired takes gives log

/-- How many events of a kind a process has made. -/
def timesOf (p : Nat) (kind : Kind Req Resp) : List (Event Req Resp) → Nat
  | [] => 0
  | e :: log => timesOf p kind log + if e.pid = p ∧ kind log e = true then 1 else 0

section
variable {takes gives takes' : Kind Req Resp} {e : Event Req Resp}
  {log : List (Event Req Resp)} {p : Nat}

theorem holders_takes (h : takes log e = true) :
    holders takes gives (e :: log) = e.pid :: holders takes gives log := by
  rw [holders, if_pos h]

theorem holders_gives (ht : takes log e = false) (h : gives log e = true) :
    holders takes gives (e :: log) = (holders takes gives log).erase e.pid := by
  rw [holders, if_neg (by simp [ht]), if_pos h]

theorem holders_neither (ht : takes log e = false) (h : gives log e = false) :
    holders takes gives (e :: log) = holders takes gives log := by
  rw [holders, if_neg (by simp [ht]), if_neg (by simp [h])]

/-- Giving back what is held makes one holder less. -/
theorem length_holders_gives (ht : takes log e = false) (h : gives log e = true)
    (hp : e.pid ∈ holders takes gives log) :
    (holders takes gives (e :: log)).length + 1 = (holders takes gives log).length := by
  rw [holders_gives ht h, List.length_erase_of_mem hp]
  exact Nat.sub_add_cancel (List.length_pos_of_mem hp)

/-- What the others do is no matter to a holder. -/
theorem mem_holders_other (h : e.pid ≠ p) :
    p ∈ holders takes gives (e :: log) ↔ p ∈ holders takes gives log := by
  rw [holders]
  split
  · exact ⟨fun hp => (List.mem_cons.mp hp).resolve_left h.symm, List.mem_cons_of_mem _⟩
  · split
    · exact List.mem_erase_of_ne h.symm
    · rfl

/-- An event changes what its own process holds. -/
theorem count_holders_own (h : e.pid = p) : (holders takes gives (e :: log)).count p =
    if takes log e then (holders takes gives log).count p + 1
    else if gives log e then (holders takes gives log).count p - 1
      else (holders takes gives log).count p := by
  subst h
  rw [holders]
  split
  · exact List.count_cons_self
  · split
    · exact List.count_erase_self
    · rfl

theorem count_holders_other (h : e.pid ≠ p) :
    (holders takes gives (e :: log)).count p = (holders takes gives log).count p := by
  rw [holders]
  split
  · exact List.count_cons_of_ne h
  · split
    · exact List.count_erase_of_ne h.symm
    · rfl

/-- Only those who take become holders. -/
theorem exists_of_mem_holders (h : p ∈ holders takes gives log) :
    ∃ before e, e :: before <:+ log ∧ e.pid = p ∧
    takes before e = true := by
  induction log with
  | nil => exact absurd h List.not_mem_nil
  | cons e log ih =>
    by_cases ht : takes log e = true
    · rw [holders_takes ht] at h
      rcases List.mem_cons.mp h with rfl | h
      · exact ⟨log, e, List.suffix_refl _, rfl, ht⟩
      · obtain ⟨before, e', hsuffix, hrest⟩ := ih h
        exact ⟨before, e', hsuffix.trans (List.suffix_cons _ _), hrest⟩
    · have hmem : p ∈ holders takes gives log := by
        rw [holders, if_neg ht] at h
        split at h
        · exact List.mem_of_mem_erase h
        · exact h
      obtain ⟨before, e', hsuffix, hrest⟩ := ih hmem
      exact ⟨before, e', hsuffix.trans (List.suffix_cons _ _), hrest⟩

theorem not_mem_holders_fresh (h : ∀ e ∈ log, e.pid ≠ p) : p ∉ holders takes gives log := by
  intro hp
  obtain ⟨before, e, hsuffix, hpid, -⟩ := exists_of_mem_holders hp
  exact h e (hsuffix.subset List.mem_cons_self) hpid

/-- Fewer takes make fewer holders. -/
theorem holders_subperm (hle : ∀ log e, takes' log e = true → takes log e = true)
    (hdisjoint : ∀ log e, takes log e = true → gives log e = false) :
    (holders takes' gives log).Subperm (holders takes gives log) := by
  induction log with
  | nil => exact List.Subperm.refl _
  | cons e log ih =>
    by_cases ht' : takes' log e = true
    · rw [holders_takes ht', holders_takes (hle log e ht')]
      exact (List.subperm_cons e.pid).mpr ih
    · rw [Bool.not_eq_true] at ht'
      by_cases ht : takes log e = true
      · rw [holders_takes ht, holders_neither ht' (hdisjoint log e ht)]
        exact ih.cons_right e.pid
      · rw [Bool.not_eq_true] at ht
        by_cases hg : gives log e = true
        · rw [holders_gives ht' hg, holders_gives ht hg]
          exact ih.erase e.pid
        · rw [Bool.not_eq_true] at hg
          rw [holders_neither ht' hg, holders_neither ht hg]
          exact ih

theorem timesOf_congr {kind kind' : Kind Req Resp}
    (h : ∀ before, ∀ e ∈ log, kind before e = kind' before e) :
    timesOf p kind log = timesOf p kind' log := by
  induction log with
  | nil => rfl
  | cons e log ih =>
    rw [timesOf, timesOf, h log e List.mem_cons_self,
      ih fun before e' he' => h before e' (List.mem_cons_of_mem e he')]

/-- What a process has taken it has given back or still holds. -/
theorem Paired.times (hdisjoint : ∀ log e, takes log e = true → gives log e = false)
    (h : Paired takes gives log) :
    timesOf p takes log = timesOf p gives log + (holders takes gives log).count p := by
  induction log with
  | nil => rfl
  | cons e log ih =>
    have ih := ih h.2
    rw [timesOf, timesOf]
    by_cases ht : takes log e = true
    · rw [holders_takes ht, hdisjoint log e ht, List.count_cons]
      simp only [ht, Bool.false_eq_true, and_false, and_true, if_false, beq_iff_eq]
      split <;> omega
    · rw [Bool.not_eq_true] at ht
      by_cases hg : gives log e = true
      · have hmem := h.1 ht hg
        rw [holders_gives ht hg, List.count_erase]
        simp only [ht, hg, Bool.false_eq_true, and_false, and_true, if_false, beq_iff_eq]
        split
        · rename_i hp
          subst hp
          have hpos := List.count_pos_iff.mpr hmem
          omega
        · omega
      · rw [Bool.not_eq_true] at hg
        rw [holders_neither ht hg]
        simp only [ht, hg, Bool.false_eq_true, and_false, if_false]
        omega

end

section
variable {S : System Req Resp ε ρ σ Op Choice Env} {R : Rules Req Resp σ Op Choice Env}
  {O : Outline Req Resp σ}
  {takes gives : Kind Req Resp} {p : Nat}

theorem Stable.holds : Stable S R O p fun s => p ∈ holders takes gives s.log := by
  intro s s' h hs
  cases h with
  | other ne => exact (mem_holders_other ne).mpr hs
  | drift => exact hs

theorem Stable.holdsNot : Stable S R O p fun s => p ∉ holders takes gives s.log := by
  intro s s' h hs
  cases h with
  | other ne => exact fun hp => hs ((mem_holders_other ne).mp hp)
  | drift => exact hs

theorem Stable.holdsCount (n : Nat) :
    Stable S R O p fun s => (holders takes gives s.log).count p = n := by
  intro s s' h hs
  cases h with
  | other ne => exact (count_holders_other ne).trans hs
  | drift => exact hs

end
end Interleaving
