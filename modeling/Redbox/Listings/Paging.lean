import Mathlib.Data.List.Perm.Basic
import Mathlib.Order.Lattice

/-! Listings that are served page by page. A page has what lies behind the marker that it is asked
for, up to the marker that it hands out; the last one hands out none. -/
namespace Paging
variable {M α σ : Type}

/-- What lies elsewhere stays listed while a page is processed. -/
theorem foldl_filter {position : α → M} {items : σ → List α} {process : σ → α → σ}
    (h : ∀ s a (p : M → Bool), p (position a) = false →
      (items (process s a)).filter (fun x => p (position x)) = (items s).filter fun x =>
        p (position x))
    {p : M → Bool} {page : List α} (hp : ∀ a ∈ page, p (position a) = false) (s : σ) :
    (items (page.foldl process s)).filter (fun x => p (position x)) = (items s).filter fun x =>
      p (position x) := by
  induction page generalizing s with
  | nil => rfl
  | cons a page ih =>
    rw [List.forall_mem_cons] at hp
    rw [List.foldl_cons, ih hp.2, h s a p hp.1]

variable [LinearOrder M]

def beyond (m : Option M) (x : M) : Bool := m.all fun y => decide (y < x)

def upTo (m : Option M) (x : M) : Bool := m.all fun y => decide (x ≤ y)

/-- The marker that the page after `m` hands out, where the pages are cut at the given places. -/
def next (cuts : List M) (m : Option M) : Option M := cuts.find? (beyond m)

/-- What lies behind a later marker lies behind an earlier one. -/
theorem beyond_of_later {m : Option M} {n x : M} (hn : beyond m n = true)
    (hx : beyond (some n) x = true) : beyond m x = true := by
  cases m with
  | none => rfl
  | some y =>
    simp only [beyond, Option.all_some, decide_eq_true_eq] at hx hn ⊢
    exact hn.trans hx

theorem next_fewer {cuts : List M} {m : Option M} {n : M} (h : next cuts m = some n) :
    (cuts.filter (beyond (some n))).length < (cuts.filter (beyond m)).length := by
  have hbeyond : beyond m n = true := List.find?_some h
  have hmem : n ∈ cuts.filter (beyond m) :=
    List.mem_filter.mpr ⟨List.mem_of_find?_eq_some h, hbeyond⟩
  have hsub : cuts.filter (beyond (some n)) = (cuts.filter (beyond m)).filter
      (beyond (some n)) := by
    rw [List.filter_filter]
    refine List.filter_congr fun x _ => ?_
    cases hx : beyond (some n) x with
    | true => rw [beyond_of_later hbeyond hx, Bool.and_true]
    | false => rfl
  rw [hsub]
  refine List.length_filter_lt_length_iff_exists.mpr ⟨n, hmem, ?_⟩
  simp [beyond]

/-- Asks for one page after the other. -/
def run (step : Option M → Option M → σ → σ) (cuts : List M) (m : Option M) (s : σ) : σ :=
  match _h : next cuts m with
  | none => step m none s
  | some n => run step cuts (some n) (step m (some n) s)
termination_by (cuts.filter (beyond m)).length
decreasing_by exact next_fewer ‹_›

/-- The entries behind a marker are those of the page after it and those behind the next marker. -/
theorem page_append_perm {m : Option M} {n : M} (hn : beyond m n = true) (position : α → M)
    (l : List α) :
    ((l.filter fun x => beyond m (position x) && upTo (some n) (position x)) ++
      l.filter fun x => beyond (some n) (position x)).Perm (l.filter fun x =>
        beyond m (position x)) := by
  have hpage : (l.filter fun x => beyond m (position x) && upTo (some n) (position x)) =
      (l.filter fun x => beyond m (position x)).filter fun x => upTo (some n) (position x) := by
    rw [List.filter_filter]
    exact List.filter_congr fun x _ => Bool.and_comm _ _
  have hrest : (l.filter fun x => beyond (some n) (position x)) =
      (l.filter fun x => beyond m (position x)).filter fun x => !upTo (some n) (position x) := by
    rw [List.filter_filter]
    refine List.filter_congr fun x _ => ?_
    have hnot : (!upTo (some n) (position x)) = beyond (some n) (position x) := by
      simp only [upTo, beyond, Option.all_some, ← decide_not, not_le]
    rw [hnot]
    cases hx : beyond (some n) (position x) with
    | true => rw [beyond_of_later hn hx, Bool.and_true]
    | false => rfl
  rw [hpage, hrest]
  exact List.filter_append_perm _ _

/-- A loop over the pages of a listing that shrinks on the way, but only by what has been processed.
-/
theorem run_foldl (position : α → M) (items : σ → List α) (process : σ → α → σ)
    (h : ∀ s a (p : M → Bool), p (position a) = false →
      (items (process s a)).filter (fun x => p (position x)) = (items s).filter fun x =>
        p (position x))
    (cuts : List M) (m : Option M) (s : σ) :
    ∃ seq : List α, seq.Perm ((items s).filter fun x => beyond m (position x)) ∧
      run (fun m n s => ((items s).filter fun x =>
        beyond m (position x) && upTo n (position x)).foldl process s) cuts m s =
        seq.foldl process s := by
  induction hn : (cuts.filter (beyond m)).length using Nat.strongRecOn generalizing m s with
  | ind k ih =>
    rw [run]
    split
    · rename_i hnext
      exact ⟨_, by simp [upTo], rfl⟩
    · rename_i n hnext
      have hbeyond : beyond m n = true := List.find?_some hnext
      have hpage : ∀ a ∈ (items s).filter (fun x =>
        beyond m (position x) && upTo (some n) (position x)),
          beyond (some n) (position a) = false := by
        intro a ha
        have hle := (Bool.and_eq_true_iff.mp (List.mem_filter.mp ha).2).2
        simpa [upTo, beyond] using hle
      obtain ⟨seq, hperm, hrun⟩ := ih _ (hn ▸ next_fewer hnext) (some n) _ rfl
      refine ⟨(items s).filter (fun x => beyond m (position x) && upTo (some n) (position x)) ++
        seq, ?_, ?_⟩
      · rw [foldl_filter h hpage] at hperm
        exact (hperm.append_left _).trans (page_append_perm hbeyond position (items s))
      · rw [hrun, List.foldl_append]

end Paging
