import Redbox.Interleaving.Pool
import Mathlib.Data.List.TakeWhile

/-! Reading a history backwards: what happened since a process last did a thing. -/
namespace Interleaving
variable {Req : Type} {Resp : Req → Type}

/-- The events newer than the last marked event of process `p`. -/
def sinceOwn (p : Nat) (mark : Event Req Resp → Bool) (log : List (Event Req Resp)) :
    List (Event Req Resp) :=
  log.takeWhile fun e => !(e.pid == p && mark e)

/-- Some event of kind `ev` is newer than the last marked event of process `p`. -/
def occursSince (p : Nat) (mark ev : Event Req Resp → Bool) (log : List (Event Req Resp)) : Bool :=
  (sinceOwn p mark log).any ev

/-- The last event of process `p`. -/
def lastOwn (p : Nat) (log : List (Event Req Resp)) : Option (Event Req Resp) :=
  log.find? fun e => e.pid == p

/-- The newest of the events of process `p` that say something. -/
def newestOwn {β : Type} (f : Event Req Resp → Option β) (p : Nat) (log : List (Event Req Resp)) :
    Option β :=
  log.findSome? fun e => if e.pid = p then f e else none

section
variable {p : Nat} {mark ev : Event Req Resp → Bool} {e : Event Req Resp}
  {log : List (Event Req Resp)}

@[simp] theorem occursSince_nil : occursSince p mark ev ([] : List (Event Req Resp)) = false := rfl

theorem occursSince_other (h : e.pid ≠ p) :
    occursSince p mark ev (e :: log) = (ev e || occursSince p mark ev log) := by
  simp [occursSince, sinceOwn, h]

theorem occursSince_unmarked (h : mark e = false) :
    occursSince p mark ev (e :: log) = (ev e || occursSince p mark ev log) := by
  simp [occursSince, sinceOwn, h]

theorem lastOwn_other (h : e.pid ≠ p) : lastOwn p (e :: log) = lastOwn p log := by
  simp [lastOwn, h]

theorem lastOwn_self (h : e.pid = p) : lastOwn p (e :: log) = some e := by
  simp [lastOwn, h]

theorem lastOwn_none (h : ∀ e ∈ log, e.pid ≠ p) : lastOwn p log = none := by
  simpa [lastOwn, List.find?_eq_none] using h

section
variable {β : Type} {f : Event Req Resp → Option β}

theorem newestOwn_other (h : e.pid ≠ p) : newestOwn f p (e :: log) = newestOwn f p log := by
  rw [newestOwn, List.findSome?_cons, if_neg h]
  rfl

theorem newestOwn_silent (h : f e = none) : newestOwn f p (e :: log) = newestOwn f p log := by
  rw [newestOwn, List.findSome?_cons]
  by_cases hpid : e.pid = p
  · rw [if_pos hpid, h]
    rfl
  · rw [if_neg hpid]
    rfl

theorem newestOwn_own {b : β} (hpid : e.pid = p) (h : f e = some b) :
    newestOwn f p (e :: log) = some b := by
  rw [newestOwn, List.findSome?_cons, if_pos hpid, h]

theorem newestOwn_fresh (h : ∀ e ∈ log, e.pid ≠ p) : newestOwn f p log = none := by
  rw [newestOwn, List.findSome?_eq_none_iff]
  exact fun e he => if_neg (h e he)

end

end
end Interleaving
