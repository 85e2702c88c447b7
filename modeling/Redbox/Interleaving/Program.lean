import Mathlib.Logic.Function.Basic

/-! Resumption programs. An asynchronous routine is a tree: it has returned, it
has thrown, or it waits for the reply to one call on what it shares with others. -/
namespace Interleaving

/-- A routine of one process. Everything between two calls is local to it. -/
inductive Prog (Req : Type) (Resp : Req → Type) (ε α : Type) : Type where
  | ret (a : α)
  | throw (e : ε)
  | call (q : Req) (k : Resp q → Prog Req Resp ε α)

namespace Prog
variable {Req : Type} {Resp : Req → Type} {ε α β γ : Type}

def bind : Prog Req Resp ε α → (α → Prog Req Resp ε β) → Prog Req Resp ε β
  | .ret a, f => f a
  | .throw e, _ => .throw e
  | .call q k, f => .call q fun r => (k r).bind f

/-- The catch block of a try statement: it takes over where the body throws. -/
def handle : Prog Req Resp ε α → (ε → Prog Req Resp ε α) → Prog Req Resp ε α
  | .ret a, _ => .ret a
  | .throw e, h => h e
  | .call q k, h => .call q fun r => (k r).handle h

instance : Monad (Prog Req Resp ε) where
  pure := .ret
  bind := .bind

instance : MonadExceptOf ε (Prog Req Resp ε) where
  throw := .throw
  tryCatch := .handle

/-- Wait for the reply to a call whose failures are thrown. -/
def await {Fault : Type} {Answer : Req → Type} (raise : Fault → ε) (q : Req) :
    Prog Req (fun q => Except Fault (Answer q)) ε (Answer q) :=
  .call q fun
    | .ok a => .ret a
    | .error f => .throw (raise f)

/-- `if (c) throw e`. -/
def throwIf (c : Prop) [Decidable c] (e : ε) : Prog Req Resp ε Unit :=
  if c then .throw e else .ret ()

/-- `for (const x of xs) await f(x)`. -/
def forEach (xs : List β) (f : β → Prog Req Resp ε Unit) : Prog Req Resp ε Unit :=
  match xs with
  | [] => .ret ()
  | x :: xs => (f x).bind fun _ => forEach xs f

@[simp] theorem pure_eq (a : α) : (pure a : Prog Req Resp ε α) = .ret a := rfl
@[simp] theorem throw_eq (e : ε) :
    (MonadExcept.throw e : Prog Req Resp ε α) = .throw e := rfl
@[simp] theorem tryCatch_eq (x : Prog Req Resp ε α) (h : ε → Prog Req Resp ε α) :
    MonadExcept.tryCatch x h = x.handle h := rfl
@[simp] theorem bind_eq (x : Prog Req Resp ε α) (f : α → Prog Req Resp ε β) :
    (x >>= f) = x.bind f := rfl
@[simp] theorem ret_bind (a : α) (f : α → Prog Req Resp ε β) : (ret a).bind f = f a := rfl
@[simp] theorem throw_bind (e : ε) (f : α → Prog Req Resp ε β) :
    (throw e : Prog Req Resp ε α).bind f = .throw e := rfl
@[simp] theorem call_bind (q : Req) (k : Resp q → Prog Req Resp ε α) (f : α → Prog Req Resp ε β) :
    (call q k).bind f = .call q fun r => (k r).bind f := rfl

theorem bind_assoc (x : Prog Req Resp ε α) (f : α → Prog Req Resp ε β) (g : β → Prog Req Resp ε γ) :
    (x.bind f).bind g = x.bind fun a => (f a).bind g := by
  induction x with
  | ret a => rfl
  | throw e => rfl
  | call q k ih => simp only [call_bind, ih]

theorem bind_ret (x : Prog Req Resp ε α) : x.bind .ret = x := by
  induction x with
  | ret a => rfl
  | throw e => rfl
  | call q k ih => simp only [call_bind, ih]

end Prog
end Interleaving
