import Mathlib.Logic.Function.Basic
import OpenCoroutine.Resume
import OpenCoroutine.Transition

/-! Coroutines resumed on threads. A coroutine may be resumed by any thread and from
inside any other coroutine; the body that runs on a thread is the one resumed last. The
field `active` holds the calls of `resume_with` in progress on each thread, innermost
first, and `busy` tells that one of them borrows the coroutine: the borrow is exclusive,
so a busy coroutine cannot be resumed. Resuming a body that has returned makes
`inner.resume` panic after `init_current`. `leave` gives the result of the `resume_with`
that ends together with the new state. -/

namespace OpenCoroutine

structure Threads (θ κ Y R : Type*) where
  co : κ → CoroutineImpl Y R
  locals : θ → Locals κ
  active : θ → List κ
  busy : κ → Bool

namespace Threads

variable {θ κ Y R : Type*}

def fresh (name : κ → String) : Threads θ κ Y R where
  co p := { name := name p }
  locals _ := {}
  active _ := []
  busy _ := false

inductive Act (θ κ Y R : Type*) where
  | resume (t : θ) (p : κ) (now : Nat)
  | call (t : θ) (k : CoroutineImpl.Call Y R)
  | leave (t : θ) (o : Leave Y R)

variable [DecidableEq θ] [DecidableEq κ] [ToString Y] [ToString R]

def resume (m : Threads θ κ Y R) (t : θ) (p : κ) (now : Nat) : Option (Threads θ κ Y R) :=
  if m.busy p then none
  else
    match (m.co p).resumeEnter p (m.locals t) now with
    | (some _, c, l) =>
      some { m with co := Function.update m.co p c, locals := Function.update m.locals t l }
    | (none, c, l) =>
      if c.done then
        some { m with locals := Function.update m.locals t ((m.locals t).initCoroutine p) }
      else
        some
          { co := Function.update m.co p c
            locals := Function.update m.locals t l
            active := Function.update m.active t (p :: m.active t)
            busy := Function.update m.busy p true }

def call (m : Threads θ κ Y R) (t : θ) (k : CoroutineImpl.Call Y R) : Option (Threads θ κ Y R) :=
  match m.active t with
  | [] => none
  | p :: _ => some { m with co := Function.update m.co p ((m.co p).call k).2 }

def leave (m : Threads θ κ Y R) (t : θ) (o : Leave Y R) :
    Option (Except IoError (CoroutineState Y R) × Threads θ κ Y R) :=
  match m.active t with
  | [] => none
  | p :: rest =>
    let (r, c, l) := (m.co p).leave (m.locals t) o
    some (r,
      { co := Function.update m.co p c
        locals := Function.update m.locals t l
        active := Function.update m.active t rest
        busy := Function.update m.busy p false })

def step (m : Threads θ κ Y R) : Act θ κ Y R → Option (Threads θ κ Y R)
  | .resume t p now => m.resume t p now
  | .call t k => m.call t k
  | .leave t o => (m.leave t o).map Prod.snd

def stateOn (m : Threads θ κ Y R) (t : θ) : Option (CoroutineState Y R) :=
  (m.active t).head?.map fun p => (m.co p).state

end Threads

end OpenCoroutine
