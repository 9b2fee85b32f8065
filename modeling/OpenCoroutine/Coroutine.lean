import OpenCoroutine.Constants

/-! The state machine of one coroutine. A method returns its result together with the
coroutine it leaves behind, because the source changes a `Cell` and may still fail.
The field `done` is `inner.done()`: the body has returned. An argument `now` is the
reading of the clock that the method takes if it takes one. A body reaches the methods
of its own coroutine through `CoroutineImpl::current()`; `Call` lists them. -/

namespace OpenCoroutine

structure CoroutineImpl (Y R : Type*) where
  name : String
  state : CoroutineState Y R := .created
  done : Bool := false
  deriving DecidableEq, Repr

namespace CoroutineImpl

variable {Y R : Type*} [ToString Y] [ToString R]

def unexpected (c : CoroutineImpl Y R) (target : CoroutineState Y R) : IoError :=
  ⟨.other, c.name ++ " unexpected " ++ c.state.display ++ "->" ++ target.display⟩

def ready (c : CoroutineImpl Y R) (now : Nat) : Except IoError Unit × CoroutineImpl Y R :=
  match c.state with
  | .created => (.ok (), { c with state := .ready })
  | .suspend _ timestamp =>
    if timestamp ≤ now then (.ok (), { c with state := .ready })
    else (.error (c.unexpected .ready), c)
  | _ => (.error (c.unexpected .ready), c)

def running (c : CoroutineImpl Y R) (now : Nat) : Except IoError Unit × CoroutineImpl Y R :=
  match c.state with
  | .created | .ready => (.ok (), { c with state := .running })
  | .suspend _ timestamp =>
    if timestamp ≤ now then (.ok (), { c with state := .running })
    else (.error (c.unexpected .running), c)
  | .systemCall _ _ _ => (.ok (), c)
  | _ => (.error (c.unexpected .running), c)

def suspend (c : CoroutineImpl Y R) (val : Y) (timestamp : Nat) :
    Except IoError Unit × CoroutineImpl Y R :=
  match c.state with
  | .running => (.ok (), { c with state := .suspend val timestamp })
  | _ => (.error (c.unexpected (.suspend val timestamp)), c)

def syscall (c : CoroutineImpl Y R) (val : Y) (syscall : Syscall) (syscallState : SyscallState) :
    Except IoError Unit × CoroutineImpl Y R :=
  match c.state with
  | .running => (.ok (), { c with state := .systemCall val syscall syscallState })
  | .systemCall _ originalSyscall _ =>
    if originalSyscall = syscall then
      (.ok (), { c with state := .systemCall val syscall syscallState })
    else (.error (c.unexpected (.systemCall val syscall syscallState)), c)
  | _ => (.error (c.unexpected (.systemCall val syscall syscallState)), c)

def syscallResume (c : CoroutineImpl Y R) : Except IoError Unit × CoroutineImpl Y R :=
  match c.state with
  | .systemCall _ _ .finished | .systemCall _ _ .timeout => (.ok (), { c with state := .running })
  | _ => (.error (c.unexpected .running), c)

def complete (c : CoroutineImpl Y R) (val : R) : Except IoError Unit × CoroutineImpl Y R :=
  match c.state with
  | .running => (.ok (), { c with state := .complete val })
  | _ => (.error (c.unexpected (.complete val)), c)

def error (c : CoroutineImpl Y R) (val : String) : Except IoError Unit × CoroutineImpl Y R :=
  match c.state with
  | .running => (.ok (), { c with state := .error val })
  | _ => (.error (c.unexpected (.error val)), c)

inductive Call (Y R : Type*) where
  | ready (now : Nat)
  | running (now : Nat)
  | suspend (val : Y) (timestamp : Nat)
  | syscall (val : Y) (syscall : Syscall) (syscallState : SyscallState)
  | syscallResume
  | complete (val : R)
  | error (val : String)
  deriving DecidableEq, Repr

def call (c : CoroutineImpl Y R) : Call Y R → Except IoError Unit × CoroutineImpl Y R
  | .ready now => c.ready now
  | .running now => c.running now
  | .suspend val timestamp => c.suspend val timestamp
  | .syscall val syscall syscallState => c.syscall val syscall syscallState
  | .syscallResume => c.syscallResume
  | .complete val => c.complete val
  | .error val => c.error val

/-- A method either succeeds and sets the state or fails and leaves the coroutine. -/
def Sets (c : CoroutineImpl Y R) (r : Except IoError Unit × CoroutineImpl Y R) : Prop :=
  (∃ s, r = (.ok (), { c with state := s })) ∨ (∃ e, r = (.error e, c))

theorem call_sets (c : CoroutineImpl Y R) (k : Call Y R) : c.Sets (c.call k) := by
  cases k <;> simp only [call, ready, running, suspend, syscall, syscallResume, complete, error]
  all_goals
    split <;>
      first
        | exact .inl ⟨_, rfl⟩
        | exact .inr ⟨_, rfl⟩
        | exact .inl ⟨c.state, rfl⟩
        | (split <;> first | exact .inl ⟨_, rfl⟩ | exact .inr ⟨_, rfl⟩)

@[simp] theorem call_name (c : CoroutineImpl Y R) (k : Call Y R) : (c.call k).2.name = c.name := by
  rcases c.call_sets k with ⟨s, h⟩ | ⟨e, h⟩ <;> simp [h]

@[simp] theorem call_done (c : CoroutineImpl Y R) (k : Call Y R) : (c.call k).2.done = c.done := by
  rcases c.call_sets k with ⟨s, h⟩ | ⟨e, h⟩ <;> simp [h]

theorem ready_of_due {c : CoroutineImpl Y R} {y : Y} {timestamp now : Nat}
    (h : c.state = .suspend y timestamp) (hnow : timestamp ≤ now) :
    c.ready now = (.ok (), { c with state := .ready }) := by
  simp [ready, h, hnow]

theorem syscall_of_systemCall {c : CoroutineImpl Y R} {y : Y} {s : Syscall} {st : SyscallState}
    (h : c.state = .systemCall y s st) (val : Y) (st' : SyscallState) :
    c.syscall val s st' = (.ok (), { c with state := .systemCall val s st' }) := by
  simp [syscall, h]

end CoroutineImpl

end OpenCoroutine
