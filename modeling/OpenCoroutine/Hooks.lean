import OpenCoroutine.Kinds

/-! The calls hooked by `StateLinuxSyscall` over `NioLinuxSyscall`, made by the coroutines of
a system of schedulers. A call is cut where its coroutine's state changes or control leaves
the coroutine: `change_state!` around the inner call, and `wait_just` with `Some(time)` each
time the inner call waits. Between two waits the inner call makes raw calls of its own.

`returned` holds the coroutines that came back from a hooked call, with the state the call
left them in, and `panics` what failed in it or in an event loop's `try_resume`. -/

namespace OpenCoroutine

open Function Transition

inductive HookPc where
  | outside
  | inner (syscall : Syscall)
  | delaying (syscall : Syscall) (time : Nat)
  | delayed (syscall : Syscall)
  | selecting (syscall : Syscall)
  | notifying (syscall : Syscall) (events : List String)
  | finished (syscall : Syscall)
  | panicking (message : String)
  deriving DecidableEq, Repr

inductive HookOp (ι : Type*) where
  | enter (syscall : Syscall)
  | waitJust (time : Nat)
  | delay
  | select
  | selected (events : Option (List String))
  | notify (j : ι)
  | finish
  | resume
  | unwind

structure Hooks (ι θ : Type*) (n : Nat) where
  world : World ι θ n
  pc : String → HookPc := fun _ => .outside
  returned : List (String × CoroutineState Unit Unit) := []
  panics : List String := []

namespace Hooks

inductive Act (ι θ : Type*) where
  | world (a : World.Act ι θ)
  | hook (i : ι) (op : HookOp ι)

variable {ι θ : Type*} {n : Nat} [DecidableEq ι]

def setCo (s : Hooks ι θ n) (i : ι) (t : θ) (timeoutTime : Nat) (co : Co) (pc : HookPc) :
    Hooks ι θ n :=
  { s with
    world := s.world.setPhase i (.resuming t timeoutTime co)
    pc := update s.pc co.name pc }

def setPc (s : Hooks ι θ n) (coName : String) (pc : HookPc) : Hooks ι θ n :=
  { s with pc := update s.pc coName pc }

/-- The body panics where it is. -/
def fail (s : Hooks ι θ n) (coName : String) (message : String) : Hooks ι θ n :=
  { s.setPc coName (.panicking message) with panics := message :: s.panics }

/-- `.expect(message)` of what a method of the coroutine returns. -/
def expect (s : Hooks ι θ n) (i : ι) (t : θ) (timeoutTime : Nat) (message : String)
    (pc : HookPc) : Except IoError Unit × Co → Hooks ι θ n
  | (.ok (), co) => s.setCo i t timeoutTime co pc
  | (.error _, co) => (s.setCo i t timeoutTime co pc).fail co.name message

/-- `self.pool.try_resume(co_name).expect(..)` of an event loop, with its panic. -/
def tryResume (s : Hooks ι θ n) (j : ι) (coName : String) : Option String × Hooks ι θ n :=
  match (s.world.view j).tryResume coName with
  | (none, v) => (none, { s with world := s.world.setView j v })
  | (some (.err _), v) => (some "has bug, notice !", { s with world := s.world.setView j v })
  | (some (.unreachable message), v) => (some message, { s with world := s.world.setView j v })

variable [DecidableEq θ] (now : Nat → Nat)

def leave (s : Hooks ι θ n) (i : ι) (coName : String) (o : Leave Unit Unit) (pc : HookPc) :
    Option (Hooks ι θ n) :=
  (s.world.step now (.leave i o)).map fun world => { s with world, pc := update s.pc coName pc }

def hook (s : Hooks ι θ n) (i : ι) (t : θ) (timeoutTime : Nat) (co : Co) :
    HookPc → HookOp ι → Option (Hooks ι θ n)
  | .outside, .enter call =>
    some (s.expect i t timeoutTime "change to syscall state failed !" (.inner call)
      (co.syscall () call .computing))
  | .inner call, .waitJust time =>
    if (s.world.locals t).suspender.isEmpty then some (s.setPc co.name (.delayed call))
    else
      let wait := fun syscall =>
        { s with world := s.world.tick }.expect i t timeoutTime "change to syscall state failed !"
          (.delaying call time)
          (co.syscall () syscall (.suspend (getTimeoutTime time (now s.world.readings))))
      match co.state with
      | .running => some (wait .epoll_wait)
      | .systemCall () syscall _ => some (wait syscall)
      | _ => some (s.fail co.name "wait should never execute to here")
  | .delaying call time, .delay =>
    { s with world := s.world.tick }.leave now i co.name
      (.untilWith () (getTimeoutTime time (now s.world.readings))) (.delayed call)
  | .delayed call, .select =>
    match co.state with
    | .systemCall () syscall .computing | .systemCall () syscall .timeout =>
      some (s.expect i t timeoutTime "change to syscall state failed !" (.selecting call)
        (co.syscall () syscall (.calling .epoll_wait)))
    | _ => some (s.fail co.name "wait should never execute to here")
  | .selecting call, .selected events =>
    match co.state with
    | .systemCall () syscall (.calling _) =>
      some (s.expect i t timeoutTime "change to syscall state failed !"
        (match events with
        | none => .inner call
        | some events => .notifying call events)
        (co.syscall () syscall .computing))
    | _ => some (s.fail co.name "wait should never execute to here")
  | .notifying call [], .notify _ => some (s.setPc co.name (.inner call))
  | .notifying call (coName :: events), .notify j =>
    match (s.setPc co.name (.notifying call events)).tryResume j coName with
    | (none, s) => some s
    | (some message, s) => some (s.fail co.name message)
  | .inner call, .finish =>
    some (s.expect i t timeoutTime "change to syscall Finished state failed !" (.finished call)
      (co.syscall () call .finished))
  | .finished _, .resume =>
    match co.syscallResume with
    | (.ok (), co) =>
      some { s.setCo i t timeoutTime co .outside with
        returned := (co.name, co.state) :: s.returned }
    | (.error _, co) => some (s.fail co.name "change to running state failed !")
  | .panicking message, .unwind => s.leave now i co.name (.panics message) .outside
  | _, _ => none

def step (s : Hooks ι θ n) : Act ι θ → Option (Hooks ι θ n)
  | .world (.tryResume j coName) =>
    match s.tryResume j coName with
    | (message, s) => some { s with panics := message.toList ++ s.panics }
  | .world (.call i k) =>
    (s.world.running i).bind fun (_, _, co) =>
      if s.pc co.name = .outside then
        (s.world.step now (.call i k)).map fun world => { s with world }
      else none
  | .world (.leave i o) =>
    (s.world.running i).bind fun (_, _, co) =>
      if s.pc co.name = .outside then s.leave now i co.name o .outside else none
  | .world a => (s.world.step now a).map fun world => { s with world }
  | .hook i op =>
    (s.world.running i).bind fun (t, timeoutTime, co) =>
      s.hook now i t timeoutTime co (s.pc co.name) op

variable {now} {s s' : Hooks ι θ n}

theorem step_hook {i : ι} {op : HookOp ι} (h : s.step now (.hook i op) = some s') :
    ∃ t timeoutTime co, s.world.running i = some (t, timeoutTime, co) ∧
      s.hook now i t timeoutTime co (s.pc co.name) op = some s' := by
  simp only [step, Option.bind_eq_some_iff] at h
  obtain ⟨⟨t, timeoutTime, co⟩, hr, h⟩ := h
  exact ⟨t, timeoutTime, co, hr, h⟩

theorem step_call {i : ι} {k : CoroutineImpl.Call Unit Unit}
    (h : s.step now (.world (.call i k)) = some s') :
    ∃ t timeoutTime co, s.world.running i = some (t, timeoutTime, co) ∧
      s.pc co.name = .outside ∧
      s' = { s with world := s.world.setPhase i (.resuming t timeoutTime (co.call k).2) } := by
  simp only [step, Option.bind_eq_some_iff, Option.ite_none_right_eq_some,
    Option.map_eq_some_iff] at h
  obtain ⟨⟨t, timeoutTime, co⟩, hr, hpc, world, hw, rfl⟩ := h
  obtain ⟨t', timeoutTime', co', hr', rfl⟩ := World.step_call hw
  rw [hr, Option.some.injEq, Prod.mk.injEq, Prod.mk.injEq] at hr'
  obtain ⟨rfl, rfl, rfl⟩ := hr'
  exact ⟨t, timeoutTime, co, hr, hpc, rfl⟩

theorem step_leave {i : ι} {o : Leave Unit Unit} (h : s.step now (.world (.leave i o)) = some s') :
    ∃ t timeoutTime co, s.world.running i = some (t, timeoutTime, co) ∧
      s.pc co.name = .outside ∧ s.leave now i co.name o .outside = some s' := by
  simp only [step, Option.bind_eq_some_iff, Option.ite_none_right_eq_some] at h
  obtain ⟨⟨t, timeoutTime, co⟩, hr, hpc, h⟩ := h
  exact ⟨t, timeoutTime, co, hr, hpc, h⟩

end Hooks

end OpenCoroutine
