import Mathlib.Data.Prod.Lex
import OpenCoroutine.Kinds

/-! The monitor: the nodes of the coroutines that schedulers are resuming, and the listener
`MonitorTaskCreator` that submits and removes them. A node names its coroutine by the
address of the variable of `try_timeout_schedule` that holds it, which is given with each
call. The monitor is started by the first node and its operations do not overlap.

`stamp` is what the coroutines have under `MONITOR_TIMESTAMP` in their local maps. The
listener does not implement `on_syscall`, so the trait's own, which does nothing, is
called. -/

namespace OpenCoroutine

open Function Transition

structure TaskNode (θ : Type*) where
  timestamp : Nat
  pthread : θ
  coroutine : Nat

namespace TaskNode

variable {θ : Type*}

def key (node : TaskNode θ) : Nat ×ₗ θ ×ₗ Nat :=
  toLex (node.timestamp, toLex (node.pthread, node.coroutine))

theorem key_injective : Injective (key (θ := θ)) := by
  rintro ⟨timestamp, pthread, coroutine⟩ ⟨timestamp', pthread', coroutine'⟩ h
  simp only [key, EmbeddingLike.apply_eq_iff_eq, Prod.mk.injEq] at h
  obtain ⟨rfl, rfl, rfl⟩ := h
  rfl

instance [LinearOrder θ] : LinearOrder (TaskNode θ) := LinearOrder.lift' key key_injective

end TaskNode

structure MonitorImpl (ι θ : Type*) where
  tasks : TimerList (TaskNode θ) := OrderedMap.empty
  cleanQueue : List (TaskNode θ) := []
  run : Bool := false
  stamp : String → Option Nat := fun _ => none
  slot : ι → Nat

namespace MonitorImpl

variable {ι θ : Type*} {n : Nat}

def submit (m : MonitorImpl ι θ) (timestamp : Nat) (t : θ) (coroutine : Nat) : MonitorImpl ι θ :=
  { m with run := true, tasks := m.tasks.insert timestamp ⟨timestamp, t, coroutine⟩ }

def remove (m : MonitorImpl ι θ) (timestamp : Nat) (t : θ) (coroutine : Nat) : MonitorImpl ι θ :=
  { m with cleanQueue := ⟨timestamp, t, coroutine⟩ :: m.cleanQueue }

def stop (m : MonitorImpl ι θ) : MonitorImpl ι θ := { m with run := false }

/-- The condition of the loop of the monitor thread. -/
def loops (m : MonitorImpl ι θ) : Bool := m.run || !m.tasks.isEmpty

def onResume (m : MonitorImpl ι θ) (now : Nat) (t : θ) (coroutine timeoutTime : Nat)
    (coName : String) : MonitorImpl ι θ :=
  let timestamp := min (getTimeoutTime 10000000 now) timeoutTime
  { m with stamp := update m.stamp coName (some timestamp) }.submit timestamp t coroutine

/-- `on_suspend`, `on_complete` and `on_error`. -/
def forget (m : MonitorImpl ι θ) (t : θ) (coroutine : Nat) (coName : String) : MonitorImpl ι θ :=
  match m.stamp coName with
  | some timestamp => m.remove timestamp t coroutine
  | none => m

def onYield (m : MonitorImpl ι θ) (t : θ) (coroutine : Nat) (coName : String) :
    CoroutineState Unit Unit → MonitorImpl ι θ
  | .suspend () _ | .complete () | .error _ => m.forget t coroutine coName
  | _ => m

/-- What scheduler `i` calls the listener with in its next part, with the clock it reads. -/
def listen (m : MonitorImpl ι θ) (now : Nat → Nat) (w : World ι θ n) (i : ι) :
    MonitorImpl ι θ × World ι θ n :=
  match w.phase i with
  | .popping t timeoutTime _ =>
    match ((w.sched i).ready.popFront w.queue).1 with
    | none => (m, w)
    | some co => (m.onResume (now w.readings) t (m.slot i) timeoutTime co.name, w.tick)
  | .returned t _ co (.ok result) => (m.onYield t (m.slot i) co.name result, w)
  | _ => (m, w)

theorem listen_world (now : Nat → Nat) (m : MonitorImpl ι θ) (w : World ι θ n) (i : ι) :
    (m.listen now w i).2 = w ∨ (m.listen now w i).2 = w.tick := by
  unfold MonitorImpl.listen
  split
  · split
    · exact .inl rfl
    · exact .inr rfl
  · exact .inl rfl
  · exact .inl rfl

/-- One node of the clean queue; the search in its entry answers `index`. -/
def clean [LinearOrder θ] (m : MonitorImpl ι θ) (index : Nat) : Option (MonitorImpl ι θ) :=
  match m.cleanQueue with
  | [] => none
  | node :: cleanQueue =>
    match m.tasks.getEntry node.timestamp with
    | none => some { m with cleanQueue }
    | some entry =>
      if entry.Searches node index then
        some { m with
          cleanQueue, tasks := m.tasks.setEntry node.timestamp (entry.remove index) }
      else none

end MonitorImpl

/-- Schedulers with the listener, and the monitor. -/
structure Monitored (ι θ : Type*) (n : Nat) where
  world : World ι θ n
  monitor : MonitorImpl ι θ

namespace Monitored

inductive Act (ι θ : Type*) where
  | world (a : World.Act ι θ)
  | schedule (i : ι) (t : θ) (timeoutTime slot : Nat)
  | clean (index : Nat)
  | stop

variable {ι θ : Type*} {n : Nat} [DecidableEq ι] [LinearOrder θ] (now : Nat → Nat)

def step (s : Monitored ι θ n) : Act ι θ → Option (Monitored ι θ n)
  | .world (.turn i) =>
    let (monitor, world) := s.monitor.listen now s.world i
    (world.turn now i).map fun world => ⟨world, monitor⟩
  | .world (.schedule ..) => none
  | .world a => (s.world.step now a).map fun world => { s with world }
  | .schedule i t timeoutTime slot =>
    (s.world.step now (.schedule i t timeoutTime)).map fun world =>
      ⟨world, { s.monitor with slot := update s.monitor.slot i slot }⟩
  | .clean index => (s.monitor.clean index).map fun monitor => { s with monitor }
  | .stop => some { s with monitor := s.monitor.stop }

end Monitored

end OpenCoroutine
