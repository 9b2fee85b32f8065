import OpenCoroutine.Armed
import OpenCoroutine.Monitor

/-! Preemption: the monitor thread, the `SIGURG` signals in flight, and the threads that run
schedulers whose coroutines make hooked calls. The monitor submits a look at each due node
to its own pool; a look reads the state at the node's address, which is that of a coroutine
as long as a scheduler of the node's thread has one there, and anything later. A signal is
pending for its thread until `sigurg_handler` runs there, at any point of the body of a
coroutine or, with no current suspender, to no effect. -/

namespace OpenCoroutine

open Function Transition

structure Preemption (ι θ : Type*) (n : Nat) where
  hooks : Hooks ι θ n
  monitor : MonitorImpl ι θ
  looks : List (TaskNode θ) := []
  pending : θ → Bool := fun _ => false
  preempted : List String := []

namespace Preemption

inductive Act (ι θ : Type*) where
  | hooks (a : Hooks.Act ι θ)
  | schedule (i : ι) (t : θ) (timeoutTime slot : Nat)
  | scan (node : TaskNode θ)
  | look (node : TaskNode θ) (state : CoroutineState Unit Unit)
  | sigurgHandler (i : ι)
  | ignore (t : θ)
  | clean (index : Nat)
  | stop

variable {ι θ : Type*} {n : Nat}

/-- `state` is what can be read at the address of the node. -/
def Reads (s : Preemption ι θ n) (node : TaskNode θ) (state : CoroutineState Unit Unit) : Prop :=
  ∀ i, s.monitor.slot i = node.coroutine → (s.hooks.world.phase i).thread = some node.pthread →
    ∀ co ∈ (s.hooks.world.phase i).co, state = co.state

variable [Fintype ι] [DecidableEq ι] [LinearOrder θ]

instance (s : Preemption ι θ n) (node : TaskNode θ) (state : CoroutineState Unit Unit) :
    Decidable (s.Reads node state) := inferInstanceAs (Decidable (∀ _, _ → _ → ∀ co ∈ _, _))

variable (now : Nat → Nat)

def step (s : Preemption ι θ n) : Act ι θ → Option (Preemption ι θ n)
  | .hooks (.world (.turn i)) =>
    let (monitor, world) := s.monitor.listen now s.hooks.world i
    ({ s.hooks with world }.step now (.world (.turn i))).map fun hooks => { s with hooks, monitor }
  | .hooks (.world (.schedule ..)) => none
  | .hooks a => (s.hooks.step now a).map fun hooks => { s with hooks }
  | .schedule i t timeoutTime slot =>
    (s.hooks.step now (.world (.schedule i t timeoutTime))).map fun hooks =>
      { s with hooks, monitor := { s.monitor with slot := update s.monitor.slot i slot } }
  | .scan node =>
    if (node.timestamp, node) ∈ s.monitor.tasks.elems ∧
        node.timestamp ≤ now s.hooks.world.readings then
      some { s with
        hooks := { s.hooks with world := s.hooks.world.tick }, looks := node :: s.looks }
    else none
  | .look node state =>
    if node ∈ s.looks ∧ s.Reads node state then
      some { s with
        looks := s.looks.erase node
        pending := if state = .running then update s.pending node.pthread true else s.pending }
    else none
  | .sigurgHandler i =>
    (s.hooks.world.running i).bind fun (t, _, co) =>
      if s.pending t = true ∧ (s.hooks.world.locals t).suspender ≠ [] then
        (s.hooks.leave now i co.name (.suspendWith ()) (s.hooks.pc co.name)).map fun hooks =>
          { s with
            hooks, pending := update s.pending t false, preempted := co.name :: s.preempted }
      else none
  | .ignore t =>
    if s.pending t = true ∧ (s.hooks.world.locals t).suspender = [] then
      some { s with pending := update s.pending t false }
    else none
  | .clean index => (s.monitor.clean index).map fun monitor => { s with monitor }
  | .stop => some { s with monitor := s.monitor.stop }

/-- The handler suspends a coroutine only in state `Running`, not just the monitor's look
finds it so; the bodies and the names are as they have to be. -/
def Timely (s : Preemption ι θ n) : Act ι θ → Prop
  | .hooks a => Hooks.Allowed True s.hooks a ∧ s.hooks.Waiting a
  | .sigurgHandler i => ∀ r ∈ s.hooks.world.running i, r.2.2.state = .running
  | _ => True

instance (s : Preemption ι θ n) : (a : Act ι θ) → Decidable (s.Timely a)
  | .hooks a => inferInstanceAs (Decidable (Hooks.Allowed True s.hooks a ∧ s.hooks.Waiting a))
  | .sigurgHandler i =>
    inferInstanceAs (Decidable (∀ r ∈ s.hooks.world.running i, r.2.2.state = .running))
  | .schedule .. | .scan _ | .look .. | .ignore _ | .clean _ | .stop => isTrue trivial

structure Sound (s : Preemption ι θ n) : Prop where
  hooks : Hooks.Sound True s.hooks
  placed : s.hooks.world.Placed now
  armed : s.hooks.world.Armed
  preempted : s.preempted ⊆ s.hooks.world.submitted

variable {now}

/-- A step of the schedulers, from the clock the listener leaves. -/
theorem Sound.move (hmono : Monotone now) {s s' : Preemption ι θ n} (h : s.Sound now)
    {a : Hooks.Act ι θ} {hooks : Hooks ι θ n} (hok : Hooks.Allowed True s.hooks a)
    (hwaiting : s.hooks.Waiting a) (hs : s.hooks.step now a = some hooks) (hhooks : s'.hooks = hooks)
    (hpreempted : s'.preempted = s.preempted) : s'.Sound now := by
  obtain ⟨harmed, hsub⟩ := h.hooks.step_armed hmono h.placed h.armed hok hwaiting hs
  have hplaced := h.hooks.step_placed hmono h.placed hok hs
  subst hhooks
  refine ⟨h.hooks.step hok hs, hplaced, harmed, ?_⟩
  rw [hpreempted]
  exact List.Subset.trans h.preempted hsub

omit [DecidableEq ι] [LinearOrder θ] in
theorem Sound.tick (hmono : Monotone now) {s : Preemption ι θ n} (h : s.Sound now) :
    Sound now { s with hooks := { s.hooks with world := s.hooks.world.tick } } :=
  ⟨h.hooks.tick, h.placed.tick hmono, h.armed.of_eq rfl rfl, h.preempted⟩

/-- The coroutine is not in a hooked call, and gives back control as if it suspended
itself. -/
theorem Sound.sigurgHandler (hmono : Monotone now) {s s' : Preemption ι θ n} (h : s.Sound now)
    {i : ι} (hok : ∀ r ∈ s.hooks.world.running i, r.2.2.state = .running)
    (hs : s.step now (.sigurgHandler i) = some s') : s'.Sound now := by
  simp only [Preemption.step, Option.bind_eq_some_iff] at hs
  obtain ⟨⟨t, timeoutTime, co⟩, hr, hs⟩ := hs
  split at hs
  · simp only [Option.map_eq_some_iff] at hs
    obtain ⟨hooks, hleave, rfl⟩ := hs
    have hp := World.running_eq hr
    have hst : co.state = .running := hok _ hr
    have hmay := CoroutineImpl.mayLeave_running hst (.suspendWith ())
    have hwaits : co.state.Waits := fun hcall => by
      rw [hst] at hcall
      cases hcall
    have hpc : s.hooks.pc co.name = .outside := by
      have hfits := h.hooks.fits hp
      rw [hst] at hfits
      cases hpc : s.hooks.pc co.name with
      | outside => rfl
      | inner call | notifying call events | selecting call | finished call =>
        rw [hpc] at hfits
        cases hfits
      | delaying call time =>
        rw [hpc] at hfits
        obtain ⟨timestamp, he⟩ := hfits
        cases he
      | delayed call =>
        rw [hpc] at hfits
        rcases hfits with he | he
        · cases he
        · cases he
      | panicking message =>
        rw [hpc] at hfits
        exact hfits.elim
    have hsound := h.hooks.leave hr hmay
      (fun _ _ _ _ _ => .inl ⟨hpc, .inl trivial⟩) hleave
    simp only [Hooks.leave, Option.map_eq_some_iff] at hleave
    obtain ⟨world, hworld, rfl⟩ := hleave
    have hsub := Hooks.submitted_leave hworld
    have hplaced : world.Placed now := by
      refine h.placed.step hmono ?_ hworld
      intro r hr'
      rw [Option.mem_def, hr, Option.some.injEq] at hr'
      rw [← hr']
      exact hmay
    refine ⟨hsound, hplaced, h.armed.leave hr hmay hwaits hworld, ?_⟩
    show co.name :: s.preempted ⊆ world.submitted
    rw [hsub]
    exact List.cons_subset.2 ⟨h.hooks.submitted hp, h.preempted⟩
  · cases hs

theorem Sound.turn (hmono : Monotone now) {s s' : Preemption ι θ n} (h : s.Sound now) {i : ι}
    (hs : s.step now (.hooks (.world (.turn i))) = some s') : s'.Sound now := by
  simp only [Preemption.step, Option.map_eq_some_iff] at hs
  obtain ⟨hooks, hstep, rfl⟩ := hs
  have hlisten : Sound now
      { s with hooks := { s.hooks with world := (s.monitor.listen now s.hooks.world i).2 } } := by
    rcases s.monitor.listen_world now s.hooks.world i with he | he
    · rw [he]
      exact h
    · rw [he]
      exact h.tick hmono
  exact hlisten.move hmono (a := .world (.turn i)) trivial trivial hstep rfl rfl

theorem Sound.step (hmono : Monotone now) {s s' : Preemption ι θ n} (h : s.Sound now)
    {a : Act ι θ} (hok : s.Timely a) (hs : s.step now a = some s') : s'.Sound now := by
  have hmove : ∀ {a : Hooks.Act ι θ}, Hooks.Allowed True s.hooks a ∧ s.hooks.Waiting a →
      (s.hooks.step now a).map (fun hooks => { s with hooks }) = some s' → s'.Sound now := by
    intro a hok hs
    obtain ⟨hooks, hstep, rfl⟩ := Option.map_eq_some_iff.1 hs
    exact h.move hmono hok.1 hok.2 hstep rfl rfl
  cases a with
  | hooks a =>
    cases a with
    | hook i op => exact hmove hok hs
    | world a =>
      cases a with
      | turn i => exact h.turn hmono hs
      | schedule i t timeoutTime => cases hs
      | submit i uuid created => exact hmove hok hs
      | tryResume i coName => exact hmove hok hs
      | call i k => exact hmove hok hs
      | leave i o => exact hmove hok hs
  | schedule i t timeoutTime slot =>
    simp only [Preemption.step, Option.map_eq_some_iff] at hs
    obtain ⟨hooks, hstep, rfl⟩ := hs
    exact h.move hmono (a := .world (.schedule i t timeoutTime)) trivial trivial hstep rfl rfl
  | scan node =>
    simp only [Preemption.step, Option.ite_none_right_eq_some, Option.some.injEq] at hs
    obtain ⟨-, rfl⟩ := hs
    obtain ⟨hhooks, hplaced, harmed, hpreempted⟩ := h.tick hmono
    exact ⟨hhooks, hplaced, harmed, hpreempted⟩
  | look node state =>
    simp only [Preemption.step, Option.ite_none_right_eq_some, Option.some.injEq] at hs
    obtain ⟨-, rfl⟩ := hs
    exact ⟨h.hooks, h.placed, h.armed, h.preempted⟩
  | sigurgHandler i => exact h.sigurgHandler hmono hok hs
  | ignore t =>
    simp only [Preemption.step, Option.ite_none_right_eq_some, Option.some.injEq] at hs
    obtain ⟨-, rfl⟩ := hs
    exact ⟨h.hooks, h.placed, h.armed, h.preempted⟩
  | clean index =>
    simp only [Preemption.step, Option.map_eq_some_iff] at hs
    obtain ⟨monitor, -, rfl⟩ := hs
    exact ⟨h.hooks, h.placed, h.armed, h.preempted⟩
  | stop =>
    simp only [Preemption.step, Option.some.injEq] at hs
    subst hs
    exact ⟨h.hooks, h.placed, h.armed, h.preempted⟩

structure Initial (s : Preemption ι θ n) : Prop where
  hooks : s.hooks.Initial
  preempted : s.preempted = []

omit [DecidableEq ι] [LinearOrder θ] in
theorem Initial.sound {s : Preemption ι θ n} (h : s.Initial) : s.Sound now where
  hooks := h.hooks.sound
  placed := h.hooks.world.placed
  armed := by
    refine ⟨fun i e he => ?_, fun i r hr => ?_⟩
    · rw [h.hooks.world.syscall i] at he
      cases he
    · rw [h.hooks.world.phase i] at hr
      cases hr
  preempted := by
    rw [h.preempted]
    exact List.nil_subset _

/-- The schedulers go on by themselves with every coroutine that the handler suspended, and
each coroutine in a syscall table has a timer. -/
theorem preempted_scheduled (hmono : Monotone now) {s₀ s : Preemption ι θ n} (h₀ : s₀.Initial)
    (h : Reaches (step now) Timely s₀ s) :
    (∀ coName ∈ s.preempted, s.hooks.world.Scheduled coName) ∧
      ∀ i, (s.hooks.world.sched i).Armed := by
  have hsound : s.Sound now := h.invariant h₀.sound fun _ _ _ hi hok hs => hi.step hmono hok hs
  refine ⟨fun coName hm => ?_, hsound.armed.timers⟩
  exact hsound.armed.scheduled hsound.placed (hsound.preempted hm)

def pair : Preemption (Fin 2) (Fin 2) 2 where
  hooks := Hooks.pair
  monitor := { slot := fun _ => 0 }

theorem pair_initial : pair.Initial := ⟨Hooks.pair_initial, rfl⟩

/-- A coroutine is resumed and the monitor sends a signal to its thread. -/
def signalled {ι θ : Type*} (i : ι) (t : θ) : List (Act ι θ) :=
  [.hooks (.world (.submit i "a" true)), .schedule i t 3 7, .hooks (.world (.turn i)),
    .hooks (.world (.turn i)), .hooks (.world (.turn i)), .scan ⟨3, t, 7⟩, .look ⟨3, t, 7⟩ .running]

/-- The handler suspends a coroutine that then waits in a hooked call. -/
theorem preempted_scheduled_waiting :
    ∃ s : Preemption (Fin 2) (Fin 2) 2, s.preempted = ["s|a"] ∧
      (s.hooks.world.sched 1).syscallSuspend.elems = [(19, "s|a")] ∧
        (∀ coName ∈ s.preempted, s.hooks.world.Scheduled coName) ∧
          ∀ i, (s.hooks.world.sched i).Armed := by
  obtain ⟨s, h, hpreempted, htimers⟩ : ∃ s : Preemption (Fin 2) (Fin 2) 2,
      Reaches (step id) Timely pair s ∧ s.preempted = ["s|a"] ∧
        (s.hooks.world.sched 1).syscallSuspend.elems = [(19, "s|a")] :=
    ⟨_, Reaches.of_runGuarded (signalled 1 1 ++ [.sigurgHandler 1, .hooks (.world (.turn 1)),
      .hooks (.world (.turn 1)), .schedule 1 1 1000 7, .hooks (.world (.turn 1)),
      .hooks (.world (.turn 1)), .hooks (.world (.turn 1)), .hooks (.hook 1 (.enter .recv)),
      .hooks (.hook 1 (.waitJust 10)), .hooks (.hook 1 .delay), .hooks (.world (.turn 1))]) rfl,
      rfl, rfl⟩
  exact ⟨s, hpreempted, htimers, preempted_scheduled monotone_id pair_initial h⟩

/-- The coroutine is in the syscall table in state `call`, and no timer is left. -/
structure Stranded (s : Preemption (Fin 2) (Fin 2) 2) (call : SyscallState) : Prop where
  preempted : s.preempted = ["s|a"]
  table : (s.hooks.world.sched 1).syscall.entries =
    [⟨"s|a", ⟨"s|a", .systemCall () .recv call, false⟩⟩]
  timers : (s.hooks.world.sched 1).syscallSuspend.elems = []

/-- The coroutine enters `recv` between the look of the monitor and the signal, and is
suspended before the call waits; or as it is about to wait, and then waits once more. -/
theorem preempted_stranded :
    (∃ s : Preemption (Fin 2) (Fin 2) 2,
      Transition.run (step id) pair (signalled 1 1 ++ [.hooks (.hook 1 (.enter .recv)),
        .sigurgHandler 1, .hooks (.world (.turn 1))]) = some s ∧ Stranded s .computing) ∧
    ∃ s : Preemption (Fin 2) (Fin 2) 2,
      Transition.run (step id) pair (signalled 1 1 ++ [.hooks (.hook 1 (.enter .recv)),
        .hooks (.hook 1 (.waitJust 1)), .sigurgHandler 1, .hooks (.world (.turn 1)),
        .hooks (.world (.turn 1)), .schedule 1 1 1000 7, .hooks (.world (.turn 1)),
        .hooks (.world (.turn 1)), .hooks (.world (.turn 1)), .hooks (.hook 1 .delay),
        .hooks (.world (.turn 1))]) = some s ∧ Stranded s .timeout :=
  ⟨⟨_, rfl, rfl, rfl, rfl⟩, _, rfl, rfl, rfl, rfl⟩

end Preemption

end OpenCoroutine
