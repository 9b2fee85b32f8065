import OpenCoroutine.Distinct
import OpenCoroutine.Hooks

/-! The states of a coroutine at each point of a hooked call, and wherever the schedulers
keep it between two parts of the call. `bodies` tells whether the bodies may call the methods
of their coroutine themselves outside hooked calls; if not, they are in state `Running`
there. -/

namespace OpenCoroutine

open Function Transition

/-- The states in which a coroutine that runs can be where it is in its hooked call. -/
def HookPc.Fits (bodies : Prop) : HookPc → CoroutineState Unit Unit → Prop
  | .outside, st => bodies ∨ st = .running
  | .inner call, st | .notifying call _, st => st = .systemCall () call .computing
  | .delaying call _, st => ∃ timestamp, st = .systemCall () call (.suspend timestamp)
  | .delayed call, st =>
    st = .systemCall () call .computing ∨ st = .systemCall () call .timeout
  | .selecting call, st => st = .systemCall () call (.calling .epoll_wait)
  | .finished call, st => st = .systemCall () call .finished
  | .panicking _, _ => False

/-- A coroutine whose delay has given back control, in the state it did so. -/
def HookPc.Delays (pc : HookPc) (st : CoroutineState Unit Unit) : Prop :=
  ∃ call timestamp, pc = .delayed call ∧ st = .systemCall () call (.suspend timestamp)

def hookKinds (bodies : Prop) (pc : String → HookPc) : Kinds where
  ready co :=
    pc co.name = .outside ∧ (bodies ∨ co.state.isSystemCall = false) ∨
      ∃ call, pc co.name = .delayed call ∧ (pc co.name).Fits bodies co.state
  suspended co := pc co.name = .outside
  syscall co := pc co.name = .outside ∧ bodies ∨ (pc co.name).Delays co.state
  resumed co := (pc co.name).Fits bodies co.state
  yielded co result := co.state = result ∧
    (pc co.name = .outside ∧ (bodies ∨ result.isSystemCall = false) ∨ (pc co.name).Delays result)
  finished co := pc co.name = .outside

theorem hookKinds_closed (bodies : Prop) (pc : String → HookPc) : (hookKinds bodies pc).Closed where
  wake co h := .inl ⟨h, .inr rfl⟩
  timeOut co y call timestamp h hst := by
    rcases h with ⟨hpc, hbodies⟩ | ⟨call', timestamp', hpc, he⟩
    · exact .inl ⟨hpc, .inl hbodies⟩
    · rw [hst] at he
      cases he
      refine .inr ⟨call, hpc, ?_⟩
      rw [hpc]
      exact .inr rfl
  pass co h hnone := by
    rcases h with ⟨hpc, hbodies⟩ | ⟨call, timestamp, hpc, he⟩
    · exact .inl ⟨hpc, .inl hbodies⟩
    · rw [he] at hnone
      cases hnone
  resume co y call state h hst := by
    rcases h with ⟨hpc, hbodies⟩ | ⟨call', timestamp, hpc, he⟩
    · exact .inl ⟨hpc, .inl hbodies⟩
    · rw [hst] at he
      cases he
      refine .inr ⟨call, hpc, ?_⟩
      rw [hpc]
      exact .inl rfl
  run co h hst := by
    rcases h with ⟨hpc, -⟩ | ⟨call, hpc, hfits⟩
    · show HookPc.Fits bodies (pc co.name) _
      rw [hpc]
      exact .inr rfl
    · rw [hpc] at hfits
      rcases hfits with he | he <;> simp [he, CoroutineState.isSystemCall] at hst
  rerun co h hst := by
    rcases h with ⟨hpc, hbodies | hno⟩ | ⟨call, hpc, hfits⟩
    · show HookPc.Fits bodies (pc co.name) _
      rw [hpc]
      exact .inl hbodies
    · simp [hst] at hno
    · exact hfits
  suspend co timestamp h := by
    obtain ⟨hst, ⟨hpc, -⟩ | ⟨call, timestamp', -, he⟩⟩ := h
    · exact ⟨.inl ⟨hpc, .inr (by rw [hst]; rfl)⟩, hpc⟩
    · cases he
  table co call state h := by
    obtain ⟨hst, ⟨hpc, hbodies | hno⟩ | hdelays⟩ := h
    · exact .inl ⟨hpc, hbodies⟩
    · cases hno
    · exact .inr (hst ▸ hdelays)
  finish co result h hresult := by
    obtain ⟨hst, ⟨hpc, -⟩ | ⟨call, timestamp, -, he⟩⟩ := h
    · exact hpc
    · rcases hresult with rfl | ⟨message, rfl⟩ <;> cases he

theorem hookKinds_agrees (bodies : Prop) (pc : String → HookPc) (coName : String) (x : HookPc) :
    (hookKinds bodies pc).Agrees (hookKinds bodies (update pc coName x)) coName where
  ready co hne h := by simpa [hookKinds, update_of_ne hne] using h
  suspended co hne h := by simpa [hookKinds, update_of_ne hne] using h
  syscall co hne h := by simpa [hookKinds, update_of_ne hne] using h
  resumed co hne h := by simpa [hookKinds, update_of_ne hne] using h
  yielded co result hne h := by simpa [hookKinds, update_of_ne hne] using h
  finished co hne h := by simpa [hookKinds, update_of_ne hne] using h

theorem CoroutineImpl.mayLeave_running {co : Co} (hst : co.state = .running)
    (o : Leave Unit Unit) : co.MayLeave o := by
  cases o with
  | suspendWith arg | untilWith arg timestamp => exact .inl hst
  | returns val | panics message | traps => exact hst

theorem CoroutineImpl.leave_running {co co' : Co} {l l' : Locals String} {o : Leave Unit Unit}
    {result : CoroutineState Unit Unit} (hst : co.state = .running)
    (he : co.leave l o = (.ok result, co', l')) : result.isSystemCall = false := by
  cases o with
  | suspendWith arg | untilWith arg timestamp =>
    simp only [CoroutineImpl.leave, Leave.onBody, CoroutineImpl.resumeExit, hst,
      CoroutineImpl.suspend, Prod.mk.injEq, Except.ok.injEq] at he
    rw [← he.1]
    rfl
  | returns val =>
    simp only [CoroutineImpl.leave, Leave.onBody, CoroutineImpl.resumeExit, hst,
      CoroutineImpl.complete, Prod.mk.injEq, Except.ok.injEq] at he
    rw [← he.1]
    rfl
  | panics message | traps =>
    simp only [CoroutineImpl.leave, Leave.onBody, CoroutineImpl.resumeExit, hst,
      CoroutineImpl.error, Prod.mk.injEq, Except.ok.injEq] at he
    rw [← he.1]
    rfl

namespace Hooks

variable {ι θ : Type*} {n : Nat} [DecidableEq ι]

/-- The names are all different. Bodies that may call the methods of their coroutine make
hooked calls in state `Running` and give back control in the right states. -/
def Allowed (bodies : Prop) (s : Hooks ι θ n) : Act ι θ → Prop
  | .world (.call ..) => bodies
  | .world (.leave i o) => bodies → s.world.Disciplined (.leave i o)
  | .world a => s.world.Disciplined a
  | .hook i (.enter _) => bodies → ∀ r ∈ s.world.running i, r.2.2.state = .running
  | .hook _ _ => True

instance (bodies : Prop) [Decidable bodies] (s : Hooks ι θ n) :
    (a : Act ι θ) → Decidable (Allowed bodies s a)
  | .world (.call ..) => inferInstanceAs (Decidable bodies)
  | .world (.submit i uuid created) =>
    inferInstanceAs (Decidable (s.world.Disciplined (.submit i uuid created)))
  | .world (.leave i o) =>
    inferInstanceAs (Decidable (bodies → s.world.Disciplined (.leave i o)))
  | .world (.tryResume ..) | .world (.schedule ..) | .world (.turn ..) => isTrue trivial
  | .hook i (.enter _) =>
    inferInstanceAs (Decidable (bodies → ∀ r ∈ s.world.running i, r.2.2.state = .running))
  | .hook _ (.waitJust _) | .hook _ .delay | .hook _ .select | .hook _ (.selected _)
  | .hook _ (.notify _) | .hook _ .finish | .hook _ .resume | .hook _ .unwind => isTrue trivial

variable [Fintype ι] {bodies : Prop} {now : Nat → Nat}

structure Sound (bodies : Prop) (s : Hooks ι θ n) : Prop where
  kept : s.world.Kept
  kinds : s.world.OfKind (hookKinds bodies s.pc)
  new : ∀ coName ∉ s.world.submitted, s.pc coName = .outside
  panics : s.panics = []
  returned : ∀ r ∈ s.returned, r.2 = .running

theorem Sound.alone {s : Hooks ι θ n} (h : Sound bodies s) {i : ι} {t : θ} {timeoutTime : Nat}
    {co : Co} (hp : s.world.phase i = .resuming t timeoutTime co) : s.world.Alone i co.name :=
  h.kept.distinct.alone (by rw [hp]; exact Multiset.mem_singleton_self co)

theorem Sound.submitted {s : Hooks ι θ n} (h : Sound bodies s) {i : ι} {t : θ}
    {timeoutTime : Nat} {co : Co} (hp : s.world.phase i = .resuming t timeoutTime co) :
    co.name ∈ s.world.submitted :=
  h.kept.distinct.mem_submitted (by rw [hp]; exact Multiset.mem_singleton_self co)

omit [DecidableEq ι] in
theorem Sound.fits {s : Hooks ι θ n} (h : Sound bodies s) {i : ι} {t : θ} {timeoutTime : Nat}
    {co : Co} (hp : s.world.phase i = .resuming t timeoutTime co) :
    (s.pc co.name).Fits bodies co.state := by
  have hphase := h.kinds.phase i
  rw [hp] at hphase
  exact hphase

omit [DecidableEq ι] in
theorem Sound.new_update {s : Hooks ι θ n} (h : Sound bodies s) {coName : String}
    (hm : coName ∈ s.world.submitted) (pc : HookPc) :
    ∀ name ∉ s.world.submitted, update s.pc coName pc name = .outside := by
  intro name hname
  have hne : name ≠ coName := fun he => hname (he ▸ hm)
  rw [update_of_ne hne]
  exact h.new name hname

/-- A coroutine that runs changes its state and goes on in its hooked call. -/
theorem Sound.setCo {s : Hooks ι θ n} (h : Sound bodies s) {i : ι} {t : θ} {timeoutTime : Nat}
    {co : Co} (hp : s.world.phase i = .resuming t timeoutTime co) {st : CoroutineState Unit Unit}
    {pc : HookPc} (hfits : pc.Fits bodies st) :
    Sound bodies (s.setCo i t timeoutTime { co with state := st } pc) := by
  have hdone : co.done = false := World.live_alive h.kept.live hp
  refine ⟨⟨?_, h.kept.live.setPhase i hdone, h.kept.panics⟩, ?_, ?_, h.panics, h.returned⟩
  · refine h.kept.distinct.setPhase (w := s.world) rfl ?_
    rw [hp]
    rfl
  · refine h.kinds.setAlone (h.alone hp) (hookKinds_agrees bodies s.pc co.name pc) ?_
    show (update s.pc co.name pc co.name).Fits bodies st
    rw [update_self]
    exact hfits
  · exact h.new_update (h.submitted hp) pc

/-- The same through a `syscall` of its own, which succeeds in a system call. -/
theorem Sound.syscall {s : Hooks ι θ n} (h : Sound bodies s) {i : ι} {t : θ}
    {timeoutTime : Nat} {co : Co} (hp : s.world.phase i = .resuming t timeoutTime co)
    {call : Syscall} {state state' : SyscallState} (hst : co.state = .systemCall () call state)
    {pc : HookPc} (hfits : pc.Fits bodies (.systemCall () call state')) {message : String} :
    Sound bodies (s.expect i t timeoutTime message pc (co.syscall () call state')) := by
  rw [CoroutineImpl.syscall_of_systemCall hst]
  exact h.setCo hp hfits

theorem Sound.setPc {s : Hooks ι θ n} (h : Sound bodies s) {i : ι} {t : θ} {timeoutTime : Nat}
    {co : Co} (hp : s.world.phase i = .resuming t timeoutTime co) {pc : HookPc}
    (hfits : pc.Fits bodies co.state) : Sound bodies (s.setPc co.name pc) := by
  have hs : s.setCo i t timeoutTime { co with state := co.state } pc = s.setPc co.name pc := by
    have hphase : update s.world.phase i (.resuming t timeoutTime co) = s.world.phase := by
      rw [← hp, update_eq_self]
    simp [Hooks.setCo, Hooks.setPc, World.setPhase, hphase]
  rw [← hs]
  exact h.setCo hp hfits

omit [DecidableEq ι] in
theorem Sound.tick {s : Hooks ι θ n} (h : Sound bodies s) :
    Sound bodies { s with world := s.world.tick } :=
  ⟨h.kept.tick, h.kinds.tick, h.new, h.panics, h.returned⟩

theorem Sound.tryResume {s : Hooks ι θ n} (h : Sound bodies s) (j : ι) (coName : String) :
    (s.tryResume j coName).1 = none ∧ Sound bodies (s.tryResume j coName).2 := by
  have hnone := View.tryResume_live (h.kept.live.view j) coName
  have hkept := h.kept.tryResume j coName
  have hkinds := h.kinds.tryResume (hookKinds_closed bodies s.pc) j coName
  unfold Hooks.tryResume
  split
  · rename_i v he
    rw [he] at hkept hkinds
    exact ⟨rfl, hkept, hkinds, h.new, h.panics, h.returned⟩
  · rename_i he
    rw [he] at hnone
    cases hnone
  · rename_i he
    rw [he] at hnone
    cases hnone

variable [DecidableEq θ]

/-- A coroutine that runs gives back control in the state it is placed by. -/
theorem Sound.leave {s s' : Hooks ι θ n} (h : Sound bodies s) {i : ι}
    {t : θ} {timeoutTime : Nat} {co : Co} (hr : s.world.running i = some (t, timeoutTime, co))
    {o : Leave Unit Unit} (hok : co.MayLeave o) {pc : HookPc}
    (hyields : ∀ (l : Locals String) result co' l', co.leave l o = (.ok result, co', l') →
      pc = .outside ∧ (bodies ∨ result.isSystemCall = false) ∨ pc.Delays result)
    (hs : s.leave now i co.name o pc = some s') : Sound bodies s' := by
  have hp := World.running_eq hr
  simp only [Hooks.leave, Option.map_eq_some_iff] at hs
  obtain ⟨world, hworld, rfl⟩ := hs
  have hkept := h.kept.step (a := .leave i o) trivial hworld
  obtain ⟨result, co', l, he, hname, hyielded⟩ :=
    CoroutineImpl.leave_yielded (l := s.world.locals t) (World.live_alive h.kept.live hp) hok
  simp only [World.step, hr, Option.map_some, he, Option.some.injEq] at hworld
  subst hworld
  refine ⟨hkept, ?_, h.new_update (h.submitted hp) pc, h.panics, h.returned⟩
  have ha := h.alone hp
  have halone : (s.world.setLocals t l).Alone i co.name :=
    ⟨ha.ready, ha.suspended, ha.syscall, ha.phase, ha.finished⟩
  refine (h.kinds.setLocals t l).setAlone halone (hookKinds_agrees bodies s.pc co.name pc) ?_
  refine ⟨hyielded.1, ?_⟩
  rw [hname, update_self]
  exact hyields _ _ _ _ he

theorem Sound.submit {s : Hooks ι θ n} (h : Sound bodies s) {i : ι}
    {uuid : String} {created : Bool} (hok : s.world.Disciplined (.submit i uuid created))
    {world : World ι θ n} (hs : s.world.step now (.submit i uuid created) = some world) :
    Sound bodies { s with world } := by
  have hkept := h.kept.step (a := .submit i uuid created) hok hs
  cases created with
  | false =>
    rw [← Option.some.inj hs]
    exact h
  | true =>
    rw [World.step_submit, Option.some.injEq] at hs
    subst hs
    have hpc := h.new _ (hok rfl)
    have hview := (h.kinds.view i).submit now uuid (.inl ⟨hpc, .inr rfl⟩)
    have hkinds := h.kinds.setView i hview
    refine ⟨hkept, hkinds.of_eq rfl rfl rfl rfl, fun coName hm => ?_, h.panics, h.returned⟩
    exact h.new coName fun hm' => hm (List.mem_cons_of_mem _ hm')

theorem Sound.turn {s : Hooks ι θ n} (h : Sound bodies s) {i : ι}
    {world : World ι θ n} (hs : s.world.turn now i = some world) :
    Sound bodies { s with world } := by
  have hkinds := h.kinds.turn (hookKinds_closed bodies s.pc) h.kept.live.ready hs
  refine ⟨h.kept.turn hs, hkinds, fun coName hm => h.new coName ?_, h.panics, h.returned⟩
  rwa [← World.turn_submitted hs]

theorem Sound.schedule {s : Hooks ι θ n} (h : Sound bodies s) {i : ι} {t : θ}
    {timeoutTime : Nat} {world : World ι θ n}
    (hs : s.world.step now (.schedule i t timeoutTime) = some world) :
    Sound bodies { s with world } := by
  have hkept := h.kept.step (a := .schedule i t timeoutTime) trivial hs
  obtain ⟨-, rfl⟩ := World.step_schedule hs
  exact ⟨hkept, h.kinds.setPhase i (by trivial), h.new, h.panics, h.returned⟩

/-- The events of a selection resume other coroutines, one after another. -/
theorem Sound.notify {s s' : Hooks ι θ n} (h : Sound bodies s) {i j : ι} {t : θ}
    {timeoutTime : Nat} {co : Co} (hp : s.world.phase i = .resuming t timeoutTime co)
    {call : Syscall} {events : List String}
    (hfits : (HookPc.notifying call events).Fits bodies co.state)
    (hs : s.hook now i t timeoutTime co (.notifying call events) (.notify j) = some s') :
    Sound bodies s' := by
  cases events with
  | nil =>
    rw [← Option.some.inj hs]
    exact h.setPc hp hfits
  | cons coName events =>
    have hset : Sound bodies (s.setPc co.name (.notifying call events)) := h.setPc hp hfits
    obtain ⟨hnone, hsound⟩ := hset.tryResume j coName
    simp only [Hooks.hook] at hs
    split at hs
    · rename_i s₁ he
      rw [← Option.some.inj hs]
      rw [he] at hsound
      exact hsound
    · rename_i message s₁ he
      rw [he] at hnone
      cases hnone

/-- A hooked call goes on from where it is, and nothing in it fails. -/
theorem Sound.hook {s s' : Hooks ι θ n} (h : Sound bodies s) {i : ι}
    {t : θ} {timeoutTime : Nat} {co : Co} (hr : s.world.running i = some (t, timeoutTime, co))
    {op : HookOp ι} (hok : Allowed bodies s (.hook i op))
    (hs : s.hook now i t timeoutTime co (s.pc co.name) op = some s') : Sound bodies s' := by
  have hp := World.running_eq hr
  have hfits := h.fits hp
  cases hpc : s.pc co.name with
  | outside =>
    rw [hpc] at hs hfits
    cases op with
    | enter call =>
      have hst : co.state = .running := hfits.elim (fun hbodies => hok hbodies _ hr) id
      simp only [Hooks.hook, CoroutineImpl.syscall, hst, Hooks.expect, Option.some.injEq] at hs
      rw [← hs]
      exact h.setCo hp rfl
    | waitJust time | delay | select | selected events | notify j | finish | resume | unwind =>
      cases hs
  | inner call =>
    rw [hpc] at hs hfits
    have hst : co.state = .systemCall () call .computing := hfits
    cases op with
    | waitJust time =>
      simp only [Hooks.hook] at hs
      split at hs
      · rw [← Option.some.inj hs]
        exact h.setPc hp (.inl hst)
      · simp only [hst, Option.some.injEq] at hs
        rw [← hs]
        refine h.tick.syscall hp hst ?_
        exact ⟨_, rfl⟩
    | finish =>
      rw [← Option.some.inj hs]
      refine h.syscall hp hst ?_
      rfl
    | enter call | delay | select | selected events | notify j | resume | unwind => cases hs
  | delaying call time =>
    rw [hpc] at hs hfits
    obtain ⟨timestamp, hst⟩ := hfits
    cases op with
    | delay =>
      simp only [Hooks.hook] at hs
      have hmay : ∀ time, co.MayLeave (.untilWith () time) := fun _ => .inr (by rw [hst]; rfl)
      refine h.tick.leave hr (hmay _) (fun l result co' l' he => .inr ?_) hs
      simp only [CoroutineImpl.leave, Leave.onBody, CoroutineImpl.resumeExit, hst,
        Prod.mk.injEq, Except.ok.injEq] at he
      exact ⟨call, timestamp, rfl, he.1.symm⟩
    | enter call | waitJust time | select | selected events | notify j | finish | resume
    | unwind => cases hs
  | delayed call =>
    rw [hpc] at hs hfits
    cases op with
    | select =>
      rcases hfits with hst | hst
      · simp only [Hooks.hook, hst, Option.some.injEq] at hs
        rw [← hs]
        refine h.syscall hp hst ?_
        rfl
      · simp only [Hooks.hook, hst, Option.some.injEq] at hs
        rw [← hs]
        refine h.syscall hp hst ?_
        rfl
    | enter call | waitJust time | delay | selected events | notify j | finish | resume
    | unwind => cases hs
  | selecting call =>
    rw [hpc] at hs hfits
    have hst : co.state = .systemCall () call (.calling .epoll_wait) := hfits
    cases op with
    | selected events =>
      simp only [Hooks.hook, hst, Option.some.injEq] at hs
      rw [← hs]
      refine h.syscall hp hst ?_
      cases events <;> rfl
    | enter call | waitJust time | delay | select | notify j | finish | resume | unwind => cases hs
  | notifying call events =>
    rw [hpc] at hs hfits
    cases op with
    | notify j => exact h.notify hp hfits hs
    | enter call | waitJust time | delay | select | selected events | finish | resume | unwind =>
      simp [Hooks.hook] at hs
  | finished call =>
    rw [hpc] at hs hfits
    have hst : co.state = .systemCall () call .finished := hfits
    cases op with
    | resume =>
      simp only [Hooks.hook, CoroutineImpl.syscallResume, hst, Option.some.injEq] at hs
      rw [← hs]
      have hk : Sound bodies
          (s.setCo i t timeoutTime { co with state := .running } .outside) :=
        h.setCo hp (.inr rfl)
      refine ⟨hk.kept, hk.kinds, hk.new, hk.panics, fun r hr => ?_⟩
      rcases List.mem_cons.1 hr with rfl | hr
      · rfl
      · exact h.returned r hr
    | enter call | waitJust time | delay | select | selected events | notify j | finish | unwind =>
      cases hs
  | panicking message =>
    rw [hpc] at hfits
    exact hfits.elim

theorem Sound.step {s s' : Hooks ι θ n} (h : Sound bodies s)
    {a : Act ι θ} (hok : Allowed bodies s a) (hs : s.step now a = some s') :
    Sound bodies s' := by
  cases a with
  | hook i op =>
    obtain ⟨t, timeoutTime, co, hr, hs⟩ := step_hook hs
    exact h.hook hr hok hs
  | world a =>
    cases a with
    | submit i uuid created =>
      simp only [Hooks.step, Option.map_eq_some_iff] at hs
      obtain ⟨world, hw, rfl⟩ := hs
      exact h.submit hok hw
    | schedule i t timeoutTime =>
      simp only [Hooks.step, Option.map_eq_some_iff] at hs
      obtain ⟨world, hw, rfl⟩ := hs
      exact h.schedule hw
    | turn i =>
      simp only [Hooks.step, Option.map_eq_some_iff] at hs
      obtain ⟨world, hw, rfl⟩ := hs
      exact h.turn hw
    | tryResume j coName =>
      obtain ⟨hnone, hsound⟩ := h.tryResume j coName
      simp only [Hooks.step, hnone, Option.some.injEq] at hs
      rw [← hs]
      exact hsound
    | call i k =>
      obtain ⟨t, timeoutTime, co, hr, hpc, rfl⟩ := step_call hs
      have hbodies : bodies := hok
      obtain ⟨st, hst⟩ : ∃ st, (co.call k).2 = { co with state := st } := by
        rcases co.call_sets k with ⟨st, hc⟩ | ⟨e, hc⟩
        · exact ⟨st, by rw [hc]⟩
        · exact ⟨co.state, by rw [hc]⟩
      have hk : Sound bodies (s.setCo i t timeoutTime { co with state := st } .outside) :=
        h.setCo (World.running_eq hr) (.inl hbodies)
      have hpcs : update s.pc co.name .outside = s.pc := by rw [← hpc, update_eq_self]
      simp only [Hooks.setCo, hpcs] at hk
      rw [hst]
      exact hk
    | leave i o =>
      obtain ⟨t, timeoutTime, co, hr, hpc, hs⟩ := step_leave hs
      have hfits := h.fits (World.running_eq hr)
      rw [hpc] at hfits
      rcases hfits with hbodies | hst
      · exact h.leave hr (hok hbodies _ hr) (fun _ _ _ _ _ => .inl ⟨rfl, .inl hbodies⟩) hs
      · refine h.leave hr (CoroutineImpl.mayLeave_running hst o)
          (fun l result co' l' he => .inl ⟨rfl, .inr ?_⟩) hs
        exact CoroutineImpl.leave_running hst he

structure Initial (s : Hooks ι θ n) : Prop where
  world : s.world.Initial
  pc : ∀ coName, s.pc coName = .outside
  returned : s.returned = []
  panics : s.panics = []

omit [DecidableEq ι] [DecidableEq θ] in
theorem Initial.sound {s : Hooks ι θ n} (h : s.Initial) : Sound bodies s where
  kept := h.world.kept
  kinds := h.world.ofKind _
  new coName _ := h.pc coName
  panics := h.panics
  returned r hr := by
    rw [h.returned] at hr
    cases hr

/-- Whatever wakes a coroutine in a hooked call, no `expect` fails and no `unreachable!` is
reached, and every hooked call leaves its coroutine in state `Running`. -/
theorem hooks_pass {s₀ s : Hooks ι θ n} (h₀ : s₀.Initial)
    (h : Reaches (step now) (Allowed bodies) s₀ s) :
    s.panics = [] ∧ s.world.panics = [] ∧ ∀ r ∈ s.returned, r.2 = .running := by
  have hsound : Sound bodies s :=
    h.invariant h₀.sound fun _ _ _ hi hok hs => hi.step hok hs
  exact ⟨hsound.panics, hsound.kept.panics, hsound.returned⟩

def pair : Hooks (Fin 2) (Fin 2) 2 := { world := World.pair }

theorem pair_initial : pair.Initial := ⟨World.pair_initial, fun _ => rfl, rfl, rfl⟩

/-- The coroutine calls `recv`, which waits once and is woken by an event. -/
theorem hooks_pass_woken :
    ∃ s : Hooks (Fin 2) (Fin 2) 2, s.returned = [("s|a", .running)] ∧ s.panics = [] ∧
      s.world.panics = [] ∧ ∀ r ∈ s.returned, r.2 = .running := by
  obtain ⟨s, h, hreturned⟩ : ∃ s : Hooks (Fin 2) (Fin 2) 2,
      Reaches (step id) (Allowed False) pair s ∧ s.returned = [("s|a", .running)] :=
    ⟨_, Reaches.of_runGuarded [.world (.submit 1 "a" true), .world (.schedule 1 1 1000),
      .world (.turn 1), .world (.turn 1), .world (.turn 1), .hook 1 (.enter .recv),
      .hook 1 (.waitJust 10), .hook 1 .delay, .world (.turn 1), .world (.tryResume 1 "s|a"),
      .world (.turn 1), .world (.turn 1), .world (.turn 1), .hook 1 .select,
      .hook 1 (.selected (some [])), .hook 1 (.notify 0), .hook 1 .finish, .hook 1 .resume] rfl, rfl⟩
  exact ⟨s, hreturned, hooks_pass pair_initial h⟩

end Hooks

end OpenCoroutine
