import OpenCoroutine.HookStates
import OpenCoroutine.Upkeep

/-! What the place that a scheduler keeps a worker in says about its body. A worker that has been
put aside is at the top of its loop or busy, and is busy if it is in a system call. -/

namespace OpenCoroutine

open Function Transition

namespace WorkerPc

variable {ι : Type*}

/-- Where the body of a coroutine can be that has yielded `result`. -/
def Yields (x : WorkerPc ι) : CoroutineState Unit Unit → Prop
  | .suspend _ _ => x.isTop = true ∨ x.isBusy = true
  | .systemCall _ _ _ => x.isBusy = true
  | .complete _ | .error _ => x.isOver = true
  | .created | .ready | .running => True

end WorkerPc

section

variable {ι : Type*}

def IsBusy (pc : String → Option (WorkerPc ι)) (coName : String) : Prop :=
  ∃ x ∈ pc coName, x.isBusy = true

def IsParked (pc : String → Option (WorkerPc ι)) (coName : String) : Prop :=
  ∃ x ∈ pc coName, x.isTop = true ∨ x.isBusy = true

theorem IsBusy.parked {pc : String → Option (WorkerPc ι)} {coName : String}
    (h : IsBusy pc coName) : IsParked pc coName := by
  obtain ⟨x, hx, hbusy⟩ := h
  exact ⟨x, hx, .inr hbusy⟩

def dutyKinds (pc : String → Option (WorkerPc ι)) : Kinds where
  ready co := IsParked pc co.name ∧ (co.state.isSystemCall = true → IsBusy pc co.name)
  suspended co := IsParked pc co.name
  syscall co := IsBusy pc co.name
  resumed co := co.state = .running ∨ IsBusy pc co.name
  yielded co result := co.state = result ∧ ∃ x ∈ pc co.name, x.Yields result
  finished co := ∃ x ∈ pc co.name, x.isOver = true

theorem dutyKinds_closed (pc : String → Option (WorkerPc ι)) : (dutyKinds pc).Closed where
  wake co h := ⟨h, fun hst => by cases hst⟩
  timeOut co y call timestamp h _ := ⟨h.parked, fun _ => h⟩
  pass co h _ := ⟨h.parked, fun _ => h⟩
  resume co y call state h _ := ⟨h.parked, fun _ => h⟩
  run co _ _ := .inl rfl
  rerun co h hst := .inr (h.2 hst)
  suspend co timestamp h := by
    obtain ⟨hst, x, hx, hyields⟩ := h
    exact ⟨⟨⟨x, hx, hyields⟩, fun hcall => by rw [hst] at hcall; cases hcall⟩, x, hx, hyields⟩
  table co call state h := h.2
  finish co result h hresult := by
    obtain ⟨-, x, hx, hyields⟩ := h
    rcases hresult with rfl | ⟨message, rfl⟩
    · exact ⟨x, hx, hyields⟩
    · exact ⟨x, hx, hyields⟩

theorem dutyKinds_agrees (pc : String → Option (WorkerPc ι)) (coName : String)
    (x : Option (WorkerPc ι)) :
    (dutyKinds pc).Agrees (dutyKinds (update pc coName x)) coName where
  ready co hne h := by simpa [dutyKinds, IsParked, IsBusy, update_of_ne hne] using h
  suspended co hne h := by simpa [dutyKinds, IsParked, update_of_ne hne] using h
  syscall co hne h := by simpa [dutyKinds, IsBusy, update_of_ne hne] using h
  resumed co hne h := by simpa [dutyKinds, IsBusy, update_of_ne hne] using h
  yielded co result hne h := by simpa [dutyKinds, update_of_ne hne] using h
  finished co hne h := by simpa [dutyKinds, update_of_ne hne] using h

end

namespace CoroutineImpl

variable {ι : Type*} {co co' : Co} {l l' : Locals String} {o : Leave Unit Unit}
  {result : CoroutineState Unit Unit}

/-- In a system call a body only gives back control while it is busy. -/
theorem yield_yields {x : WorkerPc ι} (hx : x.isTop = true ∨ x.isBusy = true)
    (hst : co.state = .running ∨ x.isBusy = true)
    (hok : co.state = .running ∨ co.state.isSystemCall = true)
    (he : co.resumeExit l (.yield ()) = (.ok result, co', l')) : x.Yields result := by
  cases hco : co.state with
  | running =>
    simp only [resumeExit, hco, CoroutineImpl.suspend, Prod.mk.injEq, Except.ok.injEq] at he
    rw [← he.1]
    exact hx
  | systemCall y call state =>
    simp only [resumeExit, hco, Prod.mk.injEq, Except.ok.injEq] at he
    rw [← he.1]
    exact hst.resolve_left fun hrun => by rw [hco] at hrun; cases hrun
  | created | ready | suspend | complete | error =>
    rw [hco] at hok
    rcases hok with hok | hok
    · cases hok
    · cases hok

theorem return_yields {x : WorkerPc ι} {r : Except String Unit} (hx : x.isOver = true)
    (hst : co.state = .running)
    (he : co.resumeExit l (.return r) = (.ok result, co', l')) : x.Yields result := by
  cases r with
  | ok val =>
    simp only [resumeExit, CoroutineImpl.complete, hst, Prod.mk.injEq, Except.ok.injEq] at he
    rw [← he.1]
    exact hx
  | error message =>
    simp only [resumeExit, CoroutineImpl.error, hst, Prod.mk.injEq, Except.ok.injEq] at he
    rw [← he.1]
    exact hx

/-- A body that may leave there yields what its next place allows. -/
theorem leave_yields {x x' : WorkerPc ι} (hpc : x.leave o = some x')
    (hst : co.state = .running ∨ x.isBusy = true) (hok : co.MayLeave o)
    (he : co.leave l o = (.ok result, co', l')) : x'.Yields result := by
  cases x with
  | top | starved | returned => cases hpc
  | tasking q task =>
    cases o with
    | suspendWith | untilWith =>
      rw [← Option.some.inj hpc]
      exact yield_yields (.inr rfl) hst hok he
    | traps =>
      rw [← Option.some.inj hpc]
      exact return_yields rfl hok he
    | returns | panics => cases hpc
  | suspending =>
    cases o with
    | suspendWith =>
      rw [← Option.some.inj hpc]
      exact yield_yields (.inl rfl) (.inl (hst.resolve_right fun hbusy => by cases hbusy)) hok he
    | untilWith | returns | panics | traps => cases hpc
  | blocking q =>
    cases o with
    | suspendWith | untilWith =>
      rw [← Option.some.inj hpc]
      exact yield_yields (.inr rfl) hst hok he
    | returns | panics | traps => cases hpc
  | failing message =>
    cases o with
    | panics =>
      rw [WorkerPc.leave, Option.ite_none_right_eq_some] at hpc
      rw [← Option.some.inj hpc.2]
      exact return_yields rfl hok he
    | suspendWith | untilWith | returns | traps => cases hpc

end CoroutineImpl

namespace World

variable {ι θ : Type*} {n : Nat} {now : Nat → Nat} {pc : String → Option (WorkerPc ι)}

/-- Nothing changes for the others where a coroutine becomes a worker. -/
theorem OfKind.bear {s : World ι θ n} (h : s.OfKind (dutyKinds pc)) {coName : String}
    (hnone : pc coName = none) (x : Option (WorkerPc ι)) :
    s.OfKind (dutyKinds (update pc coName x)) := by
  have hmem : ∀ c, ∀ y ∈ pc c, y ∈ update pc coName x c := by
    intro c y hy
    by_cases hc : c = coName
    · rw [hc, hnone] at hy
      cases hy
    · rwa [update_of_ne hc]
  have hbusy : ∀ c, IsBusy pc c → IsBusy (update pc coName x) c := fun c hc => by
    obtain ⟨y, hy, hc⟩ := hc
    exact ⟨y, hmem c y hy, hc⟩
  have hparked : ∀ c, IsParked pc c → IsParked (update pc coName x) c := fun c hc => by
    obtain ⟨y, hy, hc⟩ := hc
    exact ⟨y, hmem c y hy, hc⟩
  refine ⟨fun co hm => ?_, fun i e hm => hparked _ (h.suspended i e hm),
    fun i e hm => hbusy _ (h.syscall i e hm), fun i => ?_, fun co hm => ?_⟩
  · obtain ⟨hpark, hcall⟩ := h.ready co hm
    exact ⟨hparked _ hpark, fun hst => hbusy _ (hcall hst)⟩
  · have hphase := h.phase i
    cases hp : s.phase i with
    | idle | top | checking | popping => trivial
    | resuming t timeoutTime co =>
      rw [hp] at hphase
      exact hphase.imp_right (hbusy co.name)
    | returned t timeoutTime co result =>
      rw [hp] at hphase
      cases result with
      | error e => trivial
      | ok result =>
        obtain ⟨hst, y, hy, hyields⟩ := hphase
        exact ⟨hst, y, hmem _ y hy, hyields⟩
  · obtain ⟨y, hy, hover⟩ := h.finished co hm
    exact ⟨y, hmem _ y hy, hover⟩

variable [DecidableEq ι] [Fintype ι]

/-- The worker that runs goes on in its body. -/
theorem OfKind.goesOn {s : World ι θ n} (hplaced : s.Placed now) (h : s.OfKind (dutyKinds pc))
    {i : ι} {t : θ} {timeoutTime : Nat} {co : Co} (hp : s.phase i = .resuming t timeoutTime co)
    (hst : co.state = .running) (x : Option (WorkerPc ι)) :
    s.OfKind (dutyKinds (update pc co.name x)) := by
  have halone : s.Alone i co.name :=
    hplaced.distinct.alone (by rw [hp]; exact Multiset.mem_singleton_self co)
  have hset : (s.setPhase i (.resuming t timeoutTime co)).OfKind
      (dutyKinds (update pc co.name x)) :=
    h.setAlone halone (dutyKinds_agrees pc co.name x) (.inl hst)
  have hphase : update s.phase i (.resuming t timeoutTime co) = s.phase := by
    rw [← hp, update_eq_self]
  exact hset.of_eq rfl rfl hphase.symm rfl

variable [DecidableEq θ]

/-- The worker that runs gives back control. -/
theorem OfKind.leave {s s' : World ι θ n} (hplaced : s.Placed now) (h : s.OfKind (dutyKinds pc))
    {i : ι} {t : θ} {timeoutTime : Nat} {co : Co} (hr : s.running i = some (t, timeoutTime, co))
    {o : Leave Unit Unit} (hok : co.MayLeave o) {x : WorkerPc ι}
    (hyields : ∀ (l : Locals String) result co' l', co.leave l o = (.ok result, co', l') →
      x.Yields result)
    (hs : s.step now (.leave i o) = some s') :
    s'.OfKind (dutyKinds (update pc co.name (some x))) := by
  have hp := running_eq hr
  have hdone : co.done = false := by
    have hphase := hplaced.sound.phase i
    rwa [hp] at hphase
  obtain ⟨result, co', l, he, hname, hyielded⟩ :=
    CoroutineImpl.leave_yielded (l := s.locals t) hdone hok
  simp only [World.step, hr, Option.map_some, he, Option.some.injEq] at hs
  subst hs
  have ha : s.Alone i co.name :=
    hplaced.distinct.alone (by rw [hp]; exact Multiset.mem_singleton_self co)
  have halone : (s.setLocals t l).Alone i co.name :=
    ⟨ha.ready, ha.suspended, ha.syscall, ha.phase, ha.finished⟩
  refine (h.setLocals t l).setAlone halone (dutyKinds_agrees pc co.name (some x)) ?_
  refine ⟨hyielded.1, x, ?_, hyields _ _ _ _ he⟩
  rw [hname, update_self]
  exact Option.mem_some_self x

end World

namespace Pools

variable {ι θ : Type*} {n : Nat} {now : Nat → Nat}

/-- Outside their tasks the workers are in state `Running`. -/
def Steady (s : Pools ι θ n) : Act ι θ → Prop
  | .work p => ∀ r ∈ s.world.running p, r.2.2.state = .running
  | _ => True

variable {s s' : Pools ι θ n} [DecidableEq ι] [DecidableEq θ] [Fintype ι]

omit [Fintype ι] in
theorem grow_kinds (hnone : ∀ coName, coName ∉ s.world.submitted → s.pc coName = none)
    (hk : s.world.OfKind (dutyKinds s.pc)) {p : ι} {shouldGrow created grown : Bool} {uuid : String}
    (hnew : created = true → (s.world.sched p).name ++ "|" ++ uuid ∉ s.world.submitted)
    (hs : s.grow now p shouldGrow uuid created = some (grown, s')) :
    s'.world.OfKind (dutyKinds s'.pc) := by
  cases grows hs with
  | stays => exact hk
  | fails => exact hk.tick
  | grows hgrow hmax hw =>
    rw [World.step_submit, Option.some.injEq] at hw
    subst hw
    have hbear := hk.tick.bear (hnone _ (hnew rfl)) (some .top)
    have hready : (dutyKinds
        (update s.pc ((s.world.sched p).name ++ "|" ++ uuid) (some .top))).ready
        ⟨(s.world.sched p).name ++ "|" ++ uuid, .ready, false⟩ :=
      ⟨⟨.top, by rw [update_self]; exact Option.mem_some_self _, .inl rfl⟩, fun hst => by cases hst⟩
    have hview := (hbear.view p).submit now uuid hready
    have hkinds := hbear.setView p hview
    rw [← pc_setWorker s _ ⟨p, now s.world.readings, .top⟩] at hkinds
    exact hkinds.of_eq rfl rfl rfl rfl

omit [Fintype ι] in
theorem listen_kinds (hnone : ∀ coName, coName ∉ s.world.submitted → s.pc coName = none)
    (hk : s.world.OfKind (dutyKinds s.pc)) {t : θ} {co : Co} {result : CoroutineState Unit Unit}
    {created : Bool} {uuid : String}
    (hnew : created = true → ∀ q, (s.world.sched q).name ++ "|" ++ uuid ∉ s.world.submitted)
    (hs : s.listen now t co result uuid created = some s') :
    s'.world.OfKind (dutyKinds s'.pc) := by
  cases listens hs with
  | passes => exact hk
  | grows hcurrent hresult hg => exact grow_kinds hnone hk (fun hc => hnew hc _) hg
  | @errs q message grown _ hcurrent hresult hg =>
    exact grow_kinds (s := s.decrement q _ _) hnone hk (fun hc => hnew hc q) hg

theorem advance_kinds (hplaced : s.world.Placed now) (hk : s.world.OfKind (dutyKinds s.pc)) {p : ι}
    (hs : s.advance now p = some s') : s'.world.OfKind (dutyKinds s'.pc) := by
  obtain ⟨world, hw, hends⟩ := advance_cases hs
  have hturn := hk.turn (dutyKinds_closed s.pc) hplaced.sound.queued hw
  obtain rfl | ⟨t, -, -, rfl⟩ := hends
  · exact hturn
  · exact hturn.of_eq rfl rfl rfl rfl

theorem work_kinds (hmono : Monotone now) (hplaced : s.world.Placed now)
    (hk : s.world.OfKind (dutyKinds s.pc)) {p : ι} {t : θ} {timeoutTime : Nat} {co : Co}
    {w : WorkerBody ι}
    (hr : s.world.running p = some (t, timeoutTime, co)) (hst : co.state = .running)
    (hs : s.work now p t co w = some s') : s'.world.OfKind (dutyKinds s'.pc) := by
  have hp := World.running_eq hr
  have hgoes : ∀ w' : WorkerBody ι, s.world.OfKind (dutyKinds (s.setWorker co.name w').pc) := by
    intro w'
    rw [pc_setWorker]
    exact hk.goesOn hplaced hp hst (some w'.pc)
  cases works hs with
  | noPool | findsNone | takes | clashes | finishes | wakes => exact (hgoes _).of_eq rfl rfl rfl rfl
  | waits => exact (hgoes _).of_eq rfl rfl rfl rfl
  | recycled hpc hrecycles hl =>
    obtain ⟨world, hw, rfl⟩ := lift_eq hl
    have hleave := World.OfKind.leave (hplaced.tick hmono) hk.tick hr (o := .returns ()) hst
      (x := .returned) (fun l result co' l' he => CoroutineImpl.return_yields rfl hst he) hw
    show world.OfKind (dutyKinds (s.setWorker co.name { w with pc := .returned }).pc)
    rw [pc_setWorker]
    exact hleave

theorem schedule_kinds (hnone : ∀ coName, coName ∉ s.world.submitted → s.pc coName = none)
    (hk : s.world.OfKind (dutyKinds s.pc)) {p : ι} {t : θ} {timeoutTime : Nat} {created : Bool}
    {uuid : String} (hok : s.Homed now (.schedule p t timeoutTime uuid created))
    (hs : s.step now (.schedule p t timeoutTime uuid created) = some s') :
    s'.world.OfKind (dutyKinds s'.pc) := by
  cases (step_schedule hs).2 with
  | already => exact hk
  | fails hg =>
    exact (grow_kinds (s := (s.setPool p _).setStack t _) hnone hk hok hg).of_eq rfl rfl rfl rfl
  | starts hg hl =>
    obtain ⟨world, hw, rfl⟩ := lift_eq hl
    obtain ⟨-, rfl⟩ := World.step_schedule hw
    have hgrow := grow_kinds (s := (s.setPool p _).setStack t _) hnone hk hok hg
    exact hgrow.setPhase p (by trivial)

theorem step_kinds (hmono : Monotone now) (h : Accounted now s 0)
    (hk : s.world.OfKind (dutyKinds s.pc)) {a : Act ι θ} (hok : s.Homed now a)
    (hsteady : s.Steady a) (hs : s.step now a = some s') : s'.world.OfKind (dutyKinds s'.pc) := by
  have hnone : ∀ coName, coName ∉ s.world.submitted → s.pc coName = none := fun _ => h.no_pc
  cases a with
  | submit | tryGetResult | changeState | setMinSize | setMaxSize | setKeepAliveTime =>
    simp only [Pools.step, Option.some.injEq] at hs
    exact hs ▸ hk
  | tryRun p =>
    obtain rfl | ⟨taskQueue, results, rfl⟩ := step_tryRun hs
    · exact hk
    · exact hk
  | tryResume p coName =>
    obtain ⟨world, hw, rfl⟩ := lift_eq hs
    obtain ⟨panics, rfl⟩ := World.step_tryResume hw
    have hresume := hk.tryResume (dutyKinds_closed s.pc) p coName
    exact hresume.of_eq rfl rfl rfl rfl
  | schedule p t timeoutTime uuid created => exact schedule_kinds hnone hk hok hs
  | turn p uuid created =>
    rcases step_turn hs with ⟨t, timeoutTime, co, result, s₁, hp, hl, ha⟩ | ⟨-, ha⟩
    · exact advance_kinds (h.listen hmono hp hok.1 hok.2 hl).1.placed
        (listen_kinds hnone hk hok.1 hl) ha
    · exact advance_kinds h.placed hk ha
  | call p k =>
    obtain ⟨t, timeoutTime, co, w, hr, hw, htasking, hl⟩ := step_call hs
    obtain ⟨world, hworld, rfl⟩ := lift_eq hl
    obtain ⟨t', timeoutTime', co', hr', rfl⟩ := World.step_call hworld
    rw [hr, Option.some.injEq, Prod.mk.injEq, Prod.mk.injEq] at hr'
    obtain ⟨-, -, rfl⟩ := hr'
    refine hk.setPhase p (.inr ⟨w.pc, ?_, ?_⟩)
    · rw [co.call_name]
      exact pc_eq hw
    · cases hpc : w.pc with
      | tasking => rfl
      | top | starved | suspending | blocking | failing | returned =>
        rw [hpc] at htasking
        cases htasking
  | leave p o =>
    obtain ⟨t, timeoutTime, co, w, pc, hr, hw, hpc, hl⟩ := step_leave hs
    obtain ⟨world, hworld, rfl⟩ := lift_eq hl
    have hst : co.state = .running ∨ w.pc.isBusy = true := by
      have hphase := hk.phase p
      rw [World.running_eq hr] at hphase
      refine hphase.imp_right fun hbusy => ?_
      obtain ⟨x, hx, hb⟩ := hbusy
      rw [pc_eq hw, Option.mem_some] at hx
      exact hx ▸ hb
    have hleave := World.OfKind.leave h.placed hk hr (hok _ hr)
      (fun l result co' l' he => CoroutineImpl.leave_yields hpc hst (hok _ hr) he) hworld
    show world.OfKind (dutyKinds (s.setWorker co.name { w with pc }).pc)
    rw [pc_setWorker]
    exact hleave
  | work p =>
    obtain ⟨t, timeoutTime, co, w, hr, hw, hs⟩ := step_work hs
    exact work_kinds hmono h.placed hk hr (hsteady _ hr) hs

end Pools

end OpenCoroutine
