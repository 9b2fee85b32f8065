import OpenCoroutine.HookStates

/-! The timers of the coroutines in a syscall table. A scheduler is `Armed` if each entry of
its table waits with a deadline for which `syscall_suspend` has an entry, and stays so as
long as coroutines that yield in a system call do so in a state with a deadline and the clock
does not go back. -/

namespace OpenCoroutine

open Function

/-- A system call in this state is one that waits. -/
def CoroutineState.Waits (st : CoroutineState Unit Unit) : Prop :=
  st.isSystemCall = true → st.deadline?.isSome = true

instance (st : CoroutineState Unit Unit) : Decidable st.Waits :=
  inferInstanceAs (Decidable (_ → _))

def SchedulerImpl.ArmedFor {n : Nat} (sched : SchedulerImpl n) (coName : String) (co : Co) : Prop :=
  ∃ timestamp ∈ co.state.deadline?, (timestamp, coName) ∈ sched.syscallSuspend.elems

def SchedulerImpl.Armed {n : Nat} (sched : SchedulerImpl n) : Prop :=
  ∀ e ∈ sched.syscall.entries, sched.ArmedFor e.1 e.2

theorem SchedulerImpl.Armed.of_eq {n : Nat} {sched sched' : SchedulerImpl n} (h : sched.Armed)
    (hsyscall : sched'.syscall = sched.syscall)
    (htimers : sched'.syscallSuspend = sched.syscallSuspend) : sched'.Armed := by
  intro e he
  rw [hsyscall] at he
  obtain ⟨timestamp, hst, hm⟩ := h e he
  exact ⟨timestamp, hst, htimers ▸ hm⟩

namespace View

variable {n : Nat} {now : Nat → Nat}

theorem wakeSuspended_table (now : Nat → Nat) (count : Nat) (v : View n) :
    (wakeSuspended now count v).2.sched.syscall = v.sched.syscall ∧
      (wakeSuspended now count v).2.sched.syscallSuspend = v.sched.syscallSuspend := by
  refine wakeSuspended_loop (R := fun v r => r.2.sched.syscall = v.sched.syscall ∧
    r.2.sched.syscallSuspend = v.sched.syscallSuspend) (fun _ => ⟨rfl, rfl⟩)
    (fun _ => ⟨rfl, rfl⟩) (fun _ _ _ h h' => ⟨h'.1.trans h.1, h'.2.trans h.2⟩) ?_ count v
  intro v time entry suspend _ _
  rw [(wakeEntry_frame now entry.inner (v.tick.setSuspend suspend)).1]
  exact ⟨rfl, rfl⟩

theorem mem_extract {table table' : SyscallTable} {coName : String} {co : Option Co}
    (h : table.extract coName = (co, table')) {e : Sigma fun _ : String => Co}
    (he : e ∈ table'.entries) : e ∈ table.entries ∧ e.1 ≠ coName := by
  rw [AList.extract_eq_lookup_erase, Prod.mk.injEq] at h
  obtain ⟨-, rfl⟩ := h
  have hm : e ∈ List.kerase coName table.entries := he
  refine ⟨(List.kerase_sublist _ _).mem hm, ?_⟩
  rintro rfl
  exact List.notMem_keys_kerase e.1 table.nodupKeys (List.mem_keys_of_mem hm)

/-- Once an entry of `syscall_suspend` is gone through, the coroutines it names are out of
the table. -/
theorem timeoutEntry_armed (time : Nat) (entry : List String) {v : View n}
    (h : ∀ e ∈ v.sched.syscall.entries, e.1 ∈ entry ∨ v.sched.ArmedFor e.1 e.2)
    (hnone : (timeoutEntry time entry v).1 = none) :
    (timeoutEntry time entry v).2.sched.Armed := by
  induction entry generalizing v with
  | nil => exact fun e he => (h e he).resolve_left List.not_mem_nil
  | cons coName entry ih =>
    rw [View.timeoutEntry] at hnone ⊢
    have hrest : ∀ {co : Option Co} {syscall : SyscallTable},
        v.sched.syscall.extract coName = (co, syscall) → ∀ e ∈ syscall.entries,
          e.1 ∈ entry ∨ v.sched.ArmedFor e.1 e.2 := by
      intro co syscall he e hm
      obtain ⟨hold, hne⟩ := mem_extract he hm
      exact (h e hold).imp_left fun hin => (List.mem_cons.1 hin).resolve_left hne
    split at hnone
    · rename_i syscall he
      have hgone : coName ∉ v.sched.syscall := by
        rw [AList.extract_eq_lookup_erase, Prod.mk.injEq] at he
        exact AList.lookup_eq_none.1 he.1
      refine ih (fun e hm => (h e hm).imp_left fun hin => ?_) hnone
      refine (List.mem_cons.1 hin).resolve_left fun heq => hgone ?_
      rw [← heq]
      exact AList.mem_keys.2 (List.mem_keys_of_mem hm)
    · rename_i co syscall he
      split at hnone
      · exact ih (hrest he) hnone
      · cases hnone

theorem wakeTimedOut_armed (hmono : Monotone now) (count : Nat) {v : View n} (hv : v.Sound now)
    (h : v.sched.Armed) : (wakeTimedOut now count v).2.sched.Armed := by
  refine (wakeTimedOut_loop (R := fun v r => v.Sound now ∧ v.sched.Armed →
    r.2.Sound now ∧ r.2.sched.Armed) (fun _ h => h) (fun _ h => ⟨h.1.tick hmono, h.2⟩)
    (fun _ _ _ h h' hv => h' (h hv)) ?_ count v ⟨hv, h⟩).2
  rintro v time entry syscallSuspend hpop - ⟨hv, h⟩
  have helems := TimerList.elems_popFront hpop
  have hset : (v.tick.setSyscallSuspend syscallSuspend).Sound now :=
    ⟨(hv.tick hmono).ready, hv.suspended, hv.syscall⟩
  have hadds := timeoutEntry_adds (now v.readings) entry.inner hset
  refine ⟨hadds.sound, timeoutEntry_armed (now v.readings) entry.inner ?_ hadds.through⟩
  intro e he
  obtain ⟨timestamp, hst, hm⟩ := h e he
  rw [helems, List.mem_append, List.mem_map] at hm
  rcases hm with ⟨coName, hin, heq⟩ | hm
  · rw [Prod.mk.injEq] at heq
    exact .inl (heq.2 ▸ hin)
  · exact .inr ⟨timestamp, hst, hm⟩

theorem checkReady_armed (hmono : Monotone now) {v : View n} (hv : v.Sound now)
    (h : v.sched.Armed) : (v.checkReady now).2.sched.Armed := by
  have hadds := wakeSuspended_adds hmono v.sched.suspend.entryLen hv
  obtain ⟨hsyscall, htimers⟩ := wakeSuspended_table now v.sched.suspend.entryLen v
  rw [View.checkReady]
  split
  · rename_i v' he
    rw [he] at hadds hsyscall htimers
    exact wakeTimedOut_armed hmono _ hadds.sound (h.of_eq hsyscall htimers)
  · rename_i stop v' he
    rw [he] at hadds
    cases hadds.through

theorem tryResume_armed {v : View n} (h : v.sched.Armed) (coName : String) :
    (v.tryResume coName).2.sched.Armed := by
  have hextract : ∀ {co : Option Co} {syscall : SyscallTable},
      v.sched.syscall.extract coName = (co, syscall) → (v.setSyscall syscall).sched.Armed :=
    fun he e hm => h e (mem_extract he hm).1
  rw [View.tryResume]
  split
  · exact h
  · rename_i co syscall he
    split
    · split
      · exact hextract he
      · exact hextract he
    · exact hextract he

theorem place_armed (now : Nat → Nat) {v : View n} (h : v.sched.Armed) {co : Co}
    {result : CoroutineState Unit Unit} (hst : co.state = result) (hwaits : result.Waits) :
    (v.place now co result).2.sched.Armed := by
  cases result with
  | suspend y timestamp =>
    rw [View.place]
    split
    · exact h
    · exact h
  | systemCall y call state =>
    cases state with
    | suspend timestamp =>
      intro e he
      have htimers : ∀ {x : Nat × String}, x ∈
          (TimerList.insert v.sched.syscallSuspend timestamp co.name).elems ↔
            x = (timestamp, co.name) ∨ x ∈ v.sched.syscallSuspend.elems :=
        TimerList.mem_elems_insert
      have he' : e ∈ (v.sched.syscall.insert co.name co).entries := he
      rw [AList.entries_insert, List.mem_cons] at he'
      rcases he' with rfl | he'
      · exact ⟨timestamp, by rw [hst]; rfl, htimers.2 (.inl rfl)⟩
      · obtain ⟨timestamp', hst', hm⟩ := h e ((List.kerase_sublist _ _).mem he')
        exact ⟨timestamp', hst', htimers.2 (.inr hm)⟩
    | computing | calling _ | timeout | finished => cases hwaits rfl
  | created | ready | running | complete _ | error _ => exact h

end View

/-- What a coroutine in a state that waits gives back control in is one, too. -/
theorem CoroutineImpl.leave_waits {co co' : Co} {l l' : Locals String} {o : Leave Unit Unit}
    {result : CoroutineState Unit Unit} (hmay : co.MayLeave o) (hwaits : co.state.Waits)
    (he : co.leave l o = (.ok result, co', l')) : result.Waits := by
  have hrunning : co.state = .running → result.Waits := by
    intro hst hcall
    rw [CoroutineImpl.leave_running hst he] at hcall
    cases hcall
  have hyields : ∀ (y : Unit) (l : Locals String), co.state.isSystemCall = true →
      co.resumeExit l (.yield y) = (.ok result, co', l') → result.Waits := by
    intro y l hcall hexit
    cases hst : co.state with
    | systemCall y' call state =>
      simp only [CoroutineImpl.resumeExit, hst, Prod.mk.injEq, Except.ok.injEq] at hexit
      rw [← hexit.1, ← hst]
      exact hwaits
    | created | ready | running | suspend _ _ | complete _ | error _ =>
      rw [hst] at hcall
      cases hcall
  cases o with
  | suspendWith arg => exact hmay.elim hrunning fun hcall => hyields arg _ hcall he
  | untilWith arg timestamp => exact hmay.elim hrunning fun hcall => hyields arg _ hcall he
  | returns val | panics message | traps => exact hrunning hmay

namespace World

variable {ι θ : Type*} {n : Nat} {now : Nat → Nat}

structure Armed (s : World ι θ n) : Prop where
  timers : ∀ i, (s.sched i).Armed
  yielded : ∀ i, ∀ r ∈ (s.phase i).yielded, r.2.Waits

theorem Armed.of_eq {s s' : World ι θ n} (h : s.Armed) (hsched : s'.sched = s.sched)
    (hphase : s'.phase = s.phase) : s'.Armed where
  timers := hsched ▸ h.timers
  yielded := hphase ▸ h.yielded

variable [DecidableEq ι]

theorem Armed.setView {s : World ι θ n} (h : s.Armed) (i : ι) {v : View n} (hv : v.sched.Armed) :
    (s.setView i v).Armed where
  timers j := by
    by_cases hj : j = i
    · rw [hj, setView_sched]
      exact hv
    · rw [setView_sched_ne _ hj]
      exact h.timers j
  yielded := h.yielded

theorem Armed.setPhase {s : World ι θ n} (h : s.Armed) (i : ι) {phase : Phase θ}
    (hp : ∀ r ∈ phase.yielded, r.2.Waits) : (s.setPhase i phase).Armed where
  timers := h.timers
  yielded j := by
    by_cases hj : j = i
    · rw [hj, setPhase_phase]
      exact hp
    · rw [setPhase_phase_ne _ hj]
      exact h.yielded j

theorem Armed.setQuiet {s : World ι θ n} (h : s.Armed) (i : ι) {phase : Phase θ}
    (hp : phase.yielded = none) : (s.setPhase i phase).Armed := by
  refine h.setPhase i fun r hr => ?_
  rw [hp] at hr
  cases hr

theorem Armed.tryResume {s : World ι θ n} (h : s.Armed) (i : ι) (coName : String) :
    (s.setView i ((s.view i).tryResume coName).2).Armed :=
  h.setView i (View.tryResume_armed (h.timers i) coName)

omit [DecidableEq ι] in
theorem Armed.finish {s : World ι θ n} (h : s.Armed) (co : Co) (result : CoroutineState Unit Unit) :
    (s.finish co result).Armed := by
  unfold World.finish
  split
  · exact h.of_eq rfl rfl
  · exact h.of_eq rfl rfl
  · exact h

variable [DecidableEq θ]

theorem Armed.enter {s : World ι θ n} (h : s.Armed) {co : Co}
    (hco : co.Resumable (now s.readings)) (i : ι) (t : θ) (timeoutTime : Nat) :
    (s.enter now i t timeoutTime co).Armed := by
  obtain ⟨co', l, -, -, -, he⟩ := enter_eq hco i t timeoutTime
  have hlocals : (s.tick.setLocals t l).Armed := h.of_eq rfl rfl
  rw [he]
  exact hlocals.setQuiet i rfl

/-- A body gives back control in a state that waits, or in none of a system call. -/
theorem Armed.leave {s s' : World ι θ n} (h : s.Armed) {i : ι} {t : θ} {timeoutTime : Nat} {co : Co}
    (hr : s.running i = some (t, timeoutTime, co)) {o : Leave Unit Unit} (hmay : co.MayLeave o)
    (hwaits : co.state.Waits) (hs : s.step now (.leave i o) = some s') : s'.Armed := by
  simp only [World.step, hr, Option.map_some, Option.some.injEq] at hs
  subst hs
  have hlocals : (s.setLocals t (co.leave (s.locals t) o).2.2).Armed := h.of_eq rfl rfl
  refine hlocals.setPhase i fun r hyield => ?_
  cases he : (co.leave (s.locals t) o).1 with
  | ok result =>
    rw [he] at hyield
    cases hyield
    exact CoroutineImpl.leave_waits hmay hwaits (Prod.ext he rfl)
  | error e =>
    rw [he] at hyield
    cases hyield

variable [Fintype ι]

theorem Armed.turn (hmono : Monotone now) {s s' : World ι θ n} (hplaced : s.Placed now)
    (h : s.Armed) {i : ι} (hs : s.turn now i = some s') : s'.Armed := by
  have htick : s.tick.Armed := h.of_eq rfl rfl
  have hpop : ∀ (ready : LocalQueue n) (queue : WorkStealQueue Co n),
      (s.setView i { s.view i with queue, sched := { s.sched i with ready } }).Armed :=
    fun ready queue => h.setView i ((h.timers i).of_eq rfl rfl)
  cases hplaced.goes hmono hs with
  | timedOut hp =>
    have hback : (s.tick.giveBack (.ok 0)).Armed := htick.of_eq rfl rfl
    exact hback.setQuiet i rfl
  | check hp => exact htick.setQuiet i rfl
  | checked hp hv =>
    have hcheck := h.setView i (View.checkReady_armed hmono (hplaced.sound.view i) (h.timers i))
    rw [hv] at hcheck
    exact hcheck.setQuiet i rfl
  | @popsNone t timeoutTime leftTime ready queue hp hq =>
    have hback : ((s.setView i { s.view i with
        queue, sched := { s.sched i with ready } }).giveBack (.ok leftTime)).Armed :=
      (hpop ready queue).of_eq rfl rfl
    exact hback.setQuiet i rfl
  | @pops t timeoutTime leftTime co ready queue hp hq hco =>
    exact (hpop ready queue).enter hco i t timeoutTime
  | @places t timeoutTime co result v hp hy hv =>
    have hwaits := h.yielded i (co, result) (by rw [hp]; rfl)
    have hplace := h.setView i (View.place_armed now (v := s.view i) (h.timers i) hy.1 hwaits)
    rw [hv] at hplace
    exact (hplace.finish co result).setQuiet i rfl

/-- The places of a coroutine that its schedulers go on with by themselves, or that has
ended. -/
inductive Scheduled (s : World ι θ n) (coName : String) : Prop where
  | ready {co : Co} (hm : co ∈ s.queue.contents) (hname : co.name = coName)
  | suspended {i : ι} {e : Nat × Co} (hm : e ∈ (s.sched i).suspend.elems)
      (hname : e.2.name = coName) (hst : e.2.state = .suspend () e.1)
  | waiting {i : ι} {e : Sigma fun _ : String => Co} (hm : e ∈ (s.sched i).syscall.entries)
      (hname : e.1 = coName) (harmed : (s.sched i).ArmedFor coName e.2)
  | resumed {i : ι} {co : Co} (hm : co ∈ (s.phase i).co) (hname : co.name = coName)
  | finished {co : Co} (hm : co ∈ s.finished) (hname : co.name = coName)

omit [DecidableEq ι] [DecidableEq θ] in
theorem Armed.scheduled {s : World ι θ n} (hplaced : s.Placed now) (h : s.Armed) {coName : String}
    (hm : coName ∈ s.submitted) : s.Scheduled coName := by
  have hnames : coName ∈ s.names := by
    rw [hplaced.names]
    exact hm
  simp only [World.names, Family.total, OpenCoroutine.names, Multiset.mem_add, Multiset.mem_sum,
    Multiset.mem_map, Multiset.mem_coe] at hnames
  rcases hnames with (⟨co, hco, hname⟩ | ⟨i, -, co, hco, hname⟩) |
    ⟨i, -, co, hco, hname⟩ | ⟨co, hco, hname⟩
  · exact .ready hco hname
  · simp only [SchedulerImpl.parked, Multiset.mem_add, Multiset.mem_coe, List.mem_map] at hco
    rcases hco with ⟨e, he, rfl⟩ | ⟨e, he, rfl⟩
    · exact .suspended he hname (hplaced.sound.suspended i e he).2
    · have hkey := (hplaced.sound.syscall i e he).1
      rw [hkey] at hname
      exact .waiting he hname (hname ▸ h.timers i e he)
  · exact .resumed hco hname
  · exact .finished hco hname

end World

namespace Hooks

variable {ι θ : Type*} {n : Nat} [DecidableEq ι] (now : Nat → Nat)

theorem expect_world (s : Hooks ι θ n) (i : ι) (t : θ) (timeoutTime : Nat) (message : String)
    (pc : HookPc) (r : Except IoError Unit × Co) :
    (s.expect i t timeoutTime message pc r).world =
      s.world.setPhase i (.resuming t timeoutTime r.2) := by
  obtain ⟨result, co⟩ := r
  cases result with
  | ok _ => rfl
  | error _ => rfl

theorem tryResume_world (s : Hooks ι θ n) (j : ι) (coName : String) :
    (s.tryResume j coName).2.world = s.world.setView j ((s.world.view j).tryResume coName).2 := by
  unfold Hooks.tryResume
  split
  · rename_i he
    rw [he]
  · rename_i he
    rw [he]
  · rename_i he
    rw [he]

variable [DecidableEq θ]

/-- What a part of a hooked call of the coroutine in `resuming` does to the schedulers: it
may read the clock, and then changes the coroutine's state, calls a `try_resume` or leaves. -/
inductive Moves (s s' : World ι θ n) (i : ι) (t : θ) (timeoutTime : Nat) (co : Co) (pc : HookPc) :
    Prop where
  | stays (hs : s' = s)
  | changes (k : CoroutineImpl.Call Unit Unit)
      (hs : s' = s.setPhase i (.resuming t timeoutTime (co.call k).2))
  | wakes {j : ι} {coName : String} (hs : s' = s.setView j ((s.view j).tryResume coName).2)
  | delays {call : Syscall} {time timestamp : Nat} (hpc : pc = .delaying call time)
      (hs : s.step now (.leave i (.untilWith () timestamp)) = some s')
  | unwinds {message : String} (hpc : pc = .panicking message)
      (hs : s.step now (.leave i (.panics message)) = some s')

variable {now}

theorem hook_moves {s s' : Hooks ι θ n} {i : ι} {t : θ} {timeoutTime : Nat} {co : Co} {pc : HookPc}
    {op : HookOp ι} (hs : s.hook now i t timeoutTime co pc op = some s') :
    ∃ w, (w = s.world ∨ w = s.world.tick) ∧ Moves now w s'.world i t timeoutTime co pc := by
  unfold Hooks.hook at hs
  split at hs
  · cases hs
    exact ⟨_, .inl rfl, .changes (.syscall () _ _) (expect_world _ _ _ _ _ _ _)⟩
  · split at hs
    · cases hs
      exact ⟨_, .inl rfl, .stays rfl⟩
    · split at hs
      · cases hs
        exact ⟨_, .inr rfl, .changes (.syscall () _ _) (expect_world _ _ _ _ _ _ _)⟩
      · cases hs
        exact ⟨_, .inr rfl, .changes (.syscall () _ _) (expect_world _ _ _ _ _ _ _)⟩
      · cases hs
        exact ⟨_, .inl rfl, .stays rfl⟩
  · simp only [Hooks.leave, Option.map_eq_some_iff] at hs
    obtain ⟨world, hworld, rfl⟩ := hs
    exact ⟨_, .inr rfl, .delays rfl hworld⟩
  · split at hs
    · cases hs
      exact ⟨_, .inl rfl, .changes (.syscall () _ _) (expect_world _ _ _ _ _ _ _)⟩
    · cases hs
      exact ⟨_, .inl rfl, .changes (.syscall () _ _) (expect_world _ _ _ _ _ _ _)⟩
    · cases hs
      exact ⟨_, .inl rfl, .stays rfl⟩
  · split at hs
    · cases hs
      exact ⟨_, .inl rfl, .changes (.syscall () _ _) (expect_world _ _ _ _ _ _ _)⟩
    · cases hs
      exact ⟨_, .inl rfl, .stays rfl⟩
  · cases hs
    exact ⟨_, .inl rfl, .stays rfl⟩
  · rename_i call coName events j
    have hworld := tryResume_world (s.setPc co.name (.notifying call events)) j coName
    split at hs
    · rename_i s₁ he
      cases hs
      rw [he] at hworld
      exact ⟨_, .inl rfl, .wakes hworld⟩
    · rename_i message s₁ he
      cases hs
      rw [he] at hworld
      exact ⟨_, .inl rfl, .wakes hworld⟩
  · cases hs
    exact ⟨_, .inl rfl, .changes (.syscall () _ _) (expect_world _ _ _ _ _ _ _)⟩
  · split at hs
    · rename_i he
      cases hs
      refine ⟨_, .inl rfl, .changes .syscallResume ?_⟩
      exact congrArg (fun r => s.world.setPhase i (.resuming t timeoutTime r.2)) he.symm
    · cases hs
      exact ⟨_, .inl rfl, .stays rfl⟩
  · simp only [Hooks.leave, Option.map_eq_some_iff] at hs
    obtain ⟨world, hworld, rfl⟩ := hs
    exact ⟨_, .inl rfl, .unwinds rfl hworld⟩
  · cases hs

/-- Outside hooked calls, too, the bodies yield in a system call only in a state that
waits. -/
def Waiting (s : Hooks ι θ n) : Act ι θ → Prop
  | .world (.leave i _) => ∀ r ∈ s.world.running i, r.2.2.state.Waits
  | _ => True

instance (s : Hooks ι θ n) : (a : Act ι θ) → Decidable (s.Waiting a)
  | .world (.leave i _) => inferInstanceAs (Decidable (∀ r ∈ s.world.running i, r.2.2.state.Waits))
  | .world (.submit ..) | .world (.tryResume ..) | .world (.schedule ..) | .world (.turn ..)
  | .world (.call ..) | .hook _ _ => isTrue trivial

theorem submitted_leave {w w' : World ι θ n} {i : ι} {o : Leave Unit Unit}
    (hs : w.step now (.leave i o) = some w') : w'.submitted = w.submitted := by
  obtain ⟨t, timeoutTime, co, -, rfl⟩ := World.step_leave hs
  rfl

variable [Fintype ι]

theorem HookPc.Fits.delaying {bodies : Prop} {call : Syscall} {time : Nat}
    {st : CoroutineState Unit Unit} (h : (HookPc.delaying call time).Fits bodies st) :
    st.isSystemCall = true ∧ st.Waits := by
  obtain ⟨timestamp, rfl⟩ := h
  exact ⟨rfl, fun _ => rfl⟩

theorem Sound.hook_armed {bodies : Prop} {s s' : Hooks ι θ n} (h : Sound bodies s)
    (harmed : s.world.Armed) {i : ι} {t : θ} {timeoutTime : Nat} {co : Co}
    (hr : s.world.running i = some (t, timeoutTime, co)) {op : HookOp ι}
    (hs : s.hook now i t timeoutTime co (s.pc co.name) op = some s') :
    s'.world.Armed ∧ s'.world.submitted = s.world.submitted := by
  have hfits := h.fits (World.running_eq hr)
  obtain ⟨w, hw, hmoves⟩ := hook_moves hs
  obtain ⟨hwr, hwarmed, hsub⟩ : w.running i = some (t, timeoutTime, co) ∧ w.Armed ∧
      w.submitted = s.world.submitted := by
    rcases hw with rfl | rfl
    · exact ⟨hr, harmed, rfl⟩
    · exact ⟨hr, harmed.of_eq rfl rfl, rfl⟩
  cases hmoves with
  | stays hs =>
    rw [hs]
    exact ⟨hwarmed, hsub⟩
  | changes k hs =>
    rw [hs]
    exact ⟨hwarmed.setQuiet i rfl, hsub⟩
  | wakes hs =>
    rw [hs]
    exact ⟨hwarmed.tryResume _ _, hsub⟩
  | delays hpc hs =>
    rw [hpc] at hfits
    obtain ⟨hcall, hwaits⟩ := HookPc.Fits.delaying hfits
    have hmay : ∀ timestamp, co.MayLeave (.untilWith () timestamp) := fun _ => .inr hcall
    exact ⟨hwarmed.leave hwr (hmay _) hwaits hs, (submitted_leave hs).trans hsub⟩
  | unwinds hpc hs =>
    rw [hpc] at hfits
    exact hfits.elim

/-- Under a clock that does not go back, hooked calls lose no coroutine. -/
theorem Sound.hook_placed {bodies : Prop} (hmono : Monotone now) {s s' : Hooks ι θ n}
    (h : Sound bodies s) (hplaced : s.world.Placed now) {i : ι} {t : θ} {timeoutTime : Nat} {co : Co}
    (hr : s.world.running i = some (t, timeoutTime, co)) {op : HookOp ι}
    (hs : s.hook now i t timeoutTime co (s.pc co.name) op = some s') : s'.world.Placed now := by
  have hfits := h.fits (World.running_eq hr)
  obtain ⟨w, hw, hmoves⟩ := hook_moves hs
  obtain ⟨hwr, hwplaced⟩ : w.running i = some (t, timeoutTime, co) ∧ w.Placed now := by
    rcases hw with rfl | rfl
    · exact ⟨hr, hplaced⟩
    · exact ⟨hr, hplaced.tick hmono⟩
  have hp := World.running_eq hwr
  cases hmoves with
  | stays hs =>
    rw [hs]
    exact hwplaced
  | changes k hs =>
    have hdone := hwplaced.sound.phase i
    rw [hp] at hdone
    rw [hs]
    refine hwplaced.setPhase i ((co.call_done k).trans hdone) ?_
    rw [hp]
    exact congrArg (fun name => ({name} : Multiset String)) (co.call_name k)
  | wakes hs =>
    rw [hs]
    exact hwplaced.setView _ (View.tryResume_adds (hwplaced.sound.view _) _)
  | delays hpc hs =>
    rw [hpc] at hfits
    refine hwplaced.step hmono ?_ hs
    intro r hr'
    rw [Option.mem_def, hwr, Option.some.injEq] at hr'
    rw [← hr']
    exact .inr (HookPc.Fits.delaying hfits).1
  | unwinds hpc hs =>
    rw [hpc] at hfits
    exact hfits.elim

theorem Sound.step_placed (hmono : Monotone now) {s s' : Hooks ι θ n} (h : Sound True s)
    (hplaced : s.world.Placed now) {a : Act ι θ} (hok : Allowed True s a)
    (hs : s.step now a = some s') : s'.world.Placed now := by
  have hworld : ∀ {a : World.Act ι θ}, s.world.Disciplined a →
      (s.world.step now a).map (fun world => { s with world }) = some s' → s'.world.Placed now := by
    intro a hok hs
    obtain ⟨world, hw, rfl⟩ := Option.map_eq_some_iff.1 hs
    exact hplaced.step hmono hok hw
  cases a with
  | hook i op =>
    obtain ⟨t, timeoutTime, co, hr, hs⟩ := step_hook hs
    exact h.hook_placed hmono hplaced hr hs
  | world a =>
    cases a with
    | submit i uuid created => exact hworld (a := .submit i uuid created) hok hs
    | schedule i t timeoutTime => exact hworld (a := .schedule i t timeoutTime) trivial hs
    | turn i => exact hworld (a := .turn i) trivial hs
    | tryResume j coName =>
      simp only [Hooks.step, Option.some.injEq] at hs
      subst hs
      show (s.tryResume j coName).2.world.Placed now
      rw [tryResume_world]
      exact hplaced.setView j (View.tryResume_adds (hplaced.sound.view j) coName)
    | call i k =>
      obtain ⟨t, timeoutTime, co, hr, -, rfl⟩ := step_call hs
      have hcall : s.world.step now (.call i k) =
          some (s.world.setPhase i (.resuming t timeoutTime (co.call k).2)) := by
        simp only [World.step, hr, Option.map_some]
      exact hplaced.step hmono (a := .call i k) trivial hcall
    | leave i o =>
      obtain ⟨t, timeoutTime, co, -, -, hs⟩ := step_leave hs
      simp only [Hooks.leave, Option.map_eq_some_iff] at hs
      obtain ⟨world, hw, rfl⟩ := hs
      exact hplaced.step hmono (hok trivial) hw

theorem Sound.step_armed (hmono : Monotone now) {s s' : Hooks ι θ n} (h : Sound True s)
    (hplaced : s.world.Placed now) (harmed : s.world.Armed) {a : Act ι θ} (hok : Allowed True s a)
    (hwaiting : s.Waiting a) (hs : s.step now a = some s') :
    s'.world.Armed ∧ s.world.submitted ⊆ s'.world.submitted := by
  cases a with
  | hook i op =>
    obtain ⟨t, timeoutTime, co, hr, hs⟩ := step_hook hs
    obtain ⟨harmed', hsub⟩ := h.hook_armed harmed hr hs
    exact ⟨harmed', fun _ hm => by rwa [hsub]⟩
  | world a =>
    cases a with
    | submit i uuid created =>
      simp only [Hooks.step, Option.map_eq_some_iff] at hs
      obtain ⟨world, hw, rfl⟩ := hs
      cases created with
      | false =>
        cases hw
        exact ⟨harmed, List.Subset.refl _⟩
      | true =>
        rw [World.step_submit, Option.some.injEq] at hw
        subst hw
        have hview := harmed.setView i (v := ((s.world.view i).submit now uuid).2)
          ((harmed.timers i).of_eq rfl rfl)
        exact ⟨hview.of_eq rfl rfl, List.subset_cons_self _ _⟩
    | schedule i t timeoutTime =>
      simp only [Hooks.step, Option.map_eq_some_iff] at hs
      obtain ⟨world, hw, rfl⟩ := hs
      obtain ⟨-, rfl⟩ := World.step_schedule hw
      exact ⟨harmed.setQuiet i rfl, List.Subset.refl _⟩
    | turn i =>
      simp only [Hooks.step, Option.map_eq_some_iff] at hs
      obtain ⟨world, hw, rfl⟩ := hs
      have hsub := World.turn_submitted hw
      exact ⟨harmed.turn hmono hplaced hw, fun _ hm => by rwa [hsub]⟩
    | tryResume j coName =>
      simp only [Hooks.step, Option.some.injEq] at hs
      subst hs
      show (s.tryResume j coName).2.world.Armed ∧ _ ⊆ (s.tryResume j coName).2.world.submitted
      rw [tryResume_world]
      exact ⟨harmed.tryResume j coName, List.Subset.refl _⟩
    | call i k =>
      obtain ⟨t, timeoutTime, co, -, -, rfl⟩ := step_call hs
      exact ⟨harmed.setQuiet i rfl, List.Subset.refl _⟩
    | leave i o =>
      obtain ⟨t, timeoutTime, co, hr, -, hs⟩ := step_leave hs
      simp only [Hooks.leave, Option.map_eq_some_iff] at hs
      obtain ⟨world, hw, rfl⟩ := hs
      have harmed' := harmed.leave hr (hok trivial _ hr) (hwaiting _ hr) hw
      exact ⟨harmed', fun _ hm => by rwa [submitted_leave hw]⟩

end Hooks

end OpenCoroutine
