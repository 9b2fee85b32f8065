import OpenCoroutine.World

/-! When a timer entry takes a coroutine out of the syscall table. The entries of
`syscall_suspend` name coroutines only, and an entry outlives the wait it was made for
when `try_resume` ends that wait first. `NoStaleTimer` asks that no earlier entry is left
whenever a coroutine is put into the table with a deadline. -/

namespace OpenCoroutine

open Transition

def CoroutineState.deadline? {Y R : Type*} : CoroutineState Y R → Option Nat
  | .systemCall _ _ (.suspend timestamp) => some timestamp
  | _ => none

def CoroutineImpl.Late (co : Co) (time : Nat) : Prop :=
  ∀ timestamp ∈ co.state.deadline?, timestamp ≤ time

def SchedulerImpl.Timed {n : Nat} (sched : SchedulerImpl n) : Prop :=
  ∀ time coName, (time, coName) ∈ sched.syscallSuspend.elems → ∀ co : Co,
    ⟨coName, co⟩ ∈ sched.syscall.entries → co.Late time

namespace View

variable {n : Nat} (now : Nat → Nat)

structure OnTime (v : View n) : Prop where
  timed : v.sched.Timed
  fired : ∀ co time, (co, time) ∈ v.fired → co.Late time

theorem Timed.of_sub {sched sched' : SchedulerImpl n} (h : sched.Timed)
    (ht : ∀ e, e ∈ sched'.syscallSuspend.elems → e ∈ sched.syscallSuspend.elems)
    (hs : ∀ e, e ∈ sched'.syscall.entries → e ∈ sched.syscall.entries) : sched'.Timed := by
  intro time coName he co hco
  exact h time coName (ht _ he) co (hs _ hco)

theorem wakeEntry_frame (entry : List Co) (v : View n) :
    (wakeEntry now entry v).2.sched = v.sched ∧ (wakeEntry now entry v).2.fired = v.fired := by
  induction entry generalizing v with
  | nil => exact ⟨rfl, rfl⟩
  | cons co entry ih =>
    rw [wakeEntry]
    split
    · exact ih _
    · exact ⟨rfl, rfl⟩

theorem OnTime.wakeSuspended {v : View n} (h : v.OnTime) (count : Nat) :
    (wakeSuspended now count v).2.OnTime := by
  refine wakeSuspended_loop (R := fun v r => v.OnTime → r.2.OnTime) (fun _ h => h)
    (fun _ h => ⟨h.timed, h.fired⟩) (fun _ _ _ h h' hv => h' (h hv)) ?_ count v h
  intro v time entry suspend _ _ h
  have hw := wakeEntry_frame now entry.inner (v.tick.setSuspend suspend)
  exact ⟨by rw [hw.1]; exact h.timed, by rw [hw.2]; exact h.fired⟩

theorem OnTime.timeoutEntry {v : View n} (h : v.OnTime) {time : Nat} {entry : List String}
    (hlate : ∀ coName ∈ entry, ∀ co : Co, ⟨coName, co⟩ ∈ v.sched.syscall.entries → co.Late time) :
    (timeoutEntry time entry v).2.OnTime := by
  induction entry generalizing v with
  | nil => exact h
  | cons coName entry ih =>
    rw [View.timeoutEntry]
    split
    · exact ih h fun name hn => hlate name (List.mem_cons_of_mem _ hn)
    · rename_i co syscall he
      have hperm := SyscallTable.entries_extract he
      have hsub : ∀ e, e ∈ syscall.entries → e ∈ v.sched.syscall.entries := fun e hm =>
        hperm.mem_iff.2 (List.mem_cons_of_mem _ hm)
      have hco : co.Late time := hlate coName List.mem_cons_self co
        (hperm.mem_iff.2 List.mem_cons_self)
      have htimed : (v.setSyscall syscall).sched.Timed := Timed.of_sub h.timed (fun _ hm => hm) hsub
      split
      · apply ih
        · refine ⟨htimed, fun co' time' hm => ?_⟩
          rcases List.mem_cons.1 hm with hm | hm
          · rw [Prod.mk.injEq] at hm
            rw [hm.1, hm.2]
            exact hco
          · exact h.fired co' time' hm
        · exact fun name hn co' hm => hlate name (List.mem_cons_of_mem _ hn) co' (hsub _ hm)
      · exact ⟨htimed, h.fired⟩

theorem OnTime.wakeTimedOut {v : View n} (h : v.OnTime) (count : Nat) :
    (wakeTimedOut now count v).2.OnTime := by
  refine wakeTimedOut_loop (R := fun v r => v.OnTime → r.2.OnTime) (fun _ h => h)
    (fun _ h => ⟨h.timed, h.fired⟩) (fun _ _ _ h h' hv => h' (h hv)) ?_ count v h
  intro v time entry syscallSuspend hpop htime h
  have helems := TimerList.elems_popFront hpop
  have hsub : ∀ e, e ∈ syscallSuspend.elems → e ∈ v.sched.syscallSuspend.elems := by
    intro e he
    rw [helems]
    exact List.mem_append_right _ he
  apply OnTime.timeoutEntry
  · exact ⟨Timed.of_sub h.timed hsub fun _ hm => hm, h.fired⟩
  · intro coName hn co hm timestamp hst
    have hmem : (time, coName) ∈ v.sched.syscallSuspend.elems := by
      rw [helems]
      exact List.mem_append_left _ (List.mem_map_of_mem hn)
    have hle : timestamp ≤ time := h.timed time coName hmem co hm timestamp hst
    omega

theorem OnTime.checkReady {v : View n} (h : v.OnTime) : (v.checkReady now).2.OnTime :=
  checkReady_loops (R := fun v r => v.OnTime → r.2.OnTime) (fun _ _ _ h h' hv => h' (h hv))
    (fun count _ h => h.wakeSuspended now count) (fun count _ h => h.wakeTimedOut now count) v h

theorem OnTime.submit {v : View n} (h : v.OnTime) (uuid : String) :
    (v.submit now uuid).2.OnTime := by
  rw [View.submit]
  split
  · exact ⟨h.timed, h.fired⟩
  · exact h

theorem OnTime.setSyscall {v : View n} (h : v.OnTime) {coName : String} {co : Co}
    {syscall : SyscallTable} (he : v.sched.syscall.extract coName = (some co, syscall)) :
    (v.setSyscall syscall).OnTime := by
  have hperm := SyscallTable.entries_extract he
  exact ⟨Timed.of_sub h.timed (fun _ hm => hm)
    fun _ hm => hperm.mem_iff.2 (List.mem_cons_of_mem _ hm), h.fired⟩

theorem OnTime.tryResume {v : View n} (h : v.OnTime) (coName : String) :
    (v.tryResume coName).2.OnTime := by
  rw [View.tryResume]
  split
  · exact h
  · rename_i co syscall he
    have hv := h.setSyscall he
    split
    · split
      · exact ⟨hv.timed, hv.fired⟩
      · exact hv
    · exact hv

/-- No entry of `syscall_suspend` under an earlier time names the coroutine. -/
def Unstale (v : View n) (co : Co) (result : CoroutineState Unit Unit) : Prop :=
  ∀ timestamp ∈ result.deadline?, ∀ e ∈ v.sched.syscallSuspend.elems, e.2 = co.name →
    timestamp ≤ e.1

instance (v : View n) (co : Co) (result : CoroutineState Unit Unit) :
    Decidable (v.Unstale co result) :=
  inferInstanceAs (Decidable (∀ timestamp ∈ result.deadline?, _))

theorem Timed.insert {sched : SchedulerImpl n} (h : sched.Timed) {co : Co}
    {timers : TimerList String}
    (hnew : ∀ time coName, (time, coName) ∈ timers.elems →
      coName = co.name ∨ (time, coName) ∈ sched.syscallSuspend.elems)
    (hco : ∀ time, (time, co.name) ∈ timers.elems → co.Late time) :
    SchedulerImpl.Timed { sched with
      syscall := sched.syscall.insert co.name co, syscallSuspend := timers } := by
  intro time coName he co' hm
  rw [AList.entries_insert, List.mem_cons] at hm
  rcases hm with hm | hm
  · rw [Sigma.mk.injEq, heq_eq_eq] at hm
    obtain ⟨rfl, rfl⟩ := hm
    exact hco time he
  · have hne : coName ≠ co.name := by
      rintro rfl
      exact List.notMem_keys_kerase co.name sched.syscall.nodupKeys (List.mem_keys_of_mem hm)
    rcases hnew time coName he with hn | ho
    · exact absurd hn hne
    · exact h time coName ho co' ((List.kerase_sublist _ _).mem hm)

theorem OnTime.place {v : View n} (h : v.OnTime) {co : Co} {result : CoroutineState Unit Unit}
    (hstate : co.state = result) (hok : v.Unstale co result) : (v.place now co result).2.OnTime := by
  cases result with
  | suspend y timestamp =>
    rw [View.place]
    split <;> exact ⟨h.timed, h.fired⟩
  | systemCall y call state =>
    cases state with
    | suspend timestamp =>
      refine ⟨Timed.insert h.timed (fun time coName he => ?_) fun time he => ?_, h.fired⟩
      · rcases TimerList.mem_elems_insert.1 he with heq | hold
        · rw [Prod.mk.injEq] at heq
          exact .inl heq.2
        · exact .inr hold
      · have hle : timestamp ≤ time := by
          rcases TimerList.mem_elems_insert.1 he with heq | hold
          · rw [Prod.mk.injEq] at heq
            exact heq.1.ge
          · exact hok timestamp rfl _ hold rfl
        intro timestamp' hst
        rw [hstate, CoroutineState.deadline?, Option.mem_some] at hst
        omega
    | computing | calling _ | timeout | finished =>
      refine ⟨Timed.insert h.timed (fun _ _ he => .inr he) fun time _ timestamp hst => ?_, h.fired⟩
      rw [hstate] at hst
      cases hst
  | created | ready | running | complete _ | error _ => exact h

end View

namespace World

variable {ι θ : Type*} {n : Nat}

structure OnTime (s : World ι θ n) : Prop where
  timed : ∀ i, (s.sched i).Timed
  fired : ∀ co time, (co, time) ∈ s.fired → co.Late time
  yielded : ∀ i co result, (s.phase i).yielded = some (co, result) → co.state = result

structure Quiet (s : World ι θ n) : Prop where
  syscall : ∀ i, (s.sched i).syscall = ∅
  fired : s.fired = []
  phase : ∀ i, s.phase i = .idle

theorem Quiet.onTime {s : World ι θ n} (h : s.Quiet) : s.OnTime where
  timed i time coName _ co hm := by
    rw [h.syscall i] at hm
    simp at hm
  fired co time hm := by
    rw [h.fired] at hm
    simp at hm
  yielded i co result hp := by
    rw [h.phase i] at hp
    simp [Phase.yielded] at hp

theorem OnTime.view {s : World ι θ n} (h : s.OnTime) (i : ι) : (s.view i).OnTime :=
  ⟨h.timed i, h.fired⟩

theorem OnTime.of_eq {s s' : World ι θ n} (h : s.OnTime) (hsched : s'.sched = s.sched)
    (hfired : s'.fired = s.fired) (hphase : s'.phase = s.phase) : s'.OnTime where
  timed i := by
    rw [hsched]
    exact h.timed i
  fired := by
    rw [hfired]
    exact h.fired
  yielded := by
    rw [hphase]
    exact h.yielded

theorem OnTime.tick {s : World ι θ n} (h : s.OnTime) : s.tick.OnTime := h.of_eq rfl rfl rfl

theorem OnTime.giveBack {s : World ι θ n} (h : s.OnTime) (result : Except IoError Nat) :
    (s.giveBack result).OnTime := h.of_eq rfl rfl rfl

theorem OnTime.panic {s : World ι θ n} (h : s.OnTime) (message : String) :
    (s.panic message).OnTime := h.of_eq rfl rfl rfl

theorem OnTime.finish {s : World ι θ n} (h : s.OnTime) (co : Co)
    (result : CoroutineState Unit Unit) : (s.finish co result).OnTime := by
  unfold World.finish
  split
  · exact h.of_eq rfl rfl rfl
  · exact h.of_eq rfl rfl rfl
  · exact h

theorem OnTime.setLocals [DecidableEq θ] {s : World ι θ n} (h : s.OnTime) (t : θ)
    (l : Locals String) : (s.setLocals t l).OnTime := h.of_eq rfl rfl rfl

variable [DecidableEq ι]

theorem OnTime.setView {s : World ι θ n} (h : s.OnTime) (i : ι) {v : View n} (hv : v.OnTime) :
    (s.setView i v).OnTime where
  timed j := by
    by_cases hj : j = i
    · subst hj
      rw [World.setView_sched]
      exact hv.timed
    · rw [World.setView_sched_ne s hj]
      exact h.timed j
  fired := hv.fired
  yielded := h.yielded

theorem OnTime.setPhase {s : World ι θ n} (h : s.OnTime) (i : ι) {phase : Phase θ}
    (hp : ∀ co result, phase.yielded = some (co, result) → co.state = result) :
    (s.setPhase i phase).OnTime where
  timed := h.timed
  fired := h.fired
  yielded j co result hj := by
    by_cases he : j = i
    · subst he
      rw [World.setPhase_phase] at hj
      exact hp co result hj
    · rw [World.setPhase_phase_ne s he] at hj
      exact h.yielded j co result hj

theorem OnTime.pass {s : World ι θ n} (h : s.OnTime) (i : ι) {phase : Phase θ}
    (hp : phase.yielded = none) : (s.setPhase i phase).OnTime :=
  h.setPhase i fun co result he => by simp [hp] at he

theorem OnTime.stop {s : World ι θ n} (h : s.OnTime) (i : ι) (stop : Stop) :
    (s.stop i stop).OnTime := by
  cases stop with
  | err e => exact (h.giveBack _).pass i rfl
  | unreachable message => exact (h.panic _).pass i rfl

/-- Every coroutine is put into the syscall table with no earlier timer of its name left. -/
def NoStaleTimer (s : World ι θ n) : Act ι θ → Prop
  | .turn i => ∀ y ∈ (s.phase i).yielded, (s.view i).Unstale y.1 y.2
  | .submit .. | .tryResume .. | .schedule .. | .call .. | .leave .. => True

instance (s : World ι θ n) : (a : Act ι θ) → Decidable (s.NoStaleTimer a)
  | .turn i => inferInstanceAs (Decidable (∀ y ∈ (s.phase i).yielded, (s.view i).Unstale y.1 y.2))
  | .submit .. | .tryResume .. | .schedule .. | .call .. | .leave .. => isTrue trivial

variable [DecidableEq θ] {now : Nat → Nat}

theorem OnTime.enter {s : World ι θ n} (h : s.OnTime) (i : ι) (t : θ) (timeoutTime : Nat)
    (co : Co) : (s.enter now i t timeoutTime co).OnTime := by
  rw [World.enter]
  split
  · rename_i result co' l he
    refine h.tick.setPhase i fun co'' r hp => ?_
    cases result with
    | error e => simp [Phase.yielded] at hp
    | ok st =>
      simp only [Phase.yielded, Option.some.injEq, Prod.mk.injEq] at hp
      rw [← hp.1, ← hp.2]
      exact CoroutineImpl.resumeEnter_ok he
  · split
    · exact ((h.tick.setLocals _ _).panic _).pass i rfl
    · exact (h.tick.setLocals _ _).pass i rfl

theorem OnTime.turn {s s' : World ι θ n} (h : s.OnTime) {i : ι}
    (hok : s.NoStaleTimer (.turn i)) (hs : s.turn now i = some s') : s'.OnTime := by
  cases World.turns hs with
  | timedOut => exact (h.tick.giveBack _).pass i rfl
  | check => exact h.tick.pass i rfl
  | checked hp hv =>
    have hcheck := h.setView i ((h.view i).checkReady now)
    rw [hv] at hcheck
    exact hcheck.pass i rfl
  | checkStops hp hv =>
    have hcheck := h.setView i ((h.view i).checkReady now)
    rw [hv] at hcheck
    exact hcheck.stop i _
  | popsNone => exact OnTime.pass (OnTime.giveBack (h.setView i ⟨h.timed i, h.fired⟩) _) i rfl
  | pops => exact OnTime.enter (h.setView i ⟨h.timed i, h.fired⟩) i _ _ _
  | fails => exact h.stop i _
  | places hp hv =>
    have hy : (s.phase i).yielded = some _ := congrArg Phase.yielded hp
    have hplace := h.setView i ((h.view i).place now (h.yielded i _ _ hy) (hok _ hy))
    rw [hv] at hplace
    exact (hplace.finish _ _).pass i rfl
  | placeStops hp hv =>
    have hy : (s.phase i).yielded = some _ := congrArg Phase.yielded hp
    have hplace := h.setView i ((h.view i).place now (h.yielded i _ _ hy) (hok _ hy))
    rw [hv] at hplace
    exact hplace.stop i _

theorem OnTime.step {s s' : World ι θ n} (h : s.OnTime) {a : Act ι θ} (hok : s.NoStaleTimer a)
    (hs : s.step now a = some s') : s'.OnTime := by
  cases a with
  | submit i uuid created =>
    cases created with
    | false =>
      simp only [World.step, Option.some.injEq] at hs
      exact hs ▸ h
    | true =>
      have hv := h.setView i ((h.view i).submit now uuid)
      rw [World.step_submit, Option.some.injEq] at hs
      exact hs ▸ hv.of_eq rfl rfl rfl
  | tryResume i coName =>
    have hv := h.setView i ((h.view i).tryResume coName)
    obtain ⟨panics, rfl⟩ := World.step_tryResume hs
    exact hv.of_eq rfl rfl rfl
  | schedule i t timeoutTime =>
    obtain ⟨-, rfl⟩ := World.step_schedule hs
    exact h.pass i rfl
  | turn i => exact h.turn hok hs
  | call i k =>
    obtain ⟨t, timeoutTime, co, -, rfl⟩ := World.step_call hs
    exact h.pass i rfl
  | leave i o =>
    obtain ⟨t, timeoutTime, co, -, rfl⟩ := World.step_leave hs
    refine (h.setLocals _ _).setPhase i fun co' r hp => ?_
    cases hr : co.leave (s.locals t) o with
    | mk result rest =>
      rw [hr] at hp
      cases result with
      | error e => simp [Phase.yielded] at hp
      | ok st =>
        simp only [Phase.yielded, Option.some.injEq, Prod.mk.injEq] at hp
        rw [← hp.1, ← hp.2]
        exact CoroutineImpl.resumeExit_ok hr

/-- No timer takes a coroutine out of the syscall table before the coroutine's deadline. -/
theorem fired_late {s₀ s : World ι θ n} (h₀ : s₀.Quiet)
    (h : Reaches (step now) NoStaleTimer s₀ s) {co : Co} {time : Nat} (hf : (co, time) ∈ s.fired)
    {y : Unit} {call : Syscall} {timestamp : Nat}
    (hst : co.state = .systemCall y call (.suspend timestamp)) : timestamp ≤ time := by
  have hs : s.OnTime := h.invariant h₀.onTime fun _ _ _ hi hok hstep => hi.step hok hstep
  exact hs.fired co time hf timestamp (by rw [hst]; rfl)

def single : World Unit Unit 1 where
  queue := .new 4
  sched _ := .new "s" ⟨0, false, 0, ⟨1, 1⟩⟩
  phase _ := .idle
  locals _ := {}

theorem single_quiet : single.Quiet := ⟨fun _ => rfl, rfl, fun _ => rfl⟩

def everyForty (reading : Nat) : Nat := 40 * reading

theorem fired_late_sleep :
    ∃ s : World Unit Unit 1,
      s.fired = [(⟨"s|a", .systemCall () .sleep (.suspend 100), false⟩, 120)] ∧ 100 ≤ 120 := by
  obtain ⟨s, h, hf⟩ : ∃ s : World Unit Unit 1, Reaches (step everyForty) NoStaleTimer single s ∧
      s.fired = [(⟨"s|a", .systemCall () .sleep (.suspend 100), false⟩, 120)] :=
    ⟨_, Reaches.of_runGuarded [.submit () "a" true, .schedule () () 1000, .turn (), .turn (),
      .turn (), .call () (.syscall () .sleep (.suspend 100)), .leave () (.suspendWith ()),
      .turn (), .turn (), .turn ()] rfl, rfl⟩
  exact ⟨s, hf, fired_late single_quiet h (by rw [hf]; exact List.mem_cons_self) rfl⟩

def jumping (reading : Nat) : Nat := if reading < 6 then reading else 150

/-- The timer of a wait until 100 that `try_resume` has ended takes the coroutine out of
a wait until 1000. -/
theorem fired_early :
    ∃ s : World Unit Unit 1, Reaches (step jumping) Free single s ∧
      s.fired = [(⟨"s|a", .systemCall () .sleep (.suspend 1000), false⟩, 150)] :=
  ⟨_, Reaches.of_run [.submit () "a" true, .schedule () () 5000, .turn (), .turn (), .turn (),
    .call () (.syscall () .sleep (.suspend 100)), .leave () (.suspendWith ()), .turn (),
    .tryResume () "s|a", .turn (), .turn (), .turn (),
    .call () (.syscall () .sleep (.suspend 1000)), .leave () (.suspendWith ()), .turn (),
    .turn (), .turn ()] rfl (guarded_free _), rfl⟩

end World

end OpenCoroutine
