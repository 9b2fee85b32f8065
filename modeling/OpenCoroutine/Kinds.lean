import OpenCoroutine.EarlyTimeout
import OpenCoroutine.Endings

/-! Facts about coroutines that depend on where they are. `Kinds` gives the fact for each
place a scheduler puts a coroutine into, and is `Closed` if the moves between the places
keep it; then the schedulers keep it too, whatever the coroutines are. -/

namespace OpenCoroutine

open Function

structure Kinds where
  ready : Co → Prop
  suspended : Co → Prop
  syscall : Co → Prop
  resumed : Co → Prop
  yielded : Co → CoroutineState Unit Unit → Prop
  finished : Co → Prop

structure Kinds.Closed (k : Kinds) : Prop where
  wake : ∀ co, k.suspended co → k.ready { co with state := .ready }
  timeOut : ∀ co y call timestamp, k.syscall co →
    co.state = .systemCall y call (.suspend timestamp) →
    k.ready { co with state := .systemCall y call .timeout }
  pass : ∀ co, k.syscall co → co.state.deadline? = none → k.ready co
  resume : ∀ co y call state, k.syscall co → co.state = .systemCall y call state →
    k.ready { co with state := .systemCall y call .computing }
  run : ∀ co, k.ready co → co.state.isSystemCall = false → k.resumed { co with state := .running }
  rerun : ∀ co, k.ready co → co.state.isSystemCall = true → k.resumed co
  suspend : ∀ co timestamp, k.yielded co (.suspend () timestamp) → k.ready co ∧ k.suspended co
  table : ∀ co call state, k.yielded co (.systemCall () call state) → k.syscall co
  finish : ∀ co result, k.yielded co result → result = .complete () ∨
    (∃ message, result = .error message) → k.finished co

theorem CoroutineImpl.ready_ok {co co' : Co} {now : Nat} (h : co.ready now = (.ok (), co')) :
    co' = { co with state := .ready } := by
  unfold CoroutineImpl.ready at h
  split at h
  · exact (Prod.mk.inj h).2.symm
  · split at h
    · exact (Prod.mk.inj h).2.symm
    · cases (Prod.mk.inj h).1
  · cases (Prod.mk.inj h).1

namespace View

variable {n : Nat} (now : Nat → Nat) {k : Kinds}

structure OfKind (k : Kinds) (v : View n) : Prop where
  ready : ∀ co ∈ v.queue.contents, k.ready co
  suspended : ∀ e ∈ v.sched.suspend.elems, k.suspended e.2
  syscall : ∀ e ∈ v.sched.syscall.entries, k.syscall e.2

theorem OfKind.pushReady {v : View n} (h : v.OfKind k) {co : Co} (hco : k.ready co) :
    (v.pushReady co).OfKind k where
  ready co' hm := by
    rcases mem_pushReady.1 hm with rfl | hm
    · exact hco
    · exact h.ready co' hm
  suspended := h.suspended
  syscall := h.syscall

theorem OfKind.wakeEntry (hk : k.Closed) {entry : List Co} {v : View n} (h : v.OfKind k)
    (hentry : ∀ co ∈ entry, k.suspended co) : (wakeEntry now entry v).2.OfKind k := by
  induction entry generalizing v with
  | nil => exact h
  | cons co entry ih =>
    have htick : v.tick.OfKind k := ⟨h.ready, h.suspended, h.syscall⟩
    have hrest : ∀ co ∈ entry, k.suspended co := fun co' hm => hentry co' (List.mem_cons_of_mem _ hm)
    rw [View.wakeEntry]
    split
    · rename_i co' he
      have hco' : co' = { co with state := .ready } := CoroutineImpl.ready_ok he
      subst hco'
      exact ih (htick.pushReady (hk.wake co (hentry co List.mem_cons_self))) hrest
    · exact htick

theorem OfKind.wakeSuspended (hk : k.Closed) (count : Nat) {v : View n} (h : v.OfKind k) :
    (wakeSuspended now count v).2.OfKind k := by
  refine wakeSuspended_loop (R := fun v r => v.OfKind k → r.2.OfKind k) (fun _ h => h)
    (fun _ h => ⟨h.ready, h.suspended, h.syscall⟩) (fun _ _ _ h h' hv => h' (h hv)) ?_ count v h
  intro v time entry suspend hpop _ h
  have helems := TimerList.elems_popFront hpop
  have hset : (v.tick.setSuspend suspend).OfKind k := by
    refine ⟨h.ready, fun e he => h.suspended e ?_, h.syscall⟩
    rw [helems]
    exact List.mem_append_right _ he
  refine hset.wakeEntry now hk fun co hco => ?_
  have hm : (time, co) ∈ v.sched.suspend.elems := by
    rw [helems]
    exact List.mem_append_left _ (List.mem_map_of_mem hco)
  exact h.suspended _ hm

theorem OfKind.setSyscall {v : View n} (h : v.OfKind k) {coName : String} {co : Co}
    {syscall : SyscallTable} (he : v.sched.syscall.extract coName = (some co, syscall)) :
    (v.setSyscall syscall).OfKind k ∧ k.syscall co := by
  have hperm := SyscallTable.entries_extract he
  refine ⟨⟨h.ready, h.suspended, fun e hm => ?_⟩, ?_⟩
  · exact h.syscall e (hperm.mem_iff.2 (List.mem_cons_of_mem _ hm))
  · exact h.syscall ⟨coName, co⟩ (hperm.mem_iff.2 List.mem_cons_self)

theorem timeOut_ready (hk : k.Closed) {co co' : Co} (h : k.syscall co)
    (he : View.timeOut co = .ok co') : k.ready co' := by
  cases hst : co.state with
  | systemCall y call state =>
    cases state with
    | suspend timestamp =>
      simp only [View.timeOut, hst, CoroutineImpl.syscall_of_systemCall hst] at he
      exact Except.ok.inj he ▸ hk.timeOut co y call timestamp h hst
    | computing | calling _ | timeout | finished =>
      simp only [View.timeOut, hst] at he
      exact Except.ok.inj he ▸ hk.pass co h (by rw [hst]; rfl)
  | created | ready | running | suspend _ _ | complete _ | error _ => simp [View.timeOut, hst] at he

theorem OfKind.timeoutEntry (hk : k.Closed) (time : Nat) (entry : List String) {v : View n}
    (h : v.OfKind k) : (timeoutEntry time entry v).2.OfKind k := by
  induction entry generalizing v with
  | nil => exact h
  | cons coName entry ih =>
    rw [View.timeoutEntry]
    split
    · exact ih h
    · rename_i co syscall he
      obtain ⟨hset, hco⟩ := h.setSyscall he
      split
      · rename_i co' hco'
        have hfire : ((v.setSyscall syscall).fire co time).OfKind k :=
          ⟨hset.ready, hset.suspended, hset.syscall⟩
        exact ih (hfire.pushReady (timeOut_ready hk hco hco'))
      · exact hset

theorem OfKind.wakeTimedOut (hk : k.Closed) (count : Nat) {v : View n} (h : v.OfKind k) :
    (wakeTimedOut now count v).2.OfKind k := by
  refine wakeTimedOut_loop (R := fun v r => v.OfKind k → r.2.OfKind k) (fun _ h => h)
    (fun _ h => ⟨h.ready, h.suspended, h.syscall⟩) (fun _ _ _ h h' hv => h' (h hv)) ?_ count v h
  intro v time entry syscallSuspend _ _ h
  have hset : (v.tick.setSyscallSuspend syscallSuspend).OfKind k :=
    ⟨h.ready, h.suspended, h.syscall⟩
  exact hset.timeoutEntry hk (now v.readings) entry.inner

theorem OfKind.checkReady (hk : k.Closed) {v : View n} (h : v.OfKind k) :
    (v.checkReady now).2.OfKind k :=
  checkReady_loops (R := fun v r => v.OfKind k → r.2.OfKind k) (fun _ _ _ h h' hv => h' (h hv))
    (fun count _ h => h.wakeSuspended now hk count) (fun count _ h => h.wakeTimedOut now hk count)
    v h

theorem OfKind.submit {v : View n} (h : v.OfKind k) (uuid : String)
    (hnew : k.ready ⟨v.sched.name ++ "|" ++ uuid, .ready, false⟩) :
    (v.submit now uuid).2.OfKind k := h.pushReady hnew

theorem OfKind.tryResume (hk : k.Closed) {v : View n} (h : v.OfKind k) (coName : String) :
    (v.tryResume coName).2.OfKind k := by
  rw [View.tryResume]
  split
  · exact h
  · rename_i co syscall he
    obtain ⟨hset, hco⟩ := h.setSyscall he
    cases hst : co.state with
    | systemCall y call state =>
      simp only [CoroutineImpl.syscall_of_systemCall hst]
      exact hset.pushReady (hk.resume co y call state hco hst)
    | created | ready | running | suspend _ _ | complete _ | error _ => exact hset

theorem OfKind.place (hk : k.Closed) {v : View n} (h : v.OfKind k) {co : Co}
    {result : CoroutineState Unit Unit} (hco : k.yielded co result) :
    (v.place now co result).2.OfKind k := by
  cases result with
  | suspend y timestamp =>
    obtain ⟨hready, hsuspended⟩ := hk.suspend co timestamp hco
    have htick : v.tick.OfKind k := ⟨h.ready, h.suspended, h.syscall⟩
    rw [View.place]
    split
    · exact htick.pushReady hready
    · refine ⟨h.ready, fun e he => ?_, h.syscall⟩
      rcases TimerList.mem_elems_insert.1 he with rfl | he
      · exact hsuspended
      · exact h.suspended e he
  | systemCall y call state =>
    have hsyscall := hk.table co call state hco
    have hinsert : ∀ e ∈ (v.sched.syscall.insert co.name co).entries, k.syscall e.2 := by
      intro e he
      rw [AList.entries_insert, List.mem_cons] at he
      rcases he with rfl | he
      · exact hsyscall
      · exact h.syscall e ((List.kerase_sublist _ _).mem he)
    cases state with
    | suspend timestamp | computing | calling _ | timeout | finished =>
      exact ⟨h.ready, h.suspended, hinsert⟩
  | created | ready | running | complete _ | error _ => exact h

end View

/-- A body that runs runs in state `Running`, or in the system call it was in. -/
theorem CoroutineImpl.resumeEnter_runs {co co' : Co} {p : String} {l l' : Locals String} {now : Nat}
    (h : co.resumeEnter p l now = (none, co', l')) :
    co.state.isSystemCall = false ∧ co' = { co with state := .running } ∨
      co.state.isSystemCall = true ∧ co' = co := by
  have hrunning : ∀ r : Except IoError Unit × Co, co.running now = r → r.1 = .ok () →
      co.state.isSystemCall = false ∧ r.2 = { co with state := .running } ∨
        co.state.isSystemCall = true ∧ r.2 = co := by
    rintro _ rfl hr
    cases hst : co.state with
    | created | ready => exact .inl ⟨rfl, by simp [CoroutineImpl.running, hst]⟩
    | systemCall y call state => exact .inr ⟨rfl, by simp [CoroutineImpl.running, hst]⟩
    | suspend y timestamp =>
      by_cases ht : timestamp ≤ now
      · exact .inl ⟨rfl, by simp [CoroutineImpl.running, hst, ht]⟩
      · simp [CoroutineImpl.running, hst, ht] at hr
    | running | complete _ | error _ => simp [CoroutineImpl.running, hst] at hr
  unfold CoroutineImpl.resumeEnter at h
  split at h
  · cases h
  · split at h
    · cases h
    · rename_i hr
      cases h
      exact hrunning _ hr rfl

def Phase.OfKind {θ : Type*} (k : Kinds) : Phase θ → Prop
  | resuming _ _ co => k.resumed co
  | returned _ _ co (.ok result) => k.yielded co result
  | _ => True

namespace World

variable {ι θ : Type*} {n : Nat} {now : Nat → Nat} {k : Kinds}

structure OfKind (k : Kinds) (s : World ι θ n) : Prop where
  ready : ∀ co ∈ s.queue.contents, k.ready co
  suspended : ∀ i, ∀ e ∈ (s.sched i).suspend.elems, k.suspended e.2
  syscall : ∀ i, ∀ e ∈ (s.sched i).syscall.entries, k.syscall e.2
  phase : ∀ i, (s.phase i).OfKind k
  finished : ∀ co ∈ s.finished, k.finished co

theorem Initial.ofKind {s : World ι θ n} (h : s.Initial) (k : Kinds) : s.OfKind k := by
  refine ⟨fun co hm => ?_, fun i e he => ?_, fun i e he => ?_, fun i => ?_, fun co hm => ?_⟩
  · rw [h.queue] at hm
    cases Multiset.notMem_zero _ hm
  · rw [h.suspend i] at he
    cases he
  · rw [h.syscall i] at he
    cases he
  · rw [h.phase i]
    trivial
  · rw [h.finished] at hm
    cases hm

theorem OfKind.view {s : World ι θ n} (h : s.OfKind k) (i : ι) : (s.view i).OfKind k :=
  ⟨h.ready, h.suspended i, h.syscall i⟩

theorem OfKind.of_eq {s s' : World ι θ n} (h : s.OfKind k) (hqueue : s'.queue = s.queue)
    (hsched : s'.sched = s.sched) (hphase : s'.phase = s.phase)
    (hfinished : s'.finished = s.finished) : s'.OfKind k where
  ready := hqueue ▸ h.ready
  suspended := hsched ▸ h.suspended
  syscall := hsched ▸ h.syscall
  phase := hphase ▸ h.phase
  finished := hfinished ▸ h.finished

theorem OfKind.tick {s : World ι θ n} (h : s.OfKind k) : s.tick.OfKind k := h.of_eq rfl rfl rfl rfl

theorem OfKind.giveBack {s : World ι θ n} (h : s.OfKind k) (result : Except IoError Nat) :
    (s.giveBack result).OfKind k := h.of_eq rfl rfl rfl rfl

theorem OfKind.panic {s : World ι θ n} (h : s.OfKind k) (message : String) :
    (s.panic message).OfKind k := h.of_eq rfl rfl rfl rfl

theorem OfKind.setLocals [DecidableEq θ] {s : World ι θ n} (h : s.OfKind k) (t : θ)
    (l : Locals String) : (s.setLocals t l).OfKind k := h.of_eq rfl rfl rfl rfl

variable [DecidableEq ι]

theorem OfKind.setView {s : World ι θ n} (h : s.OfKind k) (i : ι) {v : View n} (hv : v.OfKind k) :
    (s.setView i v).OfKind k where
  ready := hv.ready
  suspended j := by
    by_cases hj : j = i
    · rw [hj, setView_sched]
      exact hv.suspended
    · rw [setView_sched_ne _ hj]
      exact h.suspended j
  syscall j := by
    by_cases hj : j = i
    · rw [hj, setView_sched]
      exact hv.syscall
    · rw [setView_sched_ne _ hj]
      exact h.syscall j
  phase := h.phase
  finished := h.finished

theorem OfKind.setPhase {s : World ι θ n} (h : s.OfKind k) (i : ι) {phase : Phase θ}
    (hp : phase.OfKind k) : (s.setPhase i phase).OfKind k where
  ready := h.ready
  suspended := h.suspended
  syscall := h.syscall
  phase j := by
    by_cases hj : j = i
    · rw [hj, setPhase_phase]
      exact hp
    · rw [setPhase_phase_ne _ hj]
      exact h.phase j
  finished := h.finished

omit [DecidableEq ι] in
theorem OfKind.finish (hk : k.Closed) {s : World ι θ n} (h : s.OfKind k) {co : Co}
    {result : CoroutineState Unit Unit} (hco : k.yielded co result) :
    (s.finish co result).OfKind k := by
  have hcons : (result = .complete () ∨ ∃ message, result = .error message) →
      ∀ co' ∈ co :: s.finished, k.finished co' := by
    intro hresult co' hm
    rcases List.mem_cons.1 hm with rfl | hm
    · exact hk.finish co' result hco hresult
    · exact h.finished co' hm
  cases result with
  | complete val => exact ⟨h.ready, h.suspended, h.syscall, h.phase, hcons (.inl rfl)⟩
  | error message => exact ⟨h.ready, h.suspended, h.syscall, h.phase, hcons (.inr ⟨message, rfl⟩)⟩
  | created | ready | running | suspend _ _ | systemCall _ _ _ => exact h

variable [DecidableEq θ]

theorem OfKind.enter (hk : k.Closed) {s : World ι θ n} (h : s.OfKind k) {co : Co}
    (hco : k.ready co) (hqueued : co.Queued) (i : ι) (t : θ) (timeoutTime : Nat) :
    (s.enter now i t timeoutTime co).OfKind k := by
  unfold World.enter
  split
  · rename_i result co' l he
    obtain ⟨e, rfl⟩ := hqueued.enter_fails he
    exact h.tick.setPhase i trivial
  · rename_i co' l he
    have hresumed : k.resumed co' := by
      rcases CoroutineImpl.resumeEnter_runs he with ⟨hst, rfl⟩ | ⟨hst, rfl⟩
      · exact hk.run co hco hst
      · exact hk.rerun co' hco hst
    split
    · exact OfKind.setPhase ((h.tick.setLocals t _).panic _) i (by trivial)
    · exact (h.tick.setLocals t l).setPhase i hresumed

omit [DecidableEq θ] in
theorem OfKind.stop {s : World ι θ n} (h : s.OfKind k) (i : ι) (stop : Stop) :
    (s.stop i stop).OfKind k := by
  cases stop with
  | err e => exact OfKind.setPhase (h.giveBack _) i (by trivial)
  | unreachable message => exact OfKind.setPhase (h.panic _) i (by trivial)

omit [DecidableEq θ] in
/-- The part of the view that `pop_front` leaves, and the coroutine it takes. -/
theorem OfKind.popFront {s : World ι θ n} (h : s.OfKind k) {i : ι} {co : Option Co}
    {ready : LocalQueue n} {queue : WorkStealQueue Co n}
    (hq : (s.sched i).ready.popFront s.queue = (co, ready, queue)) :
    (s.setView i { s.view i with queue, sched := { s.sched i with ready } }).OfKind k ∧
      ∀ co' ∈ co, k.ready co' := by
  have hg := (s.sched i).ready.popFront_gives s.queue
  rw [hq] at hg
  constructor
  · refine h.setView i ⟨fun co' hm => h.ready co' ?_, h.suspended i, h.syscall i⟩
    rw [hg.contents]
    exact Multiset.mem_add.2 (.inr hm)
  · intro co' hco'
    apply h.ready
    rw [hg.contents]
    simp [Option.mem_def.1 hco']

theorem OfKind.turn (hk : k.Closed) {s s' : World ι θ n} (h : s.OfKind k)
    (hqueued : ∀ co ∈ s.queue.contents, co.Queued) {i : ι} (hs : s.turn now i = some s') :
    s'.OfKind k := by
  cases turns hs with
  | timedOut => exact OfKind.setPhase (h.tick.giveBack _) i (by trivial)
  | check => exact OfKind.setPhase h.tick i (by trivial)
  | checked hp hv =>
    have hcheck := h.setView i ((h.view i).checkReady now hk)
    rw [hv] at hcheck
    exact hcheck.setPhase i trivial
  | @checkStops t timeoutTime leftTime stop v hp hv =>
    have hcheck := h.setView i ((h.view i).checkReady now hk)
    rw [hv] at hcheck
    exact hcheck.stop i stop
  | popsNone hp hq => exact OfKind.setPhase ((h.popFront hq).1.giveBack _) i (by trivial)
  | pops hp hq =>
    obtain ⟨hset, hready⟩ := h.popFront hq
    refine hset.enter hk (hready _ rfl) (hqueued _ ?_) i _ _
    have hg := (s.sched i).ready.popFront_gives s.queue
    rw [hq] at hg
    rw [hg.contents]
    simp
  | @fails t timeoutTime co e hp => exact h.stop i (.err e)
  | places hp hv =>
    have hco := h.phase i
    rw [hp] at hco
    have hplace := h.setView i ((h.view i).place now hk hco)
    rw [hv] at hplace
    exact (hplace.finish hk hco).setPhase i trivial
  | @placeStops t timeoutTime co result stop v hp hv =>
    have hco := h.phase i
    rw [hp] at hco
    have hplace := h.setView i ((h.view i).place now hk hco)
    rw [hv] at hplace
    exact hplace.stop i stop

omit [DecidableEq θ] in
theorem OfKind.tryResume (hk : k.Closed) {s : World ι θ n} (h : s.OfKind k) (i : ι)
    (coName : String) : (s.setView i ((s.view i).tryResume coName).2).OfKind k :=
  h.setView i ((h.view i).tryResume hk coName)

/-- A coroutine in a call of `resume_with` is nowhere else. -/
structure Alone (s : World ι θ n) (i : ι) (coName : String) : Prop where
  ready : ∀ co ∈ s.queue.contents, co.name ≠ coName
  suspended : ∀ j, ∀ e ∈ (s.sched j).suspend.elems, e.2.name ≠ coName
  syscall : ∀ j, ∀ e ∈ (s.sched j).syscall.entries, e.2.name ≠ coName
  phase : ∀ j, j ≠ i → ∀ co ∈ (s.phase j).co, co.name ≠ coName
  finished : ∀ co ∈ s.finished, co.name ≠ coName

omit [DecidableEq θ] in
theorem Distinct.alone [Fintype ι] {s : World ι θ n} (h : s.Distinct) {i : ι} {co : Co}
    (hco : co ∈ (s.phase i).co) : s.Alone i co.name := by
  have hle := Multiset.nodup_iff_count_le_one.1 h.nodup_names co.name
  have hphase : 1 ≤ (OpenCoroutine.names (s.phase i).co).count co.name :=
    Multiset.one_le_count_iff_mem.2 (Multiset.mem_map_of_mem _ hco)
  have hsplit := Family.total_split
    (fun (_ : ι) (phase : Phase θ) => OpenCoroutine.names phase.co) s.phase i
  have hcount : ∀ {m : Multiset Co} {co' : Co}, co' ∈ m → co'.name = co.name →
      1 ≤ (OpenCoroutine.names m).count co.name := fun hm he =>
    Multiset.one_le_count_iff_mem.2 (he ▸ Multiset.mem_map_of_mem _ hm)
  have hparked : ∀ j, ∀ co' ∈ (s.sched j).parked, co'.name ≠ co.name := by
    intro j co' hm he
    have hp := hcount hm he
    have hs := Family.total_split
      (fun (_ : ι) (sched : SchedulerImpl n) => OpenCoroutine.names sched.parked) s.sched j
    simp only [World.names, hsplit, hs, Multiset.count_add] at hle
    omega
  refine ⟨fun co' hm he => ?_, fun j e hm => hparked j e.2 ?_, fun j e hm => hparked j e.2 ?_,
    fun j hj co' hm he => hj (h.phase_unique hm hco he), fun co' hm he => ?_⟩
  · have hq := hcount hm he
    simp only [World.names, hsplit, Multiset.count_add] at hle
    omega
  · exact Multiset.mem_add.2 (.inl (Multiset.mem_coe.2 (List.mem_map_of_mem hm)))
  · exact Multiset.mem_add.2 (.inr (Multiset.mem_coe.2 (List.mem_map_of_mem hm)))
  · have hf := hcount (Multiset.mem_coe.2 hm) he
    simp only [World.names, hsplit, Multiset.count_add] at hle
    omega

omit [DecidableEq θ] in
theorem Distinct.mem_submitted [Fintype ι] {s : World ι θ n} (h : s.Distinct) {i : ι} {co : Co}
    (hco : co ∈ (s.phase i).co) : co.name ∈ s.submitted := by
  have hsplit := Family.total_split
    (fun (_ : ι) (phase : Phase θ) => OpenCoroutine.names phase.co) s.phase i
  have hm : co.name ∈ s.names := by
    rw [World.names, hsplit]
    simp only [Multiset.mem_add]
    exact .inr (.inl (.inl (Multiset.mem_map_of_mem _ hco)))
  exact Multiset.mem_coe.1 (Multiset.mem_of_le h.names hm)

end World

/-- The facts are the same but for the coroutine `coName`. -/
structure Kinds.Agrees (k k' : Kinds) (coName : String) : Prop where
  ready : ∀ co, co.name ≠ coName → k.ready co → k'.ready co
  suspended : ∀ co, co.name ≠ coName → k.suspended co → k'.suspended co
  syscall : ∀ co, co.name ≠ coName → k.syscall co → k'.syscall co
  resumed : ∀ co, co.name ≠ coName → k.resumed co → k'.resumed co
  yielded : ∀ co result, co.name ≠ coName → k.yielded co result → k'.yielded co result
  finished : ∀ co, co.name ≠ coName → k.finished co → k'.finished co

namespace World

variable {ι θ : Type*} {n : Nat} {k k' : Kinds} [DecidableEq ι]

theorem OfKind.setAlone {s : World ι θ n} (h : s.OfKind k) {i : ι} {coName : String}
    (ha : s.Alone i coName) (hk : k.Agrees k' coName) {phase : Phase θ} (hp : phase.OfKind k') :
    (s.setPhase i phase).OfKind k' where
  ready co hm := hk.ready co (ha.ready co hm) (h.ready co hm)
  suspended j e hm := hk.suspended e.2 (ha.suspended j e hm) (h.suspended j e hm)
  syscall j e hm := hk.syscall e.2 (ha.syscall j e hm) (h.syscall j e hm)
  phase j := by
    by_cases hj : j = i
    · rw [hj, setPhase_phase]
      exact hp
    · rw [setPhase_phase_ne _ hj]
      have hphase := h.phase j
      cases hpj : s.phase j with
      | idle | top _ _ | checking _ _ _ | popping _ _ _ => trivial
      | resuming t timeoutTime co =>
        have hne := ha.phase j hj co (by rw [hpj]; exact Multiset.mem_singleton_self co)
        rw [hpj] at hphase
        exact hk.resumed co hne hphase
      | returned t timeoutTime co result =>
        have hne := ha.phase j hj co (by rw [hpj]; exact Multiset.mem_singleton_self co)
        rw [hpj] at hphase
        cases result with
        | ok result => exact hk.yielded co result hne hphase
        | error e => trivial
  finished co hm := hk.finished co (ha.finished co hm) (h.finished co hm)

end World

end OpenCoroutine
