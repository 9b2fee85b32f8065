import OpenCoroutine.Kinds

/-! What holds of a system of schedulers whatever its clock does and however the bodies leave,
as long as the names of the coroutines are all different. A clock that goes back makes
`check_ready` and `resume_with` fail, and a coroutine is then dropped; but no coroutine comes
to be in two places, those that are kept are alive, and no scheduler panics. -/

namespace OpenCoroutine

open Family Function Transition

namespace View

variable {n : Nat} (now : Nat → Nat)

/-- The operation adds no coroutines but those named in `x`. -/
def AddsAtMost (v : View n) (x : Multiset String) (r : Option Stop × View n) : Prop :=
  names r.2.held ≤ x + names v.held

theorem AddsAtMost.refl (v : View n) : v.AddsAtMost 0 (none, v) := by
  rw [AddsAtMost, zero_add]

theorem AddsAtMost.trans {v v' : View n} {x y : Multiset String} {stop : Option Stop}
    {r : Option Stop × View n} (h : v.AddsAtMost x (stop, v')) (h' : v'.AddsAtMost y r) :
    v.AddsAtMost (x + y) r := by
  rw [AddsAtMost, add_comm x y, add_assoc]
  exact le_trans h' (add_le_add_right h y)

theorem AddsAtMost.then {v v' : View n} {x : Multiset String} {stop : Option Stop}
    {r : Option Stop × View n} (h : v.AddsAtMost 0 (stop, v')) (h' : v'.AddsAtMost x r) :
    v.AddsAtMost x r := by
  have ht := h.trans h'
  rwa [zero_add] at ht

theorem AddsAtMost.pushReady {v v' : View n} {x : Multiset String} {stop : Option Stop}
    (h : v.AddsAtMost x (stop, v')) (co : Co) :
    v.AddsAtMost ({co.name} + x) (none, v'.pushReady co) := by
  rw [AddsAtMost, names_pushReady, add_assoc]
  exact add_le_add_right h _

theorem wakeEntry_addsAtMost (entry : List Co) (v : View n) :
    v.AddsAtMost (names entry) (wakeEntry now entry v) := by
  induction entry generalizing v with
  | nil =>
    rw [View.wakeEntry]
    exact .refl v
  | cons co entry ih =>
    rw [View.wakeEntry, names_cons]
    split
    · rename_i co' he
      have hname : co'.name = co.name := by rw [CoroutineImpl.ready_ok he]
      have hpush : v.AddsAtMost {co.name} (none, v.tick.pushReady co') := by
        have hp := (AddsAtMost.refl v.tick).pushReady co'
        rwa [add_zero, hname] at hp
      exact hpush.trans (ih _)
    · exact Multiset.le_add_left _ _

theorem wakeSuspended_addsAtMost (count : Nat) (v : View n) :
    v.AddsAtMost 0 (wakeSuspended now count v) := by
  refine wakeSuspended_loop (R := fun v r => v.AddsAtMost 0 r) .refl (fun v => .refl v)
    (fun _ _ _ h h' => h.then h') ?_ count v
  intro v time entry suspend hpop _
  have hwake := wakeEntry_addsAtMost now entry.inner (v.tick.setSuspend suspend)
  rwa [AddsAtMost, ← names_popSuspend hpop, ← zero_add (names v.held)] at hwake

theorem timeOut_name {co co' : Co} (h : timeOut co = .ok co') : co'.name = co.name := by
  cases hst : co.state with
  | systemCall y call state =>
    cases state with
    | suspend timestamp =>
      simp only [timeOut, hst, CoroutineImpl.syscall_of_systemCall hst] at h
      rw [← Except.ok.inj h]
    | computing | calling _ | timeout | finished =>
      simp only [timeOut, hst] at h
      rw [← Except.ok.inj h]
  | created | ready | running | suspend _ _ | complete _ | error _ => simp [timeOut, hst] at h

theorem timeoutEntry_addsAtMost (time : Nat) (entry : List String) (v : View n) :
    v.AddsAtMost 0 (timeoutEntry time entry v) := by
  induction entry generalizing v with
  | nil => exact .refl v
  | cons coName entry ih =>
    rw [View.timeoutEntry]
    split
    · exact ih v
    · rename_i co syscall he
      have hnames := names_extract he
      split
      · rename_i co' hco'
        have hpush : v.AddsAtMost 0 (none, ((v.setSyscall syscall).fire co time).pushReady co') := by
          rw [AddsAtMost, names_pushReady, timeOut_name hco', zero_add, hnames]
          rfl
        exact hpush.then (ih _)
      · rw [AddsAtMost, zero_add, hnames]
        exact Multiset.le_add_left _ _

theorem wakeTimedOut_addsAtMost (count : Nat) (v : View n) :
    v.AddsAtMost 0 (wakeTimedOut now count v) :=
  wakeTimedOut_loop (R := fun v r => v.AddsAtMost 0 r) .refl (fun v => .refl v)
    (fun _ _ _ h h' => h.then h') (fun v _ entry syscallSuspend _ _ =>
      (AddsAtMost.refl (v.tick.setSyscallSuspend syscallSuspend)).then
        (timeoutEntry_addsAtMost (now v.readings) entry.inner _)) count v

theorem checkReady_addsAtMost (v : View n) : v.AddsAtMost 0 (v.checkReady now) :=
  checkReady_loops (R := fun v r => v.AddsAtMost 0 r) (fun _ _ _ h h' => h.then h')
    (wakeSuspended_addsAtMost now) (wakeTimedOut_addsAtMost now) v

theorem tryResume_addsAtMost (v : View n) (coName : String) :
    v.AddsAtMost 0 (v.tryResume coName) := by
  rw [View.tryResume]
  split
  · exact .refl v
  · rename_i co syscall he
    have hnames := names_extract he
    have hdrop : ∀ stop, v.AddsAtMost 0 (stop, v.setSyscall syscall) := by
      intro stop
      rw [AddsAtMost, zero_add, hnames]
      exact Multiset.le_add_left _ _
    cases hst : co.state with
    | systemCall y call state =>
      simp only [CoroutineImpl.syscall_of_systemCall hst]
      rw [AddsAtMost, names_pushReady, zero_add, hnames]
    | created | ready | running | suspend _ _ | complete _ | error _ => exact hdrop _

/-- A coroutine that is put into the syscall table replaces the one that was there. -/
theorem insertSyscall_addsAtMost (v : View n) (co : Co) :
    v.AddsAtMost {co.name} (none, v.setSyscall (v.sched.syscall.insert co.name co)) := by
  have hle : ((v.sched.syscall.insert co.name co).entries.map Sigma.snd : Multiset Co) ≤
      {co} + ↑(v.sched.syscall.entries.map Sigma.snd) := by
    rw [AList.entries_insert, List.map_cons, ← Multiset.cons_coe, ← Multiset.singleton_add]
    have hsub := ((List.kerase_sublist co.name v.sched.syscall.entries).map Sigma.snd).subperm
    exact add_le_add_right (Multiset.coe_le.2 hsub) _
  have hheld : (v.setSyscall (v.sched.syscall.insert co.name co)).held ≤ {co} + v.held := by
    have hadd := add_le_add_right hle (v.queue.contents + ↑(v.sched.suspend.elems.map Prod.snd))
    have hleft : v.queue.contents + ↑(v.sched.suspend.elems.map Prod.snd) +
        ↑((v.sched.syscall.insert co.name co).entries.map Sigma.snd) =
          (v.setSyscall (v.sched.syscall.insert co.name co)).held := add_assoc _ _ _
    rw [hleft] at hadd
    refine hadd.trans_eq ?_
    rw [held, SchedulerImpl.parked]
    ac_rfl
  have hmap := Multiset.map_le_map (f := fun co : Co => co.name) hheld
  rwa [Multiset.map_add] at hmap

theorem place_addsAtMost (v : View n) (co : Co) (result : CoroutineState Unit Unit) :
    v.AddsAtMost {co.name} (v.place now co result) := by
  cases result with
  | suspend y timestamp =>
    rw [View.place]
    split
    · exact (names_pushReady v.tick co).le
    · exact (names_insertSuspend v.tick timestamp co).le
  | systemCall y call state =>
    cases state with
    | suspend timestamp =>
      have htimer : v.AddsAtMost 0 (none, v.setSyscallSuspend
          (v.sched.syscallSuspend.insert timestamp co.name)) := .refl v
      exact htimer.then (insertSyscall_addsAtMost _ co)
    | computing | calling _ | timeout | finished => exact insertSyscall_addsAtMost v co
  | created | ready | running | complete _ | error _ => exact Multiset.le_add_left _ _

end View

namespace CoroutineImpl

variable {Y R κ : Type*} [ToString Y] [ToString R]

theorem resumeEnter_same (c : CoroutineImpl Y R) (p : κ) (l : Locals κ) (now : Nat) :
    (c.resumeEnter p l now).2.1.name = c.name ∧ (c.resumeEnter p l now).2.1.done = c.done := by
  have hname := c.call_name (.running now)
  have hdone := c.call_done (.running now)
  simp only [call] at hname hdone
  unfold resumeEnter
  split
  · exact ⟨rfl, rfl⟩
  · split
    · rename_i he
      rw [he] at hname hdone
      exact ⟨hname, hdone⟩
    · rename_i he
      rw [he] at hname hdone
      exact ⟨hname, hdone⟩

theorem leave_name (c : CoroutineImpl Y R) (l : Locals κ) (o : Leave Y R) :
    (c.leave l o).2.1.name = c.name := by
  have hsuspend := fun y timestamp => c.call_name (.suspend y timestamp)
  have hcomplete := fun val => ({ c with done := true } : CoroutineImpl Y R).call_name (.complete val)
  have herror := fun val => ({ c with done := true } : CoroutineImpl Y R).call_name (.error val)
  simp only [call] at hsuspend hcomplete herror
  have hyield : ∀ (l : Locals κ) y, (c.resumeExit l (.yield y)).2.1.name = c.name := by
    intro l y
    simp only [resumeExit]
    split
    · split
      · rename_i he
        exact (congrArg (fun r => r.2.name) he).symm.trans (hsuspend _ _)
      · rename_i he
        exact (congrArg (fun r => r.2.name) he).symm.trans (hsuspend _ _)
    · rfl
    · rfl
  have hfails : ∀ (l : Locals κ) message,
      (c.resumeExit l (.return (.error message))).2.1.name = c.name := by
    intro l message
    simp only [resumeExit]
    split
    · rename_i he
      exact (congrArg (fun r => r.2.name) he).symm.trans (herror _)
    · rename_i he
      exact (congrArg (fun r => r.2.name) he).symm.trans (herror _)
  cases o with
  | suspendWith arg => exact hyield _ arg
  | untilWith arg timestamp => exact hyield _ arg
  | returns val =>
    simp only [leave, Leave.onBody, resumeExit]
    split
    · rename_i he
      exact (congrArg (fun r => r.2.name) he).symm.trans (hcomplete _)
    · rename_i he
      exact (congrArg (fun r => r.2.name) he).symm.trans (hcomplete _)
  | panics message => exact hfails _ message
  | traps => exact hfails _ _

/-- Where `resume_with` takes over what the body leaves with, the body was to leave so. -/
theorem mayLeave_of_ok {co co' : Co} {l l' : Locals String} {o : Leave Unit Unit}
    {result : CoroutineState Unit Unit} (he : co.leave l o = (.ok result, co', l')) :
    co.MayLeave o := by
  cases o with
  | suspendWith arg | untilWith arg timestamp =>
    cases hst : co.state with
    | running => exact .inl hst
    | systemCall y call state => exact .inr (by rw [hst]; rfl)
    | created | ready | suspend _ _ | complete _ | error _ =>
      simp [leave, Leave.onBody, resumeExit, hst] at he
  | returns val =>
    cases hst : co.state with
    | running => exact hst
    | created | ready | suspend _ _ | systemCall _ _ _ | complete _ | error _ =>
      simp [leave, Leave.onBody, resumeExit, complete, hst] at he
  | panics message | traps =>
    cases hst : co.state with
    | running => exact hst
    | created | ready | suspend _ _ | systemCall _ _ _ | complete _ | error _ =>
      simp [leave, Leave.onBody, resumeExit, error, hst] at he

theorem yielded_of_ok {co co' : Co} {l l' : Locals String} {o : Leave Unit Unit}
    {result : CoroutineState Unit Unit} (hdone : co.done = false)
    (he : co.leave l o = (.ok result, co', l')) : co'.Yielded result := by
  obtain ⟨result', co'', l'', he', -, hyielded⟩ :=
    leave_yielded (l := l) hdone (mayLeave_of_ok he)
  rw [he, Prod.mk.injEq, Prod.mk.injEq, Except.ok.injEq] at he'
  obtain ⟨rfl, rfl, -⟩ := he'
  exact hyielded

end CoroutineImpl

namespace World

variable {ι θ : Type*} {n : Nat} {now : Nat → Nat} [DecidableEq ι] [Fintype ι]

theorem names_setView_le {s : World ι θ n} {i : ι} {x : Multiset String}
    {r : Option Stop × View n} (h : (s.view i).AddsAtMost x r) :
    (s.setView i r.2).names ≤ x + s.names := by
  have ht := total_update_add (fun (_ : ι) (sched : SchedulerImpl n) =>
    OpenCoroutine.names sched.parked) s.sched i r.2.sched
  refine Multiset.le_iff_count.2 fun name => ?_
  have ht' := congrArg (Multiset.count name) ht
  have hn := Multiset.count_le_of_le name h
  simp only [View.held, names_add, World.view, Multiset.count_add] at ht' hn
  simp only [World.names, World.setView, Multiset.count_add]
  omega

/-- What is done with the coroutine that scheduler `i` has at hand. -/
theorem Distinct.setPhase {s w : World ι θ n} (h : s.Distinct) {i : ι} {phase : Phase θ}
    (hsub : w.submitted = s.submitted)
    (hnames : w.names + OpenCoroutine.names phase.co ≤
      s.names + OpenCoroutine.names (w.phase i).co) : (w.setPhase i phase).Distinct := by
  have hsame : (w.setPhase i phase).submitted = s.submitted := hsub
  rw [← w.names_setPhase i phase, add_le_add_iff_right] at hnames
  refine ⟨?_, ?_⟩
  · rw [hsame]
    exact hnames.trans h.names
  · rw [hsame]
    exact h.nodup

/-- The coroutine at hand, if there is one, goes to where `w` has it. -/
theorem Distinct.release {s w : World ι θ n} (h : s.Distinct) {i : ι} {phase : Phase θ}
    (hsub : w.submitted = s.submitted) (hphase : w.phase i = s.phase i)
    (hnames : w.names ≤ OpenCoroutine.names (s.phase i).co + s.names) (hno : phase.co = 0) :
    (w.setPhase i phase).Distinct := by
  refine h.setPhase hsub ?_
  rw [hno, names_zero, add_zero, hphase, add_comm]
  exact hnames

theorem Distinct.stop {s w : World ι θ n} (h : s.Distinct) {i : ι} (hsub : w.submitted = s.submitted)
    (hphase : w.phase i = s.phase i)
    (hnames : w.names ≤ OpenCoroutine.names (s.phase i).co + s.names) (stop : Stop) :
    (w.stop i stop).Distinct := by
  cases stop with
  | err e => exact h.release (w := w.giveBack _) hsub hphase hnames rfl
  | unreachable message => exact h.release (w := w.panic _) hsub hphase hnames rfl

variable [DecidableEq θ]

theorem Distinct.enter {s w : World ι θ n} (h : s.Distinct) {i : ι} {co : Co}
    (hsub : w.submitted = s.submitted) (hphase : (w.phase i).co = 0)
    (hnames : {co.name} + w.names ≤ s.names) (t : θ) (timeoutTime : Nat) :
    (w.enter now i t timeoutTime co).Distinct := by
  have hname := (co.resumeEnter_same co.name (w.locals t) (now w.readings)).1
  have hle : w.names ≤ s.names := (Multiset.le_add_left _ _).trans hnames
  have hset : ∀ {v : World ι θ n} {phase : Phase θ}, v.submitted = w.submitted →
      v.phase = w.phase → v.names = w.names →
      OpenCoroutine.names phase.co ≤ {co.name} → (v.setPhase i phase).Distinct := by
    intro v phase hv hp hn hco
    refine h.setPhase (hv.trans hsub) ?_
    rw [hn, hp, hphase, names_zero, add_zero, add_comm]
    exact (add_le_add_left hco _).trans hnames
  unfold World.enter
  split
  · rename_i he
    rw [he] at hname
    refine hset (v := w.tick) rfl rfl rfl ?_
    exact (congrArg (fun name => ({name} : Multiset String)) hname).le
  · rename_i he
    rw [he] at hname
    split
    · refine hset (v := (w.tick.setLocals t _).panic _) rfl rfl rfl ?_
      exact Multiset.zero_le _
    · refine hset (v := w.tick.setLocals t _) rfl rfl rfl ?_
      exact (congrArg (fun name => ({name} : Multiset String)) hname).le

omit [DecidableEq θ] in
theorem names_place_le {s : World ι θ n} {i : ι} {co : Co} {result : CoroutineState Unit Unit}
    {v : View n} (hv : (s.view i).place now co result = (none, v)) :
    ((s.setView i v).finish co result).names ≤ {co.name} + s.names := by
  have hplace := names_setView_le ((s.view i).place_addsAtMost now co result)
  rw [hv] at hplace
  have hend : result = .complete () ∨ (∃ message, result = .error message) →
      v = s.view i → ((s.setView i v).finish co result).names ≤ {co.name} + s.names := by
    intro hresult hsame
    have hset := names_setView_le (View.AddsAtMost.refl (s.view i))
    rw [zero_add, ← hsame] at hset
    rw [names_finish _ co hresult]
    exact add_le_add_right hset _
  cases result with
  | suspend y timestamp | systemCall y call state => exact hplace
  | complete val => exact hend (.inl rfl) (Prod.mk.inj hv).2.symm
  | error message => exact hend (.inr ⟨message, rfl⟩) (Prod.mk.inj hv).2.symm
  | created | ready | running => cases hv

theorem Distinct.turn {s s' : World ι θ n} (h : s.Distinct) {i : ι} (hs : s.turn now i = some s') :
    s'.Distinct := by
  have hrefl : s.names ≤ OpenCoroutine.names (s.phase i).co + s.names := Multiset.le_add_left _ _
  have hcheck := names_setView_le ((s.view i).checkReady_addsAtMost now)
  rw [zero_add] at hcheck
  cases turns hs with
  | timedOut hp => exact h.release (w := s.tick.giveBack _) rfl rfl hrefl rfl
  | check hp => exact h.release (w := s.tick) rfl rfl hrefl rfl
  | checked hp hv =>
    rw [hv] at hcheck
    exact h.release (w := s.setView i _) rfl rfl (hcheck.trans hrefl) rfl
  | @checkStops t timeoutTime leftTime stop v hp hv =>
    rw [hv] at hcheck
    exact h.stop (w := s.setView i v) rfl rfl (hcheck.trans hrefl) stop
  | popsNone hp hq =>
    have hnames := names_popFront hq
    rw [Option.toList_none, Multiset.coe_nil, names_zero, zero_add] at hnames
    exact h.release (w := (s.setView i _).giveBack _) rfl rfl (hnames.le.trans hrefl) rfl
  | pops hp hq =>
    have hnames := names_popFront hq
    rw [Option.toList_some, Multiset.coe_singleton, names_singleton] at hnames
    exact h.enter (w := s.setView i _) rfl (by rw [setView, hp]; rfl) hnames.le _ _
  | @fails t timeoutTime co e hp => exact h.stop (w := s) rfl rfl hrefl (.err e)
  | @places t timeoutTime co result v hp hv =>
    have hplace := names_place_le hv
    have hco : OpenCoroutine.names (s.phase i).co = {co.name} := by rw [hp]; rfl
    refine h.release (w := (s.setView i v).finish co result) (finish_submitted _ _ _) ?_ ?_ rfl
    · rw [finish_phase]
      rfl
    · rw [hco]
      exact hplace
  | @placeStops t timeoutTime co result stop v hp hv =>
    have hplace := names_setView_le ((s.view i).place_addsAtMost now co result)
    rw [hv] at hplace
    have hco : OpenCoroutine.names (s.phase i).co = {co.name} := by rw [hp]; rfl
    refine h.stop (w := s.setView i v) rfl rfl ?_ stop
    rw [hco]
    exact hplace

omit [DecidableEq θ] in
theorem Distinct.tryResume {s : World ι θ n} (h : s.Distinct) (i : ι) (coName : String) :
    (s.setView i ((s.view i).tryResume coName).2).Distinct := by
  have hset := names_setView_le ((s.view i).tryResume_addsAtMost coName)
  rw [zero_add] at hset
  exact ⟨hset.trans h.names, h.nodup⟩

theorem Distinct.step {s s' : World ι θ n} (h : s.Distinct) {a : Act ι θ} (hok : s.NewName a)
    (hs : s.step now a = some s') : s'.Distinct := by
  cases a with
  | submit i uuid created =>
    cases created with
    | false =>
      rw [← Option.some.inj hs]
      exact h
    | true =>
      have hadds : (s.view i).AddsAtMost {(s.sched i).name ++ "|" ++ uuid}
          ((s.view i).submit now uuid) := (View.names_pushReady (s.view i) _).le
      have hset := names_setView_le hadds
      rw [step_submit, Option.some.injEq] at hs
      rw [← hs]
      refine ⟨?_, List.nodup_cons.2 ⟨hok rfl, h.nodup⟩⟩
      rw [← Multiset.cons_coe, ← Multiset.singleton_add]
      exact hset.trans (add_le_add_right h.names _)
  | tryResume i coName =>
    obtain ⟨panics, rfl⟩ := step_tryResume hs
    exact ⟨(h.tryResume i coName).names, h.nodup⟩
  | schedule i t timeoutTime =>
    obtain ⟨-, rfl⟩ := step_schedule hs
    exact h.release (w := s) rfl rfl (Multiset.le_add_left _ _) rfl
  | turn i => exact h.turn hs
  | call i k =>
    obtain ⟨t, timeoutTime, co, hr, rfl⟩ := step_call hs
    refine h.setPhase (w := s) rfl ?_
    rw [running_eq hr]
    simp [Phase.co]
  | leave i o =>
    obtain ⟨t, timeoutTime, co, hr, rfl⟩ := step_leave hs
    refine h.setPhase (w := s.setLocals t _) rfl (add_le_add_right ?_ _)
    show OpenCoroutine.names {(co.leave (s.locals t) o).2.1} ≤ OpenCoroutine.names (s.phase i).co
    rw [running_eq hr]
    simp [Phase.co, CoroutineImpl.leave_name]

end World

/-- The coroutines that a system of schedulers keeps are alive. -/
def liveKinds : Kinds where
  ready co := co.Queued
  suspended co := co.done = false
  syscall co := co.done = false ∧ co.state.isSystemCall = true
  resumed co := co.done = false
  yielded co result := co.Yielded result
  finished _ := True

theorem liveKinds_closed : liveKinds.Closed where
  wake _ h := ⟨h, .inl rfl⟩
  timeOut _ _ _ _ h _ := ⟨h.1, .inr (.inr rfl)⟩
  pass _ h _ := ⟨h.1, .inr (.inr h.2)⟩
  resume _ _ _ _ h _ := ⟨h.1, .inr (.inr rfl)⟩
  run _ h _ := h.alive
  rerun _ h _ := h.alive
  suspend co timestamp h := by
    obtain ⟨hst, ⟨hdone, -⟩ | he | ⟨message, he⟩⟩ := h
    · exact ⟨⟨hdone, .inr (.inl ⟨timestamp, hst⟩)⟩, hdone⟩
    · cases he
    · cases he
  table co call state h := by
    obtain ⟨hst, ⟨hdone, -⟩ | he | ⟨message, he⟩⟩ := h
    · exact ⟨hdone, by rw [hst]; rfl⟩
    · cases he
    · cases he
  finish _ _ _ _ := trivial

namespace View

variable {n : Nat} {now : Nat → Nat} {v : View n}

theorem wakeEntry_ne_unreachable (entry : List Co) (v : View n) (message : String) :
    (wakeEntry now entry v).1 ≠ some (.unreachable message) := by
  induction entry generalizing v with
  | nil => exact fun he => by cases he
  | cons co entry ih =>
    rw [View.wakeEntry]
    split
    · exact ih _
    · exact fun he => by cases he

theorem timeoutEntry_live (time : Nat) (entry : List String) (h : v.OfKind liveKinds) :
    (timeoutEntry time entry v).1 = none := by
  induction entry generalizing v with
  | nil => rfl
  | cons coName entry ih =>
    rw [View.timeoutEntry]
    split
    · exact ih h
    · rename_i co syscall he
      obtain ⟨hset, hco⟩ := h.setSyscall he
      obtain ⟨co', hco', -⟩ := timeOut_eq hco.2
      rw [hco']
      have hfire : ((v.setSyscall syscall).fire co time).OfKind liveKinds :=
        ⟨hset.ready, hset.suspended, hset.syscall⟩
      exact ih (hfire.pushReady (timeOut_ready liveKinds_closed hco hco'))

theorem wakeTimedOut_live (count : Nat) (h : v.OfKind liveKinds) :
    (wakeTimedOut now count v).1 = none := by
  refine (wakeTimedOut_loop (R := fun v r => v.OfKind liveKinds → r.2.OfKind liveKinds ∧ r.1 = none)
    (fun _ h => ⟨h, rfl⟩) (fun _ h => ⟨⟨h.ready, h.suspended, h.syscall⟩, rfl⟩)
    (fun _ _ _ h h' hv => h' (h hv).1) ?_ count v h).2
  intro v time entry syscallSuspend _ _ h
  have hset : (v.tick.setSyscallSuspend syscallSuspend).OfKind liveKinds :=
    ⟨h.ready, h.suspended, h.syscall⟩
  exact ⟨hset.timeoutEntry liveKinds_closed _ _, timeoutEntry_live _ _ hset⟩

theorem checkReady_ne_unreachable (h : v.OfKind liveKinds) (message : String) :
    (v.checkReady now).1 ≠ some (.unreachable message) := by
  have hwake : ∀ message, (wakeSuspended now v.sched.suspend.entryLen v).1 ≠
      some (.unreachable message) :=
    wakeSuspended_loop (R := fun _ r => ∀ message, r.1 ≠ some (.unreachable message))
      (fun _ _ he => by cases he) (fun _ _ he => by cases he) (fun _ _ _ _ h' => h')
      (fun _ _ entry _ _ _ => wakeEntry_ne_unreachable entry.inner _) _ v
  have hset := h.wakeSuspended now liveKinds_closed v.sched.suspend.entryLen
  rw [checkReady]
  split
  · rename_i v' he
    rw [he] at hset
    rw [wakeTimedOut_live _ hset]
    exact fun he => by cases he
  · rename_i stop v' he
    have hne := hwake message
    rwa [he] at hne

theorem tryResume_live (h : v.OfKind liveKinds) (coName : String) :
    (v.tryResume coName).1 = none := by
  rw [View.tryResume]
  split
  · rfl
  · rename_i co syscall he
    obtain ⟨-, hst⟩ := (h.setSyscall he).2
    cases hco : co.state with
    | systemCall y call state => simp only [CoroutineImpl.syscall_of_systemCall hco]
    | created | ready | running | suspend _ _ | complete _ | error _ =>
      rw [hco] at hst
      cases hst

theorem place_ne_unreachable (v : View n) (co : Co) (result : CoroutineState Unit Unit)
    (message : String) : (v.place now co result).1 ≠ some (.unreachable message) := by
  cases result with
  | suspend y timestamp =>
    rw [View.place]
    split <;> exact fun he => by cases he
  | systemCall y call state => cases state <;> exact fun he => by cases he
  | created | ready | running | complete _ | error _ => exact fun he => by cases he

end View

namespace World

variable {ι θ : Type*} {n : Nat} {now : Nat → Nat} [Fintype ι]

/-- No coroutine is in two places, those that are kept are alive, and no scheduler has
panicked. -/
structure Kept (s : World ι θ n) : Prop where
  distinct : s.Distinct
  live : s.OfKind liveKinds
  panics : s.panics = []

omit [Fintype ι] in
theorem live_alive {s : World ι θ n} (h : s.OfKind liveKinds) {i : ι} {t : θ} {timeoutTime : Nat}
    {co : Co} (hp : s.phase i = .resuming t timeoutTime co) : co.done = false := by
  have hphase := h.phase i
  rwa [hp] at hphase

omit [Fintype ι] in
theorem finish_panics (s : World ι θ n) (co : Co) (result : CoroutineState Unit Unit) :
    (s.finish co result).panics = s.panics := by
  cases result <;> rfl

theorem Kept.tick {s : World ι θ n} (h : s.Kept) : s.tick.Kept :=
  ⟨⟨h.distinct.names, h.distinct.nodup⟩, h.live.tick, h.panics⟩

variable [DecidableEq ι] [DecidableEq θ]

omit [Fintype ι] in
theorem enter_panics {s : World ι θ n} {co : Co} (hco : co.Queued) (i : ι) (t : θ)
    (timeoutTime : Nat) : (s.enter now i t timeoutTime co).panics = s.panics := by
  have hdone := (co.resumeEnter_same co.name (s.locals t) (now s.readings)).2
  unfold World.enter
  split
  · rfl
  · rename_i he
    rw [he, hco.alive] at hdone
    split
    · rename_i hd
      rw [hd] at hdone
      cases hdone
    · rfl

omit [Fintype ι] in
theorem enter_submitted (s : World ι θ n) (i : ι) (t : θ) (timeoutTime : Nat) (co : Co) :
    (s.enter now i t timeoutTime co).submitted = s.submitted := by
  unfold World.enter
  split
  · rfl
  · split <;> rfl

omit [Fintype ι] in
theorem turn_submitted {s s' : World ι θ n} {i : ι} (hs : s.turn now i = some s') :
    s'.submitted = s.submitted := by
  cases turns hs with
  | timedOut | check | checked | popsNone | fails => rfl
  | @checkStops t timeoutTime leftTime stop v hp hv => cases stop <;> rfl
  | pops => exact enter_submitted _ _ _ _ _
  | places => exact finish_submitted _ _ _
  | @placeStops t timeoutTime co result stop v hp hv => cases stop <;> rfl

theorem Kept.turn {s s' : World ι θ n} (h : s.Kept) {i : ι} (hs : s.turn now i = some s') :
    s'.Kept := by
  refine ⟨h.distinct.turn hs, h.live.turn liveKinds_closed h.live.ready hs, ?_⟩
  cases turns hs with
  | timedOut | check | checked | popsNone | fails => exact h.panics
  | @checkStops t timeoutTime leftTime stop v hp hv =>
    cases stop with
    | err e => exact h.panics
    | unreachable message =>
      have hne : ((s.view i).checkReady now).1 ≠ some (.unreachable message) :=
        View.checkReady_ne_unreachable (h.live.view i) message
      rw [hv] at hne
      exact absurd rfl hne
  | @pops t timeoutTime leftTime co ready queue hp hq =>
    have hqueued := ((h.live.popFront hq).2 co rfl)
    rw [enter_panics hqueued]
    exact h.panics
  | places => exact (finish_panics _ _ _).trans h.panics
  | @placeStops t timeoutTime co result stop v hp hv =>
    cases stop with
    | err e => exact h.panics
    | unreachable message =>
      have hne : ((s.view i).place now co result).1 ≠ some (.unreachable message) :=
        (s.view i).place_ne_unreachable co result message
      rw [hv] at hne
      exact absurd rfl hne

omit [DecidableEq θ] in
theorem Kept.tryResume {s : World ι θ n} (h : s.Kept) (i : ι) (coName : String) :
    (s.setView i ((s.view i).tryResume coName).2).Kept :=
  ⟨h.distinct.tryResume i coName, h.live.tryResume liveKinds_closed i coName, h.panics⟩

omit [Fintype ι] in
theorem live_step {s s' : World ι θ n} (h : s.OfKind liveKinds) {a : Act ι θ}
    (hs : s.step now a = some s') : s'.OfKind liveKinds := by
  cases a with
  | submit i uuid created =>
    cases created with
    | false =>
      rw [← Option.some.inj hs]
      exact h
    | true =>
      rw [step_submit, Option.some.injEq] at hs
      subst hs
      have hnew : liveKinds.ready ⟨(s.sched i).name ++ "|" ++ uuid, .ready, false⟩ :=
        ⟨rfl, .inl rfl⟩
      exact (h.setView i ((h.view i).submit now uuid hnew)).of_eq rfl rfl rfl rfl
  | tryResume i coName =>
    obtain ⟨panics, rfl⟩ := step_tryResume hs
    exact (h.tryResume liveKinds_closed i coName).of_eq rfl rfl rfl rfl
  | schedule i t timeoutTime =>
    obtain ⟨-, rfl⟩ := step_schedule hs
    exact h.setPhase i trivial
  | turn i => exact h.turn liveKinds_closed h.ready hs
  | call i k =>
    obtain ⟨t, timeoutTime, co, hr, rfl⟩ := step_call hs
    exact h.setPhase i ((co.call_done k).trans (live_alive h (running_eq hr)))
  | leave i o =>
    obtain ⟨t, timeoutTime, co, hr, rfl⟩ := step_leave hs
    have hdone := live_alive h (running_eq hr)
    refine (h.setLocals t _).setPhase i ?_
    obtain ⟨result, co', l', he⟩ : ∃ result co' l', co.leave (s.locals t) o = (result, co', l') :=
      ⟨_, _, _, rfl⟩
    rw [he]
    cases result with
    | error e => trivial
    | ok result => exact CoroutineImpl.yielded_of_ok hdone he

omit [Fintype ι] [DecidableEq ι] [DecidableEq θ] in
theorem Initial.live {s : World ι θ n} (h : s.Initial) : s.OfKind liveKinds := h.ofKind liveKinds

theorem Kept.step {s s' : World ι θ n} (h : s.Kept) {a : Act ι θ} (hok : s.NewName a)
    (hs : s.step now a = some s') : s'.Kept := by
  refine ⟨h.distinct.step hok hs, live_step h.live hs, ?_⟩
  cases a with
  | submit i uuid created =>
    cases created with
    | false =>
      rw [← Option.some.inj hs]
      exact h.panics
    | true =>
      rw [step_submit, Option.some.injEq] at hs
      rw [← hs]
      exact h.panics
  | tryResume i coName =>
    have hnone := View.tryResume_live (h.live.view i) coName
    simp only [World.step] at hs
    split at hs
    · rename_i message v he
      rw [he] at hnone
      cases hnone
    · rw [← Option.some.inj hs]
      exact h.panics
  | schedule i t timeoutTime =>
    obtain ⟨-, rfl⟩ := step_schedule hs
    exact h.panics
  | turn i => exact (h.turn hs).panics
  | call i k =>
    obtain ⟨t, timeoutTime, co, -, rfl⟩ := step_call hs
    exact h.panics
  | leave i o =>
    obtain ⟨t, timeoutTime, co, -, rfl⟩ := step_leave hs
    exact h.panics

omit [DecidableEq ι] [DecidableEq θ] in
theorem Initial.kept {s : World ι θ n} (h : s.Initial) : s.Kept := by
  have hplaced : s.Placed id := h.placed
  exact ⟨hplaced.distinct, h.live, h.panics⟩

end World

end OpenCoroutine
