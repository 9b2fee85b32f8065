import OpenCoroutine.NoneLost
import OpenCoroutine.Replay

/-! What the listeners of the schedulers hear of a coroutine. It is created once, then it is
resumed and suspended or put into a system call in turns, by any schedulers, and it ends at
most once. The callback that follows `on_resume` comes from the same scheduler and has the same
deadline. -/

namespace OpenCoroutine

open Family Transition Replay

/-- The callbacks of `Listener`, the coroutine apart. -/
inductive Callback where
  | onCreate
  | onResume (timeoutTime : Nat)
  | onSuspend (timeoutTime : Nat)
  | onSyscall (timeoutTime : Nat) (syscall : Syscall) (state : SyscallState)
  | onComplete (timeoutTime : Nat)
  | onError (timeoutTime : Nat) (message : String)
  deriving DecidableEq, Repr

/-- The callback of `try_timeout_schedule` for what a coroutine has yielded. -/
def Callback.ofResult (timeoutTime : Nat) : CoroutineState Unit Unit → Option Callback
  | .suspend () _ => some (.onSuspend timeoutTime)
  | .systemCall () syscall state => some (.onSyscall timeoutTime syscall state)
  | .complete () => some (.onComplete timeoutTime)
  | .error message => some (.onError timeoutTime message)
  | .created | .ready | .running => none

inductive Life (ι : Type*) where
  | unborn
  | waiting
  | running (i : ι) (timeoutTime : Nat)
  | ended
  deriving DecidableEq, Repr

/-- The life of a coroutine as the listeners hear it. -/
def Life.hear {ι : Type*} [DecidableEq ι] : Life ι → ι × Callback → Option (Life ι)
  | .unborn, (_, .onCreate) => some .waiting
  | .waiting, (i, .onResume timeoutTime) => some (.running i timeoutTime)
  | .running i timeoutTime, (j, .onSuspend timeoutTime')
  | .running i timeoutTime, (j, .onSyscall timeoutTime' _ _) =>
    if j = i ∧ timeoutTime' = timeoutTime then some .waiting else none
  | .running i timeoutTime, (j, .onComplete timeoutTime')
  | .running i timeoutTime, (j, .onError timeoutTime' _) =>
    if j = i ∧ timeoutTime' = timeoutTime then some .ended else none
  | _, _ => none

/-- The callback that closes what `on_resume` has opened. -/
theorem Life.hear_parks {ι : Type*} [DecidableEq ι] (i : ι) (timeoutTime : Nat)
    {result : CoroutineState Unit Unit}
    (h : (∃ timestamp, result = .suspend () timestamp) ∨ result.isSystemCall = true) :
    ∃ callback, Callback.ofResult timeoutTime result = some callback ∧
      hear (.running i timeoutTime) (i, callback) = some .waiting := by
  rcases h with ⟨timestamp, rfl⟩ | h
  · exact ⟨_, rfl, if_pos ⟨rfl, rfl⟩⟩
  · cases result with
    | systemCall y syscall state => exact ⟨_, rfl, if_pos ⟨rfl, rfl⟩⟩
    | created | ready | running | suspend | complete | error => cases h

theorem Life.hear_ends {ι : Type*} [DecidableEq ι] (i : ι) (timeoutTime : Nat)
    {result : CoroutineState Unit Unit}
    (h : result = .complete () ∨ ∃ message, result = .error message) :
    ∃ callback, Callback.ofResult timeoutTime result = some callback ∧
      hear (.running i timeoutTime) (i, callback) = some .ended := by
  rcases h with rfl | ⟨message, rfl⟩
  · exact ⟨_, rfl, if_pos ⟨rfl, rfl⟩⟩
  · exact ⟨_, rfl, if_pos ⟨rfl, rfl⟩⟩

/-- The name of the coroutine of a call of `resume_with`, and the deadline of the call of
`try_timeout_schedule` that it is in. -/
def Phase.runs {θ : Type*} : Phase θ → Option (String × Nat)
  | .resuming _ timeoutTime co | .returned _ timeoutTime co _ => some (co.name, timeoutTime)
  | .idle | .top .. | .checking .. | .popping .. => none

theorem Phase.names_of_runs {θ : Type*} {phase : Phase θ} {coName : String} {timeoutTime : Nat}
    (h : phase.runs = some (coName, timeoutTime)) : names phase.co = {coName} := by
  cases phase with
  | idle | top | checking | popping => cases h
  | resuming t timeoutTime co | returned t timeoutTime co result =>
    cases h
    rfl

namespace World

variable {ι θ : Type*} {n : Nat} {now : Nat → Nat}

/-- The callback that a step comes with, under the name of the coroutine. -/
def heard (now : Nat → Nat) (s : World ι θ n) : Act ι θ → Option (String × ι × Callback)
  | .submit i uuid true =>
    if ((s.view i).submit now uuid).1 = none then some ((s.sched i).name ++ "|" ++ uuid, i, .onCreate)
    else none
  | .turn i =>
    match s.phase i with
    | .popping _ timeoutTime _ =>
      ((s.sched i).ready.popFront s.queue).1.map fun co => (co.name, i, .onResume timeoutTime)
    | .returned _ timeoutTime co (.ok result) =>
      (Callback.ofResult timeoutTime result).map fun callback => (co.name, i, callback)
    | _ => none
  | _ => none

variable [Fintype ι]

/-- The names of the coroutines that wait to be resumed. -/
def waiting (s : World ι θ n) : Multiset String :=
  OpenCoroutine.names s.queue.contents +
    total (fun _ sched => OpenCoroutine.names sched.parked) s.sched

/-- Where the coroutine is at a stage of its life. -/
def Stage (s : World ι θ n) (coName : String) : Life ι → Prop
  | .unborn => coName ∉ s.submitted
  | .waiting => coName ∈ s.waiting
  | .running i timeoutTime => (s.phase i).runs = some (coName, timeoutTime)
  | .ended => coName ∈ OpenCoroutine.names ↑s.finished

theorem count_names (s : World ι θ n) (coName : String) :
    s.names.count coName = s.waiting.count coName +
      (total (fun _ phase => OpenCoroutine.names phase.co) s.phase).count coName +
        (OpenCoroutine.names ↑s.finished).count coName := by
  simp only [World.names, waiting, Multiset.count_add]
  omega

variable [DecidableEq ι]

/-- A coroutine that is being resumed, and all the others that are. -/
theorem total_of_runs {phase : ι → Phase θ} {i : ι} {coName : String} {timeoutTime : Nat}
    (h : (phase i).runs = some (coName, timeoutTime)) :
    total (fun _ phase => OpenCoroutine.names phase.co) phase = {coName} +
      total (fun _ phase => OpenCoroutine.names phase.co) (Function.update phase i .idle) := by
  refine total_take (fun (_ : ι) (phase : Phase θ) => OpenCoroutine.names phase.co) phase ?_
  show OpenCoroutine.names (phase i).co = {coName} + OpenCoroutine.names 0
  rw [Phase.names_of_runs h, names_zero, add_zero]

theorem Placed.runs_unique {s : World ι θ n} (h : s.Placed now) {i j : ι} {coName : String}
    {timeoutTime timeoutTime' : Nat} (hi : (s.phase i).runs = some (coName, timeoutTime))
    (hj : (s.phase j).runs = some (coName, timeoutTime')) : i = j := by
  by_contra hij
  have hle : s.names.count coName ≤ 1 := by
    rw [h.names, Multiset.coe_count]
    exact List.nodup_iff_count_le_one.1 h.nodup coName
  have hj' : (Function.update s.phase i .idle j).runs = some (coName, timeoutTime') := by
    rw [Function.update_of_ne (Ne.symm hij)]
    exact hj
  rw [count_names, total_of_runs hi, total_of_runs hj', Multiset.count_add, Multiset.count_add,
    Multiset.count_singleton_self] at hle
  omega

/-- The part of the system that a stage counts in. -/
theorem Placed.stage_count {s : World ι θ n} (h : s.Placed now) {coName : String} {life : Life ι}
    (hl : s.Stage coName life) : match life with
      | .unborn => s.names.count coName = 0
      | .waiting => 1 ≤ s.waiting.count coName
      | .running _ _ => 1 ≤ (total (fun _ phase => OpenCoroutine.names phase.co) s.phase).count coName
      | .ended => 1 ≤ (OpenCoroutine.names ↑s.finished).count coName := by
  cases life with
  | unborn =>
    rw [h.names, Multiset.coe_count]
    exact List.count_eq_zero_of_not_mem hl
  | waiting => exact Multiset.one_le_count_iff_mem.2 hl
  | running i timeoutTime =>
    rw [total_of_runs hl, Multiset.count_add, Multiset.count_singleton_self]
    exact Nat.le_add_right _ _
  | ended => exact Multiset.one_le_count_iff_mem.2 hl

/-- A coroutine is at one stage only. -/
theorem Placed.stage_unique {s : World ι θ n} (h : s.Placed now) {coName : String}
    {life life' : Life ι} (hl : s.Stage coName life) (hl' : s.Stage coName life') :
    life = life' := by
  have hle : s.names.count coName ≤ 1 := by
    rw [h.names, Multiset.coe_count]
    exact List.nodup_iff_count_le_one.1 h.nodup coName
  have hcount := s.count_names coName
  have hw := h.stage_count hl
  have hw' := h.stage_count hl'
  cases life with
  | unborn =>
    cases life' with
    | unborn => rfl
    | waiting | running | ended =>
      dsimp only at hw hw'
      omega
  | waiting =>
    cases life' with
    | waiting => rfl
    | unborn | running | ended =>
      dsimp only at hw hw'
      omega
  | running i timeoutTime =>
    cases life' with
    | running j timeoutTime' =>
      have hij : i = j := h.runs_unique hl hl'
      subst hij
      have hsame := Option.some.inj (hl.symm.trans hl')
      rw [(Prod.mk.inj hsame).2]
    | unborn | waiting | ended =>
      dsimp only at hw hw'
      omega
  | ended =>
    cases life' with
    | ended => rfl
    | unborn | waiting | running =>
      dsimp only at hw hw'
      omega

theorem waiting_setView {s : World ι θ n} {i : ι} {x : Multiset String} {r : Option Stop × View n}
    (h : View.Adds now (s.view i) x r) : (s.setView i r.2).waiting = x + s.waiting := by
  have ht := total_update_add (fun (_ : ι) (sched : SchedulerImpl n) =>
    OpenCoroutine.names sched.parked) s.sched i r.2.sched
  have hn := h.names
  simp only [View.held, names_add, World.view] at hn
  ext name
  have ht' := congrArg (Multiset.count name) ht
  have hn' := congrArg (Multiset.count name) hn
  simp only [Multiset.count_add] at ht' hn'
  simp only [waiting, World.setView, Multiset.count_add]
  omega

theorem waiting_popFront {s : World ι θ n} {i : ι} {co : Option Co} {ready : LocalQueue n}
    {queue : WorkStealQueue Co n} (hq : (s.sched i).ready.popFront s.queue = (co, ready, queue)) :
    s.waiting = OpenCoroutine.names ↑co.toList +
      (s.setView i { s.view i with queue, sched := { s.sched i with ready } }).waiting := by
  have hg := (s.sched i).ready.popFront_gives s.queue
  rw [hq] at hg
  have hsched : total (fun _ sched => OpenCoroutine.names sched.parked)
      (Function.update s.sched i { s.sched i with ready }) =
        total (fun (_ : ι) sched => OpenCoroutine.names sched.parked) s.sched :=
    total_same (fun (_ : ι) (sched : SchedulerImpl n) => OpenCoroutine.names sched.parked)
      s.sched rfl
  show _ = _ + (OpenCoroutine.names queue.contents + total (fun _ sched =>
    OpenCoroutine.names sched.parked) (Function.update s.sched i { s.sched i with ready }))
  rw [hsched, waiting, hg.contents, names_add, add_assoc]

omit [DecidableEq ι] in
theorem Stage.frame {s s' : World ι θ n} {coName : String} {life : Life ι}
    (h : s.Stage coName life) (hsubmitted : coName ∉ s.submitted → coName ∉ s'.submitted)
    (hwaiting : coName ∈ s.waiting → coName ∈ s'.waiting)
    (hruns : ∀ i timeoutTime, (s.phase i).runs = some (coName, timeoutTime) →
      (s'.phase i).runs = some (coName, timeoutTime))
    (hfinished : coName ∈ OpenCoroutine.names ↑s.finished →
      coName ∈ OpenCoroutine.names ↑s'.finished) : s'.Stage coName life := by
  cases life with
  | unborn => exact hsubmitted h
  | waiting => exact hwaiting h
  | running i timeoutTime => exact hruns i timeoutTime h
  | ended => exact hfinished h

/-- A phase that runs the same coroutine keeps all stages. -/
theorem Stage.setPhase {s : World ι θ n} {coName : String} {life : Life ι}
    (h : s.Stage coName life) (i : ι) {phase : Phase θ} (hruns : phase.runs = (s.phase i).runs) :
    (s.setPhase i phase).Stage coName life := by
  refine h.frame id id (fun j timeoutTime hj => ?_) id
  by_cases hji : j = i
  · subst hji
    rw [setPhase_phase, hruns]
    exact hj
  · rw [setPhase_phase_ne _ hji]
    exact hj

theorem Stage.setView {s : World ι θ n} {coName : String} {life : Life ι}
    (h : s.Stage coName life) {i : ι} {r : Option Stop × View n}
    (hr : View.Adds now (s.view i) 0 r) : (s.setView i r.2).Stage coName life := by
  refine h.frame id (fun hw => ?_) (fun _ _ => id) id
  rw [waiting_setView hr, zero_add]
  exact hw

variable [DecidableEq θ]

omit [DecidableEq ι] [DecidableEq θ] in
theorem Stage.giveBack {s : World ι θ n} {coName : String} {life : Life ι}
    (h : s.Stage coName life) (result : Except IoError Nat) :
    (s.giveBack result).Stage coName life := h.frame id id (fun _ _ => id) id

omit [DecidableEq θ] in
theorem Stage.popNone {s : World ι θ n} {coName : String} {life : Life ι}
    (h : s.Stage coName life) {i : ι} {ready : LocalQueue n} {queue : WorkStealQueue Co n}
    (hq : (s.sched i).ready.popFront s.queue = (none, ready, queue)) :
    (s.setView i { s.view i with queue, sched := { s.sched i with ready } }).Stage coName life := by
  have hwaiting := waiting_popFront hq
  rw [Option.toList_none, Multiset.coe_nil, names_zero, zero_add] at hwaiting
  refine h.frame id (fun hw => ?_) (fun _ _ => id) id
  rw [← hwaiting]
  exact hw

theorem Placed.pops_moves {s : World ι θ n} (h : s.Placed now) {i : ι} {t : θ}
    {timeoutTime leftTime : Nat} {co : Co} {ready : LocalQueue n} {queue : WorkStealQueue Co n}
    (hp : s.phase i = .popping t timeoutTime leftTime)
    (hq : (s.sched i).ready.popFront s.queue = (some co, ready, queue))
    (hready : co.Resumable (now s.readings)) :
    Moves Life.hear Stage s ((s.setView i { s.view i with
      queue, sched := { s.sched i with ready } }).enter now i t timeoutTime co)
      (s.heard now (.turn i)) := by
  have hheard : s.heard now (.turn i) = some (co.name, i, .onResume timeoutTime) := by
    simp [heard, hp, hq]
  have hwaiting := waiting_popFront hq
  rw [Option.toList_some, Multiset.coe_singleton, names_singleton] at hwaiting
  obtain ⟨co', l, -, hname, -, he⟩ := enter_eq (s := s.setView i { s.view i with
    queue, sched := { s.sched i with ready } }) hready i t timeoutTime
  rw [hheard, he]
  refine .at (fun life hl => ?_) fun coName hne life hl => ?_
  · have hstage : s.Stage co.name .waiting := by
      rw [Stage, hwaiting]
      exact Multiset.mem_add.2 (.inl (Multiset.mem_singleton_self _))
    have hlife := h.stage_unique hl hstage
    subst hlife
    refine ⟨.running i timeoutTime, rfl, ?_⟩
    rw [Stage, setPhase_phase, Phase.runs, hname]
  · refine hl.frame id (fun hw => ?_) (fun j time hj => ?_) id
    · rw [hwaiting] at hw
      exact (Multiset.mem_add.1 hw).resolve_left fun hm => hne (Multiset.mem_singleton.1 hm)
    · by_cases hji : j = i
      · subst hji
        rw [hp] at hj
        cases hj
      · rw [setPhase_phase_ne _ hji]
        exact hj

omit [DecidableEq θ] in
theorem Placed.places_moves (hmono : Monotone now) {s : World ι θ n} (h : s.Placed now) {i : ι}
    {t : θ} {timeoutTime : Nat} {co : Co} {result : CoroutineState Unit Unit} {v : View n}
    (hp : s.phase i = .returned t timeoutTime co (.ok result)) (hy : co.Yielded result)
    (hv : (s.view i).place now co result = (none, v)) :
    Moves Life.hear Stage s (((s.setView i v).finish co result).setPhase i (.top t timeoutTime))
      (s.heard now (.turn i)) := by
  have hstage : s.Stage co.name (.running i timeoutTime) := by rw [Stage, hp, Phase.runs]
  have hother : ∀ {coName : String} {j : ι} {time : Nat}, coName ≠ co.name →
      (s.phase j).runs = some (coName, time) → j ≠ i := by
    rintro coName j time hne hj rfl
    rw [hp] at hj
    exact hne (congrArg Prod.fst (Option.some.inj hj)).symm
  obtain ⟨hst, ⟨hdone, hresult⟩ | hend⟩ := hy
  · obtain ⟨callback, hcallback, hhear⟩ := Life.hear_parks i timeoutTime hresult
    have hheard : s.heard now (.turn i) = some (co.name, i, callback) := by
      simp [heard, hp, hcallback]
    have hnew : co.name ∉ (s.sched i).syscall := by
      apply notMem_syscall h.sound
      · rw [h.names]
        exact h.nodup
      · rw [hp]
        exact Multiset.mem_singleton_self co
    have ha := View.place_adds hmono (h.sound.view i) hst hdone hresult hnew
    rw [hv] at ha
    have hwaiting := waiting_setView ha
    have hfinish : (s.setView i v).finish co result = s.setView i v := by
      rcases hresult with ⟨timestamp, rfl⟩ | hc
      · rfl
      · cases result <;> first | rfl | cases hc
    rw [hheard, hfinish]
    refine .at (fun life hl => ?_) fun coName hne life hl => ?_
    · have hlife := h.stage_unique hl hstage
      subst hlife
      refine ⟨.waiting, hhear, ?_⟩
      show co.name ∈ (s.setView i v).waiting
      rw [hwaiting]
      exact Multiset.mem_add.2 (.inl (Multiset.mem_singleton_self _))
    · refine hl.frame id (fun hw => ?_) (fun j time hj => ?_) id
      · show coName ∈ (s.setView i v).waiting
        rw [hwaiting]
        exact Multiset.mem_add.2 (.inr hw)
      · rw [setPhase_phase_ne _ (hother hne hj)]
        exact hj
  · obtain ⟨callback, hcallback, hhear⟩ := Life.hear_ends i timeoutTime hend
    have hheard : s.heard now (.turn i) = some (co.name, i, callback) := by
      simp [heard, hp, hcallback]
    have hview : v = s.view i := by
      rcases hend with rfl | ⟨message, rfl⟩ <;> exact (Prod.mk.inj hv).2.symm
    have ha : View.Adds now (s.view i) 0 (none, s.view i) := .refl (h.sound.view i)
    have hwaiting := waiting_setView ha
    rw [zero_add] at hwaiting
    have hfinish : (s.setView i v).finish co result =
        { s.setView i (s.view i) with finished := co :: s.finished } := by
      rw [hview]
      rcases hend with rfl | ⟨message, rfl⟩ <;> rfl
    rw [hheard, hfinish]
    refine .at (fun life hl => ?_) fun coName hne life hl => ?_
    · have hlife := h.stage_unique hl hstage
      subst hlife
      refine ⟨.ended, hhear, ?_⟩
      show co.name ∈ OpenCoroutine.names ↑(co :: s.finished)
      rw [names_cons]
      exact Multiset.mem_add.2 (.inl (Multiset.mem_singleton_self _))
    · refine hl.frame id (fun hw => ?_) (fun j time hj => ?_) fun hf => ?_
      · show coName ∈ (s.setView i (s.view i)).waiting
        rw [hwaiting]
        exact hw
      · rw [setPhase_phase_ne _ (hother hne hj)]
        exact hj
      · show coName ∈ OpenCoroutine.names ↑(co :: s.finished)
        rw [names_cons]
        exact Multiset.mem_add.2 (.inr hf)

theorem Placed.turn_moves (hmono : Monotone now) {s s' : World ι θ n} (h : s.Placed now) {i : ι}
    (hs : s.turn now i = some s') :
    Moves Life.hear Stage s s' (s.heard now (.turn i)) := by
  cases h.goes hmono hs with
  | timedOut hp | check hp =>
    have hsilent : s.heard now (.turn i) = none := by simp [heard, hp]
    rw [hsilent]
    refine .silent fun coName life hl => ?_
    exact Stage.setPhase (hl.frame id id (fun _ _ => id) id) i (by
      rw [Phase.runs]
      exact (congrArg Phase.runs hp).symm)
  | @checked t timeoutTime leftTime v hp hv =>
    have hsilent : s.heard now (.turn i) = none := by simp [heard, hp]
    have ha := View.checkReady_adds hmono (h.sound.view i)
    rw [hv] at ha
    rw [hsilent]
    exact .silent fun coName life hl => (hl.setView ha).setPhase i (congrArg Phase.runs hp).symm
  | popsNone hp hq =>
    have hsilent : s.heard now (.turn i) = none := by simp [heard, hp, hq]
    rw [hsilent]
    exact .silent fun _ _ hl => ((hl.popNone hq).giveBack _).setPhase i (congrArg Phase.runs hp).symm
  | pops hp hq hready => exact h.pops_moves hp hq hready
  | places hp hy hv => exact h.places_moves hmono hp hy hv

theorem Placed.step_moves (hmono : Monotone now) {s s' : World ι θ n} (h : s.Placed now)
    {a : Act ι θ} (hok : s.Disciplined a) (hs : s.step now a = some s') :
    Moves Life.hear Stage s s' (s.heard now a) := by
  cases a with
  | submit i uuid created =>
    cases created with
    | false =>
      cases hs
      exact .silent fun _ _ hl => hl
    | true =>
      have ha := View.submit_adds (h.sound.view i) uuid
      have hwaiting := waiting_setView ha
      have hheard : s.heard now (.submit i uuid true) =
          some ((s.sched i).name ++ "|" ++ uuid, i, .onCreate) := by
        rw [heard, if_pos ha.through]
      rw [step_submit, Option.some.injEq] at hs
      subst hs
      rw [hheard]
      refine .at (fun life hl => ?_) fun coName hne life hl => ?_
      · have hlife := h.stage_unique hl (show s.Stage _ .unborn from hok rfl)
        subst hlife
        refine ⟨.waiting, rfl, ?_⟩
        show _ ∈ (s.setView i ((s.view i).submit now uuid).2).waiting
        rw [hwaiting]
        exact Multiset.mem_add.2 (.inl (Multiset.mem_singleton_self _))
      · refine hl.frame (fun hnew hm => ?_) (fun hw => ?_) (fun _ _ => id) id
        · exact (List.mem_cons.1 hm).elim hne hnew
        · show coName ∈ (s.setView i ((s.view i).submit now uuid).2).waiting
          rw [hwaiting]
          exact Multiset.mem_add.2 (.inr hw)
  | tryResume i coName =>
    have ha := View.tryResume_adds (h.sound.view i) coName
    obtain ⟨panics, rfl⟩ := step_tryResume hs
    exact .silent fun _ _ hl => (hl.setView ha).frame id id (fun _ _ => id) id
  | schedule i t timeoutTime =>
    obtain ⟨hp, rfl⟩ := step_schedule hs
    exact .silent fun _ _ hl => hl.setPhase i (congrArg Phase.runs hp).symm
  | turn i => exact h.turn_moves hmono hs
  | call i k =>
    obtain ⟨t, timeoutTime, co, hr, rfl⟩ := step_call hs
    refine .silent fun _ _ hl => hl.setPhase i ?_
    rw [running_eq hr, Phase.runs, Phase.runs, CoroutineImpl.call_name]
  | leave i o =>
    obtain ⟨t, timeoutTime, co, hr, rfl⟩ := step_leave hs
    have hp := running_eq hr
    have hdone : co.done = false := by
      have hsound := h.sound.phase i
      rwa [hp] at hsound
    obtain ⟨result, co', l, he, hname, -⟩ :=
      CoroutineImpl.leave_yielded (l := s.locals t) hdone (hok _ hr)
    refine .silent fun _ _ hl => Stage.setPhase (hl.frame id id (fun _ _ => id) id) i ?_
    show (some ((co.leave (s.locals t) o).2.1.name, timeoutTime) : Option (String × Nat)) =
      (s.phase i).runs
    rw [he, hname, hp]
    rfl

variable (now) in
/-- The schedulers with the calls of the listeners so far. -/
def hearing : Recorded (World ι θ n) String (ι × Callback) → Act ι θ →
    Option (Recorded (World ι θ n) String (ι × Callback)) :=
  Replay.step (World.step now) (heard now)

/-- What the listeners hear of a coroutine is a life, up to the stage where the coroutine is. -/
theorem lives_heard (hmono : Monotone now) {s₀ s : Recorded (World ι θ n) String (ι × Callback)}
    (h₀ : s₀.state.Initial) (hlog : s₀.log = [])
    (h : Reaches (hearing now) (fun s a => s.state.Disciplined a) s₀ s) (coName : String) :
    ∃ life, replay Life.hear .unborn (events coName s.log) = some life ∧
      s.state.Stage coName life := by
  have hkeep : ∀ (s : World ι θ n) a t, Placed now s → s.Disciplined a → s.step now a = some t →
      Placed now t := fun _ _ _ hi hok hs => hi.step hmono hok hs
  refine replays hkeep (fun _ _ _ hi hok hs => hi.step_moves hmono hok hs) h₀.placed hlog
    (fun coName => ?_) h coName
  show coName ∉ s₀.state.submitted
  rw [h₀.submitted]
  exact List.not_mem_nil

/-- A coroutine that the other scheduler has stolen. -/
theorem lives_heard_stolen :
    ∃ s : Recorded (World (Fin 2) (Fin 2) 2) String (Fin 2 × Callback),
      events "s|a" s.log = [(0, .onCreate), (1, .onResume 9), (1, .onComplete 9)] ∧
        ∃ life, replay Life.hear .unborn (events "s|a" s.log) = some life ∧
          s.state.Stage "s|a" life := by
  obtain ⟨s, h, hlog⟩ : ∃ s : Recorded (World (Fin 2) (Fin 2) 2) String (Fin 2 × Callback),
      Reaches (hearing id) (fun s a => s.state.Disciplined a) ⟨pair, []⟩ s ∧
        events "s|a" s.log = [(0, .onCreate), (1, .onResume 9), (1, .onComplete 9)] :=
    ⟨_, Reaches.of_runGuarded [.submit 0 "a" true, .schedule 1 1 9, .turn 1, .turn 1, .turn 1,
      .leave 1 (.returns ()), .turn 1] rfl, rfl⟩
  exact ⟨s, hlog, lives_heard monotone_id pair_initial rfl h "s|a"⟩

end World

end OpenCoroutine
