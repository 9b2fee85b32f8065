import OpenCoroutine.Places

/-! Every coroutine submitted to a system of schedulers is, in every state it reaches, in
exactly one place: the queues they share, a suspend list or a syscall table of one of
them, a call of `resume_with`, or among the finished. -/

namespace OpenCoroutine

open Family Transition

namespace Phase

variable {θ : Type*}

def co : Phase θ → Multiset Co
  | resuming _ _ co | returned _ _ co _ => {co}
  | idle | top .. | checking .. | popping .. => 0

def Sound : Phase θ → Prop
  | resuming _ _ co => co.done = false
  | returned _ _ co result => ∃ st, result = .ok st ∧ co.Yielded st
  | idle | top .. | checking .. | popping .. => True

end Phase

namespace World

variable {ι θ : Type*} {n : Nat} {now : Nat → Nat}

structure Sound (now : Nat → Nat) (s : World ι θ n) : Prop where
  ready : ∀ co ∈ s.queue.contents, co.Resumable (now s.readings)
  suspended : ∀ i, ∀ e ∈ (s.sched i).suspend.elems, e.2.done = false ∧ e.2.state = .suspend () e.1
  syscall : ∀ i, ∀ e ∈ (s.sched i).syscall.entries,
    e.2.name = e.1 ∧ e.2.done = false ∧ e.2.state.isSystemCall = true
  phase : ∀ i, (s.phase i).Sound
  panics : s.panics = []
  returns : ∀ r ∈ s.returns, ∃ leftTime, r = .ok leftTime

theorem Sound.queued {s : World ι θ n} (h : s.Sound now) : ∀ co ∈ s.queue.contents, co.Queued :=
  fun co hm => (h.ready co hm).queued

theorem Sound.view {s : World ι θ n} (h : s.Sound now) (i : ι) : (s.view i).Sound now :=
  ⟨h.ready, h.suspended i, h.syscall i⟩

theorem Sound.returned {s : World ι θ n} (h : s.Sound now) {i : ι} {t : θ} {timeoutTime : Nat}
    {co : Co} {result : Except IoError (CoroutineState Unit Unit)}
    (hp : s.phase i = .returned t timeoutTime co result) :
    ∃ st, result = .ok st ∧ co.Yielded st := by
  have hsound := h.phase i
  rw [hp] at hsound
  exact hsound

theorem Sound.tick (hmono : Monotone now) {s : World ι θ n} (h : s.Sound now) :
    s.tick.Sound now where
  ready co hm := (h.ready co hm).mono (hmono (Nat.le_succ _))
  suspended := h.suspended
  syscall := h.syscall
  phase := h.phase
  panics := h.panics
  returns := h.returns

theorem Sound.giveBack {s : World ι θ n} (h : s.Sound now) (leftTime : Nat) :
    (s.giveBack (.ok leftTime)).Sound now where
  ready := h.ready
  suspended := h.suspended
  syscall := h.syscall
  phase := h.phase
  panics := h.panics
  returns r hr := by
    rcases List.mem_cons.1 hr with rfl | hr
    · exact ⟨leftTime, rfl⟩
    · exact h.returns r hr

theorem Sound.finish {s : World ι θ n} (h : s.Sound now) (co : Co)
    (result : CoroutineState Unit Unit) : (s.finish co result).Sound now := by
  unfold World.finish
  split
  · exact ⟨h.ready, h.suspended, h.syscall, h.phase, h.panics, h.returns⟩
  · exact ⟨h.ready, h.suspended, h.syscall, h.phase, h.panics, h.returns⟩
  · exact h

theorem Sound.setLocals [DecidableEq θ] {s : World ι θ n} (h : s.Sound now) (t : θ)
    (l : Locals String) : (s.setLocals t l).Sound now :=
  ⟨h.ready, h.suspended, h.syscall, h.phase, h.panics, h.returns⟩

variable [DecidableEq ι]

theorem Sound.setView {s : World ι θ n} (h : s.Sound now) (i : ι) {v : View n}
    (hv : v.Sound now) : (s.setView i v).Sound now where
  ready := hv.ready
  suspended j := by
    by_cases hj : j = i
    · rw [hj, setView_sched]
      exact hv.suspended
    · rw [setView_sched_ne _ hj]
      exact h.suspended j
  syscall j := by
    by_cases hj : j = i
    · rw [hj, setView_sched]
      exact hv.syscall
    · rw [setView_sched_ne _ hj]
      exact h.syscall j
  phase := h.phase
  panics := h.panics
  returns := h.returns

theorem Sound.setPhase {s : World ι θ n} (h : s.Sound now) (i : ι) {phase : Phase θ}
    (hp : phase.Sound) : (s.setPhase i phase).Sound now where
  ready := h.ready
  suspended := h.suspended
  syscall := h.syscall
  phase j := by
    by_cases hj : j = i
    · rw [hj, setPhase_phase]
      exact hp
    · rw [setPhase_phase_ne _ hj]
      exact h.phase j
  panics := h.panics
  returns := h.returns

variable [Fintype ι]

/-- The names in all the places where a coroutine can be. -/
def names (s : World ι θ n) : Multiset String :=
  OpenCoroutine.names s.queue.contents + total (fun _ sched => OpenCoroutine.names sched.parked) s.sched +
    (total (fun _ phase => OpenCoroutine.names phase.co) s.phase + OpenCoroutine.names ↑s.finished)

theorem names_setView {s : World ι θ n} {i : ι} {x : Multiset String} {r : Option Stop × View n}
    (h : View.Adds now (s.view i) x r) : (s.setView i r.2).names = x + s.names := by
  have ht := total_update_add (fun (_ : ι) (sched : SchedulerImpl n) =>
    OpenCoroutine.names sched.parked) s.sched i r.2.sched
  have hn := h.names
  simp only [View.held, names_add, World.view] at hn
  ext name
  have ht' := congrArg (Multiset.count name) ht
  have hn' := congrArg (Multiset.count name) hn
  simp only [Multiset.count_add] at ht' hn'
  simp only [World.names, World.setView, Multiset.count_add]
  omega

theorem names_setPhase (s : World ι θ n) (i : ι) (phase : Phase θ) :
    (s.setPhase i phase).names + OpenCoroutine.names (s.phase i).co =
      s.names + OpenCoroutine.names phase.co := by
  have ht := total_update_add (fun (_ : ι) (phase : Phase θ) => OpenCoroutine.names phase.co)
    s.phase i phase
  ext name
  have ht' := congrArg (Multiset.count name) ht
  simp only [Multiset.count_add] at ht'
  simp only [World.names, World.setPhase, Multiset.count_add]
  omega

theorem notMem_syscall {s : World ι θ n} (hs : s.Sound now) (hnd : s.names.Nodup) {i : ι} {co : Co}
    (hco : co ∈ (s.phase i).co) : co.name ∉ (s.sched i).syscall := by
  intro hm
  obtain ⟨co', hco'⟩ := List.exists_of_mem_keys hm
  have hname : co'.name = co.name := (hs.syscall i _ hco').1
  have hparked : co.name ∈ OpenCoroutine.names (s.sched i).parked := by
    rw [← hname]
    refine Multiset.mem_map_of_mem _ (Multiset.mem_add.2 (.inr ?_))
    exact Multiset.mem_coe.2 (List.mem_map_of_mem hco')
  have hphase : co.name ∈ OpenCoroutine.names (s.phase i).co := Multiset.mem_map_of_mem _ hco
  have hp := Multiset.one_le_count_iff_mem.2 hparked
  have hc := Multiset.one_le_count_iff_mem.2 hphase
  have hle := Multiset.nodup_iff_count_le_one.1 hnd co.name
  have h₁ := total_split (fun (_ : ι) (sched : SchedulerImpl n) =>
    OpenCoroutine.names sched.parked) s.sched i
  have h₂ := total_split (fun (_ : ι) (phase : Phase θ) => OpenCoroutine.names phase.co) s.phase i
  simp only [World.names, h₁, h₂, Multiset.count_add] at hle
  omega

structure Placed (now : Nat → Nat) (s : World ι θ n) : Prop where
  names : s.names = ↑s.submitted
  nodup : s.submitted.Nodup
  sound : s.Sound now

/-- No coroutine is in two places, and each has been submitted. -/
structure Distinct (s : World ι θ n) : Prop where
  names : s.names ≤ ↑s.submitted
  nodup : s.submitted.Nodup

omit [DecidableEq ι] in
theorem Placed.distinct {s : World ι θ n} (h : s.Placed now) : s.Distinct := ⟨h.names.le, h.nodup⟩

omit [DecidableEq ι] in
theorem Distinct.nodup_names {s : World ι θ n} (h : s.Distinct) : s.names.Nodup :=
  Multiset.nodup_of_le h.names h.nodup

theorem Placed.setPhase {s : World ι θ n} (h : s.Placed now) (i : ι) {phase : Phase θ}
    (hp : phase.Sound) (hco : OpenCoroutine.names phase.co = OpenCoroutine.names (s.phase i).co) :
    (s.setPhase i phase).Placed now where
  names := by
    have hn := s.names_setPhase i phase
    rw [hco, add_left_inj] at hn
    rw [hn]
    exact h.names
  nodup := h.nodup
  sound := h.sound.setPhase i hp

omit [DecidableEq ι] in
theorem Placed.tick (hmono : Monotone now) {s : World ι θ n} (h : s.Placed now) :
    s.tick.Placed now := ⟨h.names, h.nodup, h.sound.tick hmono⟩

omit [DecidableEq ι] in
theorem Placed.giveBack {s : World ι θ n} (h : s.Placed now) (leftTime : Nat) :
    (s.giveBack (.ok leftTime)).Placed now := ⟨h.names, h.nodup, h.sound.giveBack leftTime⟩

omit [DecidableEq ι] in
theorem Placed.setLocals [DecidableEq θ] {s : World ι θ n} (h : s.Placed now) (t : θ)
    (l : Locals String) : (s.setLocals t l).Placed now :=
  ⟨h.names, h.nodup, h.sound.setLocals t l⟩

theorem Placed.setView {s : World ι θ n} (h : s.Placed now) (i : ι) {r : Option Stop × View n}
    (hr : View.Adds now (s.view i) 0 r) : (s.setView i r.2).Placed now where
  names := by
    rw [names_setView hr, zero_add]
    exact h.names
  nodup := h.nodup
  sound := h.sound.setView i hr.sound

/-- A coroutine is submitted under a name of its own. -/
def NewName (s : World ι θ n) : Act ι θ → Prop
  | .submit i uuid created => created = true → (s.sched i).name ++ "|" ++ uuid ∉ s.submitted
  | .tryResume .. | .schedule .. | .turn .. | .call .. | .leave .. => True

instance (s : World ι θ n) : (a : Act ι θ) → Decidable (s.NewName a)
  | .submit i uuid created =>
    inferInstanceAs (Decidable (created = true → (s.sched i).name ++ "|" ++ uuid ∉ s.submitted))
  | .tryResume .. | .schedule .. | .turn .. | .call .. | .leave .. => isTrue trivial

/-- The bodies give back control in the right states and the names are all different. -/
def Disciplined (s : World ι θ n) : Act ι θ → Prop
  | .submit i uuid created => created = true → (s.sched i).name ++ "|" ++ uuid ∉ s.submitted
  | .leave i o => ∀ r ∈ s.running i, CoroutineImpl.MayLeave r.2.2 o
  | .tryResume .. | .schedule .. | .turn .. | .call .. => True

instance (s : World ι θ n) : (a : Act ι θ) → Decidable (s.Disciplined a)
  | .submit i uuid created =>
    inferInstanceAs (Decidable (created = true → (s.sched i).name ++ "|" ++ uuid ∉ s.submitted))
  | .leave i o => inferInstanceAs (Decidable (∀ r ∈ s.running i, CoroutineImpl.MayLeave r.2.2 o))
  | .tryResume .. | .schedule .. | .turn .. | .call .. => isTrue trivial

variable [DecidableEq θ]

omit [Fintype ι] in
/-- A coroutine that `resume_with` can run is entered. -/
theorem enter_eq {s : World ι θ n} {co : Co} (hco : co.Resumable (now s.readings)) (i : ι) (t : θ)
    (timeoutTime : Nat) :
    ∃ co' l, co.resumeEnter co.name (s.locals t) (now s.readings) = (none, co', l) ∧
      co'.name = co.name ∧ co'.done = false ∧
        s.enter now i t timeoutTime co =
          (s.tick.setLocals t l).setPhase i (.resuming t timeoutTime co') := by
  obtain ⟨co', l, he, hname, hdone⟩ := CoroutineImpl.enter_resumable (l := s.locals t) hco
  refine ⟨co', l, he, hname, hdone, ?_⟩
  simp only [World.enter, he, hdone, Bool.false_eq_true, if_false]

theorem Placed.enter (hmono : Monotone now) {s : World ι θ n} (hs : s.Sound now) {co : Co}
    (hnames : {co.name} + s.names = ↑s.submitted) (hnd : s.submitted.Nodup)
    (hco : co.Resumable (now s.readings)) {i : ι} (hi : (s.phase i).co = 0) (t : θ)
    (timeoutTime : Nat) : (s.enter now i t timeoutTime co).Placed now := by
  obtain ⟨co', l, -, hname, hdone, he⟩ := enter_eq hco i t timeoutTime
  rw [he]
  refine ⟨?_, hnd, ((hs.tick hmono).setLocals t l).setPhase i hdone⟩
  have hn := names_setPhase (s.tick.setLocals t l) i (.resuming t timeoutTime co')
  have hi' : ((s.tick.setLocals t l).phase i).co = 0 := hi
  rw [hi', names_zero, add_zero] at hn
  rw [hn, Phase.co, names_singleton, hname, add_comm]
  exact hnames

omit [DecidableEq ι] [DecidableEq θ] in
theorem names_finish (s : World ι θ n) (co : Co) {result : CoroutineState Unit Unit}
    (hend : result = .complete () ∨ ∃ message, result = .error message) :
    (s.finish co result).names = {co.name} + s.names := by
  have hq : (s.finish co result).names = OpenCoroutine.names s.queue.contents +
      total (fun _ sched => OpenCoroutine.names sched.parked) s.sched +
      (total (fun _ phase => OpenCoroutine.names phase.co) s.phase +
        OpenCoroutine.names ↑(co :: s.finished)) := by
    rcases hend with rfl | ⟨message, rfl⟩ <;> rfl
  rw [hq, names_cons, World.names]
  ac_rfl

omit [DecidableEq θ] in
theorem Placed.settle {s s' : World ι θ n} (h : s.Placed now) {i : ι} {t : θ} {timeoutTime : Nat}
    {co : Co} (hco : (s.phase i).co = {co}) (hphase : s'.phase i = s.phase i)
    (hsub : s'.submitted = s.submitted) (hsound : s'.Sound now)
    (hnames : s'.names = {co.name} + s.names) :
    (s'.setPhase i (.top t timeoutTime)).Placed now where
  names := by
    have hn := names_setPhase s' i (.top t timeoutTime)
    have htop : OpenCoroutine.names (Phase.co (.top t timeoutTime : Phase θ)) = 0 := rfl
    rw [hphase, hco, hnames, names_singleton, htop, add_zero, add_comm, add_right_inj] at hn
    rw [hn, h.names]
    exact congrArg _ hsub.symm
  nodup := by
    have hnd : s'.submitted.Nodup := by
      rw [hsub]
      exact h.nodup
    exact hnd
  sound := hsound.setPhase i trivial

omit [DecidableEq θ] in
theorem Placed.place (hmono : Monotone now) {s : World ι θ n} (h : s.Placed now) {i : ι} (t : θ)
    (timeoutTime : Nat) {co : Co} {result : CoroutineState Unit Unit}
    (hco : (s.phase i).co = {co}) (hy : co.Yielded result) :
    ((s.view i).place now co result).1 = none ∧
      (((s.setView i ((s.view i).place now co result).2).finish co result).setPhase i
        (.top t timeoutTime)).Placed now := by
  obtain ⟨hst, ⟨hdone, hresult⟩ | hend⟩ := hy
  · have hnew : co.name ∉ (s.sched i).syscall := by
      apply notMem_syscall h.sound
      · rw [h.names]
        exact h.nodup
      · rw [hco]
        exact Multiset.mem_singleton_self co
    have ha := View.place_adds hmono (h.sound.view i) hst hdone hresult hnew
    have hfin : ∀ s' : World ι θ n, s'.finish co result = s' := by
      intro s'
      rcases hresult with ⟨timestamp, rfl⟩ | hc
      · rfl
      · cases result <;> first | rfl | cases hc
    refine ⟨ha.through, ?_⟩
    rw [hfin]
    exact h.settle hco rfl rfl (h.sound.setView i ha.sound) (names_setView ha)
  · have hplace : (s.view i).place now co result = (none, s.view i) := by
      rcases hend with rfl | ⟨message, rfl⟩ <;> rfl
    have ha : View.Adds now (s.view i) 0 (none, s.view i) :=
      ⟨rfl, h.sound.view i, by rw [zero_add], le_rfl⟩
    have hset := h.setView i ha
    have hsame : ∀ s' : World ι θ n, (s'.finish co result).phase = s'.phase ∧
        (s'.finish co result).submitted = s'.submitted := by
      intro s'
      rcases hend with rfl | ⟨message, rfl⟩ <;> exact ⟨rfl, rfl⟩
    rw [hplace]
    refine ⟨rfl, h.settle hco ?_ (hsame _).2 (hset.sound.finish co result) ?_⟩
    · rw [(hsame _).1]
      rfl
    · rw [names_finish _ co hend, names_setView ha, zero_add]

omit [DecidableEq θ] in
theorem names_popFront {s : World ι θ n} {i : ι} {co : Option Co} {ready : LocalQueue n}
    {queue : WorkStealQueue Co n}
    (hq : (s.sched i).ready.popFront s.queue = (co, ready, queue)) :
    OpenCoroutine.names ↑co.toList +
      (s.setView i { s.view i with queue, sched := { s.sched i with ready } }).names =
        s.names := by
  have hg := (s.sched i).ready.popFront_gives s.queue
  rw [hq] at hg
  have hsched : total (fun _ sched => OpenCoroutine.names sched.parked)
      (Function.update s.sched i { s.sched i with ready }) =
        total (fun (_ : ι) sched => OpenCoroutine.names sched.parked) s.sched :=
    total_same (fun (_ : ι) (sched : SchedulerImpl n) => OpenCoroutine.names sched.parked)
      s.sched rfl
  show _ + (OpenCoroutine.names queue.contents + total (fun _ sched =>
    OpenCoroutine.names sched.parked) (Function.update s.sched i { s.sched i with ready }) +
      (total (fun _ phase => OpenCoroutine.names phase.co) s.phase + _)) = _
  rw [hsched, World.names, hg.contents, names_add]
  ac_rfl

omit [DecidableEq θ] in
/-- `pop_front` takes a coroutine out of the system that `resume_with` can run. -/
theorem Placed.popFront {s : World ι θ n} (h : s.Placed now) {i : ι} {co : Option Co}
    {ready : LocalQueue n} {queue : WorkStealQueue Co n}
    (hq : (s.sched i).ready.popFront s.queue = (co, ready, queue)) :
    (s.setView i { s.view i with queue, sched := { s.sched i with ready } }).Sound now ∧
      OpenCoroutine.names ↑co.toList +
        (s.setView i { s.view i with queue, sched := { s.sched i with ready } }).names =
          ↑s.submitted ∧ ∀ co' ∈ co, co'.Resumable (now s.readings) := by
  have hg := (s.sched i).ready.popFront_gives s.queue
  rw [hq] at hg
  have hready : ∀ co' ∈ queue.contents, co'.Resumable (now s.readings) := fun co' hm =>
    h.sound.ready co' (by rw [hg.contents]; exact Multiset.mem_add.2 (.inr hm))
  have hv : View.Sound now { s.view i with queue, sched := { s.sched i with ready } } :=
    ⟨hready, h.sound.suspended i, h.sound.syscall i⟩
  refine ⟨h.sound.setView i hv, (names_popFront hq).trans h.names, fun co' hco' =>
    h.sound.ready co' ?_⟩
  rw [hg.contents]
  simp [Option.mem_def.1 hco']

/-- What a part of the loop does to a system in which everything is placed. -/
inductive Goes (now : Nat → Nat) (s : World ι θ n) (i : ι) : World ι θ n → Prop where
  | timedOut {t : θ} {timeoutTime : Nat} (hp : s.phase i = .top t timeoutTime) :
      Goes now s i ((s.tick.giveBack (.ok 0)).setPhase i .idle)
  | check {t : θ} {timeoutTime : Nat} (hp : s.phase i = .top t timeoutTime) :
      Goes now s i (s.tick.setPhase i (.checking t timeoutTime (timeoutTime - now s.readings)))
  | checked {t : θ} {timeoutTime leftTime : Nat} {v : View n}
      (hp : s.phase i = .checking t timeoutTime leftTime)
      (hv : (s.view i).checkReady now = (none, v)) :
      Goes now s i ((s.setView i v).setPhase i (.popping t timeoutTime leftTime))
  | popsNone {t : θ} {timeoutTime leftTime : Nat} {ready : LocalQueue n}
      {queue : WorkStealQueue Co n} (hp : s.phase i = .popping t timeoutTime leftTime)
      (hq : (s.sched i).ready.popFront s.queue = (none, ready, queue)) :
      Goes now s i (((s.setView i { s.view i with
        queue, sched := { s.sched i with ready } }).giveBack (.ok leftTime)).setPhase i .idle)
  | pops {t : θ} {timeoutTime leftTime : Nat} {co : Co} {ready : LocalQueue n}
      {queue : WorkStealQueue Co n} (hp : s.phase i = .popping t timeoutTime leftTime)
      (hq : (s.sched i).ready.popFront s.queue = (some co, ready, queue))
      (hco : co.Resumable (now s.readings)) :
      Goes now s i ((s.setView i { s.view i with
        queue, sched := { s.sched i with ready } }).enter now i t timeoutTime co)
  | places {t : θ} {timeoutTime : Nat} {co : Co} {result : CoroutineState Unit Unit} {v : View n}
      (hp : s.phase i = .returned t timeoutTime co (.ok result)) (hy : co.Yielded result)
      (hv : (s.view i).place now co result = (none, v)) :
      Goes now s i (((s.setView i v).finish co result).setPhase i (.top t timeoutTime))

theorem Placed.goes (hmono : Monotone now) {s s' : World ι θ n} (h : s.Placed now) {i : ι}
    (hs : s.turn now i = some s') : Goes now s i s' := by
  cases turns hs with
  | timedOut hp => exact .timedOut hp
  | check hp => exact .check hp
  | checked hp hv => exact .checked hp hv
  | checkStops hp hv =>
    have ha := View.checkReady_adds hmono (h.sound.view i)
    rw [hv] at ha
    cases ha.through
  | popsNone hp hq => exact .popsNone hp hq
  | pops hp hq => exact .pops hp hq ((h.popFront hq).2.2 _ rfl)
  | fails hp =>
    obtain ⟨st, he, -⟩ := h.sound.returned hp
    cases he
  | places hp hv =>
    obtain ⟨st, he, hy⟩ := h.sound.returned hp
    rw [Except.ok.injEq] at he
    exact .places hp (he ▸ hy) hv
  | @placeStops t timeoutTime co result stop v hp hv =>
    obtain ⟨st, he, hy⟩ := h.sound.returned hp
    rw [Except.ok.injEq] at he
    have hplace := h.place hmono t timeoutTime (by rw [hp]; rfl) (he ▸ hy)
    rw [hv] at hplace
    cases hplace.1

theorem Placed.turn (hmono : Monotone now) {s s' : World ι θ n} (h : s.Placed now) {i : ι}
    (hs : s.turn now i = some s') : s'.Placed now := by
  cases h.goes hmono hs with
  | timedOut hp =>
    have hco : OpenCoroutine.names (s.phase i).co = 0 := by rw [hp]; rfl
    exact ((h.tick hmono).giveBack 0).setPhase i trivial hco.symm
  | check hp =>
    have hco : OpenCoroutine.names (s.phase i).co = 0 := by rw [hp]; rfl
    exact (h.tick hmono).setPhase i trivial hco.symm
  | checked hp hv =>
    have hco : OpenCoroutine.names (s.phase i).co = 0 := by rw [hp]; rfl
    have hcheck := h.setView i (View.checkReady_adds hmono (h.sound.view i))
    rw [hv] at hcheck
    exact hcheck.setPhase i trivial hco.symm
  | popsNone hp hq =>
    have hco : OpenCoroutine.names (s.phase i).co = 0 := by rw [hp]; rfl
    obtain ⟨hsound, hnames, -⟩ := h.popFront hq
    rw [Option.toList_none, Multiset.coe_nil, names_zero, zero_add] at hnames
    have hplaced : (s.setView i _).Placed now := ⟨hnames, h.nodup, hsound⟩
    exact (hplaced.giveBack _).setPhase i trivial hco.symm
  | pops hp hq hready =>
    have hco : (s.phase i).co = 0 := by rw [hp]; rfl
    obtain ⟨hsound, hnames, -⟩ := h.popFront hq
    rw [Option.toList_some, Multiset.coe_singleton, names_singleton] at hnames
    exact Placed.enter hmono hsound hnames h.nodup hready hco _ _
  | @places t timeoutTime co result v hp hy hv =>
    have hplace := h.place hmono t timeoutTime (by rw [hp]; rfl) hy
    rw [hv] at hplace
    exact hplace.2

omit [DecidableEq ι] [Fintype ι] [DecidableEq θ] in
theorem running_eq {s : World ι θ n} {i : ι} {t : θ} {timeoutTime : Nat} {co : Co}
    (h : s.running i = some (t, timeoutTime, co)) : s.phase i = .resuming t timeoutTime co := by
  unfold World.running at h
  split at h
  · rename_i hp
    simp only [Option.ite_none_right_eq_some, Option.some.injEq, Prod.mk.injEq] at h
    obtain ⟨-, rfl, rfl, rfl⟩ := h
    exact hp
  · cases h

theorem Placed.step (hmono : Monotone now) {s s' : World ι θ n} (h : s.Placed now) {a : Act ι θ}
    (hok : s.Disciplined a) (hs : s.step now a = some s') : s'.Placed now := by
  cases a with
  | submit i uuid created =>
    cases created with
    | false =>
      simp only [World.step, Option.some.injEq] at hs
      exact hs ▸ h
    | true =>
      have ha := View.submit_adds (h.sound.view i) uuid
      have hsound := h.sound.setView i ha.sound
      have hn := names_setView ha
      rw [h.names, Multiset.singleton_add, Multiset.cons_coe] at hn
      rw [step_submit, Option.some.injEq] at hs
      subst hs
      exact ⟨hn, List.nodup_cons.2 ⟨hok rfl, h.nodup⟩, hsound.ready, hsound.suspended,
        hsound.syscall, hsound.phase, hsound.panics, hsound.returns⟩
  | tryResume i coName =>
    have ha := View.tryResume_adds (h.sound.view i) coName
    have hv := h.setView i ha
    simp only [World.step] at hs
    split at hs
    · rename_i message v he
      rw [he] at ha
      cases ha.through
    · rename_i r v _ he
      rw [he] at hv
      simp only [Option.some.injEq] at hs
      exact hs ▸ hv
  | schedule i t timeoutTime =>
    obtain ⟨hp, rfl⟩ := step_schedule hs
    exact h.setPhase i trivial (by rw [hp]; rfl)
  | turn i => exact h.turn hmono hs
  | call i k =>
    obtain ⟨t, timeoutTime, co, hr, rfl⟩ := step_call hs
    have hp := running_eq hr
    have hdone : co.done = false := by
      have hsound := h.sound.phase i
      rwa [hp] at hsound
    refine h.setPhase i ((co.call_done k).trans hdone) ?_
    rw [hp, Phase.co, Phase.co, names_singleton, names_singleton, CoroutineImpl.call_name]
  | leave i o =>
    obtain ⟨t, timeoutTime, co, hr, rfl⟩ := step_leave hs
    have hp := running_eq hr
    have hdone : co.done = false := by
      have hsound := h.sound.phase i
      rwa [hp] at hsound
    obtain ⟨result, co', l, he, hname, hy⟩ :=
      CoroutineImpl.leave_yielded (l := s.locals t) hdone (hok _ hr)
    simp only [he]
    refine (h.setLocals t l).setPhase i ⟨result, rfl, hy⟩ ?_
    show OpenCoroutine.names {co'} = OpenCoroutine.names (s.phase i).co
    rw [hp, Phase.co, names_singleton, names_singleton, hname]

/-- Nothing submitted yet; the clock, the local queues and the thread-locals are
arbitrary. -/
structure Initial (s : World ι θ n) : Prop where
  queue : s.queue.contents = 0
  suspend : ∀ i, (s.sched i).suspend.elems = []
  syscall : ∀ i, (s.sched i).syscall = ∅
  phase : ∀ i, s.phase i = .idle
  submitted : s.submitted = []
  finished : s.finished = []
  panics : s.panics = []
  returns : s.returns = []

omit [DecidableEq ι] [DecidableEq θ] in
theorem Initial.placed {s : World ι θ n} (h : s.Initial) : s.Placed now where
  names := by
    have h₁ : total (fun _ sched => OpenCoroutine.names sched.parked) s.sched = 0 :=
      total_zero fun i => by rw [SchedulerImpl.parked, h.suspend i, h.syscall i]; rfl
    have h₂ : total (fun _ phase => OpenCoroutine.names phase.co) s.phase = 0 :=
      total_zero fun i => by rw [h.phase i]; rfl
    rw [World.names, h₁, h₂, h.queue, h.finished, h.submitted]
    rfl
  nodup := by
    rw [h.submitted]
    exact List.nodup_nil
  sound := by
    refine ⟨fun co hm => ?_, fun i e he => ?_, fun i e he => ?_, fun i => ?_, h.panics,
      fun r hr => ?_⟩
    · rw [h.queue] at hm
      simp at hm
    · rw [h.suspend i] at he
      cases he
    · rw [h.syscall i] at he
      cases he
    · rw [h.phase i]
      trivial
    · rw [h.returns] at hr
      cases hr

/-- Every coroutine submitted is in exactly one place, suspend lists and syscall tables
hold coroutines in the states they are for, no `unreachable!` is reached and every
`try_timeout_schedule` returns `Ok`. -/
theorem none_lost (hmono : Monotone now) {s₀ s : World ι θ n} (h₀ : s₀.Initial)
    (h : Reaches (step now) Disciplined s₀ s) :
    (s.names = ↑s.submitted ∧ ∀ coName ∈ s.submitted, s.names.count coName = 1) ∧
      (∀ i, ∀ e ∈ (s.sched i).suspend.elems, e.2.state = .suspend () e.1) ∧
      (∀ i, ∀ e ∈ (s.sched i).syscall.entries, e.2.name = e.1 ∧ e.2.state.isSystemCall = true) ∧
      s.panics = [] ∧ ∀ r ∈ s.returns, ∃ leftTime, r = .ok leftTime := by
  have hp : s.Placed now := h.invariant h₀.placed fun _ _ _ hi hok hs => hi.step hmono hok hs
  refine ⟨⟨hp.names, fun coName hm => ?_⟩, fun i e he => (hp.sound.suspended i e he).2,
    fun i e he => ?_, hp.sound.panics, hp.sound.returns⟩
  · rw [hp.names, Multiset.coe_count]
    exact List.count_eq_one_of_mem hp.nodup hm
  · obtain ⟨hname, -, hst⟩ := hp.sound.syscall i e he
    exact ⟨hname, hst⟩

def pair : World (Fin 2) (Fin 2) 2 where
  queue := .new 1
  sched i := .new "s" ⟨0, false, i, ⟨1, 1⟩⟩
  phase _ := .idle
  locals _ := {}

theorem pair_initial : pair.Initial where
  queue := by decide
  suspend _ := rfl
  syscall _ := rfl
  phase _ := rfl
  submitted := rfl
  finished := rfl
  panics := rfl
  returns := rfl

theorem none_lost_stolen :
    ∃ s : World (Fin 2) (Fin 2) 2, s.submitted = ["s|a"] ∧
      ((s.sched 1).syscall.lookup "s|a").isSome = true ∧ s.names.count "s|a" = 1 := by
  obtain ⟨s, h, hsub, hsys⟩ : ∃ s : World (Fin 2) (Fin 2) 2,
      Reaches (step id) Disciplined pair s ∧ s.submitted = ["s|a"] ∧
        ((s.sched 1).syscall.lookup "s|a").isSome = true :=
    ⟨_, Reaches.of_runGuarded [.submit 0 "a" true, .schedule 1 1 1000, .turn 1, .turn 1, .turn 1,
      .call 1 (.syscall () .sleep (.suspend 100)), .leave 1 (.suspendWith ()), .turn 1] rfl,
      rfl, rfl⟩
  refine ⟨s, hsub, hsys, (none_lost monotone_id pair_initial h).1.2 "s|a" ?_⟩
  rw [hsub]
  exact List.mem_singleton_self _

end World

end OpenCoroutine
