import OpenCoroutine.Monitor

/-! The nodes of the monitor. Each call of `resume_with` puts one in, and the listener takes
it out when the coroutine is suspended, completes or fails, but not when it yields in a
system call. -/

namespace OpenCoroutine

open Family Function Transition

/-- The node of the coroutine that a scheduler is resuming, or has not yet reported. -/
def Phase.slice {θ : Type*} (stamp : String → Option Nat) (slot : Nat) :
    Phase θ → Multiset (TaskNode θ)
  | .resuming t _ co | .returned t _ co _ =>
    match stamp co.name with
    | some timestamp => {⟨timestamp, t, slot⟩}
    | none => 0
  | _ => 0

theorem Phase.slice_of_co {θ : Type*} {phase : Phase θ} (h : phase.co = 0)
    (stamp : String → Option Nat) (slot : Nat) : phase.slice stamp slot = 0 := by
  cases phase with
  | idle | top _ _ | checking _ _ _ | popping _ _ _ => rfl
  | resuming t timeoutTime co | returned t timeoutTime co result => simp [Phase.co] at h

theorem Phase.slice_congr {θ : Type*} {phase : Phase θ} {stamp stamp' : String → Option Nat}
    (h : ∀ co ∈ phase.co, stamp' co.name = stamp co.name) (slot : Nat) :
    phase.slice stamp' slot = phase.slice stamp slot := by
  cases phase with
  | idle | top _ _ | checking _ _ _ | popping _ _ _ => rfl
  | resuming t timeoutTime co | returned t timeoutTime co result =>
    simp only [Phase.slice, h co (Multiset.mem_singleton_self co)]

namespace World

variable {ι θ : Type*} {n : Nat} [DecidableEq ι] [DecidableEq θ] [Fintype ι] {now : Nat → Nat}

/-- What a part of the loop does to the call of `resume_with` of scheduler `i`. -/
inductive Resumes (s s' : World ι θ n) (i : ι) : Prop where
  | enters {t : θ} {timeoutTime leftTime : Nat} {co co' : Co}
      (hp : s.phase i = .popping t timeoutTime leftTime)
      (hco : ((s.sched i).ready.popFront s.queue).1 = some co)
      (hp' : s'.phase i = .resuming t timeoutTime co') (hname : co'.name = co.name)
  | reports {t : θ} {timeoutTime : Nat} {co : Co} {result : CoroutineState Unit Unit}
      (hp : s.phase i = .returned t timeoutTime co (.ok result)) (hp' : (s'.phase i).co = 0)
  | idles (hp : (s.phase i).co = 0) (hp' : (s'.phase i).co = 0)
      (hnone : ∀ t timeoutTime leftTime, s.phase i = .popping t timeoutTime leftTime →
        ((s.sched i).ready.popFront s.queue).1 = none)

theorem Placed.resumes (hmono : Monotone now) {s s' : World ι θ n} (h : s.Placed now) {i : ι}
    (hs : s.turn now i = some s') : Resumes s s' i := by
  cases h.goes hmono hs with
  | timedOut hp =>
    refine .idles (by rw [hp]; rfl) (by rw [setPhase_phase]; rfl) fun _ _ _ he => ?_
    rw [hp] at he
    cases he
  | check hp =>
    refine .idles (by rw [hp]; rfl) (by rw [setPhase_phase]; rfl) fun _ _ _ he => ?_
    rw [hp] at he
    cases he
  | checked hp =>
    refine .idles (by rw [hp]; rfl) (by rw [setPhase_phase]; rfl) fun _ _ _ he => ?_
    rw [hp] at he
    cases he
  | popsNone hp hq =>
    exact .idles (by rw [hp]; rfl) (by rw [setPhase_phase]; rfl) fun _ _ _ _ => by rw [hq]
  | @pops t timeoutTime leftTime co ready queue hp hq hco =>
    obtain ⟨co', l, -, hname, -, he⟩ := enter_eq (s := s.setView i { s.view i with
      queue, sched := { s.sched i with ready } }) hco i t timeoutTime
    refine .enters hp (by rw [hq]) ?_ hname
    rw [he]
    exact setPhase_phase _ _ _
  | places hp => exact .reports hp (by rw [setPhase_phase]; rfl)

end World

namespace Monitored

variable {ι θ : Type*} {n : Nat} [Fintype ι]

/-- The nodes of the calls of `resume_with` in progress. -/
def slicesOf (stamp : String → Option Nat) (slot : ι → Nat) (phase : ι → Phase θ) :
    Multiset (TaskNode θ) := total (fun i phase => phase.slice stamp (slot i)) phase

def slices (s : Monitored ι θ n) : Multiset (TaskNode θ) :=
  slicesOf s.monitor.stamp s.monitor.slot s.world.phase

theorem slicesOf_change [DecidableEq ι] (stamp stamp' : String → Option Nat) (slot : ι → Nat)
    (phase phase' : ι → Phase θ) (i : ι)
    (h : ∀ j, j ≠ i → (phase' j).slice stamp' (slot j) = (phase j).slice stamp (slot j)) :
    slicesOf stamp' slot phase' + (phase i).slice stamp (slot i) =
      slicesOf stamp slot phase + (phase' i).slice stamp' (slot i) := total_change i h

structure Paired (now : Nat → Nat) (s : Monitored ι θ n) : Prop where
  placed : s.world.Placed now
  nodes : (↑(s.monitor.tasks.elems.map Prod.snd) : Multiset (TaskNode θ)) =
    s.slices + ↑s.monitor.cleanQueue
  stamped : ∀ e ∈ s.monitor.tasks.elems, e.2.timestamp = e.1
  stamps : ∀ i, ∀ co ∈ (s.world.phase i).co, ∃ timestamp, s.monitor.stamp co.name = some timestamp

variable {now : Nat → Nat}

/-- A step after which the same calls of `resume_with` are in progress. -/
theorem Paired.of_phase {s : Monitored ι θ n} (h : s.Paired now) {world : World ι θ n}
    (hplaced : world.Placed now)
    (hphase : ∀ j, (world.phase j).slice s.monitor.stamp (s.monitor.slot j) =
      (s.world.phase j).slice s.monitor.stamp (s.monitor.slot j))
    (hnames : ∀ j, ∀ co ∈ (world.phase j).co, ∃ co' ∈ (s.world.phase j).co, co'.name = co.name) :
    Paired now { s with world } where
  placed := hplaced
  nodes := by
    have hslices : slices { s with world } = s.slices := Finset.sum_congr rfl fun j _ => hphase j
    rw [hslices]
    exact h.nodes
  stamped := h.stamped
  stamps i co hco := by
    obtain ⟨co', hco', hname⟩ := hnames i co hco
    rw [← hname]
    exact h.stamps i co' hco'

variable [DecidableEq ι]

/-- The call of `resume_with` of scheduler `i` goes on with the same coroutine. -/
theorem Paired.set {s : Monitored ι θ n} (h : s.Paired now) {i : ι} {co : Co} {phase : Phase θ}
    {world : World ι θ n} (hplaced : world.Placed now)
    (hphase : world.phase = update s.world.phase i phase) (hco : (s.world.phase i).co = {co})
    (hslice : phase.slice s.monitor.stamp (s.monitor.slot i) =
      (s.world.phase i).slice s.monitor.stamp (s.monitor.slot i))
    (hname : ∀ co' ∈ phase.co, co'.name = co.name) : Paired now { s with world } := by
  refine h.of_phase hplaced (fun j => ?_) fun j co' hm => ?_
  · by_cases hj : j = i
    · rw [hj, hphase, update_self, hslice]
    · rw [hphase, update_of_ne hj]
  · by_cases hj : j = i
    · rw [hj, hphase, update_self] at hm
      refine ⟨co, ?_, (hname co' hm).symm⟩
      rw [hj, hco]
      exact Multiset.mem_singleton_self co
    · rw [hphase, update_of_ne hj] at hm
      exact ⟨co', hm, rfl⟩

/-- The listener reports the coroutine, whose node goes to the clean queue. -/
theorem Paired.report {s : Monitored ι θ n} (h : s.Paired now) {i : ι} {t : θ} {timeoutTime : Nat}
    {co : Co} {result : Except IoError (CoroutineState Unit Unit)} {world : World ι θ n}
    (hplaced : world.Placed now) (hp : s.world.phase i = .returned t timeoutTime co result)
    (hothers : ∀ j, j ≠ i → world.phase j = s.world.phase j) (hco : (world.phase i).co = 0) :
    Paired now ⟨world, s.monitor.forget t (s.monitor.slot i) co.name⟩ := by
  obtain ⟨timestamp, hstamp⟩ := h.stamps i co (by rw [hp]; exact Multiset.mem_singleton_self co)
  have hforget : s.monitor.forget t (s.monitor.slot i) co.name =
      s.monitor.remove timestamp t (s.monitor.slot i) := by
    simp only [MonitorImpl.forget, hstamp]
  rw [hforget]
  have hchange := slicesOf_change s.monitor.stamp s.monitor.stamp s.monitor.slot s.world.phase
    world.phase i fun j hj => by rw [hothers j hj]
  have hold : (s.world.phase i).slice s.monitor.stamp (s.monitor.slot i) =
      {⟨timestamp, t, s.monitor.slot i⟩} := by
    rw [hp, Phase.slice, hstamp]
  rw [hold, Phase.slice_of_co hco, add_zero] at hchange
  refine ⟨hplaced, ?_, h.stamped, fun j co' hco' => ?_⟩
  · show (↑(s.monitor.tasks.elems.map Prod.snd) : Multiset (TaskNode θ)) =
      slices ⟨world, s.monitor⟩ + ↑(_ :: s.monitor.cleanQueue)
    rw [h.nodes, slices, slices, ← hchange, ← Multiset.cons_coe, ← Multiset.singleton_add,
      add_assoc]
  · by_cases hj : j = i
    · rw [hj, hco] at hco'
      exact absurd hco' (Multiset.notMem_zero _)
    · rw [hothers j hj] at hco'
      exact h.stamps j co' hco'

/-- The listener submits a node for the coroutine that is entered. -/
theorem Paired.enter {s : Monitored ι θ n} (h : s.Paired now) {i : ι} {t : θ} {timeoutTime : Nat}
    {co : Co} {world : World ι θ n} (time : Nat) (hplaced : world.Placed now)
    (hco : (s.world.phase i).co = 0) (hp : world.phase i = .resuming t timeoutTime co)
    (hothers : ∀ j, j ≠ i → world.phase j = s.world.phase j) :
    Paired now ⟨world, s.monitor.onResume time t (s.monitor.slot i) timeoutTime co.name⟩ := by
  have halone : world.Alone i co.name :=
    hplaced.distinct.alone (by rw [hp]; exact Multiset.mem_singleton_self co)
  have hne : ∀ j, j ≠ i → ∀ co' ∈ (s.world.phase j).co, co'.name ≠ co.name := by
    intro j hj co' hm
    rw [← hothers j hj] at hm
    exact halone.phase j hj co' hm
  let timestamp := min (getTimeoutTime 10000000 time) timeoutTime
  let stamp := update s.monitor.stamp co.name (some timestamp)
  have hchange := slicesOf_change s.monitor.stamp stamp s.monitor.slot s.world.phase world.phase i
    fun j hj => by
      rw [hothers j hj]
      exact Phase.slice_congr (fun co' hm => update_of_ne (hne j hj co' hm) _ _) _
  have hnew : (world.phase i).slice stamp (s.monitor.slot i) =
      {⟨timestamp, t, s.monitor.slot i⟩} := by
    rw [hp, Phase.slice]
    simp [stamp]
  rw [Phase.slice_of_co hco, add_zero, hnew] at hchange
  refine ⟨hplaced, ?_, fun e he => ?_, fun j co' hco' => ?_⟩
  · have hperm := (TimerList.elems_insert_perm s.monitor.tasks timestamp
      ⟨timestamp, t, s.monitor.slot i⟩).map Prod.snd
    show (↑((s.monitor.tasks.insert timestamp _).elems.map Prod.snd) : Multiset (TaskNode θ)) =
      slicesOf stamp s.monitor.slot world.phase + ↑s.monitor.cleanQueue
    rw [Multiset.coe_eq_coe.2 hperm, hchange, List.map_cons, ← Multiset.cons_coe,
      ← Multiset.singleton_add, h.nodes, slices]
    ac_rfl
  · rcases TimerList.mem_elems_insert.1 he with rfl | he
    · rfl
    · exact h.stamped e he
  · by_cases hj : j = i
    · rw [hj, hp] at hco'
      rw [Multiset.mem_singleton.1 hco']
      exact ⟨timestamp, update_self _ _ _⟩
    · rw [hothers j hj] at hco'
      obtain ⟨timestamp', hstamp⟩ := h.stamps j co' hco'
      exact ⟨timestamp', (update_of_ne (hne j hj co' hco') _ _).trans hstamp⟩

variable [LinearOrder θ]

theorem Paired.turn (hmono : Monotone now) {s s' : Monitored ι θ n} (h : s.Paired now) {i : ι}
    (hok : ∀ r ∈ (s.world.phase i).yielded, r.2.isSystemCall = false)
    (hs : s.step now (.world (.turn i)) = some s') : s'.Paired now := by
  simp only [Monitored.step, Option.map_eq_some_iff] at hs
  obtain ⟨world, hturn, rfl⟩ := hs
  obtain ⟨w, hw, hplaced, hphase, hpop⟩ : ∃ w, (s.monitor.listen now s.world i).2 = w ∧
      w.Placed now ∧ w.phase = s.world.phase ∧
      ((w.sched i).ready.popFront w.queue).1 =
        ((s.world.sched i).ready.popFront s.world.queue).1 := by
    rcases s.monitor.listen_world now s.world i with he | he
    · exact ⟨_, he, h.placed, rfl, rfl⟩
    · exact ⟨_, he, h.placed.tick hmono, rfl, rfl⟩
  rw [hw] at hturn
  have hplaced' := hplaced.turn hmono hturn
  have hothers : ∀ j, j ≠ i → world.phase j = s.world.phase j := fun j hj =>
    ((hplaced.turned hmono hturn).others j hj).trans (congrFun hphase j)
  cases hplaced.resumes hmono hturn with
  | @enters t timeoutTime leftTime co co' hp hco hp' hname =>
    rw [hphase] at hp
    rw [hpop] at hco
    have hlisten : (s.monitor.listen now s.world i).1 =
        s.monitor.onResume (now s.world.readings) t (s.monitor.slot i) timeoutTime co.name := by
      simp only [MonitorImpl.listen, hp, hco]
    rw [hlisten, ← hname]
    exact h.enter _ hplaced' (by rw [hp]; rfl) hp' hothers
  | @reports t timeoutTime co result hp hp' =>
    rw [hphase] at hp
    have hlisten : (s.monitor.listen now s.world i).1 =
        s.monitor.onYield t (s.monitor.slot i) co.name result := by
      simp only [MonitorImpl.listen, hp]
    have hforget : s.monitor.onYield t (s.monitor.slot i) co.name result =
        s.monitor.forget t (s.monitor.slot i) co.name := by
      have hno : result.isSystemCall = false := hok (co, result) (by rw [hp]; rfl)
      obtain ⟨st, he, -, hy⟩ := h.placed.sound.returned hp
      cases he
      rcases hy with ⟨-, ⟨timestamp, rfl⟩ | hc⟩ | rfl | ⟨message, rfl⟩
      · rfl
      · rw [hc] at hno
        cases hno
      · rfl
      · rfl
    rw [hlisten, hforget]
    exact h.report hplaced' hp hothers hp'
  | idles hp hp' hnone =>
    rw [hphase] at hp hnone
    rw [hpop] at hnone
    have hlisten : (s.monitor.listen now s.world i).1 = s.monitor := by
      cases hpi : s.world.phase i with
      | idle | top _ _ | checking _ _ _ | resuming _ _ _ => simp only [MonitorImpl.listen, hpi]
      | popping t timeoutTime leftTime =>
        simp only [MonitorImpl.listen, hpi, hnone t timeoutTime leftTime hpi]
      | returned t timeoutTime co result => simp [hpi, Phase.co] at hp
    rw [hlisten]
    refine h.of_phase hplaced' (fun j => ?_) fun j co hm => ?_
    · by_cases hj : j = i
      · rw [hj, Phase.slice_of_co hp, Phase.slice_of_co hp']
      · rw [hothers j hj]
    · by_cases hj : j = i
      · rw [hj, hp'] at hm
        exact absurd hm (Multiset.notMem_zero _)
      · rw [hothers j hj] at hm
        exact ⟨co, hm, rfl⟩

theorem Paired.world (hmono : Monotone now) {s s' : Monitored ι θ n} (h : s.Paired now)
    {a : World.Act ι θ} (hok : s.world.Disciplined a) (hturn : ∀ i, a ≠ .turn i)
    (hschedule : ∀ i t timeoutTime, a ≠ .schedule i t timeoutTime)
    (hs : s.step now (.world a) = some s') : s'.Paired now := by
  have hstep : (s.world.step now a).map (fun world => { s with world }) = some s' := by
    cases a with
    | turn i => exact absurd rfl (hturn i)
    | schedule i t timeoutTime => exact absurd rfl (hschedule i t timeoutTime)
    | submit _ _ _ | tryResume _ _ | call _ _ | leave _ _ => exact hs
  rw [Option.map_eq_some_iff] at hstep
  obtain ⟨world, hworld, rfl⟩ := hstep
  have hplaced := h.placed.step hmono hok hworld
  have hsame : world.phase = s.world.phase → Paired now { s with world } := by
    intro hphase
    refine h.of_phase hplaced (fun j => by rw [hphase]) fun j co hm => ⟨co, ?_, rfl⟩
    rwa [hphase] at hm
  cases a with
  | turn i => exact absurd rfl (hturn i)
  | schedule i t timeoutTime => exact absurd rfl (hschedule i t timeoutTime)
  | submit i uuid created =>
    cases created with
    | false =>
      simp only [World.step, Option.some.injEq] at hworld
      exact hsame (hworld ▸ rfl)
    | true =>
      rw [World.step_submit, Option.some.injEq] at hworld
      exact hsame (hworld ▸ rfl)
  | tryResume i coName =>
    obtain ⟨panics, he⟩ := World.step_tryResume hworld
    exact hsame (he ▸ rfl)
  | call i k =>
    obtain ⟨t, timeoutTime, co, hr, rfl⟩ := World.step_call hworld
    have hp := World.running_eq hr
    refine h.set hplaced rfl (show (s.world.phase i).co = {co} by rw [hp]; rfl) ?_ ?_
    · rw [hp, Phase.slice, Phase.slice, CoroutineImpl.call_name]
    · intro co' hm
      rw [Multiset.mem_singleton.1 hm, CoroutineImpl.call_name]
  | leave i o =>
    obtain ⟨t, timeoutTime, co, hr, rfl⟩ := World.step_leave hworld
    have hp := World.running_eq hr
    have hdone : co.done = false := by
      have hsound := h.placed.sound.phase i
      rwa [hp] at hsound
    obtain ⟨result, co', l, he, hname, -⟩ :=
      CoroutineImpl.leave_yielded (l := s.world.locals t) hdone (hok _ hr)
    simp only [he] at hplaced ⊢
    refine h.set hplaced rfl (show (s.world.phase i).co = {co} by rw [hp]; rfl) ?_ ?_
    · rw [hp, Phase.slice, Phase.slice, hname]
    · intro co'' hm
      rw [Multiset.mem_singleton.1 hm, hname]

theorem Paired.schedule (hmono : Monotone now) {s s' : Monitored ι θ n} (h : s.Paired now) {i : ι}
    {t : θ} {timeoutTime slot : Nat}
    (hs : s.step now (.schedule i t timeoutTime slot) = some s') : s'.Paired now := by
  simp only [Monitored.step, Option.map_eq_some_iff] at hs
  obtain ⟨world, hworld, rfl⟩ := hs
  have hplaced : world.Placed now := h.placed.step (a := .schedule i t timeoutTime) hmono trivial hworld
  obtain ⟨hp, rfl⟩ := World.step_schedule hworld
  have hidle : (s.world.phase i).co = 0 := by rw [hp]; rfl
  have hslices : slicesOf s.monitor.stamp (update s.monitor.slot i slot)
      (s.world.setPhase i (.top t timeoutTime)).phase = s.slices := by
    refine Finset.sum_congr rfl fun j _ => ?_
    dsimp only
    by_cases hj : j = i
    · rw [hj, Phase.slice_of_co hidle, World.setPhase_phase]
      rfl
    · rw [update_of_ne hj, World.setPhase_phase_ne _ hj]
  refine ⟨hplaced, ?_, h.stamped, fun j co hco => ?_⟩
  · show (↑(s.monitor.tasks.elems.map Prod.snd) : Multiset (TaskNode θ)) =
      slicesOf s.monitor.stamp (update s.monitor.slot i slot)
        (s.world.setPhase i (.top t timeoutTime)).phase + ↑s.monitor.cleanQueue
    rw [hslices]
    exact h.nodes
  · by_cases hj : j = i
    · rw [hj, World.setPhase_phase] at hco
      exact absurd hco (Multiset.notMem_zero _)
    · rw [World.setPhase_phase_ne _ hj] at hco
      exact h.stamps j co hco

/-- The monitor thread takes the node of a slice that has ended out of its entry. -/
theorem Paired.clean {s s' : Monitored ι θ n} (h : s.Paired now) {index : Nat}
    (hok : ∀ node ∈ s.monitor.cleanQueue.head?,
      ∀ entry ∈ s.monitor.tasks.getEntry node.timestamp, entry.inner.Pairwise (· ≤ ·))
    (hs : s.step now (.clean index) = some s') : s'.Paired now := by
  simp only [Monitored.step, Option.map_eq_some_iff] at hs
  obtain ⟨monitor, hclean, rfl⟩ := hs
  unfold MonitorImpl.clean at hclean
  split at hclean
  · cases hclean
  rename_i node cleanQueue hqueue
  have hnode : (node.timestamp, node) ∈ s.monitor.tasks.elems := by
    have hm : node ∈ (↑(s.monitor.tasks.elems.map Prod.snd) : Multiset (TaskNode θ)) := by
      rw [h.nodes, hqueue]
      exact Multiset.mem_add.2 (.inr List.mem_cons_self)
    obtain ⟨⟨timestamp, node'⟩, he, rfl⟩ := List.mem_map.1 hm
    have hstamped : node'.timestamp = timestamp := h.stamped _ he
    rw [hstamped]
    exact he
  obtain ⟨entry, hentry, hmem⟩ := TimerList.mem_getEntry hnode
  simp only [hentry, Option.ite_none_right_eq_some, Option.some.injEq] at hclean
  obtain ⟨hsearch, rfl⟩ := hclean
  have hfound : entry.inner[index]? = some node :=
    TimerEntry.searches_mem hsearch (hok node (by rw [hqueue]; rfl) entry hentry) hmem
  have hperm := TimerList.elems_remove_perm hentry hfound
  refine ⟨h.placed, ?_, fun e he => ?_, h.stamps⟩
  · have hnodes := h.nodes
    rw [hqueue, Multiset.coe_eq_coe.2 (hperm.map Prod.snd), List.map_cons, ← Multiset.cons_coe,
      ← Multiset.cons_coe, Multiset.add_cons, Multiset.cons_inj_right] at hnodes
    exact hnodes
  · exact h.stamped e (hperm.mem_iff.2 (List.mem_cons_of_mem _ he))

/-- No coroutine yields in a system call, and the entry of a node that is taken out is
sorted. -/
def Sliced (s : Monitored ι θ n) : Act ι θ → Prop
  | .world (.turn i) => ∀ r ∈ (s.world.phase i).yielded, r.2.isSystemCall = false
  | .world a => s.world.Disciplined a
  | .clean _ => ∀ node ∈ s.monitor.cleanQueue.head?,
      ∀ entry ∈ s.monitor.tasks.getEntry node.timestamp, entry.inner.Pairwise (· ≤ ·)
  | .schedule .. | .stop => True

instance (s : Monitored ι θ n) : (a : Act ι θ) → Decidable (s.Sliced a)
  | .world (.turn i) =>
    inferInstanceAs (Decidable (∀ r ∈ (s.world.phase i).yielded, r.2.isSystemCall = false))
  | .world (.submit i uuid created) =>
    inferInstanceAs (Decidable (s.world.Disciplined (.submit i uuid created)))
  | .world (.leave i o) => inferInstanceAs (Decidable (s.world.Disciplined (.leave i o)))
  | .world (.tryResume ..) | .world (.schedule ..) | .world (.call ..) => isTrue trivial
  | .clean _ => inferInstanceAs (Decidable (∀ node ∈ s.monitor.cleanQueue.head?,
      ∀ entry ∈ s.monitor.tasks.getEntry node.timestamp, entry.inner.Pairwise (· ≤ ·)))
  | .schedule .. | .stop => isTrue trivial

theorem Paired.step (hmono : Monotone now) {s s' : Monitored ι θ n} (h : s.Paired now)
    {a : Act ι θ} (hok : s.Sliced a) (hs : s.step now a = some s') : s'.Paired now := by
  cases a with
  | world a =>
    cases a with
    | turn i => exact h.turn hmono hok hs
    | schedule i t timeoutTime => cases hs
    | submit i uuid created =>
      exact h.world (a := .submit i uuid created) hmono hok nofun nofun hs
    | tryResume i coName => exact h.world (a := .tryResume i coName) hmono hok nofun nofun hs
    | call i k => exact h.world (a := .call i k) hmono hok nofun nofun hs
    | leave i o => exact h.world (a := .leave i o) hmono hok nofun nofun hs
  | schedule i t timeoutTime slot => exact h.schedule hmono hs
  | clean index => exact h.clean hok hs
  | stop =>
    simp only [Monitored.step, Option.some.injEq] at hs
    subst hs
    exact ⟨h.placed, h.nodes, h.stamped, h.stamps⟩

structure Initial (s : Monitored ι θ n) : Prop where
  world : s.world.Initial
  tasks : s.monitor.tasks.elems = []
  cleanQueue : s.monitor.cleanQueue = []

omit [DecidableEq ι] [LinearOrder θ] in
theorem Initial.paired {s : Monitored ι θ n} (h : s.Initial) [DecidableEq θ] :
    s.Paired now := by
  have hidle : ∀ i, (s.world.phase i).co = 0 := fun i => by rw [h.world.phase i]; rfl
  have hslices : s.slices = 0 := total_zero fun i => Phase.slice_of_co (hidle i) _ _
  refine ⟨h.world.placed, ?_, fun e he => ?_, fun i co hco => ?_⟩
  · rw [h.tasks, h.cleanQueue, hslices]
    rfl
  · rw [h.tasks] at he
    cases he
  · rw [hidle i] at hco
    exact absurd hco (Multiset.notMem_zero _)

/-- Once the clean queue is processed the monitor has exactly the nodes of the calls of
`resume_with` in progress, and with none in progress it loops only until it is stopped. -/
theorem slices_forgotten (hmono : Monotone now) {s₀ s : Monitored ι θ n} (h₀ : s₀.Initial)
    (h : Reaches (step now) Sliced s₀ s) (hclean : s.monitor.cleanQueue = []) :
    (↑(s.monitor.tasks.elems.map Prod.snd) : Multiset (TaskNode θ)) = s.slices ∧
      ((∀ i, (s.world.phase i).co = 0) → s.monitor.loops = s.monitor.run) := by
  have hp : s.Paired now := h.invariant h₀.paired fun _ _ _ hi hok hs => hi.step hmono hok hs
  have hnodes := hp.nodes
  rw [hclean, Multiset.coe_nil, add_zero] at hnodes
  refine ⟨hnodes, fun hidle => ?_⟩
  have hslices : s.slices = 0 := total_zero fun i => Phase.slice_of_co (hidle i) _ _
  have hempty : s.monitor.tasks.isEmpty = true := by
    rw [hslices, Multiset.coe_eq_zero, List.map_eq_nil_iff] at hnodes
    exact TimerList.isEmpty_of_elems hnodes
  rw [MonitorImpl.loops, hempty, Bool.not_true, Bool.or_false]

def pair : Monitored (Fin 2) (Fin 2) 2 where
  world := World.pair
  monitor := { slot := fun _ => 0 }

theorem pair_initial : pair.Initial := ⟨World.pair_initial, rfl, rfl⟩

theorem slices_forgotten_suspended :
    ∃ s : Monitored (Fin 2) (Fin 2) 2, s.monitor.run = false ∧ s.monitor.cleanQueue = [] ∧
      (↑(s.monitor.tasks.elems.map Prod.snd) : Multiset (TaskNode (Fin 2))) = s.slices ∧
        ((∀ i, (s.world.phase i).co = 0) → s.monitor.loops = s.monitor.run) := by
  obtain ⟨s, h, hrun, hclean⟩ : ∃ s : Monitored (Fin 2) (Fin 2) 2,
      Reaches (step id) Sliced pair s ∧ s.monitor.run = false ∧ s.monitor.cleanQueue = [] :=
    ⟨_, Reaches.of_runGuarded [.world (.submit 1 "a" true), .schedule 1 1 1000 7,
      .world (.turn 1), .world (.turn 1), .world (.turn 1), .world (.leave 1 (.suspendWith ())),
      .world (.turn 1), .stop, .clean 0] rfl, rfl, rfl⟩
  exact ⟨s, hrun, hclean, slices_forgotten monotone_id pair_initial h hclean⟩

/-- A coroutine yields in a system call; and of two nodes with one timestamp the search
misses the first. The monitor is stopped and goes on. -/
theorem slices_left :
    (∃ s : Monitored (Fin 2) (Fin 2) 2,
      Transition.run (step id) pair [.world (.submit 1 "a" true), .schedule 1 1 1000 7,
        .world (.turn 1), .world (.turn 1), .world (.turn 1),
        .world (.call 1 (.syscall () .recv (.suspend 100))), .world (.leave 1 (.suspendWith ())),
        .world (.turn 1), .stop] = some s ∧
      s.monitor.cleanQueue = [] ∧ (∀ i, (s.world.phase i).co = 0) ∧
        s.monitor.tasks.elems = [(1000, ⟨1000, 1, 7⟩)] ∧ s.monitor.run = false ∧
          s.monitor.loops = true) ∧
    ∃ s : Monitored (Fin 2) (Fin 2) 2,
      Transition.run (step id) pair [.world (.submit 1 "a" true), .world (.submit 1 "b" true),
        .schedule 1 1 1000 7, .schedule 0 0 1000 6, .world (.turn 1), .world (.turn 1),
        .world (.turn 1), .world (.turn 0), .world (.turn 0), .world (.turn 0),
        .world (.leave 1 (.suspendWith ())), .world (.leave 0 (.suspendWith ())),
        .world (.turn 0), .world (.turn 1), .stop, .clean 2, .clean 1] = some s ∧
      s.monitor.cleanQueue = [] ∧ (∀ i, (s.world.phase i).co = 0) ∧
        s.monitor.tasks.elems = [(1000, ⟨1000, 1, 7⟩)] ∧ s.monitor.run = false ∧
          s.monitor.loops = true := by
  have hidle : ∀ {phase : Fin 2 → Phase (Fin 2)}, (phase 0).co = 0 → (phase 1).co = 0 →
      ∀ i, (phase i).co = 0 := fun h₀ h₁ => Fin.forall_fin_two.2 ⟨h₀, h₁⟩
  exact ⟨⟨_, rfl, rfl, hidle rfl rfl, rfl, rfl, rfl⟩, ⟨_, rfl, rfl, hidle rfl rfl, rfl, rfl, rfl⟩⟩

end Monitored

end OpenCoroutine
