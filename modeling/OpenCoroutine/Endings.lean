import Mathlib.Algebra.Order.BigOperators.Group.Finset
import Mathlib.Algebra.Order.Group.Multiset
import OpenCoroutine.NoneLost

/-! How the calls of `resume_with` in a system of schedulers end. A coroutine that has
ended stays with the scheduler that was given it back until the listeners have been
called, and is then among the finished. -/

namespace OpenCoroutine

open Family Function Transition

def Phase.thread {θ : Type*} : Phase θ → Option θ
  | .idle => none
  | .top t _ | .checking t _ _ | .popping t _ _ | .resuming t _ _ | .returned t _ _ _ => some t

/-- The coroutine that has returned and is not yet among the finished. -/
def Phase.ended {θ : Type*} : Phase θ → Multiset String
  | .returned _ _ co (.ok (.complete ())) => {co.name}
  | _ => 0

/-- The coroutine that has failed and is not yet among the finished. -/
def Phase.failed {θ : Type*} : Phase θ → Option Co
  | .returned _ _ co (.ok (.error _)) => some co
  | _ => none

theorem Phase.ended_le {θ : Type*} (phase : Phase θ) : phase.ended ≤ names phase.co := by
  unfold Phase.ended
  split
  · exact le_refl _
  · exact Multiset.zero_le _

namespace World

variable {ι θ : Type*} {n : Nat} {now : Nat → Nat}

@[simp] theorem finish_phase (s : World ι θ n) (co : Co) (result : CoroutineState Unit Unit) :
    (s.finish co result).phase = s.phase := by
  cases result <;> rfl

@[simp] theorem finish_submitted (s : World ι θ n) (co : Co) (result : CoroutineState Unit Unit) :
    (s.finish co result).submitted = s.submitted := by
  cases result <;> rfl

section

variable [DecidableEq ι]

/-- Scheduler `i` parks or ends the coroutine that it was given back, or goes on without
one, or enters one. -/
structure Turned (s s' : World ι θ n) (i : ι) : Prop where
  submitted : s'.submitted = s.submitted
  others : ∀ j, j ≠ i → s'.phase j = s.phase j
  phase : (∃ t timeoutTime co result, s.phase i = .returned t timeoutTime co (.ok result) ∧
      s'.phase i = .top t timeoutTime ∧ s'.finished = (s.finish co result).finished) ∨
    (s.phase i).co = 0 ∧ s'.finished = s.finished ∧ (s'.phase i).ended = 0 ∧
      (s'.phase i = .idle ∨ (s'.phase i).thread = (s.phase i).thread)

theorem Turned.of_setPhase {s s' : World ι θ n} {i : ι} {phase : Phase θ}
    (hsub : s'.submitted = s.submitted) (hfin : s'.finished = s.finished)
    (hphase : s'.phase = s.phase) (hco : (s.phase i).co = 0) (hend : phase.ended = 0)
    (hthread : phase = .idle ∨ phase.thread = (s.phase i).thread) :
    Turned s (s'.setPhase i phase) i where
  submitted := hsub
  others j hj := by rw [setPhase_phase_ne _ hj, hphase]
  phase := by
    rw [setPhase_phase]
    exact .inr ⟨hco, hfin, hend, hthread⟩

theorem Turned.phase_eq {s s' : World ι θ n} {i : ι} (h : Turned s s' i) :
    s'.phase = update s.phase i (s'.phase i) := by
  funext j
  by_cases hj : j = i
  · rw [hj, update_self]
  · rw [update_of_ne hj, h.others j hj]

end

section

variable [Fintype ι]

/-- The coroutines that are ready, suspended or in a syscall table. -/
def held (s : World ι θ n) : Multiset String :=
  OpenCoroutine.names s.queue.contents +
    total (fun _ sched => OpenCoroutine.names sched.parked) s.sched

def ended (s : World ι θ n) : Multiset String :=
  OpenCoroutine.names ↑s.finished + total (fun _ phase => phase.ended) s.phase

theorem names_eq (s : World ι θ n) :
    s.names = s.held + (total (fun _ phase => OpenCoroutine.names phase.co) s.phase +
      OpenCoroutine.names ↑s.finished) := rfl

variable [DecidableEq ι]

theorem total_names_ended (s : World ι θ n) (i : ι) (hend : (s.phase i).ended = 0) :
    OpenCoroutine.names (s.phase i).co + total (fun _ phase => phase.ended) s.phase ≤
      total (fun _ phase => OpenCoroutine.names phase.co) s.phase := by
  rw [total_split (fun (_ : ι) (phase : Phase θ) => phase.ended) s.phase i,
    total_split (fun (_ : ι) (phase : Phase θ) => OpenCoroutine.names phase.co) s.phase i, hend,
    zero_add]
  exact add_le_add_right (Finset.sum_le_sum fun k _ => (s.phase k).ended_le) _

theorem ended_setPhase {s : World ι θ n} {i : ι} {phase : Phase θ}
    (h : phase.ended = (s.phase i).ended) : (s.setPhase i phase).ended = s.ended := by
  have ht := total_same (fun (_ : ι) (phase : Phase θ) => phase.ended) s.phase h
  exact congrArg (OpenCoroutine.names ↑s.finished + ·) ht

theorem Distinct.phase_unique {s : World ι θ n} (h : s.Distinct) {i j : ι} {co co' : Co}
    (hi : co ∈ (s.phase i).co) (hj : co' ∈ (s.phase j).co) (hname : co.name = co'.name) :
    i = j := by
  by_contra hne
  have hmi : co.name ∈ OpenCoroutine.names (s.phase i).co := Multiset.mem_map_of_mem _ hi
  have hmj : co.name ∈ OpenCoroutine.names (s.phase j).co := by
    rw [hname]
    exact Multiset.mem_map_of_mem _ hj
  have hci := Multiset.one_le_count_iff_mem.2 hmi
  have hcj := Multiset.one_le_count_iff_mem.2 hmj
  have hle := Multiset.nodup_iff_count_le_one.1 h.nodup_names co.name
  have hsplit := total_split (fun (_ : ι) (phase : Phase θ) => OpenCoroutine.names phase.co)
    s.phase i
  have hmem : j ∈ Finset.univ.erase i := Finset.mem_erase.2 ⟨Ne.symm hne, Finset.mem_univ j⟩
  have hrest : OpenCoroutine.names (s.phase j).co ≤
      ∑ k ∈ Finset.univ.erase i, OpenCoroutine.names (s.phase k).co :=
    Finset.single_le_sum (fun k _ => Multiset.zero_le _) hmem
  have hcount := Multiset.count_le_of_le co.name hrest
  simp only [World.names_eq, hsplit, Multiset.count_add] at hle
  omega

variable [DecidableEq θ]

theorem Placed.turned (hmono : Monotone now) {s s' : World ι θ n} (h : s.Placed now) {i : ι}
    (hs : s.turn now i = some s') : Turned s s' i := by
  cases h.goes hmono hs with
  | timedOut hp => exact .of_setPhase rfl rfl rfl (by rw [hp]; rfl) rfl (.inl rfl)
  | check hp => exact .of_setPhase rfl rfl rfl (by rw [hp]; rfl) rfl (.inr (by rw [hp]; rfl))
  | checked hp => exact .of_setPhase rfl rfl rfl (by rw [hp]; rfl) rfl (.inr (by rw [hp]; rfl))
  | popsNone hp => exact .of_setPhase rfl rfl rfl (by rw [hp]; rfl) rfl (.inl rfl)
  | @pops t timeoutTime leftTime co ready queue hp hq hco =>
    obtain ⟨co', l, -, -, -, he⟩ := enter_eq (s := s.setView i { s.view i with
      queue, sched := { s.sched i with ready } }) hco i t timeoutTime
    rw [he]
    exact .of_setPhase rfl rfl rfl (by rw [hp]; rfl) rfl (.inr (by rw [hp]; rfl))
  | @places t timeoutTime co result v hp hy hv =>
    refine ⟨finish_submitted _ _ _, fun j hj => ?_, .inl ⟨t, timeoutTime, co, result, hp,
      setPhase_phase _ _ _, ?_⟩⟩
    · rw [setPhase_phase_ne _ hj, finish_phase]
      rfl
    · cases result <;> rfl

omit [DecidableEq θ] in
theorem Turned.ended {s s' : World ι θ n} {i : ι} (h : Turned s s' i) :
    s'.ended = s.ended + OpenCoroutine.names ↑(s.phase i).failed.toList := by
  have ht := total_update_add (fun (_ : ι) (phase : Phase θ) => phase.ended) s.phase i (s'.phase i)
  rw [← h.phase_eq] at ht
  rcases h.phase with ⟨t, timeoutTime, co, result, hp, htop, hfin⟩ | ⟨hco, hfin, hend, -⟩
  · have hzero : (s'.phase i).ended = 0 := by rw [htop]; rfl
    rw [hzero, add_zero] at ht
    rw [World.ended, World.ended, hfin, ← ht, hp]
    cases result with
    | complete y =>
      show OpenCoroutine.names ↑(co :: s.finished) + _ =
        OpenCoroutine.names ↑s.finished + (_ + {co.name}) + 0
      rw [names_cons]
      ac_rfl
    | error message =>
      show OpenCoroutine.names ↑(co :: s.finished) + _ =
        OpenCoroutine.names ↑s.finished + (_ + 0) + {co.name}
      rw [names_cons, add_zero]
      ac_rfl
    | created | ready | running | suspend _ _ | systemCall _ _ _ =>
      simp [World.finish, Phase.ended, Phase.failed]
  · have hzero : (s.phase i).ended = 0 := by
      have hle := (s.phase i).ended_le
      rw [hco, names_zero] at hle
      exact Multiset.le_zero.1 hle
    have hnone : (s.phase i).failed = none := by
      cases hp : s.phase i with
      | idle | top _ _ | checking _ _ _ | popping _ _ _ | resuming _ _ _ => rfl
      | returned t timeoutTime co result => simp [hp, Phase.co] at hco
    rw [hend, hzero, add_zero, add_zero] at ht
    rw [World.ended, World.ended, hfin, ht, hnone]
    simp

end

variable [DecidableEq ι] [DecidableEq θ]

/-- A body that gives back control has returned if it leaves with `returns`, and is parked
or has failed otherwise. -/
theorem leave_cases {s s' : World ι θ n} {i : ι} {o : Leave Unit Unit} {t : θ} {timeoutTime : Nat}
    {co : Co} (hr : s.running i = some (t, timeoutTime, co)) (hok : co.MayLeave o)
    (hs : s.step now (.leave i o) = some s') :
    s'.submitted = s.submitted ∧ s'.finished = s.finished ∧ (∀ j, j ≠ i → s'.phase j = s.phase j) ∧
      (s'.phase i).thread = some t ∧
      (s'.phase i).ended = if o = .returns () then {co.name} else 0 := by
  simp only [World.step, hr, Option.map_some, Option.some.injEq] at hs
  subst hs
  refine ⟨rfl, rfl, fun j hj => setPhase_phase_ne _ hj _, ?_, ?_⟩
  · rw [setPhase_phase]
    rfl
  · rw [setPhase_phase]
    cases o with
    | suspendWith arg | untilWith arg timestamp =>
      rcases hok with hst | hst
      · simp [CoroutineImpl.leave, Leave.onBody, CoroutineImpl.resumeExit, hst,
          CoroutineImpl.suspend, Phase.ended]
      · cases hco : co.state with
        | systemCall y call state =>
          simp [CoroutineImpl.leave, Leave.onBody, CoroutineImpl.resumeExit, hco, Phase.ended]
        | created | ready | running | suspend _ _ | complete _ | error _ =>
          rw [hco] at hst
          cases hst
    | returns val =>
      have hst : co.state = .running := hok
      simp [CoroutineImpl.leave, Leave.onBody, CoroutineImpl.resumeExit, hst,
        CoroutineImpl.complete, Phase.ended]
    | panics message | traps =>
      have hst : co.state = .running := hok
      simp [CoroutineImpl.leave, Leave.onBody, CoroutineImpl.resumeExit, hst,
        CoroutineImpl.error, Phase.ended]

end World

end OpenCoroutine
