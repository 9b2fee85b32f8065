import OpenCoroutine.Balance
import OpenCoroutine.Descent
import OpenCoroutine.Rounds

/-! A thread that calls `try_timeout_schedule` again and again on one scheduler, with some time
ahead each time, while all bodies give way. It comes to `pop_front` again and again. -/

namespace OpenCoroutine

open Descent Function Transition

namespace World

variable {now : Nat → Nat}

def drive (now : Nat → Nat) (s : World Unit Unit 1) : Act Unit Unit :=
  match s.phase () with
  | .idle => .schedule () () (now s.readings + 1)
  | .resuming .. => .leave () (.suspendWith ())
  | _ => .turn ()

/-- How many steps it takes at most to come to `pop_front`. -/
def ahead (now : Nat → Nat) (s : World Unit Unit 1) : Nat :=
  match s.phase () with
  | .idle => 3
  | .top _ timeoutTime => if now s.readings < timeoutTime then 2 else 4
  | .checking .. => 1
  | .popping .. => 0
  | .resuming .. => 6
  | .returned .. => 5

structure Driven (now : Nat → Nat) (s : World Unit Unit 1) : Prop where
  placed : s.Placed now
  runs : ∀ t timeoutTime co, s.phase () = .resuming t timeoutTime co →
    s.running () = some (t, timeoutTime, co) ∧ (co.state = .running ∨ co.state.isSystemCall = true)

theorem entered_runs {co co' : Co} {l l' : Locals String} {time : Nat}
    (h : co.resumeEnter co.name l time = (none, co', l')) :
    l'.coroutine.head? = some co.name ∧ (co'.state = .running ∨ co'.state.isSystemCall = true) := by
  obtain ⟨rfl, hr⟩ := CoroutineImpl.resumeEnter_entered h
  refine ⟨rfl, ?_⟩
  cases hst : co.state with
  | created | ready =>
    simp only [CoroutineImpl.running, hst] at hr
    cases hr
    exact .inl rfl
  | suspend y timestamp =>
    simp only [CoroutineImpl.running, hst] at hr
    split at hr
    · cases hr
      exact .inl rfl
    · cases hr
  | systemCall y call state =>
    simp only [CoroutineImpl.running, hst] at hr
    cases hr
    exact .inr (by rw [hst]; rfl)
  | running | complete _ | error _ =>
    simp only [CoroutineImpl.running, hst] at hr
    cases hr

/-- In other phases no body runs. -/
theorem Driven.rests {s : World Unit Unit 1} {phase : Phase Unit} (hplaced : s.Placed now)
    (hphase : s.phase () = phase) (hruns : ∀ t timeoutTime co, phase ≠ .resuming t timeoutTime co) :
    s.Driven now where
  placed := hplaced
  runs t timeoutTime co hp := absurd (hphase.symm.trans hp) (hruns t timeoutTime co)

theorem Driven.turn (hmono : Monotone now) {s s' : World Unit Unit 1} (h : s.Driven now)
    (hs : s.turn now () = some s') :
    s'.Driven now ∧ (s.Pops (.turn ()) () ∨ ahead now s' < ahead now s) := by
  have hplaced := h.placed.turn hmono hs
  cases turns hs with
  | @timedOut t timeoutTime hp hleft =>
    refine ⟨.rests hplaced (setPhase_phase _ _ _) (fun _ _ _ he => by cases he), .inr ?_⟩
    have hlate : ¬ now s.readings < timeoutTime := by omega
    simp only [ahead, hp, setPhase_phase, if_neg hlate]
    decide
  | @check t timeoutTime hp hleft =>
    refine ⟨.rests hplaced (setPhase_phase _ _ _) (fun _ _ _ he => by cases he), .inr ?_⟩
    simp only [ahead, hp, setPhase_phase]
    split <;> decide
  | @checked t timeoutTime leftTime v hp hv =>
    refine ⟨.rests hplaced (setPhase_phase _ _ _) (fun _ _ _ he => by cases he), .inr ?_⟩
    simp only [ahead, hp, setPhase_phase]
    decide
  | checkStops hp hv =>
    have hadds := View.checkReady_adds hmono (h.placed.sound.view ())
    rw [hv] at hadds
    cases hadds.through
  | popsNone hp hq =>
    exact ⟨.rests hplaced (setPhase_phase _ _ _) (fun _ _ _ he => by cases he),
      .inl ⟨rfl, by rw [hp]; rfl⟩⟩
  | @pops t timeoutTime leftTime co ready queue hp hq =>
    refine ⟨⟨hplaced, fun t' timeoutTime' co' hp' => ?_⟩, .inl ⟨rfl, by rw [hp]; rfl⟩⟩
    have hco := (h.placed.popFront hq).2.2 co rfl
    obtain ⟨co'', l, hentered, hname, -, he⟩ := enter_eq (s := s.setView () { s.view () with
      queue, sched := { s.sched () with ready } }) hco () t timeoutTime
    obtain ⟨hhead, hstate⟩ := entered_runs hentered
    rw [he, setPhase_phase] at hp'
    cases hp'
    refine ⟨?_, hstate⟩
    rw [he, running, setPhase_phase]
    refine if_pos ?_
    rw [hname]
    exact hhead
  | @fails t timeoutTime co e hp =>
    refine ⟨.rests hplaced (setPhase_phase _ _ _) (fun _ _ _ he => by cases he), .inr ?_⟩
    simp only [ahead, hp, stop, setPhase_phase]
    decide
  | @places t timeoutTime co result v hp hv =>
    refine ⟨.rests hplaced (setPhase_phase _ _ _) (fun _ _ _ he => by cases he), .inr ?_⟩
    simp only [ahead, hp, setPhase_phase]
    split <;> decide
  | @placeStops t timeoutTime co result stop v hp hv =>
    have hphase := congrFun ((s.setView () v).stop_rests () stop).1 ()
    rw [update_self] at hphase
    refine ⟨.rests hplaced hphase (fun _ _ _ he => by cases he), .inr ?_⟩
    simp only [ahead, hp, hphase]
    decide

variable (now) in
theorem exists_turn {s : World Unit Unit 1} (hidle : s.phase () ≠ .idle)
    (hruns : ∀ t timeoutTime co, s.phase () ≠ .resuming t timeoutTime co) :
    ∃ s', s.turn now () = some s' := by
  unfold World.turn
  split
  · rename_i hp
    exact absurd hp hidle
  · rename_i hp
    exact absurd hp (hruns _ _ _)
  · dsimp only
    split <;> exact ⟨_, rfl⟩
  · split <;> exact ⟨_, rfl⟩
  · dsimp only
    split <;> exact ⟨_, rfl⟩
  · exact ⟨_, rfl⟩
  · split <;> exact ⟨_, rfl⟩

theorem Driven.step (hmono : Monotone now) {s : World Unit Unit 1} (h : s.Driven now) :
    ∃ s', s.step now (drive now s) = some s' ∧ s.Disciplined (drive now s) ∧ s'.Driven now ∧
      (s.Pops (drive now s) () ∨ ahead now s' < ahead now s) := by
  cases hp : s.phase () with
  | idle =>
    have hdrive : drive now s = .schedule () () (now s.readings + 1) := by rw [drive, hp]
    have hs : s.step now (drive now s) = some (s.setPhase () (.top () (now s.readings + 1))) := by
      rw [hdrive]
      simp only [World.step, hp]
    have hok : s.Disciplined (drive now s) := by
      rw [hdrive]
      trivial
    refine ⟨_, hs, hok, .rests (h.placed.step hmono hok hs) (setPhase_phase _ _ _)
      (fun _ _ _ he => by cases he), .inr ?_⟩
    simp only [ahead, hp, setPhase_phase]
    split
    · decide
    · rename_i hlate
      exact absurd (Nat.lt_succ_self _) hlate
  | resuming t timeoutTime co =>
    have hdrive : drive now s = .leave () (.suspendWith ()) := by rw [drive, hp]
    obtain ⟨hrun, hstate⟩ := h.runs t timeoutTime co hp
    have hok : s.Disciplined (drive now s) := by
      rw [hdrive]
      intro r hr
      rw [hrun, Option.mem_some] at hr
      cases hr
      exact hstate
    obtain ⟨s', hs⟩ : ∃ s', s.step now (.leave () (.suspendWith ())) = some s' := by
      simp only [World.step, hrun, Option.map_some]
      exact ⟨_, rfl⟩
    obtain ⟨t', timeoutTime', co', -, he⟩ := step_leave hs
    have hplaced := h.placed.step hmono hok (hdrive ▸ hs)
    have hphase : s'.phase () = .returned t' timeoutTime'
        (co'.leave (s.locals t') (.suspendWith ())).2.1
        (co'.leave (s.locals t') (.suspendWith ())).1 := by rw [he, setPhase_phase]
    refine ⟨s', hdrive ▸ hs, hok, .rests hplaced hphase (fun _ _ _ he => by cases he), .inr ?_⟩
    simp only [ahead, hp, hphase]
    decide
  | top | checking | popping | returned =>
    have hdrive : drive now s = .turn () := by rw [drive, hp]
    have hruns : ∀ t timeoutTime co, s.phase () ≠ .resuming t timeoutTime co := by
      rw [hp]
      intro t timeoutTime co he
      cases he
    have hidle : s.phase () ≠ .idle := by
      rw [hp]
      intro he
      cases he
    obtain ⟨s', hs⟩ := exists_turn now hidle hruns
    rw [hdrive]
    exact ⟨s', hs, trivial, h.turn hmono hs⟩

/-- The states that the thread goes through. -/
def driven (now : Nat → Nat) (s : World Unit Unit 1) : Nat → World Unit Unit 1
  | 0 => s
  | i + 1 => ((driven now s i).step now (drive now (driven now s i))).getD (driven now s i)

/-- It goes on for ever, and comes to `pop_front` again and again. -/
theorem Driven.runs_on (hmono : Monotone now) {s : World Unit Unit 1} (h : s.Driven now) :
    Runs now (driven now s) (fun i => drive now (driven now s i)) ∧
      Recurs fun i => (driven now s i).Pops (drive now (driven now s i)) () := by
  have hstep : ∀ i, (driven now s i).Driven now → ∃ s', s' = driven now s (i + 1) ∧
      (driven now s i).step now (drive now (driven now s i)) = some s' ∧
      (driven now s i).Disciplined (drive now (driven now s i)) ∧ s'.Driven now ∧
      ((driven now s i).Pops (drive now (driven now s i)) () ∨
        ahead now s' < ahead now (driven now s i)) := by
    intro i hi
    obtain ⟨s', hs, hrest⟩ := hi.step hmono
    refine ⟨s', ?_, hs, hrest⟩
    rw [driven, hs, Option.getD_some]
  have hdriven : ∀ i, (driven now s i).Driven now := by
    intro i
    induction i with
    | zero => exact h
    | succ i ih =>
      obtain ⟨s', rfl, -, -, hs', -⟩ := hstep i ih
      exact hs'
  refine ⟨⟨fun i => ?_, fun i => ?_⟩, ?_⟩
  · obtain ⟨s', rfl, hs, -⟩ := hstep i (hdriven i)
    exact hs
  · obtain ⟨s', rfl, -, hok, -⟩ := hstep i (hdriven i)
    exact hok
  · have hall : Recurs fun _ => True := fun i => ⟨i, le_rfl, trivial⟩
    refine hall.good (fun i => ahead now (driven now s i)) (fun i hno => absurd trivial hno)
      fun i _ => ?_
    obtain ⟨s', rfl, -, -, -, hahead⟩ := hstep i (hdriven i)
    exact hahead

def before {α : Type*} (a : α) (σ : Nat → α) : Nat → α
  | 0 => a
  | i + 1 => σ i

/-- A finite run that can be evaluated, and then the thread. -/
theorem exists_runs (hmono : Monotone now) (as : List (Act Unit Unit)) {s s' : World Unit Unit 1}
    (h : runGuarded (step now) Disciplined s as = some s') (hs' : s'.Driven now) :
    ∃ σ act, Runs now σ act ∧ σ 0 = s ∧ σ as.length = s' ∧
      Recurs fun i => (σ i).Pops (act i) () := by
  induction as generalizing s with
  | nil =>
    cases h
    obtain ⟨hruns, hrecurs⟩ := hs'.runs_on hmono
    exact ⟨_, _, hruns, rfl, rfl, hrecurs⟩
  | cons a as ih =>
    simp only [runGuarded, Option.ite_none_right_eq_some, Option.bind_eq_some_iff] at h
    obtain ⟨hok, t, ht, hrun⟩ := h
    obtain ⟨σ, act, hruns, rfl, hend, hrecurs⟩ := ih hrun
    refine ⟨before s σ, before a act, ⟨fun i => ?_, fun i => ?_⟩, rfl, hend, fun i => ?_⟩
    · cases i with
      | zero => exact ht
      | succ i => exact hruns.step i
    · cases i with
      | zero => exact hok
      | succ i => exact hruns.disciplined i
    · obtain ⟨j, hij, hj⟩ := hrecurs i
      exact ⟨j + 1, Nat.le_succ_of_le hij, hj⟩

end World

end OpenCoroutine
