import OpenCoroutine.Duties
import OpenCoroutine.PoolMoves

/-! A thread that schedules one pool again and again, with some time ahead each time, when no task
is left and all workers have ended. Its scheduler comes to `pop_front` again and again. -/

namespace OpenCoroutine

open Descent Function Transition

namespace Pools

variable {now : Nat → Nat}

def drive (now : Nat → Nat) (s : Pools Unit Unit 1) : Act Unit Unit :=
  match s.world.phase () with
  | .idle => .schedule () () (now s.world.readings + 1) "" false
  | _ => .turn () "" false

/-- No task is left, and every worker is among the finished. -/
structure Quiet (now : Nat → Nat) (s : Pools Unit Unit 1) : Prop where
  driven : s.world.Driven now
  finished : names ↑s.world.finished = ↑s.world.submitted
  tasks : (s.pool ()).taskQueue = []
  scheduling : s.world.phase () = .idle → (s.pool ()).scheduling = false

theorem Quiet.co {s : Pools Unit Unit 1} (h : s.Quiet now) : (s.world.phase ()).co = 0 := by
  have hnames := h.driven.placed.names
  rw [World.names_eq, h.finished, ← add_assoc, add_eq_right, add_eq_zero] at hnames
  have hphase := hnames.2
  simp only [Family.total, Finset.univ_unique, Finset.sum_singleton] at hphase
  exact Multiset.map_eq_zero.1 hphase

/-- A step without a task and without a worker. -/
structure Idles (s s' : Pools Unit Unit 1) : Prop where
  pc : s'.pc = s.pc
  pool : ∃ scheduling, s'.pool () = { s.pool () with scheduling } ∧
    (s'.world.phase () = .idle → scheduling = false)

theorem Quiet.starts {s : Pools Unit Unit 1} (h : s.Quiet now) (hp : s.world.phase () = .idle)
    {timeoutTime : Nat} {world : World Unit Unit 1}
    (hw : s.world.step now (.schedule () () timeoutTime) = some world) :
    ∃ s', s.step now (.schedule () () timeoutTime "" false) = some s' ∧
      s'.world = world ∧ Idles s s' := by
  obtain ⟨s₁, hs₁⟩ : ∃ s₁, s₁ = (s.setPool () { s.pool () with scheduling := true }).setStack ()
    (() :: s.stack ()) := ⟨_, rfl⟩
  have hpool : s₁.pool () = { s.pool () with scheduling := true } := by
    rw [hs₁]
    exact setPool_self s () _
  have hworld : s₁.world = s.world := by
    rw [hs₁]
    rfl
  have hfree : ¬ ∃ q, (s.world.phase q).thread = some () := by
    rintro ⟨q, hq⟩
    have hidle : s.world.phase q = .idle := hp
    rw [hidle] at hq
    cases hq
  have hgrow : s₁.grow now () (s.pool ()).state.isGrowing "" false = some (true, s₁) := by
    simp only [grow, hpool, h.tasks, List.isEmpty_nil, Bool.or_true, Bool.true_or, if_true]
  have hlift : s₁.lift now (.schedule () () timeoutTime) = some { s₁ with world } := by
    rw [lift, hworld, hw]
    rfl
  refine ⟨{ s₁ with world }, ?_, rfl, by rw [hs₁]; rfl, true, hpool, fun hidle => ?_⟩
  · simp only [Pools.step, if_neg hfree, h.scheduling hp, Bool.false_eq_true, if_false, ← hs₁,
      hgrow, Option.bind_some, if_true, hlift]
  · obtain ⟨-, rfl⟩ := World.step_schedule hw
    change (s.world.setPhase () _).phase () = .idle at hidle
    rw [World.setPhase_phase] at hidle
    cases hidle

theorem Quiet.turns (hmono : Monotone now) {s : Pools Unit Unit 1} (h : s.Quiet now)
    {world : World Unit Unit 1} (hw : s.world.step now (.turn ()) = some world) :
    ∃ s', s.step now (.turn () "" false) = some s' ∧
      s'.world = world ∧ Idles s s' := by
  have hco := h.co
  have hlift : s.lift now (.turn ()) = some { s with world } := by
    rw [lift, hw]
    rfl
  have hstep : s.step now (.turn () "" false) = s.advance now () := by
    simp only [Pools.step]
    split
    · rename_i hp
      rw [hp] at hco
      exact absurd hco (Multiset.singleton_ne_zero _)
    · rfl
  have hpanics : world.panics = s.world.panics := by
    rw [h.driven.placed.sound.panics]
    exact (h.driven.placed.turn hmono hw).sound.panics
  have hthread : ∃ t, (s.world.phase ()).thread = some t := by
    cases hp : s.world.phase () with
    | idle =>
      change s.world.turn now () = some world at hw
      simp only [World.turn, hp] at hw
      cases hw
    | top t | checking t | popping t | resuming t | returned t => exact ⟨t, rfl⟩
  obtain ⟨t, ht⟩ := hthread
  rw [hstep, advance, hlift, Option.map_some]
  refine ⟨_, rfl, ?_⟩
  simp only [ht, hpanics, if_true]
  cases hidle : world.phase () with
  | idle =>
    refine ⟨rfl, rfl, false, setPool_self _ _ _, fun _ => rfl⟩
  | top | checking | popping | resuming | returned =>
    refine ⟨rfl, rfl, (s.pool ()).scheduling, rfl, fun hp => ?_⟩
    change world.phase () = .idle at hp
    rw [hidle] at hp
    cases hp

theorem Quiet.step (hmono : Monotone now) {s : Pools Unit Unit 1} (h : s.Quiet now) :
    ∃ s', s.step now (drive now s) = some s' ∧ s.Homed now (drive now s) ∧
      s.Steady (drive now s) ∧ s'.Quiet now ∧ Idles s s' ∧
      (s.Pops (drive now s) () ∨ World.ahead now s'.world < World.ahead now s.world) := by
  obtain ⟨world, hw, hok, hdriven, hahead⟩ := h.driven.step hmono
  have hco := h.co
  have hquiet : ∀ s' : Pools Unit Unit 1, s'.world = world → Idles s s' →
      world.finished = s.world.finished → world.submitted = s.world.submitted → s'.Quiet now := by
    rintro s' rfl hidles hfinished hsubmitted
    obtain ⟨scheduling, hpool, hscheduling⟩ := hidles.pool
    refine ⟨hdriven, ?_, ?_, fun hidle => ?_⟩
    · rw [hfinished, hsubmitted]
      exact h.finished
    · rw [hpool]
      exact h.tasks
    · rw [hpool]
      exact hscheduling hidle
  cases hp : s.world.phase () with
  | idle =>
    have hdrive : drive now s = .schedule () () (now s.world.readings + 1) "" false := by
      rw [drive, hp]
    have hdrive' : World.drive now s.world = .schedule () () (now s.world.readings + 1) := by
      rw [World.drive, hp]
    rw [hdrive'] at hw hahead
    rw [hdrive]
    obtain ⟨s', hs, hworld, hidles⟩ := h.starts hp hw
    obtain ⟨-, he⟩ := World.step_schedule hw
    refine ⟨s', hs, fun hno => (by cases hno), trivial, ?_, hidles, .inr ?_⟩
    · exact hquiet s' hworld hidles (by rw [he]; rfl) (by rw [he]; rfl)
    · rw [hworld]
      exact hahead.resolve_left fun hpops => by cases hpops.1
  | resuming | returned =>
    rw [hp] at hco
    exact absurd hco (Multiset.singleton_ne_zero _)
  | top | checking | popping =>
    have hdrive : drive now s = .turn () "" false := by rw [drive, hp]
    have hdrive' : World.drive now s.world = .turn () := by rw [World.drive, hp]
    rw [hdrive'] at hw hahead
    rw [hdrive]
    obtain ⟨s', hs, hworld, hidles⟩ := h.turns hmono hw
    have hturned := h.driven.placed.turned hmono hw
    have hfinished : world.finished = s.world.finished := by
      rcases hturned.phase with ⟨t, timeoutTime, co, result, hp', -⟩ | ⟨-, hfinished, -⟩
      · rw [hp'] at hco
        exact absurd hco (Multiset.singleton_ne_zero _)
      · exact hfinished
    refine ⟨s', hs, ⟨fun hno => (by cases hno), fun co hm => ?_⟩, trivial, ?_, hidles, ?_⟩
    · rw [hp] at hm
      cases hm
    · exact hquiet s' hworld hidles hfinished hturned.submitted
    · rw [hworld]
      exact hahead.imp_left fun hpops => ⟨⟨"", false, rfl⟩, hpops.2⟩

/-- The pool may always have workers, which are in state `Running` outside their tasks. -/
def Tended (now : Nat → Nat) (s : Pools Unit Unit 1) (a : Act Unit Unit) : Prop :=
  s.Homed now a ∧ s.Steady a ∧ (s.pool ()).state.isGrowing = true ∧ 0 < (s.pool ()).maxSize.toNat

instance (s : Pools Unit Unit 1) : (a : Act Unit Unit) → Decidable (s.Steady a)
  | .work p => inferInstanceAs (Decidable (∀ r ∈ s.world.running p, r.2.2.state = .running))
  | .submit .. | .tryGetResult .. | .tryRun .. | .changeState .. | .setMinSize .. | .setMaxSize ..
  | .setKeepAliveTime .. | .tryResume .. | .schedule .. | .turn .. | .call .. | .leave .. =>
    isTrue trivial

instance (s : Pools Unit Unit 1) (a : Act Unit Unit) : Decidable (s.Tended now a) :=
  inferInstanceAs (Decidable (_ ∧ _))

/-- The thread goes on for ever. -/
theorem Quiet.runs_on (hmono : Monotone now) {s : Pools Unit Unit 1} (h : s.Quiet now)
    (hgrowing : (s.pool ()).state.isGrowing = true) (hmax : 0 < (s.pool ()).maxSize.toNat) :
    ∃ (σ : Nat → Pools Unit Unit 1) (act : Nat → Act Unit Unit), σ 0 = s ∧
      (∀ i, (σ i).step now (act i) = some (σ (i + 1)) ∧ (σ i).Tended now (act i)) ∧
      (Recurs fun i => (σ i).Pops (act i) ()) ∧ ∀ i, (σ i).pc = s.pc := by
  obtain ⟨σ, act, hstart, hruns⟩ := exists_forever
    (p := fun s' : Pools Unit Unit 1 => s'.Quiet now ∧ s'.pc = s.pc ∧
      (s'.pool ()).state.isGrowing = true ∧ 0 < (s'.pool ()).maxSize.toNat)
    (R := fun (s : Pools Unit Unit 1) (a : Act Unit Unit) s' =>
      (s.step now a = some s' ∧ s.Tended now a) ∧ (s.Pops a () ∨ World.ahead now s'.world < World.ahead now s.world))
    (fun s' hs' => by
      obtain ⟨hquiet, hpc, hgrowing, hmax⟩ := hs'
      obtain ⟨s'', hs, hhomed, hsteady, hquiet', hidles, hahead⟩ := hquiet.step hmono
      obtain ⟨scheduling, hpool, -⟩ := hidles.pool
      refine ⟨_, s'', ⟨⟨hs, hhomed, hsteady, hgrowing, hmax⟩, hahead⟩, hquiet',
        hidles.pc.trans hpc, ?_, ?_⟩
      · rw [hpool]
        exact hgrowing
      · rw [hpool]
        exact hmax)
    ⟨h, rfl, hgrowing, hmax⟩
  have hall : Recurs fun _ => True := fun i => ⟨i, le_rfl, trivial⟩
  refine ⟨σ, act, hstart, fun i => (hruns i).2.1, ?_, fun i => (hruns i).1.2.1⟩
  exact hall.good (fun i => World.ahead now (σ i).world) (fun i hno => absurd trivial hno)
    fun i _ => (hruns i).2.2

/-- A finite run that can be evaluated, and then the thread. -/
theorem exists_runs (hmono : Monotone now) (as : List (Act Unit Unit)) {s s' : Pools Unit Unit 1}
    (h : runGuarded (step now) (Tended now) s as = some s') (hquiet : s'.Quiet now)
    (hgrowing : (s'.pool ()).state.isGrowing = true) (hmax : 0 < (s'.pool ()).maxSize.toNat) :
    ∃ (σ : Nat → Pools Unit Unit 1) (act : Nat → Act Unit Unit),
      (∀ k, k ≤ as.length → run (step now) s (as.take k) = some (σ k)) ∧
      (∀ i, (σ i).step now (act i) = some (σ (i + 1)) ∧ (σ i).Tended now (act i)) ∧
      (Recurs fun i => (σ i).Pops (act i) ()) ∧ ∀ i, as.length ≤ i → (σ i).pc = s'.pc := by
  induction as generalizing s with
  | nil =>
    cases h
    obtain ⟨σ, act, hstart, hruns, hpops, hpc⟩ := hquiet.runs_on hmono hgrowing hmax
    refine ⟨σ, act, fun k hk => ?_, hruns, hpops, fun i _ => hpc i⟩
    rw [Nat.le_zero.1 hk, hstart]
    rfl
  | cons a as ih =>
    simp only [runGuarded, Option.ite_none_right_eq_some, Option.bind_eq_some_iff] at h
    obtain ⟨hok, t, ht, hrun⟩ := h
    obtain ⟨σ, act, hbegin, hruns, hpops, hpc⟩ := ih hrun
    have hstart : t = σ 0 := Option.some.inj (hbegin 0 (Nat.zero_le _))
    subst hstart
    obtain ⟨σ', act', hfirst, hlater, hruns'⟩ := exists_before
      (R := fun (s : Pools Unit Unit 1) (a : Act Unit Unit) s' =>
        s.step now a = some s' ∧ s.Tended now a) hruns ⟨ht, hok⟩
    refine ⟨σ', act', fun k hk => ?_, hruns', fun i => ?_, fun i hi => ?_⟩
    · cases k with
      | zero =>
        rw [hfirst]
        rfl
      | succ k =>
        rw [(hlater k).1, ← hbegin k (Nat.le_of_succ_le_succ hk), List.take_succ_cons, run, ht]
        rfl
    · obtain ⟨j, hij, hj⟩ := hpops i
      rw [← (hlater j).1, ← (hlater j).2] at hj
      exact ⟨j + 1, Nat.le_succ_of_le hij, hj⟩
    · cases i with
      | zero => cases hi
      | succ i =>
        rw [(hlater i).1]
        exact hpc i (Nat.le_of_succ_le_succ hi)

end Pools

end OpenCoroutine
