import OpenCoroutine.Pools
import Mathlib.Order.Monotone.Basic

/-! The body of a worker that finds no task. It goes around its loop, one step of `work` after
another, until it suspends, blocks in a way that suspends, or returns; then its scheduler goes
on. -/

namespace OpenCoroutine

open Function Transition

inductive Blocker where
  | delay
  | sleep
  | condvar
  deriving DecidableEq, Repr

/-- Whether `block` suspends the worker; if not, it is back when the time is over. -/
def Blocker.suspends : Blocker → Bool
  | delay => true
  | sleep | condvar => false

/-- How a worker that is there gives control back: the steps that it takes to do so. -/
def WorkerPc.gives {ι θ : Type*} (blocker : Blocker) (p : ι) (timestamp : Nat) :
    WorkerPc ι → Option (List (Pools.Act ι θ))
  | .suspending => some [.leave p (.suspendWith ())]
  | .blocking _ => if blocker.suspends then some [.leave p (.untilWith () timestamp)] else none
  | .returned => some []
  | .top | .tasking _ _ | .starved _ | .failing _ => none

namespace Pools

variable {ι θ : Type*} {n : Nat} [DecidableEq ι] [DecidableEq θ] [Fintype ι]

section

variable (now : Nat → Nat)

/-- The call of `try_timeout_schedule` on pool `p` returns when its time is up. -/
def Returns (s : Pools ι θ n) (p : ι) (timeoutTime : Nat) : Prop :=
  timeoutTime ≤ now s.world.readings → ∀ uuid created, ∃ s',
    run (step now) s [.turn p uuid created, .turn p uuid created] = some s' ∧
      s'.world.phase p = .idle ∧ s'.world.returns = .ok 0 :: s.world.returns

/-- The worker gives control back after finitely many steps of its own, and then the scheduler
returns in time. -/
def FreesThread (blocker : Blocker) (s : Pools ι θ n) (p : ι) (timeoutTime : Nat)
    (coName : String) : Prop :=
  ∃ k s' w acts s'', run (step now) s (List.replicate k (.work p)) = some s' ∧
    s'.workers coName = some w ∧
    w.pc.gives blocker p (getTimeoutTime 1000000 (now s'.world.readings)) = some acts ∧
    run (step now) s' acts = some s'' ∧ s''.Returns now p timeoutTime

end

/-- A worker runs on thread `t`, with the tasks of pool `q`, which has none. -/
structure Idle (s : Pools ι θ n) (p : ι) (t : θ) (timeoutTime : Nat) (co : Co) (q : ι)
    (w : WorkerBody ι) : Prop where
  running : s.world.running p = some (t, timeoutTime, co)
  state : co.state = .running
  worker : s.workers co.name = some w
  current : s.current t = some q
  tasks : (s.pool q).taskQueue = []

structure Gone (s : Pools ι θ n) (p : ι) (t : θ) (timeoutTime : Nat) (q : ι) : Prop where
  phase : ∃ co result, s.world.phase p = .returned t timeoutTime co (.ok result) ∧
    (result = .complete () ∨ ∃ timestamp, result = .suspend () timestamp)
  current : s.current t = some q
  tasks : (s.pool q).taskQueue = []

variable {now : Nat → Nat} {s s' : Pools ι θ n} {p q : ι} {t : θ} {timeoutTime : Nat} {co : Co}
  {w : WorkerBody ι}

theorem Idle.step_work (h : s.Idle p t timeoutTime co q w) :
    s.step now (.work p) = s.work now p t co w := by
  simp only [step, h.running, h.worker, Option.bind_some]

theorem Idle.step_leave (h : s.Idle p t timeoutTime co q w) {o : Leave Unit Unit} {pc : WorkerPc ι}
    (hpc : w.pc.leave o = some pc) :
    s.step now (.leave p o) = (s.setWorker co.name { w with pc }).lift now (.leave p o) := by
  simp only [step, h.running, h.worker, hpc, Option.bind_some]

omit [DecidableEq ι] [DecidableEq θ] [Fintype ι] in
theorem Idle.setWorker (h : s.Idle p t timeoutTime co q w) (w' : WorkerBody ι) :
    (s.setWorker co.name w').Idle p t timeoutTime co q w' where
  running := h.running
  state := h.state
  worker := by simp [Pools.setWorker]
  current := h.current
  tasks := h.tasks

omit [DecidableEq θ] [Fintype ι] in
theorem Idle.setPool (h : s.Idle p t timeoutTime co q w) {pool : CoroutinePoolImpl}
    (hpool : pool.taskQueue = []) : (s.setPool q pool).Idle p t timeoutTime co q w where
  running := h.running
  state := h.state
  worker := h.worker
  current := h.current
  tasks := by simp [Pools.setPool, hpool]

omit [DecidableEq ι] [DecidableEq θ] [Fintype ι] in
theorem Idle.tick (h : s.Idle p t timeoutTime co q w) : s.tick.Idle p t timeoutTime co q w :=
  ⟨h.running, h.state, h.worker, h.current, h.tasks⟩

/-! Around the loop. -/

def next (pool : CoroutinePoolImpl) : Nat := (pool.popFailTimes + 1) % 2 ^ 64

def waited (s : Pools ι θ n) (q : ι) (coName : String) (w : WorkerBody ι) : Pools ι θ n :=
  (s.tick.setPool q { s.pool q with popFailTimes := next (s.pool q) }).setWorker coName
    { w with pc := if next (s.pool q) < (s.pool q).running then .suspending else .blocking q }

def woken (s : Pools ι θ n) (q : ι) (coName : String) (w : WorkerBody ι) : Pools ι θ n :=
  (s.setPool q { s.pool q with popFailTimes := 0 }).setWorker coName { w with pc := .top }

variable (now) in
theorem Idle.starves (h : s.Idle p t timeoutTime co q w) (hpc : w.pc = .top) :
    s.step now (.work p) = some (s.setWorker co.name { w with pc := .starved q }) := by
  rw [h.step_work]
  simp only [work, hpc, h.current, h.tasks]

variable (now) in
theorem Idle.waits (h : s.Idle p t timeoutTime co q w) (hpc : w.pc = .starved q)
    (hrecycles : (s.pool q).recycles w.createTime (now s.world.readings) = false) :
    s.step now (.work p) = some (s.waited q co.name w) := by
  rw [h.step_work]
  simp only [work, hpc, hrecycles, Bool.false_eq_true, if_false]
  rfl

variable (now) in
theorem Idle.wakes (h : s.Idle p t timeoutTime co q w) (hpc : w.pc = .blocking q) :
    s.step now (.work p) = some (s.woken q co.name w) := by
  rw [h.step_work]
  simp only [work, hpc]
  rfl

omit [DecidableEq θ] [Fintype ι] in
theorem Idle.waited (h : s.Idle p t timeoutTime co q w) :
    (s.waited q co.name w).Idle p t timeoutTime co q { w with
      pc := if next (s.pool q) < (s.pool q).running then .suspending else .blocking q } :=
  Idle.setWorker (h.tick.setPool (by exact h.tasks)) _

omit [DecidableEq θ] [Fintype ι] in
theorem Idle.woken (h : s.Idle p t timeoutTime co q w) :
    (s.woken q co.name w).Idle p t timeoutTime co q { w with pc := .top } :=
  Idle.setWorker (h.setPool (by exact h.tasks)) _

omit [DecidableEq θ] [Fintype ι] in
@[simp] theorem waited_pool (s : Pools ι θ n) (q : ι) (coName : String) (w : WorkerBody ι) :
    (s.waited q coName w).pool q = { s.pool q with popFailTimes := next (s.pool q) } :=
  update_self _ _ _

omit [DecidableEq θ] [Fintype ι] in
@[simp] theorem woken_pool (s : Pools ι θ n) (q : ι) (coName : String) (w : WorkerBody ι) :
    (s.woken q coName w).pool q = { s.pool q with popFailTimes := 0 } :=
  update_self _ _ _

/-! Giving control back. -/

theorem leave_running {l : Locals String} (hst : co.state = .running) {o : Leave Unit Unit}
    (ho : o = .returns () ∨ o = .suspendWith () ∨ ∃ timestamp, o = .untilWith () timestamp) :
    ∃ result, (co.leave l o).1 = .ok result ∧
      (result = .complete () ∨ ∃ timestamp, result = .suspend () timestamp) := by
  rcases ho with rfl | rfl | ⟨timestamp, rfl⟩
  · refine ⟨.complete (), ?_, .inl rfl⟩
    simp only [CoroutineImpl.leave, Leave.onBody, CoroutineImpl.resumeExit, CoroutineImpl.complete,
      hst]
  · refine ⟨.suspend () (l.timestamp.headD 0), ?_, .inr ⟨_, rfl⟩⟩
    simp only [CoroutineImpl.leave, Leave.onBody, CoroutineImpl.resumeExit, CoroutineImpl.suspend,
      hst]
    rfl
  · refine ⟨.suspend () timestamp, ?_, .inr ⟨_, rfl⟩⟩
    simp only [CoroutineImpl.leave, Leave.onBody, CoroutineImpl.resumeExit, CoroutineImpl.suspend,
      hst]
    rfl

omit [Fintype ι] in
variable (now) in
theorem Idle.leaves (h : s.Idle p t timeoutTime co q w) {o : Leave Unit Unit}
    (ho : o = .returns () ∨ o = .suspendWith () ∨ ∃ timestamp, o = .untilWith () timestamp) :
    ∃ s', s.lift now (.leave p o) = some s' ∧ s'.Gone p t timeoutTime q ∧
      s'.workers = s.workers := by
  obtain ⟨result, hok, hresult⟩ := leave_running (l := s.world.locals t) h.state ho
  have hstep : s.lift now (.leave p o) = some { s with
      world := (s.world.setLocals t (co.leave (s.world.locals t) o).2.2).setPhase p
        (.returned t timeoutTime (co.leave (s.world.locals t) o).2.1 (.ok result)) } := by
    simp only [lift, World.step, h.running, Option.map_some, ← hok]
  exact ⟨_, hstep, ⟨⟨_, result, World.setPhase_phase _ _ _, hresult⟩, h.current, h.tasks⟩, rfl⟩

omit [Fintype ι] in
variable (now) in
/-- The scheduler puts the coroutine where it belongs and looks at the clock again. -/
theorem Gone.places (h : s.Gone p t timeoutTime q) (uuid : String) (created : Bool) :
    ∃ world, (∃ co result, s.world.phase p = .returned t timeoutTime co (.ok result) ∧
        s.listen now t co result uuid created = some s) ∧
      s.world.turn now p = some world ∧ world.phase p = .top t timeoutTime ∧
      world.returns = s.world.returns ∧ s.world.readings ≤ world.readings := by
  obtain ⟨co, result, hphase, hresult⟩ := h.phase
  have hlisten : s.listen now t co result uuid created = some s := by
    rcases hresult with rfl | ⟨timestamp, rfl⟩
    · simp [listen, h.current]
    · simp [listen, h.current, grow, h.tasks]
  obtain ⟨v, hplace, hreadings⟩ : ∃ v, (s.world.view p).place now co result = (none, v) ∧
      s.world.readings ≤ v.readings := by
    rcases hresult with rfl | ⟨timestamp, rfl⟩
    · exact ⟨_, rfl, le_rfl⟩
    · by_cases hdue : timestamp ≤ now (s.world.view p).readings
      · exact ⟨_, by rw [View.place, if_pos hdue], Nat.le_succ _⟩
      · exact ⟨_, by rw [View.place, if_neg hdue], Nat.le_succ _⟩
  have hturn : s.world.turn now p =
      some (((s.world.setView p v).finish co result).setPhase p (.top t timeoutTime)) := by
    simp only [World.turn, hphase, hplace]
  refine ⟨_, ⟨co, result, hphase, hlisten⟩, hturn, World.setPhase_phase _ _ _, ?_, ?_⟩
  · rcases hresult with rfl | ⟨timestamp, rfl⟩ <;> rfl
  · rcases hresult with rfl | ⟨timestamp, rfl⟩ <;> exact hreadings

/-- What is left of the call of `try_timeout_schedule`. -/
theorem Gone.returns (h : s.Gone p t timeoutTime q) (hmono : Monotone now) :
    s.Returns now p timeoutTime := by
  intro htime uuid created
  obtain ⟨world, ⟨co, result, hphase, hlisten⟩, hturn, htop, hreturns, hreadings⟩ :=
    h.places now uuid created
  have hfirst : s.step now (.turn p uuid created) = some { s with world } := by
    simp only [step, hphase, hlisten, Option.bind_some, advance, lift, World.step, hturn,
      Option.map_some, htop]
  have hleft : timeoutTime - now world.readings = 0 := by
    have hle := hmono hreadings
    omega
  obtain ⟨s', hadvance, hworld⟩ : ∃ s', advance now { s with world } p = some s' ∧
      s'.world = (world.tick.giveBack (.ok 0)).setPhase p .idle := by
    have hnext : world.turn now p = some ((world.tick.giveBack (.ok 0)).setPhase p .idle) := by
      simp only [World.turn, htop, hleft, if_true]
    simp only [advance, lift, World.step, hnext, Option.map_some, htop]
    refine ⟨_, rfl, ?_⟩
    split
    · split <;> rfl
    · rfl
  have hsecond : step now { s with world } (.turn p uuid created) = some s' := by
    simp only [step, htop, hadvance]
  refine ⟨s', ?_, ?_, ?_⟩
  · simp only [run, hfirst, hsecond, Option.bind_some]
  · rw [hworld]
    exact World.setPhase_phase _ _ _
  · rw [hworld, ← hreturns]
    rfl

variable {blocker : Blocker}

theorem FreesThread.work {coName : String} (hs : s.step now (.work p) = some s')
    (h : s'.FreesThread now blocker p timeoutTime coName) :
    s.FreesThread now blocker p timeoutTime coName := by
  obtain ⟨k, s₁, w, acts, s₂, hrun, hrest⟩ := h
  refine ⟨k + 1, s₁, w, acts, s₂, ?_, hrest⟩
  simp only [List.replicate_succ, run, hs, Option.bind_some, hrun]

theorem Idle.frees_recycling (h : s.Idle p t timeoutTime co q w) (hmono : Monotone now)
    (hpc : w.pc = .starved q)
    (hrecycles : (s.pool q).recycles w.createTime (now s.world.readings) = true) :
    s.FreesThread now blocker p timeoutTime co.name := by
  have hidle : ((s.tick.setWorker co.name { w with pc := .returned }).decrement q co.name
      ((s.pool q).running - 1)).Idle p t timeoutTime co q { w with pc := .returned } := by
    have htasks : { s.pool q with running := (s.pool q).running - 1 }.taskQueue = [] := h.tasks
    have hset := (h.tick.setWorker { w with pc := .returned }).setPool htasks
    exact ⟨hset.running, hset.state, hset.worker, hset.current, hset.tasks⟩
  obtain ⟨s', hl, hgone, hworkers⟩ := hidle.leaves now (.inl rfl)
  have hstep : s.step now (.work p) = some s' := by
    rw [h.step_work]
    simp only [Pools.work, hpc, hrecycles, if_true]
    exact hl
  refine ⟨1, s', { w with pc := .returned }, [], s', ?_, ?_, rfl, rfl, hgone.returns hmono⟩
  · simp only [List.replicate_one, run, hstep, Option.bind_some]
  · rw [hworkers]
    exact hidle.worker

theorem Idle.frees_leaving (h : s.Idle p t timeoutTime co q w) (hmono : Monotone now)
    (hpc : w.pc = .suspending ∨ w.pc = .blocking q ∧ blocker.suspends = true) :
    s.FreesThread now blocker p timeoutTime co.name := by
  have hgives : ∀ o pc, w.pc.leave o = some pc →
      (o = .returns () ∨ o = .suspendWith () ∨ ∃ timestamp, o = .untilWith () timestamp) →
      ∃ s', run (step now) s [.leave p o] = some s' ∧ s'.Returns now p timeoutTime := by
    intro o pc ho hkind
    obtain ⟨s', hl, hgone, -⟩ := (h.setWorker { w with pc }).leaves now hkind
    refine ⟨s', ?_, hgone.returns hmono⟩
    simp only [run, h.step_leave ho, hl, Option.bind_some]
  rcases hpc with hpc | ⟨hpc, hsuspends⟩
  · obtain ⟨s', hrun, hreturns⟩ := hgives (.suspendWith ()) .top (by rw [hpc]; rfl) (.inr (.inl rfl))
    exact ⟨0, s, w, _, s', rfl, h.worker, by rw [hpc]; rfl, hrun, hreturns⟩
  · obtain ⟨s', hrun, hreturns⟩ :=
      hgives (.untilWith () (getTimeoutTime 1000000 (now s.world.readings))) (.blocking q)
        (by rw [hpc]; rfl) (.inr (.inr ⟨_, rfl⟩))
    exact ⟨0, s, w, _, s', rfl, h.worker, by rw [hpc, WorkerPc.gives, if_pos hsuspends], hrun,
      hreturns⟩

variable (blocker) in
/-- A time around the loop: the worker gives control back, or it is at the top again after a
block. -/
theorem Idle.around (h : s.Idle p t timeoutTime co q w) (hmono : Monotone now) (hpc : w.pc = .top) :
    s.FreesThread now blocker p timeoutTime co.name ∨
      (s.pool q).recycles w.createTime (now s.world.readings) = false ∧
        (s.pool q).running ≤ next (s.pool q) ∧ blocker.suspends = false ∧
        ∃ s' : Pools ι θ n, s'.Idle p t timeoutTime co q w ∧
          s'.pool q = { s.pool q with popFailTimes := 0 } ∧
          s'.world.readings = s.world.readings + 1 ∧
          (s'.FreesThread now blocker p timeoutTime co.name →
            s.FreesThread now blocker p timeoutTime co.name) := by
  have hstarves := h.starves now hpc
  have hstarved := h.setWorker { w with pc := .starved q }
  cases hrecycles : (s.pool q).recycles w.createTime (now s.world.readings) with
  | true => exact .inl (.work hstarves (hstarved.frees_recycling hmono rfl hrecycles))
  | false =>
    have hwaits := hstarved.waits now rfl hrecycles
    have hwaited := hstarved.waited
    by_cases hnext : next (s.pool q) < (s.pool q).running
    · refine .inl (.work hstarves (.work hwaits (hwaited.frees_leaving hmono (.inl ?_))))
      exact if_pos hnext
    · have hblocking : (if next (s.pool q) < (s.pool q).running then WorkerPc.suspending
          else .blocking q) = .blocking q := if_neg hnext
      cases hsuspends : blocker.suspends with
      | true =>
        exact .inl (.work hstarves (.work hwaits
          (hwaited.frees_leaving hmono (.inr ⟨hblocking, hsuspends⟩))))
      | false =>
        have hwakes := hwaited.wakes now hblocking
        refine .inr ⟨rfl, not_lt.1 hnext, rfl, _, ?_, ?_, ?_, fun hfrees =>
          .work hstarves (.work hwaits (.work hwakes hfrees))⟩
        · have hwoken := hwaited.woken
          rw [← hpc] at hwoken
          exact hwoken
        · rw [woken_pool, waited_pool]
          rfl
        · rfl

/-- A worker that may return once it is old enough does so, as the clock goes on. -/
theorem Idle.frees_aging (hclock : StrictMono now) (j : Nat) {s : Pools ι θ n}
    (h : s.Idle p t timeoutTime co q w) (hpc : w.pc = .top)
    (hmin : (s.pool q).minSize.toNat < (s.pool q).running)
    (hold : (s.pool q).keepAliveTime.toNat ≤ now (s.world.readings + j) - w.createTime) :
    s.FreesThread now blocker p timeoutTime co.name := by
  induction j generalizing s with
  | zero =>
    rcases h.around blocker hclock.monotone hpc with hfrees | ⟨hno, -⟩
    · exact hfrees
    · rw [CoroutinePoolImpl.recycles, Bool.or_eq_false_iff, Bool.and_eq_false_iff,
        decide_eq_false_iff_not, decide_eq_false_iff_not] at hno
      rcases hno.1 with hyoung | hfew
      · exact absurd hold hyoung
      · exact absurd hmin hfew
  | succ j ih =>
    rcases h.around blocker hclock.monotone hpc with
      hfrees | ⟨-, -, -, s', hidle, hpool, hreadings, hback⟩
    · exact hfrees
    · refine hback (ih hidle ?_ ?_)
      · rw [hpool]
        exact hmin
      · rw [hpool, hreadings, show s.world.readings + 1 + j = s.world.readings + (j + 1) by omega]
        exact hold

/-- What makes an idle worker give control back: a block that suspends, a pool that stops, a
worker more than `min_size`, or another worker to make way for. -/
def CanFree (blocker : Blocker) (pool : CoroutinePoolImpl) : Prop :=
  blocker.suspends = true ∨ pool.state.isGrowing = false ∨ pool.minSize.toNat < pool.running ∨
    2 ≤ pool.running ∨ next pool < pool.running

theorem Idle.frees (h : s.Idle p t timeoutTime co q w) (hclock : StrictMono now)
    (hpc : w.pc = .top) (hcan : CanFree blocker (s.pool q)) :
    s.FreesThread now blocker p timeoutTime co.name := by
  rcases h.around blocker hclock.monotone hpc with
    hfrees | ⟨hno, hnext, hstays, s', hidle, hpool, -, hback⟩
  · exact hfrees
  · rcases hcan with hsuspends | hstops | hmin | htwo | hless
    · rw [hstays] at hsuspends
      cases hsuspends
    · rw [CoroutinePoolImpl.recycles, hstops] at hno
      simp at hno
    · refine h.frees_aging hclock ((s.pool q).keepAliveTime.toNat + w.createTime) hpc hmin ?_
      have hle := hclock.le_apply
        (x := s.world.readings + ((s.pool q).keepAliveTime.toNat + w.createTime))
      omega
    · refine hback ?_
      rcases hidle.around blocker hclock.monotone hpc with hfrees | ⟨-, hone, -⟩
      · exact hfrees
      · rw [hpool] at hone
        have : (s.pool q).running ≤ 1 := hone
        omega
    · exact absurd hless (not_lt.2 hnext)

/-! The loop that goes on for ever. -/

structure Stuck (s : Pools ι θ n) (p : ι) (t : θ) (timeoutTime : Nat) (co : Co) (q : ι)
    (w : WorkerBody ι) : Prop where
  idle : s.Idle p t timeoutTime co q w
  growing : (s.pool q).state.isGrowing = true
  few : (s.pool q).running ≤ (s.pool q).minSize.toNat
  alone : (s.pool q).running ≤ 1
  pc : w.pc = .blocking q ∨
    (w.pc = .top ∨ w.pc = .starved q) ∧ (s.pool q).running ≤ next (s.pool q)

theorem Stuck.work (h : s.Stuck p t timeoutTime co q w) (hs : s.step now (.work p) = some s') :
    ∃ w', s'.Stuck p t timeoutTime co q w' := by
  obtain ⟨hidle, hgrowing, hfew, halone, hpc | ⟨hpc | hpc, hnext⟩⟩ := h
  · rw [hidle.wakes now hpc, Option.some.injEq] at hs
    subst hs
    refine ⟨_, hidle.woken, ?_, ?_, ?_, .inr ⟨.inl rfl, ?_⟩⟩ <;> rw [woken_pool]
    · exact hgrowing
    · exact hfew
    · exact halone
    · exact halone
  · rw [hidle.starves now hpc, Option.some.injEq] at hs
    subst hs
    exact ⟨_, hidle.setWorker _, hgrowing, hfew, halone, .inr ⟨.inr rfl, hnext⟩⟩
  · have hno : (s.pool q).recycles w.createTime (now s.world.readings) = false := by
      rw [CoroutinePoolImpl.recycles, hgrowing, Bool.not_true, Bool.or_false, Bool.and_eq_false_iff]
      exact .inr (decide_eq_false (not_lt.2 hfew))
    rw [hidle.waits now hpc hno, Option.some.injEq] at hs
    subst hs
    refine ⟨_, hidle.waited, ?_, ?_, ?_, .inl (if_neg (not_lt.2 hnext))⟩ <;> rw [waited_pool]
    · exact hgrowing
    · exact hfew
    · exact halone

theorem Stuck.run_work (h : s.Stuck p t timeoutTime co q w) {k : Nat}
    (hs : run (step now) s (List.replicate k (.work p)) = some s') :
    ∃ w', s'.Stuck p t timeoutTime co q w' := by
  induction k generalizing s w with
  | zero =>
    cases hs
    exact ⟨w, h⟩
  | succ k ih =>
    rw [List.replicate_succ, run, Option.bind_eq_some_iff] at hs
    obtain ⟨s₁, hfirst, hrest⟩ := hs
    obtain ⟨w₁, hstuck⟩ := h.work hfirst
    exact ih hstuck hrest

theorem Stuck.not_frees (h : s.Stuck p t timeoutTime co q w) (hstays : blocker.suspends = false) :
    ¬ s.FreesThread now blocker p timeoutTime co.name := by
  rintro ⟨k, s₁, w₁, acts, s₂, hrun, hw, hgives, -⟩
  obtain ⟨w', hstuck⟩ := h.run_work hrun
  have hsame : w₁ = w' := by
    have hw' := hstuck.idle.worker
    rw [hw] at hw'
    exact Option.some.inj hw'
  rw [hsame] at hgives
  rcases hstuck.pc with hpc | ⟨hpc | hpc, -⟩ <;> simp [hpc, WorkerPc.gives, hstays] at hgives

/-- An idle worker gives control back after finitely many steps, and its scheduler returns when
its time is up, if and only if something makes the worker do so. -/
theorem freesThread_iff (h : s.Idle p t timeoutTime co q w) (hclock : StrictMono now)
    (hpc : w.pc = .top) (blocker : Blocker) :
    s.FreesThread now blocker p timeoutTime co.name ↔ CanFree blocker (s.pool q) := by
  refine ⟨fun hfrees => ?_, h.frees hclock hpc⟩
  by_contra hno
  simp only [CanFree, not_or, Bool.not_eq_true, Bool.not_eq_false, not_lt, not_le] at hno
  obtain ⟨hstays, hgrowing, hfew, halone, hnext⟩ := hno
  have hstuck : s.Stuck p t timeoutTime co q w :=
    ⟨h, hgrowing, hfew, by omega, .inr ⟨.inl hpc, hnext⟩⟩
  exact hstuck.not_frees hstays hfrees

def keeping : Pools (Fin 2) (Fin 2) 2 where
  world := World.pair
  pool _ := { minSize := 1, maxSize := 8, keepAliveTime := 0 }
  stack _ := []

/-- The worker of pool 0 has run the only task. -/
theorem keeping_idle :
    ∃ (s : Pools (Fin 2) (Fin 2) 2) (co : Co) (w : WorkerBody (Fin 2)),
      Reaches (step id) Free keeping s ∧ s.Idle 0 0 1000 co 0 w ∧ w.pc = .top ∧
        (s.pool 0).state.isGrowing = true ∧ (s.pool 0).running = 1 ∧
        (s.pool 0).minSize.toNat = 1 ∧ (s.pool 0).popFailTimes = 0 := by
  obtain ⟨s, h, hpool, hcurrent, co, w, hrunning, hstate, hworker, hpc⟩ :
      ∃ s : Pools (Fin 2) (Fin 2) 2, run (step id) keeping [.submit 0 "x",
          .schedule 0 0 1000 "a" true, .turn 0 "" false, .turn 0 "" false, .turn 0 "" false,
          .work 0, .work 0] = some s ∧
        s.pool 0 = { results := ["x"], scheduling := true, running := 1, minSize := 1, maxSize := 8,
                     keepAliveTime := 0 } ∧
        s.current 0 = some 0 ∧ ∃ (co : Co) (w : WorkerBody (Fin 2)),
          s.world.running 0 = some (0, 1000, co) ∧ co.state = .running ∧
          s.workers co.name = some w ∧ w.pc = .top :=
    ⟨_, rfl, rfl, rfl, _, _, rfl, rfl, rfl, rfl⟩
  refine ⟨s, co, w, .of_run _ h (guarded_free _), ⟨hrunning, hstate, hworker, hcurrent, ?_⟩, hpc,
    ?_, ?_, ?_, ?_⟩ <;> rw [hpool] <;> rfl

theorem freesThread_delay :
    ∃ (s : Pools (Fin 2) (Fin 2) 2) (co : Co), Reaches (step id) Free keeping s ∧
      s.FreesThread id .delay 0 1000 co.name := by
  obtain ⟨s, co, w, h, hidle, hpc, -⟩ := keeping_idle
  exact ⟨s, co, h, (freesThread_iff hidle strictMono_id hpc .delay).2 (.inl rfl)⟩

/-- With a blocker that sleeps the worker goes around for ever: the thread is not given back,
and `try_timeout_schedule` does not return. -/
theorem sleeps_for_ever :
    ∃ (s : Pools (Fin 2) (Fin 2) 2) (co : Co), Reaches (step id) Free keeping s ∧
      s.world.running 0 = some (0, 1000, co) ∧ (s.pool 0).taskQueue = [] ∧
      ¬ s.FreesThread id .sleep 0 1000 co.name ∧ ¬ s.FreesThread id .condvar 0 1000 co.name := by
  obtain ⟨s, co, w, h, hidle, hpc, hgrowing, hone, hmin, hfails⟩ := keeping_idle
  have hstuck : s.Stuck 0 0 1000 co 0 w := by
    refine ⟨hidle, hgrowing, ?_, hone.le, .inr ⟨.inl hpc, ?_⟩⟩
    · rw [hone, hmin]
    · rw [hone, next, hfails]
      decide
  exact ⟨s, co, h, hidle.running, hidle.tasks, hstuck.not_frees rfl, hstuck.not_frees rfl⟩

end Pools

end OpenCoroutine
