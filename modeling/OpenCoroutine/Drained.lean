import OpenCoroutine.Stops

/-! `EventLoopImpl::start` and `stop`. The caller of `stop` first stops the pool of the
event loop, with no time to wait and whatever comes of it: nobody consumes that pool but the
loop thread, which does not answer it. The two threads are the only ones, so once a stop has
begun the pools move only where one of them is in `try_timed_schedule` or `wait_event`. What
the loop thread reads at the top of its loop is recorded for the statements. -/

namespace OpenCoroutine

open Function Transition

inductive LoopPc where
  | absent
  | getState
  | isEmpty
  | getRunningSize
  | waitEvent
  | waiting
  | notify
  | notifyShared
  | exited
  deriving DecidableEq, Repr

inductive LoopStopPc (θ : Type*) where
  | outside
  | poolStop (state : PoolState) (waitTime : Nat)
  | stoppingPool (state : PoolState) (waitTime : Nat)
  | wait
  | changeState
  | drain (left : Nat)
  | waiting (left : Nat) (t : θ)
  | isEmpty (left : Nat)
  | getRunningSize (left : Nat)
  deriving DecidableEq, Repr

inductive LoopRead where
  | state (state : PoolState)
  | isEmpty (empty : Bool)
  | runningSize (running : Nat)
  deriving DecidableEq, Repr

/-- The reads, the last one first, are of a pool that stops and has nothing left to do. -/
def foundNothing : List LoopRead → Bool
  | [.runningSize running, .isEmpty empty, .state state] =>
    running == 0 && empty && state != .running
  | _ => false

structure LoopLifecycle (ι θ : Type*) (n : Nat) where
  pool : Lifecycle ι θ n
  loop : LoopPc := .absent
  reads : List LoopRead := []
  stopper : LoopStopPc θ := .outside
  pending : Bool := false
  sharedStop : Nat := 0
  outcomes : List (Except IoError Unit) := []

def LoopPc.hasLeft : LoopPc → Bool
  | .notify | .notifyShared | .exited => true
  | .absent | .getState | .isEmpty | .getRunningSize | .waitEvent | .waiting => false

def LoopStopPc.isWaiting {θ : Type*} : LoopStopPc θ → Bool
  | .waiting _ _ => true
  | _ => false

def StopPc.isScheduling {θ : Type*} : StopPc θ → Bool
  | .scheduling _ _ _ | .draining _ => true
  | _ => false

namespace LoopLifecycle

def once : Nat := 10000000

inductive Act (ι θ : Type*) where
  | pools (a : Pools.Act ι θ)
  | loop
  | loopWaits (uuid : String) (created : Bool)
  | stop (waitTime : Nat)
  | poolStop (a : Lifecycle.Act ι θ)
  | advance (timedOut : Bool)
  | stopWaits (t : θ) (uuid : String) (created : Bool)
  | stopWaited (result : Except IoError Unit)

variable {ι θ : Type*} {n : Nat}

def giveBack (s : LoopLifecycle ι θ n) (outcome : Except IoError Unit) : LoopLifecycle ι θ n :=
  { s with stopper := .outside, outcomes := outcome :: s.outcomes }

variable [DecidableEq ι] [DecidableEq θ]

/-- Whether a thread can be where it runs the pool, or tasks can still be submitted. -/
def isOpen (s : LoopLifecycle ι θ n) : Bool :=
  s.loop == .waiting || s.stopper.isWaiting || s.pool.stopper.isScheduling ||
    (s.stopper == .outside && s.outcomes.isEmpty)

variable (p : ι)

def start (s : LoopLifecycle ι θ n) (spawned : Bool) : LoopLifecycle ι θ n :=
  { s with
    pool := s.pool.assertChange p .created .running fun pool =>
      if spawned then pool else { pool with dropped := true }
    loop := if s.pool.state p = .created && spawned then .getState else .absent }

/-- `self.pool.stop(Duration::ZERO)` goes on to `pool`, and what it returns is ignored. -/
def poolStops (s : LoopLifecycle ι θ n) (state : PoolState) (waitTime : Nat)
    (pool : Lifecycle ι θ n) : LoopLifecycle ι θ n :=
  if pool.stopper ≠ .outside then { s with pool, stopper := .stoppingPool state waitTime }
  else if pool.panics = s.pool.panics then
    { s with pool, stopper := if .running = state then .wait else .drain waitTime }
  else { s with pool, stopper := .outside }

def advance (s : LoopLifecycle ι θ n) (timedOut : Bool) : Option (LoopLifecycle ι θ n) :=
  match s.stopper with
  | .wait =>
    if s.pending then if timedOut then some (s.giveBack (.error stopTimeout)) else none
    else some { s with stopper := .changeState }
  | .changeState => some ({ s with pool := s.pool.changeState p .stopped }.giveBack (.ok ()))
  | .drain left => if left = 0 then some (s.giveBack (.error stopTimeout)) else none
  | .isEmpty left =>
    some { s with
      stopper := if s.pool.isEmpty p then .getRunningSize left else .drain (left - once) }
  | .getRunningSize left =>
    some { s with
      stopper := if s.pool.runningSize p = 0 then .changeState else .drain (left - once) }
  | .outside | .poolStop _ _ | .stoppingPool _ _ | .waiting _ _ => none

variable (loopThread : θ)

def iterate (s : LoopLifecycle ι θ n) : Option (LoopLifecycle ι θ n) :=
  match s.loop with
  | .getState =>
    some { s with
      loop := if .running = s.pool.state p then .waitEvent else .isEmpty
      reads := [.state (s.pool.state p)] }
  | .isEmpty =>
    some { s with
      loop := if s.pool.isEmpty p then .getRunningSize else .waitEvent
      reads := .isEmpty (s.pool.isEmpty p) :: s.reads }
  | .getRunningSize =>
    some { s with
      loop := if 0 < s.pool.runningSize p then .waitEvent else .notify
      reads := .runningSize (s.pool.runningSize p) :: s.reads }
  | .waiting =>
    if s.pool.isScheduling p loopThread then none else some { s with loop := .getState }
  | .notify => some { s with pending := false, loop := .notifyShared }
  | .notifyShared => some { s with sharedStop := s.sharedStop + 1, loop := .exited }
  | .absent | .waitEvent | .exited => none

variable [Fintype ι] (now : Nat → Nat)

def step (s : LoopLifecycle ι θ n) : Act ι θ → Option (LoopLifecycle ι θ n)
  | .pools a =>
    if s.isOpen then (s.pool.step now p loopThread (.pools a)).map fun pool => { s with pool }
    else none
  | .loop => s.iterate p loopThread
  | .loopWaits uuid created =>
    match s.loop with
    | .waitEvent =>
      (s.pool.tryTimedSchedule now p loopThread once uuid created).map fun pool =>
        { s with pool, loop := .waiting }
    | _ => none
  | .stop waitTime =>
    if s.pool.dropped || s.stopper != .outside then none
    else
      match s.pool.state p with
      | .stopped => some (s.giveBack (.ok ()))
      | state => some { s with stopper := .poolStop state waitTime }
  | .poolStop a =>
    match s.stopper, a with
    | .poolStop state waitTime, .stop 0
    | .stoppingPool state waitTime, .stopSchedules _ _ _
    | .stoppingPool state waitTime, .stopScheduled _
    | .stoppingPool state waitTime, .advance _ =>
      (s.pool.step now p loopThread a).map (s.poolStops state waitTime)
    | _, _ => none
  | .advance timedOut => s.advance p timedOut
  | .stopWaits t uuid created =>
    match s.stopper with
    | .drain left =>
      if left = 0 then none
      else
        (s.pool.tryTimedSchedule now p t (min left once) uuid created).map fun pool =>
          { s with pool, stopper := .waiting left t }
    | _ => none
  | .stopWaited result =>
    match s.stopper with
    | .waiting left t =>
      if s.pool.isScheduling p t then none
      else
        match result with
        | .ok () => some { s with stopper := .isEmpty left }
        | .error e => some (s.giveBack (.error e))
    | _ => none

end LoopLifecycle

def LoopPc.hasReadState : LoopPc → Bool
  | .isEmpty | .getRunningSize => true
  | pc => pc.hasLeft

def LoopPc.hasReadQueue : LoopPc → Bool
  | .getRunningSize => true
  | pc => pc.hasLeft

theorem foundNothing_running {running : Nat} {reads : List LoopRead}
    (h : foundNothing (.runningSize running :: reads) = true) : running = 0 := by
  unfold foundNothing at h
  split at h
  · rename_i heq
    cases heq
    simp only [Bool.and_eq_true, beq_iff_eq] at h
    exact h.1.1
  · cases h

theorem LoopPc.hasReadState_of_hasReadQueue {pc : LoopPc} (h : pc.hasReadQueue = true) :
    pc.hasReadState = true := by
  cases pc with
  | getRunningSize | notify | notifyShared | exited => rfl
  | absent | getState | isEmpty | waitEvent | waiting => cases h

theorem LoopPc.hasReadQueue_of_hasLeft {pc : LoopPc} (h : pc.hasLeft = true) :
    pc.hasReadQueue = true := by
  cases pc with
  | notify | notifyShared | exited => rfl
  | absent | getState | isEmpty | getRunningSize | waitEvent | waiting => cases h

def LoopStopPc.isWait {θ : Type*} : LoopStopPc θ → Bool
  | .wait => true
  | _ => false

/-- A stop of a pool with a thread that has not changed the state yet. -/
def StopPc.precedes {θ : Type*} : StopPc θ → Prop
  | .schedule state _ | .scheduling state _ _ | .changeState state _ => state = .running
  | _ => False

namespace LoopLifecycle

variable {ι θ : Type*} {n : Nat} {p : ι} {s t : LoopLifecycle ι θ n}

/-- A stop looks at its flag only after the loop thread has read that the state is no longer
`Running`, then that the queue is empty, and then that the counter is 0. -/
def Told (s : LoopLifecycle ι θ n) : Act ι θ → Prop
  | .advance _ => s.stopper.isWait = true → foundNothing s.reads = true
  | _ => True

instance (s : LoopLifecycle ι θ n) : (a : Act ι θ) → Decidable (Told s a)
  | .advance _ => inferInstanceAs (Decidable (_ → _))
  | .pools _ | .loop | .loopWaits .. | .stop _ | .poolStop _ | .stopWaits .. | .stopWaited _ =>
    isTrue trivial

structure New (p : ι) (s : LoopLifecycle ι θ n) : Prop where
  state : s.pool.state p = .created
  poolStopper : s.pool.stopper = .outside
  poolPending : s.pool.pending = true
  stopper : s.stopper = .outside
  pending : s.pending = false
  reads : s.reads = []

/-- Where the stop of a started event loop stands. -/
inductive Stands (p : ι) (s : LoopLifecycle ι θ n) : Prop where
  | running (hs : s.stopper = .outside) (hp : s.pool.stopper = .outside)
      (hst : s.pool.state p = .running)
  | stopped (hs : s.stopper = .outside) (hp : s.pool.stopper = .outside)
      (hst : s.pool.state p = .stopped) (hleft : s.loop.hasLeft = true) (hne : s.outcomes ≠ [])
  | poolStop {waitTime : Nat} (hs : s.stopper = .poolStop .running waitTime)
      (hp : s.pool.stopper = .outside) (hst : s.pool.state p = .running)
  | precedes {waitTime : Nat} (hs : s.stopper = .stoppingPool .running waitTime)
      (hp : s.pool.stopper.precedes) (hst : s.pool.state p = .running)
  | poolWait {waitTime : Nat} (hs : s.stopper = .stoppingPool .running waitTime)
      (hp : s.pool.stopper = .wait) (hst : s.pool.state p = .stopping true)
  | wait (hs : s.stopper = .wait) (hp : s.pool.stopper = .outside)
  | changeState (hs : s.stopper = .changeState) (hp : s.pool.stopper = .outside)
      (hleft : s.loop.hasLeft = true)

structure Sound (p : ι) (s : LoopLifecycle ι θ n) : Prop where
  stands : Stands p s
  started : s.loop ≠ .absent
  poolPending : s.pool.pending = true
  pending : s.pending = false
  hasReadState : s.loop.hasReadState = true → s.pool.state p ≠ .running
  hasReadQueue : s.loop.hasReadQueue = true → s.pool.isEmpty p = true
  hasLeft : s.loop.hasLeft = true → s.pool.runningSize p = 0
  found : foundNothing s.reads = true → s.loop.hasLeft = true

/-- What `stop` promises when it returns `Ok`. -/
structure Drained (p : ι) (s : LoopLifecycle ι θ n) : Prop where
  state : s.pool.state p = .stopped
  hasLeft : s.loop.hasLeft = true
  isEmpty : s.pool.isEmpty p = true
  runningSize : s.pool.runningSize p = 0

theorem Stands.of_eq (h : Stands p s) (hs : t.stopper = s.stopper)
    (hp : t.pool.stopper = s.pool.stopper) (hst : t.pool.state p = s.pool.state p)
    (hleft : s.loop.hasLeft = true → t.loop.hasLeft = true) (houtcomes : t.outcomes = s.outcomes) :
    Stands p t := by
  cases h with
  | running hs' hp' hst' => exact .running (hs.trans hs') (hp.trans hp') (hst.trans hst')
  | stopped hs' hp' hst' hleft' hne =>
    exact .stopped (hs.trans hs') (hp.trans hp') (hst.trans hst') (hleft hleft') (houtcomes ▸ hne)
  | poolStop hs' hp' hst' => exact .poolStop (hs.trans hs') (hp.trans hp') (hst.trans hst')
  | precedes hs' hp' hst' => exact .precedes (hs.trans hs') (hp ▸ hp') (hst.trans hst')
  | poolWait hs' hp' hst' => exact .poolWait (hs.trans hs') (hp.trans hp') (hst.trans hst')
  | wait hs' hp' => exact .wait (hs.trans hs') (hp.trans hp')
  | changeState hs' hp' hleft' =>
    exact .changeState (hs.trans hs') (hp.trans hp') (hleft hleft')

theorem Stands.of_outside (h : Stands p s) (hs : s.stopper = .outside) :
    s.pool.stopper = .outside ∧
      (s.pool.state p = .running ∨ s.pool.state p = .stopped ∧ s.loop.hasLeft = true) := by
  cases h with
  | running _ hp hst => exact ⟨hp, .inl hst⟩
  | stopped _ hp hst hleft _ => exact ⟨hp, .inr ⟨hst, hleft⟩⟩
  | poolStop hs' | precedes hs' | poolWait hs' | wait hs' | changeState hs' =>
    rw [hs] at hs'
    cases hs'

/-- The stop of a started event loop does not drain the pool itself. -/
theorem Stands.not_drains (h : Stands p s) :
    (∀ left, s.stopper ≠ .drain left) ∧ ∀ left t, s.stopper ≠ .waiting left t := by
  cases h with
  | running hs | stopped hs | poolStop hs | precedes hs | poolWait hs | wait hs | changeState hs =>
    rw [hs]
    exact ⟨nofun, nofun⟩

theorem Sound.drained (h : Sound p s) (hs : s.stopper = .outside)
    (hst : s.pool.state p = .stopped) : Drained p s := by
  have hleft : s.loop.hasLeft = true := by
    rcases (h.stands.of_outside hs).2 with hrunning | ⟨-, hleft⟩
    · cases hst.symm.trans hrunning
    · exact hleft
  exact ⟨hst, hleft, h.hasReadQueue (LoopPc.hasReadQueue_of_hasLeft hleft), h.hasLeft hleft⟩

theorem Stands.of_stoppingPool (h : Stands p s) {state : PoolState} {waitTime : Nat}
    (hs : s.stopper = .stoppingPool state waitTime) :
    state = .running ∧ (s.pool.stopper.precedes ∧ s.pool.state p = .running ∨
      s.pool.stopper = .wait ∧ s.pool.state p = .stopping true) := by
  cases h with
  | precedes hs' hp hst =>
    rw [hs] at hs'
    cases hs'
    exact ⟨rfl, .inl ⟨hp, hst⟩⟩
  | poolWait hs' hp hst =>
    rw [hs] at hs'
    cases hs'
    exact ⟨rfl, .inr ⟨hp, hst⟩⟩
  | running hs' | stopped hs' | poolStop hs' | wait hs' | changeState hs' =>
    rw [hs] at hs'
    cases hs'

/-- The loop thread goes on; each of its reads finds what the next position is about. -/
theorem Sound.setLoop (h : Sound p s) {loop : LoopPc} {reads : List LoopRead}
    (hleft : s.loop.hasLeft = true → loop.hasLeft = true) (hstarted : loop ≠ .absent)
    (hstate : loop.hasReadState = true → s.pool.state p ≠ .running)
    (hqueue : loop.hasReadQueue = true → s.pool.isEmpty p = true)
    (hrunning : loop.hasLeft = true → s.pool.runningSize p = 0)
    (hfound : foundNothing reads = true → loop.hasLeft = true) : Sound p { s with loop, reads } :=
  ⟨h.stands.of_eq rfl rfl rfl hleft rfl, hstarted, h.poolPending, h.pending, hstate, hqueue,
    hrunning, hfound⟩

/-- The loop thread goes on and will come back to the top of its loop. -/
theorem Sound.setUnread (h : Sound p s) {loop : LoopPc} {reads : List LoopRead}
    (hleft : s.loop.hasLeft = false) (hstarted : loop ≠ .absent)
    (hread : loop.hasReadState = false) (hfound : foundNothing reads = false) :
    Sound p { s with loop, reads } := by
  have hqueue : loop.hasReadQueue = false :=
    Bool.eq_false_iff.2 fun he => by simp [LoopPc.hasReadState_of_hasReadQueue he] at hread
  have hleft' : loop.hasLeft = false :=
    Bool.eq_false_iff.2 fun he => by simp [LoopPc.hasReadQueue_of_hasLeft he] at hqueue
  exact h.setLoop (by simp [hleft]) hstarted (by simp [hread]) (by simp [hqueue]) (by simp [hleft'])
    (by simp [hfound])

theorem Sound.not_found (h : Sound p s) (hleft : s.loop.hasLeft = false) :
    foundNothing s.reads = false :=
  Bool.eq_false_iff.2 fun hf => by simp [h.found hf] at hleft

theorem Sound.not_read (h : Sound p s) (hst : s.pool.state p = .running) :
    s.loop.hasReadState = false :=
  Bool.eq_false_iff.2 fun he => h.hasReadState he hst

/-- Before the loop thread has seen the state change, its reads bind nobody. -/
theorem Sound.unread (h : Sound p s) (hread : s.loop.hasReadState = false)
    {pool : Lifecycle ι θ n} {stopper : LoopStopPc θ} (hpending : pool.pending = true)
    (hstands : Stands p { s with pool, stopper }) : Sound p { s with pool, stopper } := by
  have hqueue : s.loop.hasReadQueue = false :=
    Bool.eq_false_iff.2 fun he => by simp [LoopPc.hasReadState_of_hasReadQueue he] at hread
  have hleft : s.loop.hasLeft = false :=
    Bool.eq_false_iff.2 fun he => by simp [LoopPc.hasReadQueue_of_hasLeft he] at hqueue
  refine ⟨hstands, h.started, hpending, h.pending, ?_, ?_, ?_, h.found⟩
  · intro he
    exact absurd (hread.symm.trans he) nofun
  · intro he
    exact absurd (hqueue.symm.trans he) nofun
  · intro he
    exact absurd (hleft.symm.trans he) nofun

/-- The caller goes on without touching the state or the pool's tasks. -/
theorem Sound.setStopper (h : Sound p s) {pool : Lifecycle ι θ n} {stopper : LoopStopPc θ}
    {outcomes : List (Except IoError Unit)} (hpools : pool.pools = s.pool.pools)
    (hpending : pool.pending = true)
    (hstands : Stands p { s with pool, stopper, outcomes }) :
    Sound p { s with pool, stopper, outcomes } := by
  have hst : pool.state p = s.pool.state p := by rw [Lifecycle.state, Lifecycle.state, hpools]
  have hempty : pool.isEmpty p = s.pool.isEmpty p := by
    rw [Lifecycle.isEmpty, Lifecycle.isEmpty, hpools]
  have hrunning : pool.runningSize p = s.pool.runningSize p := by
    rw [Lifecycle.runningSize, Lifecycle.runningSize, hpools]
  refine ⟨hstands, h.started, hpending, h.pending, fun he => ?_, fun he => ?_, fun he => ?_,
    h.found⟩
  · rw [hst]
    exact h.hasReadState he
  · rw [hempty]
    exact h.hasReadQueue he
  · rw [hrunning]
    exact h.hasLeft he

variable [DecidableEq θ]

theorem poolStops_goes_on {state : PoolState} {waitTime : Nat} {pool : Lifecycle ι θ n}
    (h : pool.stopper ≠ .outside) :
    s.poolStops state waitTime pool = { s with pool, stopper := .stoppingPool state waitTime } :=
  if_pos h

theorem poolStops_returns {waitTime : Nat} (outcome : Except IoError Unit) :
    s.poolStops .running waitTime (s.pool.giveBack outcome) =
      { s with pool := s.pool.giveBack outcome, stopper := .wait } := by
  have hpanics : (s.pool.giveBack outcome).panics = s.pool.panics := rfl
  rw [poolStops, if_neg (not_not.2 (by rfl)), if_pos hpanics, if_pos rfl]

theorem poolStops_outcomes (state : PoolState) (waitTime : Nat) (pool : Lifecycle ι θ n) :
    (s.poolStops state waitTime pool).outcomes = s.outcomes := by
  unfold poolStops
  split
  · rfl
  · split <;> rfl

/-- Once the loop thread has seen the state change, nothing runs the pool but itself. -/
theorem Sound.not_open (h : Sound p s) (hread : s.loop.hasReadState = true) : s.isOpen = false := by
  have hloop : (s.loop == .waiting) = false := by
    cases hl : s.loop with
    | waiting =>
      rw [hl] at hread
      cases hread
    | absent | getState | isEmpty | getRunningSize | waitEvent | notify | notifyShared | exited =>
      rfl
  have hstate := h.hasReadState hread
  cases h.stands with
  | running hs hp hst | poolStop hs hp hst | precedes hs hp hst => exact absurd hst hstate
  | stopped hs hp hst hleft hne =>
    simp [isOpen, hloop, hs, hp, hne, LoopStopPc.isWaiting, StopPc.isScheduling]
  | poolWait hs hp hst => simp [isOpen, hloop, hs, hp, LoopStopPc.isWaiting, StopPc.isScheduling]
  | wait hs hp => simp [isOpen, hloop, hs, hp, LoopStopPc.isWaiting, StopPc.isScheduling]
  | changeState hs hp hleft =>
    simp [isOpen, hloop, hs, hp, LoopStopPc.isWaiting, StopPc.isScheduling]

variable [DecidableEq ι]

omit [DecidableEq θ] in
theorem New.sound (h : New p s) : Sound p (s.start p true) := by
  have hpool : (s.start p true).pool = s.pool.changeState p .running :=
    if_pos h.state.symm
  have hloop : (s.start p true).loop = .getState := by simp [start, h.state]
  have hstate : (s.start p true).pool.state p = .running := by
    rw [hpool, Lifecycle.changeState_state]
  have hreads : foundNothing (s.start p true).reads = false := congrArg foundNothing h.reads
  refine ⟨.running h.stopper ?_ hstate, ?_, ?_, h.pending, ?_, ?_, ?_, by simp [hreads]⟩
  · rw [hpool]
    exact h.poolStopper
  · rw [hloop]
    nofun
  · rw [hpool]
    exact h.poolPending
  all_goals
    rw [hloop]
    nofun

variable {loopThread : θ}

omit [DecidableEq ι] in
theorem iterate_outcomes (hs : s.iterate p loopThread = some t) : t.outcomes = s.outcomes := by
  cases hl : s.loop with
  | absent | waitEvent | exited => simp [LoopLifecycle.iterate, hl] at hs
  | getState | isEmpty | getRunningSize | notify | notifyShared =>
    simp only [LoopLifecycle.iterate, hl, Option.some.injEq] at hs
    rw [← hs]
  | waiting =>
    simp only [LoopLifecycle.iterate, hl] at hs
    split at hs <;> simp only [Option.some.injEq, reduceCtorEq] at hs
    rw [← hs]

omit [DecidableEq ι] in
theorem Sound.iterate (h : Sound p s) (hs : s.iterate p loopThread = some t) : Sound p t := by
  have hstate := h.hasReadState
  have hqueue := h.hasReadQueue
  have hleft := h.hasLeft
  cases hl : s.loop with
  | absent | waitEvent | exited => simp [LoopLifecycle.iterate, hl] at hs
  | getState =>
    simp only [LoopLifecycle.iterate, hl, Option.some.injEq] at hs
    subst hs
    split
    · exact h.setUnread (by rw [hl]; rfl) (by decide) rfl rfl
    · rename_i hne
      exact h.setLoop (by simp [hl, LoopPc.hasLeft]) (by decide) (fun _ he => hne he.symm)
        (by simp [LoopPc.hasReadQueue, LoopPc.hasLeft]) (by simp [LoopPc.hasLeft]) nofun
  | isEmpty =>
    rw [hl] at hstate
    simp only [LoopLifecycle.iterate, hl, Option.some.injEq] at hs
    subst hs
    split
    · rename_i he
      exact h.setLoop (by simp [hl, LoopPc.hasLeft]) (by decide) hstate (fun _ => he)
        (by simp [LoopPc.hasLeft]) nofun
    · exact h.setUnread (by rw [hl]; rfl) (by decide) rfl rfl
  | getRunningSize =>
    rw [hl] at hstate hqueue
    simp only [LoopLifecycle.iterate, hl, Option.some.injEq] at hs
    subst hs
    split
    · rename_i hrunning
      refine h.setUnread (by rw [hl]; rfl) (by decide) rfl (Bool.eq_false_iff.2 fun hf => ?_)
      exact absurd (foundNothing_running hf) (by omega)
    · rename_i hrunning
      exact h.setLoop (by simp [hl, LoopPc.hasLeft]) (by decide) hstate hqueue (fun _ => by omega)
        fun _ => rfl
  | waiting =>
    simp only [LoopLifecycle.iterate, hl] at hs
    split at hs <;> simp only [Option.some.injEq, reduceCtorEq] at hs
    subst hs
    have hleft' : s.loop.hasLeft = false := by rw [hl]; rfl
    have hk : Sound p { s with loop := .getState, reads := s.reads } :=
      h.setUnread hleft' (by decide) rfl (h.not_found hleft')
    exact hk
  | notify =>
    rw [hl] at hstate hqueue hleft
    simp only [LoopLifecycle.iterate, hl, Option.some.injEq] at hs
    subst hs
    have hk : Sound p { s with loop := .notifyShared, reads := s.reads } :=
      h.setLoop (fun _ => rfl) (by decide) hstate hqueue hleft fun _ => rfl
    exact ⟨hk.stands.of_eq rfl rfl rfl id rfl, hk.started, hk.poolPending, rfl, hk.hasReadState,
      hk.hasReadQueue, hk.hasLeft, hk.found⟩
  | notifyShared =>
    rw [hl] at hstate hqueue hleft
    simp only [LoopLifecycle.iterate, hl, Option.some.injEq] at hs
    subst hs
    have hk : Sound p { s with loop := .exited, reads := s.reads } :=
      h.setLoop (fun _ => rfl) (by decide) hstate hqueue hleft fun _ => rfl
    exact ⟨hk.stands.of_eq rfl rfl rfl id rfl, hk.started, hk.poolPending, hk.pending,
      hk.hasReadState, hk.hasReadQueue, hk.hasLeft, hk.found⟩

omit [DecidableEq θ] in
theorem Sound.advance (h : Sound p s) {timedOut : Bool} (hok : Told s (.advance timedOut))
    (hs : s.advance p timedOut = some t) :
    Sound p t ∧ (t.outcomes = s.outcomes ∨ Drained p t) := by
  cases h.stands with
  | running hst | stopped hst | poolStop hst | precedes hst | poolWait hst =>
    simp [LoopLifecycle.advance, hst] at hs
  | wait hst hp =>
    have hpending : ¬s.pending = true := by simp [h.pending]
    simp only [LoopLifecycle.advance, hst, if_neg hpending, Option.some.injEq] at hs
    subst hs
    have hleft : s.loop.hasLeft = true := h.found (hok (by rw [hst]; rfl))
    exact ⟨h.setStopper rfl h.poolPending (.changeState rfl hp hleft), .inl rfl⟩
  | changeState hst hp hleft =>
    simp only [LoopLifecycle.advance, hst, Option.some.injEq] at hs
    subst hs
    have hstate : (s.pool.changeState p .stopped).state p = .stopped :=
      Lifecycle.changeState_state _ _ _
    have hqueue := h.hasReadQueue (LoopPc.hasReadQueue_of_hasLeft hleft)
    have hrunning := h.hasLeft hleft
    have hsound : Sound p ({ s with pool := s.pool.changeState p .stopped }.giveBack (.ok ())) := by
      refine ⟨.stopped rfl hp hstate hleft nofun, h.started, h.poolPending, h.pending, ?_, ?_, ?_,
        h.found⟩
      · intro _ he
        cases hstate.symm.trans he
      · intro _
        simpa [giveBack, Lifecycle.changeState, Lifecycle.isEmpty, Pools.setPool] using hqueue
      · intro _
        simpa [giveBack, Lifecycle.changeState, Lifecycle.runningSize, Pools.setPool] using hrunning
    exact ⟨hsound, .inr (hsound.drained rfl hstate)⟩

variable [Fintype ι] {now : Nat → Nat}

theorem poolStop_outcomes {a : Lifecycle.Act ι θ}
    (hs : s.step p loopThread now (.poolStop a) = some t) : t.outcomes = s.outcomes := by
  simp only [LoopLifecycle.step] at hs
  split at hs
  case h_5 => cases hs
  all_goals
    simp only [Option.map_eq_some_iff] at hs
    obtain ⟨pool, -, rfl⟩ := hs
    exact poolStops_outcomes _ _ pool

theorem Sound.poolStop (h : Sound p s) {a : Lifecycle.Act ι θ}
    (hs : s.step p loopThread now (.poolStop a) = some t) : Sound p t := by
  simp only [LoopLifecycle.step] at hs
  split at hs
  · rename_i state waitTime hst
    simp only [Option.map_eq_some_iff] at hs
    obtain ⟨pool, hpool, rfl⟩ := hs
    obtain ⟨hstate, hp, hrunning⟩ : state = .running ∧ s.pool.stopper = .outside ∧
        s.pool.state p = .running := by
      cases h.stands with
      | poolStop hs hp hst' =>
        rw [hst] at hs
        cases hs
        exact ⟨rfl, hp, hst'⟩
      | running hs | stopped hs | precedes hs | poolWait hs | wait hs | changeState hs =>
        rw [hst] at hs
        cases hs
    simp only [Lifecycle.step] at hpool
    split at hpool
    · cases hpool
    · rw [hrunning, Option.some.injEq] at hpool
      subst hpool hstate
      refine h.unread (h.not_read hrunning) h.poolPending ?_
      exact .precedes rfl rfl hrunning
  · rename_i state waitTime t uuid created hst
    simp only [Option.map_eq_some_iff] at hs
    obtain ⟨pool, hpool, rfl⟩ := hs
    obtain ⟨rfl, hcases⟩ := h.stands.of_stoppingPool hst
    obtain ⟨pools, stopper, rfl, hstate, ⟨st, waitTime', hp, rfl⟩ | ⟨left, hp, rfl⟩⟩ :=
      Lifecycle.step_stopSchedules hpool
    · rw [hp] at hcases
      obtain ⟨rfl, hrunning⟩ : st = .running ∧ s.pool.state p = .running :=
        hcases.resolve_right fun he => by cases he.1
      rw [poolStops_goes_on (by simp)]
      refine h.unread (h.not_read hrunning) h.poolPending ?_
      exact .precedes rfl rfl (hstate.trans hrunning)
    · rw [hp] at hcases
      rcases hcases with he | he
      · exact he.1.elim
      · cases he.1
  · rename_i state waitTime result hst
    simp only [Option.map_eq_some_iff] at hs
    obtain ⟨pool, hpool, rfl⟩ := hs
    obtain ⟨rfl, hcases⟩ := h.stands.of_stoppingPool hst
    obtain ⟨st, waitTime', t, hp, hends⟩ | ⟨t, hp, -⟩ := Lifecycle.step_stopScheduled hpool
    · rw [hp] at hcases
      obtain ⟨rfl, hrunning⟩ : st = .running ∧ s.pool.state p = .running :=
        hcases.resolve_right fun he => by cases he.1
      obtain rfl | ⟨e, rfl⟩ := hends
      · rw [poolStops_goes_on (by simp)]
        refine h.unread (h.not_read hrunning) h.poolPending ?_
        exact .precedes rfl rfl hrunning
      · rw [poolStops_returns]
        exact h.unread (h.not_read hrunning) h.poolPending (.wait rfl rfl)
    · rw [hp] at hcases
      rcases hcases with he | he
      · exact he.1.elim
      · cases he.1
  · rename_i state waitTime timedOut hst
    simp only [Option.map_eq_some_iff] at hs
    obtain ⟨pool, hpool, rfl⟩ := hs
    obtain ⟨rfl, ⟨hp, hrunning⟩ | ⟨hp, hstopping⟩⟩ := h.stands.of_stoppingPool hst
    · cases hps : s.pool.stopper with
      | changeState st waitTime' =>
        rw [hps] at hp
        obtain rfl : st = .running := hp
        simp only [Lifecycle.step, Lifecycle.advance, hps, if_true,
          Lifecycle.assertChange_eq hrunning.symm, Option.some.injEq] at hpool
        subst hpool
        rw [poolStops_goes_on (by simp)]
        refine h.unread (h.not_read hrunning) h.poolPending ?_
        exact .poolWait rfl rfl (Lifecycle.changeState_state _ _ _)
      | schedule st waitTime' | scheduling st waitTime' t =>
        simp [Lifecycle.step, Lifecycle.advance, hps] at hpool
      | outside | wait | drain left | draining t | isEmpty left | getRunningSize left
      | stopped thread =>
        rw [hps] at hp
        exact hp.elim
    · simp only [Lifecycle.step, Lifecycle.advance, hp, h.poolPending, if_true] at hpool
      split at hpool <;> simp only [Option.some.injEq, reduceCtorEq] at hpool
      subst hpool
      rw [poolStops_returns]
      exact h.setStopper rfl h.poolPending (.wait rfl rfl)
  · cases hs

theorem Sound.step (h : Sound p s) {a : Act ι θ} (hok : Told s a)
    (hs : s.step p loopThread now a = some t) :
    Sound p t ∧ (t.outcomes = s.outcomes ∨ Drained p t) := by
  cases a with
  | pools a =>
    simp only [LoopLifecycle.step] at hs
    split at hs
    · rename_i hopen
      simp only [Option.map_eq_some_iff] at hs
      obtain ⟨pool, hpool, rfl⟩ := hs
      obtain ⟨pools, rfl, hstate⟩ := Lifecycle.pools_eq hpool
      have hread : s.loop.hasReadState = false :=
        Bool.eq_false_iff.2 fun he => absurd (h.not_open he) (by simp [hopen])
      have hstands : Stands p { s with pool := { s.pool with pools } } :=
        h.stands.of_eq rfl rfl hstate id rfl
      exact ⟨h.unread hread h.poolPending hstands, .inl rfl⟩
    · cases hs
  | loop => exact ⟨h.iterate hs, .inl (iterate_outcomes hs)⟩
  | loopWaits uuid created =>
    simp only [LoopLifecycle.step] at hs
    split at hs
    · rename_i hl
      simp only [Option.map_eq_some_iff] at hs
      obtain ⟨pool, hsched, rfl⟩ := hs
      obtain ⟨pools, rfl, hstate⟩ := Lifecycle.tryTimedSchedule_eq hsched
      have hread : s.loop.hasReadState = false := by rw [hl]; rfl
      have hleft : s.loop.hasLeft = false := by rw [hl]; rfl
      have hstands : Stands p { s with pool := { s.pool with pools } } :=
        h.stands.of_eq rfl rfl hstate id rfl
      have hk : Sound p { s with pool := { s.pool with pools } } :=
        h.unread hread h.poolPending hstands
      have hwaits : Sound p { s with
          pool := { s.pool with pools }, loop := .waiting, reads := s.reads } :=
        hk.setUnread hleft (by decide) rfl (h.not_found hleft)
      exact ⟨hwaits, .inl rfl⟩
    · cases hs
  | stop waitTime =>
    simp only [LoopLifecycle.step] at hs
    split at hs
    · cases hs
    · rename_i hno
      simp only [Bool.or_eq_true, bne_iff_ne, ne_eq, not_or, not_not] at hno
      split at hs <;> simp only [Option.some.injEq] at hs <;> subst hs
      · rename_i hstopped
        have hd := h.drained hno.2 hstopped
        have hp := (h.stands.of_outside hno.2).1
        have hk : Sound p (s.giveBack (.ok ())) :=
          h.setStopper rfl h.poolPending (.stopped rfl hp hstopped hd.hasLeft nofun)
        exact ⟨hk, .inr (hk.drained rfl hstopped)⟩
      · rename_i hne
        obtain ⟨hp, hrunning | hstopped⟩ := h.stands.of_outside hno.2
        · rw [hrunning]
          exact ⟨h.setStopper rfl h.poolPending (.poolStop rfl hp hrunning), .inl rfl⟩
        · exact absurd hstopped.1 hne
  | poolStop a => exact ⟨h.poolStop hs, .inl (poolStop_outcomes hs)⟩
  | advance timedOut => exact h.advance hok hs
  | stopWaits t uuid created =>
    simp only [LoopLifecycle.step] at hs
    split at hs
    · rename_i left hst
      exact absurd hst (h.stands.not_drains.1 left)
    · cases hs
  | stopWaited result =>
    simp only [LoopLifecycle.step] at hs
    split at hs
    · rename_i left t hst
      exact absurd hst (h.stands.not_drains.2 left t)
    · cases hs

/-- In a run in which no stop looks at its flag before the loop thread has read that it is to
stop and has nothing left to do, a stop that returns `Ok` leaves the pool drained. -/
theorem stop_drained {s₀ : LoopLifecycle ι θ n} (h₀ : New p s₀)
    (h : Reaches (step p loopThread now) Told (s₀.start p true) s) {a : Act ι θ} (hok : Told s a)
    (hs : s.step p loopThread now a = some t) (hreturns : t.outcomes = .ok () :: s.outcomes) :
    Drained p t := by
  have hsound : Sound p s := h.invariant h₀.sound fun _ _ _ hi hok hs => (hi.step hok hs).1
  rcases (hsound.step hok hs).2 with houtcomes | hdrained
  · exact absurd (hreturns.symm.trans houtcomes) (List.cons_ne_self _ _)
  · exact hdrained

def single : LoopLifecycle (Fin 2) (Fin 2) 2 := { pool := Lifecycle.single }

theorem single_new : New 0 single := ⟨rfl, rfl, rfl, rfl, rfl, rfl⟩

/-- Thread `t` calls `stop` and its call of the pool's `stop` times out. -/
def stopping {ι θ : Type*} (p : ι) (t : θ) : List (Act ι θ) :=
  [.stop 30000000000, .poolStop (.stop 0), .poolStop (.stopSchedules t "w" true),
    .pools (.turn p "" false), .poolStop (.stopScheduled (.ok 0)), .poolStop (.advance false),
    .poolStop (.advance true)]

/-- The loop thread runs the task that a stop has found in the queue, and then leaves. -/
def serving {ι θ : Type*} (p : ι) (t : θ) : List (Act ι θ) :=
  .pools (.submit p "a") :: .loop :: stopping p t ++ [.loopWaits "u" false,
    .pools (.turn p "" false), .pools (.turn p "" false), .pools (.turn p "" false),
    .pools (.work p), .pools (.work p), .pools (.work p), .pools (.work p),
    .pools (.turn p "" false), .pools (.turn p "" false), .pools (.turn p "" false),
    .pools (.turn p "" false), .loop, .loop, .loop, .loop, .advance false]

theorem stop_drained_serving : ∃ s : LoopLifecycle (Fin 2) (Fin 2) 2,
    s.outcomes = [.ok ()] ∧ (s.pool.pools.pool 0).results = ["a"] ∧ Drained 0 s := by
  obtain ⟨s, h, hst, houtcomes, hresults⟩ : ∃ s : LoopLifecycle (Fin 2) (Fin 2) 2,
      Reaches (step 0 0 id) Told (single.start 0 true) s ∧ s.stopper = .changeState ∧
        s.outcomes = [] ∧ (s.pool.pools.pool 0).results = ["a"] :=
    ⟨_, Reaches.of_runGuarded (serving 0 1) rfl, rfl, rfl, rfl⟩
  have hok : Told s (.advance false) := fun he => by
    rw [hst] at he
    cases he
  have hs : s.step 0 0 id (.advance false) =
      some ({ s with pool := s.pool.changeState 0 .stopped }.giveBack (.ok ())) := by
    simp [step, advance, hst]
  refine ⟨_, by rw [giveBack, houtcomes], ?_, stop_drained single_new h hok hs rfl⟩
  simpa [giveBack, Lifecycle.changeState] using hresults

/-- The flag is false from the start, so the stop of a loop with a task returns at once. -/
theorem stop_leaves_task :
    ∃ s : LoopLifecycle (Fin 2) (Fin 2) 2, Reaches (step 0 0 id) Free (single.start 0 true) s ∧
      s.outcomes = [.ok ()] ∧ s.pool.state 0 = .stopped ∧ s.loop = .getState ∧
      (s.pool.pools.pool 0).taskQueue = ["a"] ∧ s.pool.runningSize 0 = 1 :=
  ⟨_, Reaches.of_run (.pools (.submit 0 "a") :: stopping 0 1 ++ [.advance false, .advance false]) rfl
    (guarded_free _), rfl, rfl, rfl, rfl, rfl⟩

end LoopLifecycle

end OpenCoroutine
