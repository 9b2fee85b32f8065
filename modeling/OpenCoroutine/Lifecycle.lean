import OpenCoroutine.Accounting

/-! `CoroutinePoolImpl::start` and `stop`, and the thread that a start leaves behind. The
pool is pool `p` of a system of pools whose other steps come in between; `consumerThread` is
the thread of the consumer. Each position of the consumer or of a call of `stop` names the
next operation on what they share: the state, the flag `pending` in the mutex `stop`, the
queue and the counter. A call of `try_timed_schedule` is its entry and its return, and the
turns of the scheduler in between are steps of the pools.

A pool is started at most once and before its first stop, and its stops follow one another.
A failed start drops the pool. -/

namespace OpenCoroutine

open Function Transition

def sleepBlockerName : String := "SleepBlocker"

inductive Panic where
  | assertEq (left right : PoolState)
  | unreachable (message : String)
  deriving DecidableEq, Repr

inductive ConsumerPc where
  | absent
  | getState
  | schedule (draining : Bool)
  | scheduling (draining : Bool)
  | isEmpty
  | getRunningSize
  | notify
  | exited
  | panicked
  deriving DecidableEq, Repr

inductive StopPc (θ : Type*) where
  | outside
  | schedule (state : PoolState) (waitTime : Nat)
  | scheduling (state : PoolState) (waitTime : Nat) (t : θ)
  | changeState (state : PoolState) (waitTime : Nat)
  | wait
  | drain (left : Nat)
  | draining (t : θ)
  | isEmpty (leftTime : Nat)
  | getRunningSize (leftTime : Nat)
  | stopped (thread : Bool)
  deriving DecidableEq, Repr

structure Lifecycle (ι θ : Type*) (n : Nat) where
  pools : Pools ι θ n
  consumer : ConsumerPc := .absent
  stopper : StopPc θ := .outside
  pending : Bool := true
  dropped : Bool := false
  outcomes : List (Except IoError Unit) := []
  panics : List Panic := []

def stopTimeout : IoError := ⟨.timedOut, "stop timeout !"⟩

namespace Lifecycle

inductive Act (ι θ : Type*) where
  | pools (a : Pools.Act ι θ)
  | start (blockerName : String) (spawned : Bool)
  | consume
  | consumerSchedules (uuid : String) (created : Bool)
  | stop (waitTime : Nat)
  | stopSchedules (t : θ) (uuid : String) (created : Bool)
  | stopScheduled (result : Except IoError Nat)
  | advance (timedOut : Bool)

variable {ι θ : Type*} {n : Nat}

def state (s : Lifecycle ι θ n) (p : ι) : PoolState := (s.pools.pool p).state

def isEmpty (s : Lifecycle ι θ n) (p : ι) : Bool := (s.pools.pool p).taskQueue.isEmpty

def runningSize (s : Lifecycle ι θ n) (p : ι) : Nat := (s.pools.pool p).running

def giveBack (s : Lifecycle ι θ n) (outcome : Except IoError Unit) : Lifecycle ι θ n :=
  { s with stopper := .outside, outcomes := outcome :: s.outcomes }

def panic (s : Lifecycle ι θ n) (panic : Panic) : Lifecycle ι θ n :=
  { s with panics := panic :: s.panics }

/-- Whether a call of `try_timed_schedule` on pool `p` is still under way on thread `t`. -/
def isScheduling [DecidableEq θ] (s : Lifecycle ι θ n) (p : ι) (t : θ) : Bool :=
  (s.pools.world.phase p).thread == some t

variable [DecidableEq ι]

def changeState (s : Lifecycle ι θ n) (p : ι) (state : PoolState) : Lifecycle ι θ n :=
  { s with pools := s.pools.setPool p { s.pools.pool p with state } }

/-- `assert_eq!(expected, self.change_state(state))`, with which a call goes on to `next`. -/
def assertChange (s : Lifecycle ι θ n) (p : ι) (expected state : PoolState)
    (next : Lifecycle ι θ n → Lifecycle ι θ n) : Lifecycle ι θ n :=
  if expected = s.state p then next (s.changeState p state)
  else { (s.changeState p state).panic (.assertEq expected (s.state p)) with stopper := .outside }

variable [DecidableEq θ] [Fintype ι] (now : Nat → Nat) (p : ι) (consumerThread : θ)

def tryTimedSchedule (s : Lifecycle ι θ n) (t : θ) (dur : Nat) (uuid : String) (created : Bool) :
    Option (Lifecycle ι θ n) :=
  (s.pools.tick.step now (.schedule p t (getTimeoutTime dur (now s.pools.world.readings)) uuid
    created)).map fun pools => { s with pools }

def start (s : Lifecycle ι θ n) (blockerName : String) (spawned : Bool) : Lifecycle ι θ n :=
  if sleepBlockerName = blockerName then { s with dropped := true }
  else
    s.assertChange p .created .running fun s =>
      if spawned then { s with consumer := .getState } else { s with dropped := true }

def consume (s : Lifecycle ι θ n) : Option (Lifecycle ι θ n) :=
  match s.consumer with
  | .getState =>
    match s.state p with
    | .running => some { s with consumer := .schedule false }
    | .stopping true => some { s with consumer := .isEmpty }
    | _ => some { s.panic (.unreachable "never happens") with consumer := .panicked }
  | .scheduling draining =>
    if s.isScheduling p consumerThread then none
    else some { s with consumer := if draining then .isEmpty else .getState }
  | .isEmpty =>
    some { s with consumer := if s.isEmpty p then .getRunningSize else .schedule true }
  | .getRunningSize =>
    some { s with consumer := if 0 < s.runningSize p then .schedule true else .notify }
  | .notify => some { s with pending := false, consumer := .exited }
  | .absent | .schedule _ | .exited | .panicked => none

/-- The end of a round of the loop in which `stop` drains a pool without a thread. -/
def drainAgain (s : Lifecycle ι θ n) (leftTime : Nat) : Lifecycle ι θ n :=
  if leftTime = 0 then s.giveBack (.error stopTimeout) else { s with stopper := .drain leftTime }

def advance (s : Lifecycle ι θ n) (timedOut : Bool) : Option (Lifecycle ι θ n) :=
  match s.stopper with
  | .changeState state waitTime =>
    if .running = state then
      some (s.assertChange p .running (.stopping true) fun s => { s with stopper := .wait })
    else
      some (s.assertChange p .created (.stopping false) fun s =>
        { s with stopper := .drain waitTime })
  | .wait =>
    if s.pending then if timedOut then some (s.giveBack (.error stopTimeout)) else none
    else some { s with stopper := .stopped true }
  | .isEmpty leftTime =>
    if s.isEmpty p then some { s with stopper := .getRunningSize leftTime }
    else some (s.drainAgain leftTime)
  | .getRunningSize leftTime =>
    if s.runningSize p = 0 then some { s with stopper := .stopped false }
    else some (s.drainAgain leftTime)
  | .stopped thread =>
    some (s.assertChange p (.stopping thread) .stopped fun s => s.giveBack (.ok ()))
  | .outside | .schedule .. | .scheduling .. | .drain _ | .draining _ => none

def step (s : Lifecycle ι θ n) : Act ι θ → Option (Lifecycle ι θ n)
  | .pools (.changeState q state) =>
    if q = p then none
    else (s.pools.step now (.changeState q state)).map fun pools => { s with pools }
  | .pools a => (s.pools.step now a).map fun pools => { s with pools }
  | .start blockerName spawned =>
    if s.dropped || s.consumer != .absent || s.stopper != .outside || !s.outcomes.isEmpty ||
      !s.panics.isEmpty then none
    else some (s.start p blockerName spawned)
  | .consume => s.consume p consumerThread
  | .consumerSchedules uuid created =>
    match s.consumer with
    | .schedule draining =>
      (s.tryTimedSchedule now p consumerThread 10000000 uuid created).map fun s =>
        { s with consumer := .scheduling draining }
    | _ => none
  | .stop waitTime =>
    if s.dropped || s.stopper != .outside then none
    else
      match s.state p with
      | .stopped => some (s.giveBack (.ok ()))
      | state => some { s with stopper := .schedule state waitTime }
  | .stopSchedules t uuid created =>
    match s.stopper with
    | .schedule state waitTime =>
      (s.tryTimedSchedule now p t 0 uuid created).map fun s =>
        { s with stopper := .scheduling state waitTime t }
    | .drain left =>
      (s.tryTimedSchedule now p t left uuid created).map fun s => { s with stopper := .draining t }
    | _ => none
  | .stopScheduled result =>
    match s.stopper with
    | .scheduling state waitTime t =>
      if s.isScheduling p t then none
      else
        match result with
        | .ok _ => some { s with stopper := .changeState state waitTime }
        | .error e => some (s.giveBack (.error e))
    | .draining t =>
      if s.isScheduling p t then none
      else
        match result with
        | .ok leftTime => some { s with stopper := .isEmpty leftTime }
        | .error e => some (s.giveBack (.error e))
    | _ => none
  | .advance timedOut => s.advance p timedOut

end Lifecycle

end OpenCoroutine
