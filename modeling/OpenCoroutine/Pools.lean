import OpenCoroutine.Endings

/-! Pools of worker coroutines over schedulers that share one queue. Scheduler `p` is the
`workers` of pool `p`, and a worker is a coroutine that runs the body made by `grow`, cut
where another thread can come in between or control leaves the worker. A thread schedules
one pool at a time. A worker gives back control where its code calls the suspender, and
inside its tasks: preemption signals, which the feature `preemptive-schedule` brings, are
left out.

`COROUTINE_POOL` is the stack of each thread. A task is its name; what it does between its
start and its end are calls on the coroutine and departures from it. The creator of a
worker and the list of the decrements of the counters are recorded for the statements. -/

namespace OpenCoroutine

open Function

structure CoroutinePoolImpl where
  state : PoolState := .created
  taskQueue : List String := []
  results : List String := []
  scheduling : Bool := false
  running : Nat := 0
  popFailTimes : Nat := 0
  minSize : UInt64
  maxSize : UInt64
  keepAliveTime : UInt64

inductive WorkerPc (ι : Type*) where
  | top
  | tasking (pool : ι) (task : String)
  | starved (pool : ι)
  | suspending
  | blocking (pool : ι)
  | failing (message : String)
  | returned

structure WorkerBody (ι : Type*) where
  creator : ι
  createTime : Nat
  pc : WorkerPc ι

structure Decrement (ι : Type*) where
  pool : ι
  worker : String
  running : Nat
  deriving DecidableEq, Repr

structure Pools (ι θ : Type*) (n : Nat) where
  world : World ι θ n
  pool : ι → CoroutinePoolImpl
  stack : θ → List ι
  workers : String → Option (WorkerBody ι) := fun _ => none
  decrements : List (Decrement ι) := []

def PoolState.isGrowing : PoolState → Bool
  | .created | .running => true
  | .stopping _ | .stopped => false

namespace CoroutinePoolImpl

/-- A worker created at `createTime` that finds no task at `time` returns. -/
def recycles (pool : CoroutinePoolImpl) (createTime time : Nat) : Bool :=
  pool.keepAliveTime.toNat ≤ time - createTime && pool.minSize.toNat < pool.running ||
    !pool.state.isGrowing

end CoroutinePoolImpl

def WorkerPc.isTasking {ι : Type*} : WorkerPc ι → Bool
  | .tasking _ _ => true
  | _ => false

/-- Where the body goes on when it is resumed after `o`, if it may leave with `o`. -/
def WorkerPc.leave {ι : Type*} : WorkerPc ι → Leave Unit Unit → Option (WorkerPc ι)
  | .tasking pool task, .suspendWith _ | .tasking pool task, .untilWith _ _ =>
    some (.tasking pool task)
  | .tasking _ _, .traps => some .returned
  | .suspending, .suspendWith _ => some .top
  | .blocking pool, .suspendWith _ | .blocking pool, .untilWith _ _ => some (.blocking pool)
  | .failing message, .panics message' => if message = message' then some .returned else none
  | _, _ => none

namespace Pools

inductive Act (ι θ : Type*) where
  | submit (p : ι) (task : String)
  | tryGetResult (p : ι) (task : String)
  | tryRun (p : ι)
  | changeState (p : ι) (state : PoolState)
  | setMinSize (p : ι) (minSize : UInt64)
  | setMaxSize (p : ι) (maxSize : UInt64)
  | setKeepAliveTime (p : ι) (keepAliveTime : UInt64)
  | tryResume (p : ι) (coName : String)
  | schedule (p : ι) (t : θ) (timeoutTime : Nat) (uuid : String) (created : Bool)
  | turn (p : ι) (uuid : String) (created : Bool)
  | call (p : ι) (k : CoroutineImpl.Call Unit Unit)
  | leave (p : ι) (o : Leave Unit Unit)
  | work (p : ι)

variable {ι θ : Type*} {n : Nat}

/-- `CoroutinePoolImpl::current()` on thread `t`. -/
def current (s : Pools ι θ n) (t : θ) : Option ι := (s.stack t).head?

def creator (s : Pools ι θ n) (coName : String) : Option ι :=
  (s.workers coName).map fun w => w.creator

def tick (s : Pools ι θ n) : Pools ι θ n := { s with world := s.world.tick }

variable [DecidableEq ι] [DecidableEq θ]

def setPool (s : Pools ι θ n) (p : ι) (pool : CoroutinePoolImpl) : Pools ι θ n :=
  { s with pool := update s.pool p pool }

def setStack (s : Pools ι θ n) (t : θ) (stack : List ι) : Pools ι θ n :=
  { s with stack := update s.stack t stack }

def setWorker (s : Pools ι θ n) (coName : String) (w : WorkerBody ι) : Pools ι θ n :=
  { s with workers := update s.workers coName (some w) }

def decrement (s : Pools ι θ n) (p : ι) (worker : String) (running : Nat) : Pools ι θ n :=
  { s.setPool p { s.pool p with running } with
    decrements := ⟨p, worker, (s.pool p).running⟩ :: s.decrements }

variable (now : Nat → Nat)

def lift (s : Pools ι θ n) (a : World.Act ι θ) : Option (Pools ι θ n) :=
  (s.world.step now a).map fun world => { s with world }

/-- `grow`, with `false` where the coroutine cannot be created. -/
def grow (s : Pools ι θ n) (p : ι) (shouldGrow : Bool) (uuid : String) (created : Bool) :
    Option (Bool × Pools ι θ n) :=
  let pool := s.pool p
  if !shouldGrow || pool.taskQueue.isEmpty || pool.maxSize.toNat ≤ pool.running then some (true, s)
  else
    let createTime := now s.world.readings
    let coName := (s.world.sched p).name ++ "|" ++ uuid
    (s.tick.lift now (.submit p uuid created)).map fun s =>
      if created then
        (true, (setWorker s coName ⟨p, createTime, .top⟩).setPool p
          { pool with running := (pool.running + 1) % 2 ^ 64 })
      else (false, s)

/-- The listener `CoroutineCreator` on thread `t`, where `co` has yielded `result`. -/
def listen (s : Pools ι θ n) (t : θ) (co : Co) (result : CoroutineState Unit Unit) (uuid : String)
    (created : Bool) : Option (Pools ι θ n) :=
  match s.current t with
  | none => some s
  | some p =>
    match result with
    | .suspend _ _ | .systemCall _ _ _ => (s.grow now p true uuid created).map Prod.snd
    | .error _ =>
      let s := s.decrement p co.name (((s.pool p).running + (2 ^ 64 - 1)) % 2 ^ 64)
      (s.grow now p true uuid created).map Prod.snd
    | _ => some s

/-- The scheduler goes on; if its `try_timeout_schedule` returns, so does the pool's. -/
def advance (s : Pools ι θ n) (p : ι) : Option (Pools ι θ n) :=
  (s.lift now (.turn p)).map fun s' =>
    match s'.world.phase p, (s.world.phase p).thread with
    | .idle, some t =>
      if s'.world.panics = s.world.panics then
        (s'.setStack t (s'.stack t).tail).setPool p { s'.pool p with scheduling := false }
      else s'
    | _, _ => s'

def work (s : Pools ι θ n) (p : ι) (t : θ) (co : Co) (w : WorkerBody ι) : Option (Pools ι θ n) :=
  match w.pc with
  | .top =>
    match s.current t with
    | none => some (s.setWorker co.name { w with pc := .failing "current pool not found" })
    | some q =>
      match (s.pool q).taskQueue with
      | [] => some (s.setWorker co.name { w with pc := .starved q })
      | task :: taskQueue =>
        some ((s.setPool q { s.pool q with taskQueue }).setWorker co.name
          { w with pc := .tasking q task })
  | .tasking q task =>
    let pool := s.pool q
    if task ∈ pool.results then
      some (s.setWorker co.name
        { w with pc := .failing "The previous result was not retrieved in a timely manner" })
    else
      some ((s.setPool q { pool with results := task :: pool.results, popFailTimes := 0 }).setWorker
        co.name { w with pc := .top })
  | .starved q =>
    let pool := s.pool q
    let time := now s.world.readings
    let s := s.tick
    if pool.recycles w.createTime time then
      ((s.setWorker co.name { w with pc := .returned }).decrement q co.name
        (pool.running - 1)).lift now (.leave p (.returns ()))
    else
      let popFailTimes := (pool.popFailTimes + 1) % 2 ^ 64
      let pc := if popFailTimes < pool.running then .suspending else .blocking q
      some ((s.setPool q { pool with popFailTimes }).setWorker co.name { w with pc })
  | .blocking q =>
    some ((s.setPool q { s.pool q with popFailTimes := 0 }).setWorker co.name { w with pc := .top })
  | .suspending | .failing _ | .returned => none

variable [Fintype ι]

def step (s : Pools ι θ n) : Act ι θ → Option (Pools ι θ n)
  | .submit p task =>
    some (s.setPool p { s.pool p with taskQueue := (s.pool p).taskQueue ++ [task] })
  | .tryGetResult p task =>
    some (s.setPool p { s.pool p with results := (s.pool p).results.erase task })
  | .tryRun p =>
    match (s.pool p).taskQueue with
    | [] => some s
    | task :: taskQueue =>
      some (s.setPool p { s.pool p with taskQueue, results := (s.pool p).results.insert task })
  | .changeState p state => some (s.setPool p { s.pool p with state })
  | .setMinSize p minSize => some (s.setPool p { s.pool p with minSize })
  | .setMaxSize p maxSize => some (s.setPool p { s.pool p with maxSize })
  | .setKeepAliveTime p keepAliveTime => some (s.setPool p { s.pool p with keepAliveTime })
  | .tryResume p coName => s.lift now (.tryResume p coName)
  | .schedule p t timeoutTime uuid created =>
    if ∃ q, (s.world.phase q).thread = some t then none
    else if (s.pool p).scheduling then some s
    else
      let pool := s.pool p
      let s := (s.setPool p { pool with scheduling := true }).setStack t (p :: s.stack t)
      (s.grow now p pool.state.isGrowing uuid created).bind fun (grown, s) =>
        if grown then s.lift now (.schedule p t timeoutTime)
        else some (s.setPool p { s.pool p with scheduling := false })
  | .turn p uuid created =>
    match s.world.phase p with
    | .returned t _ co (.ok result) =>
      (s.listen now t co result uuid created).bind fun s => s.advance now p
    | _ => s.advance now p
  | .call p k =>
    (s.world.running p).bind fun (_, _, co) =>
      (s.workers co.name).bind fun w => if w.pc.isTasking then s.lift now (.call p k) else none
  | .leave p o =>
    (s.world.running p).bind fun (_, _, co) =>
      (s.workers co.name).bind fun w =>
        (w.pc.leave o).bind fun pc =>
          (s.setWorker co.name { w with pc }).lift now (.leave p o)
  | .work p =>
    (s.world.running p).bind fun (t, _, co) => (s.workers co.name).bind fun w => s.work now p t co w

/-! What a step can do. -/

omit [Fintype ι]

inductive Grows (s : Pools ι θ n) (p : ι) (shouldGrow : Bool) (uuid : String) :
    Bool → Bool → Pools ι θ n → Prop where
  | stays {created : Bool} (hstays : shouldGrow = false ∨ (s.pool p).taskQueue = [] ∨
      (s.pool p).maxSize.toNat ≤ (s.pool p).running) : Grows s p shouldGrow uuid created true s
  | fails (hgrow : shouldGrow = true) : Grows s p shouldGrow uuid false false s.tick
  | grows {world : World ι θ n} (hgrow : shouldGrow = true)
    (hmax : (s.pool p).running < (s.pool p).maxSize.toNat)
    (hw : s.tick.world.step now (.submit p uuid true) = some world) :
    Grows s p shouldGrow uuid true true
      ((setWorker { s with world } ((s.world.sched p).name ++ "|" ++ uuid)
        ⟨p, now s.world.readings, .top⟩).setPool p
          { s.pool p with running := ((s.pool p).running + 1) % 2 ^ 64 })

inductive Listens (s : Pools ι θ n) (t : θ) (co : Co) (result : CoroutineState Unit Unit)
    (uuid : String) (created : Bool) : Pools ι θ n → Prop where
  | passes (hresult : ∀ message, result = .error message → s.current t = none) :
    Listens s t co result uuid created s
  | grows {q : ι} {grown : Bool} {s' : Pools ι θ n} (hcurrent : s.current t = some q)
    (hresult : ∀ message, result ≠ .error message)
    (hg : s.grow now q true uuid created = some (grown, s')) :
    Listens s t co result uuid created s'
  | errs {q : ι} {message : String} {grown : Bool} {s' : Pools ι θ n}
    (hcurrent : s.current t = some q) (hresult : result = .error message)
    (hg : (s.decrement q co.name (((s.pool q).running + (2 ^ 64 - 1)) % 2 ^ 64)).grow now q true
      uuid created = some (grown, s')) : Listens s t co result uuid created s'

inductive Works (s : Pools ι θ n) (p : ι) (t : θ) (co : Co) (w : WorkerBody ι) :
    Pools ι θ n → Prop where
  | noPool (hpc : w.pc = .top) (hcurrent : s.current t = none) :
    Works s p t co w (s.setWorker co.name { w with pc := .failing "current pool not found" })
  | findsNone {q : ι} (hpc : w.pc = .top) (hcurrent : s.current t = some q)
    (htasks : (s.pool q).taskQueue = []) :
    Works s p t co w (s.setWorker co.name { w with pc := .starved q })
  | takes {q : ι} {task : String} {taskQueue : List String} (hpc : w.pc = .top)
    (hcurrent : s.current t = some q) (htasks : (s.pool q).taskQueue = task :: taskQueue) :
    Works s p t co w ((s.setPool q { s.pool q with taskQueue }).setWorker co.name
      { w with pc := .tasking q task })
  | clashes {q : ι} {task : String} (hpc : w.pc = .tasking q task)
    (hresult : task ∈ (s.pool q).results) :
    Works s p t co w (s.setWorker co.name
      { w with pc := .failing "The previous result was not retrieved in a timely manner" })
  | finishes {q : ι} {task : String} (hpc : w.pc = .tasking q task)
    (hresult : task ∉ (s.pool q).results) :
    Works s p t co w ((s.setPool q { s.pool q with
      results := task :: (s.pool q).results, popFailTimes := 0 }).setWorker co.name
        { w with pc := .top })
  | recycled {q : ι} {s' : Pools ι θ n} (hpc : w.pc = .starved q)
    (hrecycles : (s.pool q).recycles w.createTime (now s.world.readings) = true)
    (hl : ((s.tick.setWorker co.name { w with pc := .returned }).decrement q co.name
      ((s.pool q).running - 1)).lift now (.leave p (.returns ())) = some s') :
    Works s p t co w s'
  | waits {q : ι} {pc : WorkerPc ι} (hpc : w.pc = .starved q)
    (hrecycles : (s.pool q).recycles w.createTime (now s.world.readings) = false)
    (hnext : pc = if ((s.pool q).popFailTimes + 1) % 2 ^ 64 < (s.pool q).running then .suspending
      else .blocking q) :
    Works s p t co w ((s.tick.setPool q { s.pool q with
      popFailTimes := ((s.pool q).popFailTimes + 1) % 2 ^ 64 }).setWorker co.name { w with pc })
  | wakes {q : ι} (hpc : w.pc = .blocking q) :
    Works s p t co w ((s.setPool q { s.pool q with popFailTimes := 0 }).setWorker co.name
      { w with pc := .top })

inductive Schedules (s : Pools ι θ n) (p : ι) (t : θ) (timeoutTime : Nat) (uuid : String)
    (created : Bool) : Pools ι θ n → Prop where
  | already (hscheduling : (s.pool p).scheduling = true) :
    Schedules s p t timeoutTime uuid created s
  | fails {s' : Pools ι θ n}
    (hg : ((s.setPool p { s.pool p with scheduling := true }).setStack t (p :: s.stack t)).grow now
      p (s.pool p).state.isGrowing uuid created = some (false, s')) :
    Schedules s p t timeoutTime uuid created
      (s'.setPool p { s'.pool p with scheduling := false })
  | starts {s' s'' : Pools ι θ n}
    (hg : ((s.setPool p { s.pool p with scheduling := true }).setStack t (p :: s.stack t)).grow now
      p (s.pool p).state.isGrowing uuid created = some (true, s'))
    (hl : s'.lift now (.schedule p t timeoutTime) = some s'') :
    Schedules s p t timeoutTime uuid created s''

variable {now} {s s' : Pools ι θ n}

theorem lift_eq {a : World.Act ι θ} (h : s.lift now a = some s') :
    ∃ world, s.world.step now a = some world ∧ s' = { s with world } := by
  simp only [lift, Option.map_eq_some_iff] at h
  obtain ⟨world, hw, rfl⟩ := h
  exact ⟨world, hw, rfl⟩

theorem grows {p : ι} {shouldGrow created grown : Bool} {uuid : String}
    (h : s.grow now p shouldGrow uuid created = some (grown, s')) :
    Grows now s p shouldGrow uuid created grown s' := by
  simp only [grow] at h
  split at h
  · rename_i hcond
    simp only [Option.some.injEq, Prod.mk.injEq] at h
    obtain ⟨rfl, rfl⟩ := h
    simp only [Bool.or_eq_true, Bool.not_eq_true', decide_eq_true_eq, List.isEmpty_iff,
      or_assoc] at hcond
    exact .stays hcond
  · rename_i hcond
    simp only [Bool.or_eq_true, Bool.not_eq_true', decide_eq_true_eq, not_or, not_le,
      Bool.not_eq_false] at hcond
    simp only [Option.map_eq_some_iff] at h
    obtain ⟨s₁, hl, he⟩ := h
    obtain ⟨world, hw, rfl⟩ := lift_eq hl
    cases created with
    | false =>
      simp only [Bool.false_eq_true, if_false, Prod.mk.injEq] at he
      obtain ⟨rfl, rfl⟩ := he
      cases hw
      exact .fails hcond.1.1
    | true =>
      simp only [if_true, Prod.mk.injEq] at he
      obtain ⟨rfl, rfl⟩ := he
      exact .grows hcond.1.1 hcond.2 hw

theorem listens {t : θ} {co : Co} {result : CoroutineState Unit Unit} {uuid : String}
    {created : Bool} (h : s.listen now t co result uuid created = some s') :
    Listens now s t co result uuid created s' := by
  simp only [listen] at h
  split at h
  · rename_i hcurrent
    exact Option.some.inj h ▸ .passes fun _ _ => hcurrent
  · rename_i q hcurrent
    cases result with
    | suspend y timestamp | systemCall y call state =>
      simp only [Option.map_eq_some_iff] at h
      obtain ⟨⟨grown, s₁⟩, hg, rfl⟩ := h
      exact .grows hcurrent (fun _ he => by cases he) hg
    | error message =>
      simp only [Option.map_eq_some_iff] at h
      obtain ⟨⟨grown, s₁⟩, hg, rfl⟩ := h
      exact .errs hcurrent rfl hg
    | created | ready | running | complete r =>
      exact Option.some.inj h ▸ .passes fun _ he => by cases he

theorem works {p : ι} {t : θ} {co : Co} {w : WorkerBody ι} (h : s.work now p t co w = some s') :
    Works now s p t co w s' := by
  cases hpc : w.pc with
  | top =>
    simp only [work, hpc] at h
    split at h
    · rename_i hcurrent
      exact Option.some.inj h ▸ .noPool hpc hcurrent
    · rename_i q hcurrent
      split at h
      · rename_i htasks
        exact Option.some.inj h ▸ .findsNone hpc hcurrent htasks
      · rename_i task taskQueue htasks
        exact Option.some.inj h ▸ .takes hpc hcurrent htasks
  | tasking q task =>
    simp only [work, hpc] at h
    split at h
    · rename_i hresult
      exact Option.some.inj h ▸ .clashes hpc hresult
    · rename_i hresult
      exact Option.some.inj h ▸ .finishes hpc hresult
  | starved q =>
    simp only [work, hpc] at h
    split at h
    · rename_i hrecycles
      exact .recycled hpc hrecycles h
    · rename_i hrecycles
      exact Option.some.inj h ▸ .waits hpc (Bool.eq_false_iff.2 hrecycles) rfl
  | blocking q =>
    simp only [work, hpc] at h
    exact Option.some.inj h ▸ .wakes hpc
  | suspending | failing message | returned => simp [work, hpc] at h

theorem advance_cases {p : ι} (h : s.advance now p = some s') :
    ∃ world, s.world.turn now p = some world ∧ (s' = { s with world } ∨
      ∃ t, world.phase p = .idle ∧ (s.world.phase p).thread = some t ∧
        s' = (setStack { s with world } t (s.stack t).tail).setPool p
          { s.pool p with scheduling := false }) := by
  simp only [advance, Option.map_eq_some_iff] at h
  obtain ⟨s₁, hl, he⟩ := h
  obtain ⟨world, hw, rfl⟩ := lift_eq hl
  refine ⟨world, hw, ?_⟩
  split at he
  · rename_i t hidle ht
    split at he
    · exact .inr ⟨t, hidle, ht, he.symm⟩
    · exact .inl he.symm
  · exact .inl he.symm

variable [Fintype ι]

theorem step_tryRun {p : ι} (h : s.step now (.tryRun p) = some s') :
    s' = s ∨ ∃ taskQueue results, s' = s.setPool p { s.pool p with taskQueue, results } := by
  simp only [step] at h
  split at h
  · exact .inl (Option.some.inj h).symm
  · exact .inr ⟨_, _, (Option.some.inj h).symm⟩

theorem step_schedule {p : ι} {t : θ} {timeoutTime : Nat} {uuid : String} {created : Bool}
    (h : s.step now (.schedule p t timeoutTime uuid created) = some s') :
    (∀ q, (s.world.phase q).thread ≠ some t) ∧ Schedules now s p t timeoutTime uuid created s' := by
  simp only [step, Option.ite_none_left_eq_some, not_exists] at h
  obtain ⟨hfree, h⟩ := h
  refine ⟨hfree, ?_⟩
  split at h
  · rename_i hscheduling
    exact Option.some.inj h ▸ .already hscheduling
  · simp only [Option.bind_eq_some_iff] at h
    obtain ⟨⟨grown, s₁⟩, hg, hs⟩ := h
    cases grown with
    | false => exact Option.some.inj hs ▸ .fails hg
    | true => exact .starts hg hs

/-- The listeners are called first where the scheduler was given back a coroutine. -/
theorem step_turn {p : ι} {uuid : String} {created : Bool}
    (h : s.step now (.turn p uuid created) = some s') :
    (∃ t timeoutTime co result s₁, s.world.phase p = .returned t timeoutTime co (.ok result) ∧
        s.listen now t co result uuid created = some s₁ ∧ s₁.advance now p = some s') ∨
      (s.world.phase p).failed = none ∧ s.advance now p = some s' := by
  simp only [step] at h
  split at h
  · rename_i t timeoutTime co result hp
    simp only [Option.bind_eq_some_iff] at h
    obtain ⟨s₁, hl, ha⟩ := h
    exact .inl ⟨t, timeoutTime, co, result, s₁, hp, hl, ha⟩
  · rename_i hnot
    refine .inr ⟨?_, h⟩
    cases hp : s.world.phase p with
    | idle | top _ _ | checking _ _ _ | popping _ _ _ | resuming _ _ _ => rfl
    | returned t timeoutTime co result =>
      cases result with
      | error e => rfl
      | ok result => exact absurd hp (hnot t timeoutTime co result)

theorem step_call {p : ι} {k : CoroutineImpl.Call Unit Unit}
    (h : s.step now (.call p k) = some s') :
    ∃ t timeoutTime co w, s.world.running p = some (t, timeoutTime, co) ∧
      s.workers co.name = some w ∧ w.pc.isTasking = true ∧ s.lift now (.call p k) = some s' := by
  simp only [step, Option.bind_eq_some_iff, Option.ite_none_right_eq_some] at h
  obtain ⟨⟨t, timeoutTime, co⟩, hr, w, hw, htasking, hs⟩ := h
  exact ⟨t, timeoutTime, co, w, hr, hw, htasking, hs⟩

theorem step_leave {p : ι} {o : Leave Unit Unit} (h : s.step now (.leave p o) = some s') :
    ∃ t timeoutTime co w pc, s.world.running p = some (t, timeoutTime, co) ∧
      s.workers co.name = some w ∧ w.pc.leave o = some pc ∧
      (s.setWorker co.name { w with pc }).lift now (.leave p o) = some s' := by
  simp only [step, Option.bind_eq_some_iff] at h
  obtain ⟨⟨t, timeoutTime, co⟩, hr, w, hw, pc, hpc, hs⟩ := h
  exact ⟨t, timeoutTime, co, w, pc, hr, hw, hpc, hs⟩

theorem step_work {p : ι} (h : s.step now (.work p) = some s') :
    ∃ t timeoutTime co w, s.world.running p = some (t, timeoutTime, co) ∧
      s.workers co.name = some w ∧ s.work now p t co w = some s' := by
  simp only [step, Option.bind_eq_some_iff] at h
  obtain ⟨⟨t, timeoutTime, co⟩, hr, w, hw, hs⟩ := h
  exact ⟨t, timeoutTime, co, w, hr, hw, hs⟩

end Pools

end OpenCoroutine
