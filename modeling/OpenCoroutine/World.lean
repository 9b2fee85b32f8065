import OpenCoroutine.Resume
import OpenCoroutine.Scheduler
import OpenCoroutine.Transition

/-! Schedulers that share one work-stealing queue. Threads run `try_timeout_schedule` on
them, at most one at a time on each, and anyone may `submit` and `try_resume` in between.
The loop of `try_timeout_schedule` is cut into the parts named by `Phase`: reading the
clock, `check_ready`, `pop_front` with the entry into the coroutine, the coroutine's body,
and the placement of what it yields.

The coroutine that runs on a thread is its current one, the top of `COROUTINE`. Its body
calls methods on itself and leaves. A panic of a scheduler or of a caller of `try_resume`
is recorded in `panics`; a scheduler that panics or returns is idle again. -/

namespace OpenCoroutine

inductive Phase (θ : Type*) where
  | idle
  | top (t : θ) (timeoutTime : Nat)
  | checking (t : θ) (timeoutTime leftTime : Nat)
  | popping (t : θ) (timeoutTime leftTime : Nat)
  | resuming (t : θ) (timeoutTime : Nat) (co : Co)
  | returned (t : θ) (timeoutTime : Nat) (co : Co)
      (result : Except IoError (CoroutineState Unit Unit))

/-- The coroutine that `resume_with` has given back, and what it yielded or ended with. -/
def Phase.yielded {θ : Type*} : Phase θ → Option (Co × CoroutineState Unit Unit)
  | returned _ _ co (.ok result) => some (co, result)
  | _ => none

/-- `finished` holds the coroutines for which `on_complete` or `on_error` was called,
`returns` the results of `try_timeout_schedule`, latest first. -/
structure World (ι θ : Type*) (n : Nat) where
  queue : WorkStealQueue Co n
  sched : ι → SchedulerImpl n
  phase : ι → Phase θ
  locals : θ → Locals String
  readings : Nat := 0
  submitted : List String := []
  finished : List Co := []
  fired : List (Co × Nat) := []
  panics : List String := []
  returns : List (Except IoError Nat) := []

namespace World

inductive Act (ι θ : Type*) where
  | submit (i : ι) (uuid : String) (created : Bool)
  | tryResume (i : ι) (coName : String)
  | schedule (i : ι) (t : θ) (timeoutTime : Nat)
  | turn (i : ι)
  | call (i : ι) (k : CoroutineImpl.Call Unit Unit)
  | leave (i : ι) (o : Leave Unit Unit)

variable {ι θ : Type*} {n : Nat}

def view (s : World ι θ n) (i : ι) : View n := ⟨s.queue, s.sched i, s.readings, s.fired⟩

def tick (s : World ι θ n) : World ι θ n := { s with readings := s.readings + 1 }

def giveBack (s : World ι θ n) (result : Except IoError Nat) : World ι θ n :=
  { s with returns := result :: s.returns }

def panic (s : World ι θ n) (message : String) : World ι θ n :=
  { s with panics := message :: s.panics }

variable [DecidableEq ι]

def setView (s : World ι θ n) (i : ι) (v : View n) : World ι θ n :=
  { s with
    queue := v.queue
    sched := Function.update s.sched i v.sched
    readings := v.readings
    fired := v.fired }

def setPhase (s : World ι θ n) (i : ι) (phase : Phase θ) : World ι θ n :=
  { s with phase := Function.update s.phase i phase }

@[simp] theorem setView_sched (s : World ι θ n) (i : ι) (v : View n) :
    (s.setView i v).sched i = v.sched := Function.update_self _ _ _

@[simp] theorem setView_sched_ne (s : World ι θ n) {i j : ι} (hj : j ≠ i) (v : View n) :
    (s.setView i v).sched j = s.sched j := Function.update_of_ne hj _ _

@[simp] theorem setPhase_phase (s : World ι θ n) (i : ι) (phase : Phase θ) :
    (s.setPhase i phase).phase i = phase := Function.update_self _ _ _

@[simp] theorem setPhase_phase_ne (s : World ι θ n) {i j : ι} (hj : j ≠ i) (phase : Phase θ) :
    (s.setPhase i phase).phase j = s.phase j := Function.update_of_ne hj _ _

variable [DecidableEq θ]

def setLocals (s : World ι θ n) (t : θ) (l : Locals String) : World ι θ n :=
  { s with locals := Function.update s.locals t l }

variable (now : Nat → Nat)

/-- The ends of `try_timeout_schedule` other than its regular returns. -/
def stop (s : World ι θ n) (i : ι) : Stop → World ι θ n
  | .err e => (s.giveBack (.error e)).setPhase i .idle
  | .unreachable message => (s.panic message).setPhase i .idle

def enter (s : World ι θ n) (i : ι) (t : θ) (timeoutTime : Nat) (co : Co) : World ι θ n :=
  match co.resumeEnter co.name (s.locals t) (now s.readings) with
  | (some result, co, _) => s.tick.setPhase i (.returned t timeoutTime co result)
  | (none, co, l) =>
    if co.done then
      ((s.tick.setLocals t ((s.locals t).initCoroutine co.name)).panic
        "attempt to resume a completed coroutine").setPhase i .idle
    else (s.tick.setLocals t l).setPhase i (.resuming t timeoutTime co)

def finish (s : World ι θ n) (co : Co) : CoroutineState Unit Unit → World ι θ n
  | .complete () | .error _ => { s with finished := co :: s.finished }
  | _ => s

def turn (s : World ι θ n) (i : ι) : Option (World ι θ n) :=
  match s.phase i with
  | .idle | .resuming .. => none
  | .top t timeoutTime =>
    let leftTime := timeoutTime - now s.readings
    if leftTime = 0 then some ((s.tick.giveBack (.ok 0)).setPhase i .idle)
    else some (s.tick.setPhase i (.checking t timeoutTime leftTime))
  | .checking t timeoutTime leftTime =>
    match (s.view i).checkReady now with
    | (none, v) => some ((s.setView i v).setPhase i (.popping t timeoutTime leftTime))
    | (some stop, v) => some ((s.setView i v).stop i stop)
  | .popping t timeoutTime leftTime =>
    match (s.sched i).ready.popFront s.queue with
    | (co, ready, queue) =>
      let s := s.setView i { s.view i with queue, sched := { s.sched i with ready } }
      match co with
      | none => some ((s.giveBack (.ok leftTime)).setPhase i .idle)
      | some co => some (s.enter now i t timeoutTime co)
  | .returned _ _ _ (.error e) => some (s.stop i (.err e))
  | .returned t timeoutTime co (.ok result) =>
    match (s.view i).place now co result with
    | (none, v) => some (((s.setView i v).finish co result).setPhase i (.top t timeoutTime))
    | (some stop, v) => some ((s.setView i v).stop i stop)

/-- What one part of the loop does to the system. -/
inductive Turns (s : World ι θ n) (i : ι) : World ι θ n → Prop where
  | timedOut {t : θ} {timeoutTime : Nat} (hp : s.phase i = .top t timeoutTime)
      (hleft : timeoutTime - now s.readings = 0) :
      Turns s i ((s.tick.giveBack (.ok 0)).setPhase i .idle)
  | check {t : θ} {timeoutTime : Nat} (hp : s.phase i = .top t timeoutTime)
      (hleft : timeoutTime - now s.readings ≠ 0) :
      Turns s i (s.tick.setPhase i (.checking t timeoutTime (timeoutTime - now s.readings)))
  | checked {t : θ} {timeoutTime leftTime : Nat} {v : View n}
      (hp : s.phase i = .checking t timeoutTime leftTime)
      (hv : (s.view i).checkReady now = (none, v)) :
      Turns s i ((s.setView i v).setPhase i (.popping t timeoutTime leftTime))
  | checkStops {t : θ} {timeoutTime leftTime : Nat} {stop : Stop} {v : View n}
      (hp : s.phase i = .checking t timeoutTime leftTime)
      (hv : (s.view i).checkReady now = (some stop, v)) : Turns s i ((s.setView i v).stop i stop)
  | popsNone {t : θ} {timeoutTime leftTime : Nat} {ready : LocalQueue n}
      {queue : WorkStealQueue Co n} (hp : s.phase i = .popping t timeoutTime leftTime)
      (hq : (s.sched i).ready.popFront s.queue = (none, ready, queue)) :
      Turns s i (((s.setView i { s.view i with
        queue, sched := { s.sched i with ready } }).giveBack (.ok leftTime)).setPhase i .idle)
  | pops {t : θ} {timeoutTime leftTime : Nat} {co : Co} {ready : LocalQueue n}
      {queue : WorkStealQueue Co n} (hp : s.phase i = .popping t timeoutTime leftTime)
      (hq : (s.sched i).ready.popFront s.queue = (some co, ready, queue)) :
      Turns s i ((s.setView i { s.view i with
        queue, sched := { s.sched i with ready } }).enter now i t timeoutTime co)
  | fails {t : θ} {timeoutTime : Nat} {co : Co} {e : IoError}
      (hp : s.phase i = .returned t timeoutTime co (.error e)) : Turns s i (s.stop i (.err e))
  | places {t : θ} {timeoutTime : Nat} {co : Co} {result : CoroutineState Unit Unit} {v : View n}
      (hp : s.phase i = .returned t timeoutTime co (.ok result))
      (hv : (s.view i).place now co result = (none, v)) :
      Turns s i (((s.setView i v).finish co result).setPhase i (.top t timeoutTime))
  | placeStops {t : θ} {timeoutTime : Nat} {co : Co} {result : CoroutineState Unit Unit}
      {stop : Stop} {v : View n} (hp : s.phase i = .returned t timeoutTime co (.ok result))
      (hv : (s.view i).place now co result = (some stop, v)) :
      Turns s i ((s.setView i v).stop i stop)

/-- The coroutine that scheduler `i` is resuming, if its body is the one that runs. -/
def running (s : World ι θ n) (i : ι) : Option (θ × Nat × Co) :=
  match s.phase i with
  | .resuming t timeoutTime co =>
    if (s.locals t).coroutine.head? = some co.name then some (t, timeoutTime, co) else none
  | _ => none

def step (s : World ι θ n) : Act ι θ → Option (World ι θ n)
  | .submit _ _ false => some s
  | .submit i uuid true =>
    match (s.view i).submit now uuid with
    | (none, v) =>
      some { s.setView i v with submitted := ((s.sched i).name ++ "|" ++ uuid) :: s.submitted }
    | (some _, v) => some (s.setView i v)
  | .tryResume i coName =>
    match (s.view i).tryResume coName with
    | (some (.unreachable message), v) => some ((s.setView i v).panic message)
    | (_, v) => some (s.setView i v)
  | .schedule i t timeoutTime =>
    match s.phase i with
    | .idle => some (s.setPhase i (.top t timeoutTime))
    | _ => none
  | .turn i => s.turn now i
  | .call i k =>
    (s.running i).map fun (t, timeoutTime, co) =>
      s.setPhase i (.resuming t timeoutTime (co.call k).2)
  | .leave i o =>
    (s.running i).map fun (t, timeoutTime, co) =>
      let (result, co, l) := co.leave (s.locals t) o
      (s.setLocals t l).setPhase i (.returned t timeoutTime co result)

variable {now}

theorem turns {s s' : World ι θ n} {i : ι} (hs : s.turn now i = some s') : s.Turns now i s' := by
  unfold World.turn at hs
  split at hs
  · cases hs
  · cases hs
  · rename_i hp
    dsimp only at hs
    split at hs
    · rename_i hleft
      exact Option.some.inj hs ▸ .timedOut hp hleft
    · rename_i hleft
      exact Option.some.inj hs ▸ .check hp hleft
  · rename_i hp
    split at hs
    · rename_i hv
      exact Option.some.inj hs ▸ .checked hp hv
    · rename_i hv
      exact Option.some.inj hs ▸ .checkStops hp hv
  · rename_i hp
    split at hs
    rename_i hq
    dsimp only at hs
    split at hs
    · exact Option.some.inj hs ▸ .popsNone hp hq
    · exact Option.some.inj hs ▸ .pops hp hq
  · rename_i hp
    exact Option.some.inj hs ▸ .fails hp
  · rename_i hp
    split at hs
    · rename_i hv
      exact Option.some.inj hs ▸ .places hp hv
    · rename_i hv
      exact Option.some.inj hs ▸ .placeStops hp hv

theorem step_submit (s : World ι θ n) (i : ι) (uuid : String) :
    s.step now (.submit i uuid true) = some { s.setView i ((s.view i).submit now uuid).2 with
      submitted := ((s.sched i).name ++ "|" ++ uuid) :: s.submitted } := rfl

/-- `try_resume` changes one scheduler and the queue, and may panic. -/
theorem step_tryResume {s s' : World ι θ n} {i : ι} {coName : String}
    (hs : s.step now (.tryResume i coName) = some s') :
    ∃ panics, s' = { s.setView i ((s.view i).tryResume coName).2 with panics } := by
  simp only [World.step] at hs
  split at hs
  · rename_i message v he
    rw [he]
    exact ⟨message :: s.panics, (Option.some.inj hs).symm⟩
  · rename_i r v _ he
    rw [he]
    exact ⟨s.panics, (Option.some.inj hs).symm⟩

theorem step_schedule {s s' : World ι θ n} {i : ι} {t : θ} {timeoutTime : Nat}
    (hs : s.step now (.schedule i t timeoutTime) = some s') :
    s.phase i = .idle ∧ s' = s.setPhase i (.top t timeoutTime) := by
  simp only [World.step] at hs
  split at hs
  · rename_i hp
    exact ⟨hp, (Option.some.inj hs).symm⟩
  · cases hs

theorem step_call {s s' : World ι θ n} {i : ι} {k : CoroutineImpl.Call Unit Unit}
    (hs : s.step now (.call i k) = some s') :
    ∃ t timeoutTime co, s.running i = some (t, timeoutTime, co) ∧
      s' = s.setPhase i (.resuming t timeoutTime (co.call k).2) := by
  simp only [World.step, Option.map_eq_some_iff] at hs
  obtain ⟨⟨t, timeoutTime, co⟩, hr, rfl⟩ := hs
  exact ⟨t, timeoutTime, co, hr, rfl⟩

theorem step_leave {s s' : World ι θ n} {i : ι} {o : Leave Unit Unit}
    (hs : s.step now (.leave i o) = some s') :
    ∃ t timeoutTime co, s.running i = some (t, timeoutTime, co) ∧
      s' = (s.setLocals t (co.leave (s.locals t) o).2.2).setPhase i
        (.returned t timeoutTime (co.leave (s.locals t) o).2.1 (co.leave (s.locals t) o).1) := by
  simp only [World.step, Option.map_eq_some_iff] at hs
  obtain ⟨⟨t, timeoutTime, co⟩, hr, rfl⟩ := hs
  exact ⟨t, timeoutTime, co, hr, rfl⟩

end World

end OpenCoroutine
