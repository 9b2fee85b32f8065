import Mathlib.Logic.Function.Basic

/-! The tasks of one pool: `submit_raw`, `pop`, `try_run`, `wait_result` and
`try_get_result`, for any processes that call them. A process is a worker coroutine, whose
body is the loop of `grow`, or another coroutine, or a thread. What runs in it is a stack:
a task may call `wait_result` or `try_run`, and these run other tasks on top of it. What
lies between two operations on the shared maps is one frame, so that other processes come
in between; what the function of a task does is up to the run.

A task carries its place in the order of submissions, and a result the place of its task.
`started` to `panics` are a record of the run for the statements. A process leaves a task
where its `try_run` ends, and `departed` keeps the waiter that was registered then. -/

namespace OpenCoroutine

open Function

namespace Tasks

structure TaskImpl where
  number : Nat
  name : String
  deriving DecidableEq, Repr

abbrev TaskResult := Except String (Option UInt64)

abbrev Delivery := Nat × TaskResult

/-- What a panic carries: a `&'static str`, or anything else. -/
inductive Payload where
  | str (message : String)
  | other
  deriving DecidableEq, Repr

def Payload.message : Payload → String
  | str message => message
  | other => "task failed without message"

inductive Ending where
  | returned (value : Option UInt64)
  | panicked (payload : Payload)
  deriving DecidableEq, Repr

/-- The result that `TaskImpl::run` makes of the end of the function. -/
def Ending.result : Ending → TaskResult
  | returned value => .ok value
  | panicked payload => .error payload.message

inductive Kind where
  | worker
  | coroutine
  | thread
  deriving DecidableEq, Repr

/-- The next operation of a call of `wait_result`. -/
inductive WaitPc where
  | tryGetResult
  | forget (delivery : Delivery)
  | tryRun
  | tryGetResultAgain
  | getWaits
  | insertWaits
  | lock (arc : Nat)
  | blocked (arc : Nat)
  | tryGetResultLast
  | removeWaits (delivery : Delivery)

inductive Frame where
  | running (task : TaskImpl)
  | insert (task : TaskImpl) (ending : Ending)
  | answer (task : TaskImpl)
  | wait (taskName : String) (pc : WaitPc)

namespace Frame

def task : Frame → Option TaskImpl
  | running task | insert task _ | answer task => some task
  | wait _ _ => none

/-- Where a panic goes on up the stack: it passes the calls of `wait_result`. -/
def unwind : List Frame → List Frame
  | wait _ _ :: rest => unwind rest
  | stack => stack

/-- The code on top of the stack is a task's or the process's own. -/
def isCaller : List Frame → Bool
  | [] | running _ :: _ => true
  | _ => false

end Frame

structure State (ρ : Type*) where
  kind : ρ → Kind
  submitted : List String := []
  taskQueue : List TaskImpl := []
  results : String → Option Delivery := fun _ => none
  waits : String → Option Nat := fun _ => none
  pending : Nat → Bool := fun _ => false
  arcs : Nat := 0
  stack : ρ → List Frame := fun _ => []
  finished : ρ → Bool := fun _ => false
  started : List (ρ × TaskImpl) := []
  endings : List (Nat × Ending) := []
  recorded : List Delivery := []
  taken : List (ρ × Delivery) := []
  returned : List Delivery := []
  departed : List (TaskImpl × Option Nat) := []
  panics : List String := []

inductive Act (ρ : Type*) where
  | submit (name : String)
  | tryRun (p : ρ)
  | ends (p : ρ) (ending : Ending)
  | insert (p : ρ)
  | answer (p : ρ)
  | tryGetResult (p : ρ) (name : String)
  | waitResult (p : ρ) (name : String)
  | advance (p : ρ) (timedOut : Bool)
  | wake (p : ρ)
  | timeout (p : ρ)
  | trap (p : ρ)
  | finish (p : ρ)

variable {ρ : Type*}

namespace State

def new (kind : ρ → Kind) : State ρ := { kind }

/-- `results.remove` by process `p`. -/
def take (s : State ρ) (p : ρ) (name : String) : Option (Delivery × State ρ) :=
  (s.results name).map fun delivery =>
    (delivery, { s with
      results := update s.results name none
      taken := (p, delivery) :: s.taken })

/-- The process is in code of its own or of a task that may call the pool. -/
def canCall (s : State ρ) (p : ρ) : Bool :=
  !s.finished p && Frame.isCaller (s.stack p) && !((s.stack p).isEmpty && s.kind p == .worker)

/-- `results.insert`. -/
def store (s : State ρ) (task : TaskImpl) (result : TaskResult) : State ρ :=
  { s with
    results := update s.results task.name (some (task.number, result))
    recorded := (task.number, result) :: s.recorded }

def start (s : State ρ) (p : ρ) (task : TaskImpl) (taskQueue : List TaskImpl) : State ρ :=
  { s with taskQueue, started := (p, task) :: s.started }

def endTask (s : State ρ) (task : TaskImpl) (ending : Ending) : State ρ :=
  { s with endings := (task.number, ending) :: s.endings }

def giveBack (s : State ρ) (delivery : Delivery) : State ρ :=
  { s with returned := delivery :: s.returned }

def panic (s : State ρ) (message : String) : State ρ := { s with panics := message :: s.panics }

variable [DecidableEq ρ]

def setStack (s : State ρ) (p : ρ) (stack : List Frame) : State ρ :=
  { s with stack := update s.stack p stack }

def finish (s : State ρ) (p : ρ) : State ρ :=
  { s.setStack p [] with finished := update s.finished p true }

/-- The task on which the process ran is left, by the answer to its waiter or otherwise. -/
def depart (s : State ρ) (task : TaskImpl) : State ρ :=
  { s with departed := (task, s.waits task.name) :: s.departed }

/-- The panic leaves the stack to the nearest caller; it ends a worker. -/
def unwindTo (s : State ρ) (p : ρ) (rest : List Frame) : State ρ :=
  match Frame.unwind rest with
  | [] => if s.kind p = .worker then s.finish p else s.setStack p []
  | stack => s.setStack p stack

/-- `pop`, and the start of the task it gives, on top of `rest`. -/
def pop (s : State ρ) (p : ρ) (rest : List Frame) : State ρ :=
  match s.taskQueue with
  | [] => s.setStack p rest
  | task :: taskQueue => (s.start p task taskQueue).setStack p (.running task :: rest)

end State

open State

variable [DecidableEq ρ]

def alreadyThere : String := "The previous result was not retrieved in a timely manner"

/-- The call of `results.insert` in `try_run` and its assertion. -/
def insertResult (s : State ρ) (p : ρ) (task : TaskImpl) (ending : Ending) (rest : List Frame) :
    State ρ :=
  match s.results task.name with
  | none => (s.store task ending.result).setStack p (.answer task :: rest)
  | some _ =>
    (((s.store task ending.result).depart task).panic alreadyThere).unwindTo p rest

/-- The look-up in `waits`. Its guard is held until the waiter is notified, so nobody
changes the entry in between. -/
def answer (s : State ρ) (p : ρ) (task : TaskImpl) (rest : List Frame) : State ρ :=
  match s.waits task.name with
  | some arc => ({ s with pending := update s.pending arc false }.depart task).setStack p rest
  | none => (s.depart task).setStack p rest

def advance (s : State ρ) (p : ρ) (name : String) (rest : List Frame) (timedOut : Bool) :
    WaitPc → Option (State ρ)
  | .tryGetResult =>
    match s.take p name with
    | some (delivery, s) => some (s.setStack p (.wait name (.forget delivery) :: rest))
    | none =>
      if s.kind p = .thread then some (s.setStack p (.wait name .getWaits :: rest))
      else some (s.setStack p (.wait name .tryRun :: rest))
  | .forget delivery =>
    some (({ s with waits := update s.waits name none }.giveBack delivery).setStack p rest)
  | .tryGetResultAgain =>
    match s.take p name with
    | some (delivery, s) => some ((s.giveBack delivery).setStack p rest)
    | none =>
      if timedOut then some (s.setStack p rest)
      else some (s.setStack p (.wait name .tryRun :: rest))
  | .getWaits =>
    match s.waits name with
    | some arc => some (s.setStack p (.wait name (.lock arc) :: rest))
    | none => some (s.setStack p (.wait name .insertWaits :: rest))
  | .insertWaits =>
    let inserted := { s with
      waits := update s.waits name (some s.arcs)
      pending := update s.pending s.arcs true
      arcs := s.arcs + 1 }
    match s.waits name with
    | none => some (inserted.setStack p (.wait name (.lock s.arcs) :: rest))
    | some _ =>
      some ((inserted.panic
        "assertion failed: self.waits.insert(key, arc.clone()).is_none()").unwindTo p rest)
  | .lock arc =>
    if s.pending arc then some (s.setStack p (.wait name (.blocked arc) :: rest))
    else some (s.setStack p (.wait name .tryGetResultLast :: rest))
  | .tryGetResultLast =>
    match s.take p name with
    | some (delivery, s) => some (s.setStack p (.wait name (.removeWaits delivery) :: rest))
    | none => some (s.setStack p rest)
  | .removeWaits delivery =>
    match s.waits name with
    | some _ =>
      some (({ s with waits := update s.waits name none }.giveBack delivery).setStack p rest)
    | none =>
      some ((s.panic "assertion failed: self.waits.remove(key).is_some()").unwindTo p rest)
  | .tryRun | .blocked _ => none

/-- What a coroutine drops when a trap ends it. -/
def trap (s : State ρ) (p : ρ) : State ρ :=
  (((s.stack p).filterMap Frame.task).foldl depart s).finish p

def step (s : State ρ) : Act ρ → Option (State ρ)
  | .submit name =>
    some { s with
      submitted := s.submitted ++ [name]
      taskQueue := s.taskQueue ++ [⟨s.submitted.length, name⟩] }
  | .tryRun p =>
    if s.finished p then none
    else
      match s.stack p with
      | .wait name .tryRun :: rest => some (s.pop p (.wait name .tryGetResultAgain :: rest))
      | stack => if Frame.isCaller stack then some (s.pop p stack) else none
  | .ends p ending =>
    match s.stack p with
    | .running task :: rest =>
      some ((s.endTask task ending).setStack p (.insert task ending :: rest))
    | _ => none
  | .insert p =>
    match s.stack p with
    | .insert task ending :: rest => some (insertResult s p task ending rest)
    | _ => none
  | .answer p =>
    match s.stack p with
    | .answer task :: rest => some (answer s p task rest)
    | _ => none
  | .tryGetResult p name =>
    if s.canCall p then
      match s.take p name with
      | some (delivery, s) => some (s.giveBack delivery)
      | none => some s
    else none
  | .waitResult p name =>
    if s.canCall p then some (s.setStack p (.wait name .tryGetResult :: s.stack p)) else none
  | .advance p timedOut =>
    match s.stack p with
    | .wait name pc :: rest => advance s p name rest timedOut pc
    | _ => none
  | .wake p =>
    match s.stack p with
    | .wait name (.blocked arc) :: rest => some (s.setStack p (.wait name (.lock arc) :: rest))
    | _ => none
  | .timeout p =>
    match s.stack p with
    | .wait name (.blocked _) :: rest => some (s.setStack p (.wait name .tryGetResultLast :: rest))
    | _ => none
  | .trap p =>
    if s.finished p || !Frame.isCaller (s.stack p) || s.kind p == .thread then none
    else some (trap s p)
  | .finish p =>
    if s.finished p || !(s.stack p).isEmpty then none else some (s.finish p)

/-! What a step can do. -/

inductive Advances (s : State ρ) (p : ρ) (name : String) (rest : List Frame) :
    WaitPc → State ρ → Prop where
  | takes {delivery : Delivery} {s' : State ρ} (ht : s.take p name = some (delivery, s')) :
    Advances s p name rest .tryGetResult (s'.setStack p (.wait name (.forget delivery) :: rest))
  | misses {pc : WaitPc} (ht : s.take p name = none)
    (hpc : pc = if s.kind p = .thread then .getWaits else .tryRun) :
    Advances s p name rest .tryGetResult (s.setStack p (.wait name pc :: rest))
  | forgets {delivery : Delivery} : Advances s p name rest (.forget delivery)
    (({ s with waits := update s.waits name none }.giveBack delivery).setStack p rest)
  | takesAgain {delivery : Delivery} {s' : State ρ} (ht : s.take p name = some (delivery, s')) :
    Advances s p name rest .tryGetResultAgain ((s'.giveBack delivery).setStack p rest)
  | timesOut (ht : s.take p name = none) :
    Advances s p name rest .tryGetResultAgain (s.setStack p rest)
  | runsAgain (ht : s.take p name = none) :
    Advances s p name rest .tryGetResultAgain (s.setStack p (.wait name .tryRun :: rest))
  | finds {arc : Nat} (hw : s.waits name = some arc) :
    Advances s p name rest .getWaits (s.setStack p (.wait name (.lock arc) :: rest))
  | findsNone (hw : s.waits name = none) :
    Advances s p name rest .getWaits (s.setStack p (.wait name .insertWaits :: rest))
  | inserts (hw : s.waits name = none) : Advances s p name rest .insertWaits ({ s with
      waits := update s.waits name (some s.arcs)
      pending := update s.pending s.arcs true
      arcs := s.arcs + 1 }.setStack p (.wait name (.lock s.arcs) :: rest))
  | insertPanics {arc : Nat} (hw : s.waits name = some arc) :
    Advances s p name rest .insertWaits (({ s with
      waits := update s.waits name (some s.arcs)
      pending := update s.pending s.arcs true
      arcs := s.arcs + 1 }.panic
        "assertion failed: self.waits.insert(key, arc.clone()).is_none()").unwindTo p rest)
  | blocks {arc : Nat} (hpending : s.pending arc = true) :
    Advances s p name rest (.lock arc) (s.setStack p (.wait name (.blocked arc) :: rest))
  | passes {arc : Nat} (hpending : s.pending arc = false) :
    Advances s p name rest (.lock arc) (s.setStack p (.wait name .tryGetResultLast :: rest))
  | takesLast {delivery : Delivery} {s' : State ρ} (ht : s.take p name = some (delivery, s')) :
    Advances s p name rest .tryGetResultLast
      (s'.setStack p (.wait name (.removeWaits delivery) :: rest))
  | missesLast (ht : s.take p name = none) :
    Advances s p name rest .tryGetResultLast (s.setStack p rest)
  | removes {delivery : Delivery} {arc : Nat} (hw : s.waits name = some arc) :
    Advances s p name rest (.removeWaits delivery)
      (({ s with waits := update s.waits name none }.giveBack delivery).setStack p rest)
  | removePanics {delivery : Delivery} (hw : s.waits name = none) :
    Advances s p name rest (.removeWaits delivery)
      ((s.panic "assertion failed: self.waits.remove(key).is_some()").unwindTo p rest)

variable {s t : State ρ} {p : ρ}

theorem advances {name : String} {rest : List Frame} {timedOut : Bool} {pc : WaitPc}
    (h : advance s p name rest timedOut pc = some t) : Advances s p name rest pc t := by
  cases pc with
  | tryRun | blocked arc => simp [advance] at h
  | forget delivery =>
    simp only [advance, Option.some.injEq] at h
    exact h ▸ .forgets
  | tryGetResult =>
    simp only [advance] at h
    split at h
    · rename_i ht
      exact Option.some.inj h ▸ .takes ht
    · rename_i ht
      split at h
      · rename_i hkind
        exact Option.some.inj h ▸ .misses ht (if_pos hkind).symm
      · rename_i hkind
        exact Option.some.inj h ▸ .misses ht (if_neg hkind).symm
  | tryGetResultAgain =>
    simp only [advance] at h
    split at h
    · rename_i ht
      exact Option.some.inj h ▸ .takesAgain ht
    · rename_i ht
      split at h
      · exact Option.some.inj h ▸ .timesOut ht
      · exact Option.some.inj h ▸ .runsAgain ht
  | getWaits =>
    simp only [advance] at h
    split at h
    · rename_i hw
      exact Option.some.inj h ▸ .finds hw
    · rename_i hw
      exact Option.some.inj h ▸ .findsNone hw
  | insertWaits =>
    simp only [advance] at h
    split at h
    · rename_i hw
      exact Option.some.inj h ▸ .inserts hw
    · rename_i hw
      exact Option.some.inj h ▸ .insertPanics hw
  | lock arc =>
    simp only [advance] at h
    split at h
    · rename_i hpending
      exact Option.some.inj h ▸ .blocks hpending
    · rename_i hpending
      exact Option.some.inj h ▸ .passes (Bool.eq_false_iff.2 hpending)
  | tryGetResultLast =>
    simp only [advance] at h
    split at h
    · rename_i ht
      exact Option.some.inj h ▸ .takesLast ht
    · rename_i ht
      exact Option.some.inj h ▸ .missesLast ht
  | removeWaits delivery =>
    simp only [advance] at h
    split at h
    · rename_i hw
      exact Option.some.inj h ▸ .removes hw
    · rename_i hw
      exact Option.some.inj h ▸ .removePanics hw

/-- A task is taken in a call of `wait_result`, or by a caller. -/
theorem step_tryRun (h : step s (.tryRun p) = some t) :
    (∃ name rest, s.stack p = .wait name .tryRun :: rest ∧
        t = s.pop p (.wait name .tryGetResultAgain :: rest)) ∨
      Frame.isCaller (s.stack p) = true ∧ t = s.pop p (s.stack p) := by
  simp only [step, Option.ite_none_left_eq_some] at h
  obtain ⟨-, h⟩ := h
  split at h
  · rename_i name rest hp
    exact .inl ⟨name, rest, hp, (Option.some.inj h).symm⟩
  · simp only [Option.ite_none_right_eq_some, Option.some.injEq] at h
    exact .inr ⟨h.1, h.2.symm⟩

theorem step_ends {ending : Ending} (h : step s (.ends p ending) = some t) :
    ∃ task rest, s.stack p = .running task :: rest ∧
      t = (s.endTask task ending).setStack p (.insert task ending :: rest) := by
  simp only [step] at h
  split at h
  · rename_i task rest hp
    exact ⟨task, rest, hp, (Option.some.inj h).symm⟩
  · cases h

theorem step_insert (h : step s (.insert p) = some t) :
    ∃ task ending rest, s.stack p = .insert task ending :: rest ∧
      t = insertResult s p task ending rest := by
  simp only [step] at h
  split at h
  · rename_i task ending rest hp
    exact ⟨task, ending, rest, hp, (Option.some.inj h).symm⟩
  · cases h

theorem step_answer (h : step s (.answer p) = some t) :
    ∃ task rest, s.stack p = .answer task :: rest ∧ t = answer s p task rest := by
  simp only [step] at h
  split at h
  · rename_i task rest hp
    exact ⟨task, rest, hp, (Option.some.inj h).symm⟩
  · cases h

theorem step_tryGetResult {name : String} (h : step s (.tryGetResult p name) = some t) :
    t = s ∨ ∃ delivery s', s.take p name = some (delivery, s') ∧ t = s'.giveBack delivery := by
  simp only [step, Option.ite_none_right_eq_some] at h
  obtain ⟨-, h⟩ := h
  split at h
  · rename_i delivery s' ht
    exact .inr ⟨delivery, s', ht, (Option.some.inj h).symm⟩
  · exact .inl (Option.some.inj h).symm

theorem step_waitResult {name : String} (h : step s (.waitResult p name) = some t) :
    s.canCall p = true ∧ t = s.setStack p (.wait name .tryGetResult :: s.stack p) := by
  simp only [step, Option.ite_none_right_eq_some, Option.some.injEq] at h
  exact ⟨h.1, h.2.symm⟩

theorem step_advance {timedOut : Bool} (h : step s (.advance p timedOut) = some t) :
    ∃ name pc rest, s.stack p = .wait name pc :: rest ∧ Advances s p name rest pc t := by
  simp only [step] at h
  split at h
  · rename_i name pc rest hp
    exact ⟨name, pc, rest, hp, advances h⟩
  · cases h

theorem step_wake (h : step s (.wake p) = some t) :
    ∃ name arc rest, s.stack p = .wait name (.blocked arc) :: rest ∧
      t = s.setStack p (.wait name (.lock arc) :: rest) := by
  simp only [step] at h
  split at h
  · rename_i name arc rest hp
    exact ⟨name, arc, rest, hp, (Option.some.inj h).symm⟩
  · cases h

theorem step_timeout (h : step s (.timeout p) = some t) :
    ∃ name arc rest, s.stack p = .wait name (.blocked arc) :: rest ∧
      t = s.setStack p (.wait name .tryGetResultLast :: rest) := by
  simp only [step] at h
  split at h
  · rename_i name arc rest hp
    exact ⟨name, arc, rest, hp, (Option.some.inj h).symm⟩
  · cases h

theorem step_trap (h : step s (.trap p) = some t) :
    Frame.isCaller (s.stack p) = true ∧ t = trap s p := by
  simp only [step, Option.ite_none_left_eq_some, Option.some.injEq] at h
  obtain ⟨hcond, rfl⟩ := h
  simp only [Bool.or_eq_true, Bool.not_eq_true', not_or, Bool.not_eq_false] at hcond
  exact ⟨hcond.1.2, rfl⟩

theorem step_finish (h : step s (.finish p) = some t) : s.stack p = [] ∧ t = s.finish p := by
  simp only [step, Option.ite_none_left_eq_some, Option.some.injEq] at h
  obtain ⟨hcond, rfl⟩ := h
  simp only [Bool.or_eq_true, Bool.not_eq_true', not_or, Bool.not_eq_false,
    List.isEmpty_iff] at hcond
  exact ⟨hcond.2, rfl⟩

end Tasks

end OpenCoroutine
