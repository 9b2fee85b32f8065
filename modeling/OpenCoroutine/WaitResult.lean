import Mathlib.Data.Fintype.Basic
import Mathlib.Logic.Function.Basic

/-! The hand-over of one task's result: threads that are not coroutines call
`CoroutinePoolImpl::wait_result` for the task's name, and a worker runs `try_run`. The
maps `results` and `waits` are read at that one name. A `Waiter` or `Worker` position
names the next map or lock operation, and each such operation is one step.

The `Arc`s of the `waits` entries are numbered in the order they are made. `pending`
is the flag inside each of their mutexes. -/

namespace OpenCoroutine

namespace WaitResult

inductive Waiter (R : Type*) where
  | idle
  | tryGetResult
  | forget (r : R)
  | getWaits
  | insertWaits
  | lock (arc : Nat)
  | blocked (arc : Nat)
  | tryGetResultAgain
  | removeWaits (r : R)
  | returned (r : R)
  | timedOut
  | panicked
  deriving DecidableEq, Repr

inductive Worker (R : Type*) where
  | idle
  | insertResult (r : R)
  | getWaits
  | notify (arc : Nat)
  | panicked
  deriving DecidableEq, Repr

structure State (ι R : Type*) where
  results : Option R
  waits : Option Nat
  pending : Nat → Bool
  arcs : Nat
  waiter : ι → Waiter R
  worker : Worker R

inductive Act (ι R : Type*) where
  | call (i : ι)
  | advance (i : ι)
  | wake (i : ι)
  | timeout (i : ι)
  | run (r : R)
  | work (woken : Option ι)

namespace Waiter

variable {R : Type*}

def outside : Waiter R → Bool
  | idle | returned _ | timedOut => true
  | _ => false

def blockedOn : Waiter R → Nat → Bool
  | blocked arc, arc' => arc = arc'
  | _, _ => false

/-- The call has found no result and has not yet registered itself in `waits`. -/
def missed : Waiter R → Bool
  | getWaits | insertWaits => true
  | _ => false

def registered : Waiter R → Option Nat
  | lock arc | blocked arc => some arc
  | _ => none

end Waiter

variable {ι R : Type*} [DecidableEq ι]

def State.goto (s : State ι R) (i : ι) (w : Waiter R) : State ι R :=
  { s with waiter := Function.update s.waiter i w }

/-- The next operation of waiter `i`. -/
def advance (s : State ι R) (i : ι) : Option (State ι R) :=
  match s.waiter i with
  | .tryGetResult =>
    match s.results with
    | some r => some ({ s with results := none }.goto i (.forget r))
    | none => some (s.goto i .getWaits)
  | .forget r => some ({ s with waits := none }.goto i (.returned r))
  | .getWaits =>
    match s.waits with
    | some arc => some (s.goto i (.lock arc))
    | none => some (s.goto i .insertWaits)
  | .insertWaits =>
    some ({ s with
      waits := some s.arcs, pending := Function.update s.pending s.arcs true,
      arcs := s.arcs + 1 }.goto i (if s.waits.isNone then .lock s.arcs else .panicked))
  | .lock arc => some (s.goto i (if s.pending arc then .blocked arc else .tryGetResultAgain))
  | .tryGetResultAgain =>
    match s.results with
    | some r => some ({ s with results := none }.goto i (.removeWaits r))
    | none => some (s.goto i .timedOut)
  | .removeWaits r =>
    some ({ s with waits := none }.goto i (if s.waits.isSome then .returned r else .panicked))
  | .idle | .blocked _ | .returned _ | .timedOut | .panicked => none

/-- The next operation of `try_run`. `woken` is the thread that `notify_one` wakes. -/
def work [Fintype ι] (s : State ι R) (woken : Option ι) : Option (State ι R) :=
  match s.worker with
  | .insertResult r =>
    some { s with results := some r,
                  worker := if s.results.isNone then .getWaits else .panicked }
  | .getWaits =>
    match s.waits with
    | some arc => some { s with worker := .notify arc }
    | none => some { s with worker := .idle }
  | .notify arc =>
    let set := { s with pending := Function.update s.pending arc false, worker := .idle }
    match woken with
    | some i => if (s.waiter i).blockedOn arc then some (set.goto i (.lock arc)) else none
    | none => if ∀ i, (s.waiter i).blockedOn arc = false then some set else none
  | .idle | .panicked => none

def step [Fintype ι] (s : State ι R) : Act ι R → Option (State ι R)
  | .call i => if (s.waiter i).outside then some (s.goto i .tryGetResult) else none
  | .advance i => advance s i
  | .wake i =>
    match s.waiter i with
    | .blocked arc => some (s.goto i (.lock arc))
    | _ => none
  | .timeout i =>
    match s.waiter i with
    | .blocked _ => some (s.goto i .tryGetResultAgain)
    | _ => none
  | .run r =>
    match s.worker with
    | .idle => some { s with worker := .insertResult r }
    | _ => none
  | .work woken => work s woken

@[simp] theorem State.goto_waiter (s : State ι R) (i : ι) (w : Waiter R) :
    (s.goto i w).waiter = Function.update s.waiter i w := rfl

theorem State.goto_self (s : State ι R) (i : ι) (w : Waiter R) : (s.goto i w).waiter i = w := by
  simp [State.goto]

/-! What a step can do. -/

inductive Advances (s : State ι R) (i : ι) : State ι R → Prop where
  | takes {r : R} (hi : s.waiter i = .tryGetResult) (hr : s.results = some r) :
    Advances s i ({ s with results := none }.goto i (.forget r))
  | misses (hi : s.waiter i = .tryGetResult) (hr : s.results = none) :
    Advances s i (s.goto i .getWaits)
  | forgets {r : R} (hi : s.waiter i = .forget r) :
    Advances s i ({ s with waits := none }.goto i (.returned r))
  | finds {arc : Nat} (hi : s.waiter i = .getWaits) (hw : s.waits = some arc) :
    Advances s i (s.goto i (.lock arc))
  | findsNone (hi : s.waiter i = .getWaits) (hw : s.waits = none) :
    Advances s i (s.goto i .insertWaits)
  | inserts (hi : s.waiter i = .insertWaits) :
    Advances s i ({ s with
      waits := some s.arcs, pending := Function.update s.pending s.arcs true,
      arcs := s.arcs + 1 }.goto i (if s.waits.isNone then .lock s.arcs else .panicked))
  | locks {arc : Nat} (hi : s.waiter i = .lock arc) :
    Advances s i (s.goto i (if s.pending arc then .blocked arc else .tryGetResultAgain))
  | takesAgain {r : R} (hi : s.waiter i = .tryGetResultAgain) (hr : s.results = some r) :
    Advances s i ({ s with results := none }.goto i (.removeWaits r))
  | timesOut (hi : s.waiter i = .tryGetResultAgain) (hr : s.results = none) :
    Advances s i (s.goto i .timedOut)
  | removes {r : R} (hi : s.waiter i = .removeWaits r) :
    Advances s i
      ({ s with waits := none }.goto i (if s.waits.isSome then .returned r else .panicked))

theorem advances {s t : State ι R} {i : ι} (h : advance s i = some t) : Advances s i t := by
  cases hi : s.waiter i with
  | idle | blocked _ | returned _ | timedOut | panicked => simp [advance, hi] at h
  | tryGetResult =>
    cases hr : s.results <;> simp only [advance, hi, hr, Option.some.injEq] at h <;> subst h
    · exact .misses hi hr
    · exact .takes hi hr
  | getWaits =>
    cases hw : s.waits <;> simp only [advance, hi, hw, Option.some.injEq] at h <;> subst h
    · exact .findsNone hi hw
    · exact .finds hi hw
  | tryGetResultAgain =>
    cases hr : s.results <;> simp only [advance, hi, hr, Option.some.injEq] at h <;> subst h
    · exact .timesOut hi hr
    · exact .takesAgain hi hr
  | forget r =>
    simp only [advance, hi, Option.some.injEq] at h
    exact h ▸ .forgets hi
  | insertWaits =>
    simp only [advance, hi, Option.some.injEq] at h
    exact h ▸ .inserts hi
  | lock arc =>
    simp only [advance, hi, Option.some.injEq] at h
    exact h ▸ .locks hi
  | removeWaits r =>
    simp only [advance, hi, Option.some.injEq] at h
    exact h ▸ .removes hi

inductive Works (s : State ι R) : State ι R → Prop where
  | inserts {r : R} (hk : s.worker = .insertResult r) :
    Works s { s with results := some r,
                     worker := if s.results.isNone then .getWaits else .panicked }
  | finds {arc : Nat} (hk : s.worker = .getWaits) (hw : s.waits = some arc) :
    Works s { s with worker := .notify arc }
  | findsNone (hk : s.worker = .getWaits) (hw : s.waits = none) :
    Works s { s with worker := .idle }
  | wakes {arc : Nat} {i : ι} (hk : s.worker = .notify arc) (hi : s.waiter i = .blocked arc) :
    Works s ({ s with
      pending := Function.update s.pending arc false, worker := .idle }.goto i (.lock arc))
  | wakesNone {arc : Nat} (hk : s.worker = .notify arc)
    (hi : ∀ i, (s.waiter i).blockedOn arc = false) :
    Works s { s with pending := Function.update s.pending arc false, worker := .idle }

theorem Waiter.blockedOn_iff {w : Waiter R} {arc : Nat} :
    w.blockedOn arc = true ↔ w = .blocked arc := by
  cases w <;> simp [blockedOn]

theorem works [Fintype ι] {s t : State ι R} {woken : Option ι} (h : work s woken = some t) :
    Works s t := by
  cases hk : s.worker with
  | idle | panicked => simp [work, hk] at h
  | insertResult r =>
    simp only [work, hk, Option.some.injEq] at h
    exact h ▸ .inserts hk
  | getWaits =>
    simp only [work, hk] at h
    split at h <;> rename_i hw <;> simp only [Option.some.injEq] at h <;> subst h
    · exact .finds hk hw
    · exact .findsNone hk hw
  | notify arc =>
    cases woken with
    | some i =>
      simp only [work, hk, Option.ite_none_right_eq_some, Option.some.injEq] at h
      obtain ⟨hi, rfl⟩ := h
      exact .wakes hk (Waiter.blockedOn_iff.1 hi)
    | none =>
      simp only [work, hk, Option.ite_none_right_eq_some, Option.some.injEq] at h
      obtain ⟨hi, rfl⟩ := h
      exact .wakesNone hk hi

variable [Fintype ι] {s t : State ι R}

theorem step_call {i : ι} (h : step s (.call i) = some t) :
    (s.waiter i).outside = true ∧ t = s.goto i .tryGetResult := by
  simp only [step, Option.ite_none_right_eq_some, Option.some.injEq] at h
  exact ⟨h.1, h.2.symm⟩

theorem step_wake {i : ι} (h : step s (.wake i) = some t) :
    ∃ arc, s.waiter i = .blocked arc ∧ t = s.goto i (.lock arc) := by
  cases hi : s.waiter i <;> simp only [step, hi, Option.some.injEq, reduceCtorEq] at h
  exact ⟨_, rfl, h.symm⟩

theorem step_timeout {i : ι} (h : step s (.timeout i) = some t) :
    ∃ arc, s.waiter i = .blocked arc ∧ t = s.goto i .tryGetResultAgain := by
  cases hi : s.waiter i <;> simp only [step, hi, Option.some.injEq, reduceCtorEq] at h
  exact ⟨_, rfl, h.symm⟩

theorem step_run {r : R} (h : step s (.run r) = some t) :
    s.worker = .idle ∧ t = { s with worker := .insertResult r } := by
  cases hk : s.worker <;> simp only [step, hk, Option.some.injEq, reduceCtorEq] at h
  exact ⟨rfl, h.symm⟩

end WaitResult

end OpenCoroutine
