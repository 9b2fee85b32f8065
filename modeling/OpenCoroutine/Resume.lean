import OpenCoroutine.Coroutine

/-! `resume_with` cut at the context switch: what it does before the body runs, how a
body gives control back, and what it does with that. The thread-locals `COROUTINE`,
`SUSPENDER` and `TIMESTAMP` are stacks whose top is the head of the list; `κ` stands for
the pointers they hold.

`resumeEnter` gives a result if `resume_with` returns without running the body; otherwise
the body, or `suspend_with` coming back inside it, makes its suspender current.
`Leave.onBody` is what the thread does on the side of the body from the call that gives
control back to the switch: a trap skips the rest of the body closure, and with it the
`clean_current` of the suspender. The failing arms of `resumeExit` return before the
`clean_current` of the coroutine, as the `?` operators in the source do. -/

namespace OpenCoroutine

structure Locals (κ : Type*) where
  coroutine : List κ := []
  suspender : List κ := []
  timestamp : List Nat := []
  deriving DecidableEq, Repr

namespace Locals

variable {κ : Type*}

def initCoroutine (l : Locals κ) (p : κ) : Locals κ := { l with coroutine := p :: l.coroutine }

def cleanCoroutine (l : Locals κ) : Locals κ := { l with coroutine := l.coroutine.tail }

def initSuspender (l : Locals κ) (p : κ) : Locals κ := { l with suspender := p :: l.suspender }

def cleanSuspender (l : Locals κ) : Locals κ := { l with suspender := l.suspender.tail }

def pushTimestamp (l : Locals κ) (timestamp : Nat) : Locals κ :=
  { l with timestamp := timestamp :: l.timestamp }

def popTimestamp (l : Locals κ) : Nat × Locals κ :=
  (l.timestamp.headD 0, { l with timestamp := l.timestamp.tail })

@[simp] theorem initCoroutine_timestamp (l : Locals κ) (p : κ) :
    (l.initCoroutine p).timestamp = l.timestamp := rfl

@[simp] theorem initSuspender_timestamp (l : Locals κ) (p : κ) :
    (l.initSuspender p).timestamp = l.timestamp := rfl

@[simp] theorem cleanCoroutine_timestamp (l : Locals κ) :
    l.cleanCoroutine.timestamp = l.timestamp := rfl

@[simp] theorem cleanSuspender_timestamp (l : Locals κ) :
    l.cleanSuspender.timestamp = l.timestamp := rfl

@[simp] theorem pushTimestamp_timestamp (l : Locals κ) (timestamp : Nat) :
    (l.pushTimestamp timestamp).timestamp = timestamp :: l.timestamp := rfl

end Locals

inductive Leave (Y R : Type*) where
  | suspendWith (arg : Y)
  | untilWith (arg : Y) (timestamp : Nat)
  | returns (val : R)
  | panics (message : String)
  | traps
  deriving DecidableEq, Repr

inductive CoroutineResult (Y R : Type*) where
  | yield (y : Y)
  | return (result : Except String R)

namespace Leave

variable {Y R κ : Type*}

def onBody (o : Leave Y R) (l : Locals κ) : CoroutineResult Y R × Locals κ :=
  match o with
  | .suspendWith arg => (.yield arg, l.cleanSuspender)
  | .untilWith arg timestamp => (.yield arg, (l.pushTimestamp timestamp).cleanSuspender)
  | .returns val => (.return (.ok val), l.cleanSuspender)
  | .panics message => (.return (.error message), l.cleanSuspender)
  | .traps => (.return (.error "invalid memory reference"), l)

def deadline : Leave Y R → Nat
  | .untilWith _ timestamp => timestamp
  | _ => 0

def IsDelayed : Leave Y R → Prop
  | .untilWith _ _ => True
  | _ => False

end Leave

namespace CoroutineImpl

variable {Y R κ : Type*} [ToString Y] [ToString R]

def resumeEnter (c : CoroutineImpl Y R) (p : κ) (l : Locals κ) (now : Nat) :
    Option (Except IoError (CoroutineState Y R)) × CoroutineImpl Y R × Locals κ :=
  match c.state with
  | .complete r => (some (.ok (.complete r)), c, l)
  | _ =>
    match c.running now with
    | (.error e, c) => (some (.error e), c, l)
    | (.ok (), c) => (none, c, (l.initCoroutine p).initSuspender p)

def unexpectedYield (c : CoroutineImpl Y R) : IoError :=
  ⟨.other, c.name ++ " unexpected state " ++ c.state.display⟩

def resumeExit (c : CoroutineImpl Y R) (l : Locals κ) :
    CoroutineResult Y R → Except IoError (CoroutineState Y R) × CoroutineImpl Y R × Locals κ
  | .yield y =>
    match c.state with
    | .running =>
      let (timestamp, l) := l.popTimestamp
      match c.suspend y timestamp with
      | (.error e, c) => (.error e, c, l)
      | (.ok (), c) => (.ok (.suspend y timestamp), c, l.cleanCoroutine)
    | .systemCall y syscall state => (.ok (.systemCall y syscall state), c, l.cleanCoroutine)
    | _ => (.error c.unexpectedYield, c, l)
  | .return (.ok returns) =>
    match { c with done := true }.complete returns with
    | (.error e, c) => (.error e, c, l)
    | (.ok (), c) => (.ok (.complete returns), c, l.cleanCoroutine)
  | .return (.error message) =>
    match { c with done := true }.error message with
    | (.error e, c) => (.error e, c, l)
    | (.ok (), c) => (.ok (.error message), c, l.cleanCoroutine)

def leave (c : CoroutineImpl Y R) (l : Locals κ) (o : Leave Y R) :
    Except IoError (CoroutineState Y R) × CoroutineImpl Y R × Locals κ :=
  c.resumeExit (o.onBody l).2 (o.onBody l).1

@[simp] theorem resumeEnter_timestamp (c : CoroutineImpl Y R) (p : κ) (l : Locals κ) (now : Nat) :
    (c.resumeEnter p l now).2.2.timestamp = l.timestamp := by
  unfold resumeEnter
  split
  · rfl
  · split <;> rfl

theorem suspend_ok {c c' : CoroutineImpl Y R} {y : Y} {timestamp : Nat}
    (h : c.suspend y timestamp = (.ok (), c')) : c'.state = .suspend y timestamp := by
  unfold CoroutineImpl.suspend at h
  split at h
  · simp only [Prod.mk.injEq, true_and] at h
    rw [← h]
  · simp at h

theorem complete_ok {c c' : CoroutineImpl Y R} {val : R} (h : c.complete val = (.ok (), c')) :
    c'.state = .complete val := by
  unfold complete at h
  split at h
  · simp only [Prod.mk.injEq, true_and] at h
    rw [← h]
  · simp at h

theorem error_ok {c c' : CoroutineImpl Y R} {val : String} (h : c.error val = (.ok (), c')) :
    c'.state = .error val := by
  unfold error at h
  split at h
  · simp only [Prod.mk.injEq, true_and] at h
    rw [← h]
  · simp at h

/-- What `resume_with` returns is the state it leaves the coroutine in. -/
theorem resumeExit_ok {c c' : CoroutineImpl Y R} {l l' : Locals κ} {r : CoroutineResult Y R}
    {st : CoroutineState Y R} (h : c.resumeExit l r = (.ok st, c', l')) : c'.state = st := by
  cases r with
  | yield y =>
    simp only [resumeExit] at h
    split at h
    · split at h
      · simp at h
      · rename_i he
        have hc := suspend_ok he
        simp only [Prod.mk.injEq, Except.ok.injEq] at h
        rw [← h.1, ← h.2.1, hc]
    · rename_i hst
      simp only [Prod.mk.injEq, Except.ok.injEq] at h
      rw [← h.1, ← h.2.1, hst]
    · simp at h
  | «return» result =>
    cases result with
    | ok val =>
      simp only [resumeExit] at h
      split at h
      · simp at h
      · rename_i he
        have hc := complete_ok he
        simp only [Prod.mk.injEq, Except.ok.injEq] at h
        rw [← h.1, ← h.2.1, hc]
    | error message =>
      simp only [resumeExit] at h
      split at h
      · simp at h
      · rename_i he
        have hc := error_ok he
        simp only [Prod.mk.injEq, Except.ok.injEq] at h
        rw [← h.1, ← h.2.1, hc]

theorem resumeEnter_ok {c c' : CoroutineImpl Y R} {p : κ} {l l' : Locals κ} {now : Nat}
    {st : CoroutineState Y R} (h : c.resumeEnter p l now = (some (.ok st), c', l')) :
    c'.state = st := by
  simp only [resumeEnter] at h
  split at h
  · rename_i hst
    simp only [Prod.mk.injEq, Option.some.injEq, Except.ok.injEq] at h
    rw [← h.1, ← h.2.1, hst]
  · split at h <;> simp at h

end CoroutineImpl

end OpenCoroutine
