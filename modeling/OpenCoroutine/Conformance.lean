import OpenCoroutine.Resume
import OpenCoroutine.Transition

/-! The life of one coroutine under any calls: the methods of its state machine, from
outside or from its own body, and `resume_with`, cut where it enters the body and where the
body gives control back. `resumed` counts the entries. Resuming a body that has returned
panics in the coroutine library. The timestamps that a thread keeps for its suspenders are
part of the label. -/

namespace OpenCoroutine

open Transition

/-- The transitions that the state machine documents. -/
inductive Edge {Y R : Type*} : CoroutineState Y R → CoroutineState Y R → Prop where
  | create : Edge .created .ready
  | wake (y : Y) (timestamp : Nat) : Edge (.suspend y timestamp) .ready
  | start : Edge .created .running
  | run : Edge .ready .running
  | resume (y : Y) (timestamp : Nat) : Edge (.suspend y timestamp) .running
  | suspend (y : Y) (timestamp : Nat) : Edge .running (.suspend y timestamp)
  | syscall (y : Y) (syscall : Syscall) (state : SyscallState) :
      Edge .running (.systemCall y syscall state)
  | inner (y y' : Y) (syscall : Syscall) (state state' : SyscallState) :
      Edge (.systemCall y syscall state) (.systemCall y' syscall state')
  | finished (y : Y) (syscall : Syscall) : Edge (.systemCall y syscall .finished) .running
  | timeout (y : Y) (syscall : Syscall) : Edge (.systemCall y syscall .timeout) .running
  | complete (r : R) : Edge .running (.complete r)
  | error (message : String) : Edge .running (.error message)

namespace CoroutineState

variable {Y R : Type*}

def IsTerminal : CoroutineState Y R → Prop
  | complete _ | error _ => True
  | _ => False

end CoroutineState

theorem Edge.not_terminal {Y R : Type*} {st st' : CoroutineState Y R} (h : Edge st st') :
    ¬ st.IsTerminal := by
  cases h <;> exact id

namespace CoroutineImpl

variable {Y R : Type*} [ToString Y] [ToString R]

/-- The clock reading of a call that takes one. -/
def Call.reading : Call Y R → Option Nat
  | ready now | running now => some now
  | _ => none

theorem call_edge (c : CoroutineImpl Y R) (k : Call Y R) :
    (c.call k).2.state = c.state ∨ Edge c.state (c.call k).2.state := by
  cases k with
  | ready now =>
    cases hc : c.state with
    | created => exact .inr (by simpa [call, ready, hc] using Edge.create)
    | suspend y timestamp =>
      by_cases hnow : timestamp ≤ now
      · exact .inr (by simpa [call, ready, hc, hnow] using Edge.wake y timestamp)
      · exact .inl (by simp [call, ready, hc, hnow])
    | ready | running | systemCall _ _ _ | complete _ | error _ => exact .inl (by simp [call, ready, hc])
  | running now =>
    cases hc : c.state with
    | created => exact .inr (by simpa [call, running, hc] using Edge.start)
    | ready => exact .inr (by simpa [call, running, hc] using Edge.run)
    | suspend y timestamp =>
      by_cases hnow : timestamp ≤ now
      · exact .inr (by simpa [call, running, hc, hnow] using Edge.resume y timestamp)
      · exact .inl (by simp [call, running, hc, hnow])
    | running | systemCall _ _ _ | complete _ | error _ => exact .inl (by simp [call, running, hc])
  | suspend val timestamp =>
    cases hc : c.state with
    | running => exact .inr (by simpa [call, suspend, hc] using Edge.suspend val timestamp)
    | created | ready | suspend _ _ | systemCall _ _ _ | complete _ | error _ =>
      exact .inl (by simp [call, suspend, hc])
  | syscall val syscall syscallState =>
    cases hc : c.state with
    | running =>
      exact .inr (by simpa [call, CoroutineImpl.syscall, hc] using Edge.syscall val syscall syscallState)
    | systemCall y originalSyscall state =>
      by_cases hs : originalSyscall = syscall
      · subst hs
        exact .inr (by
          simpa [call, CoroutineImpl.syscall, hc] using Edge.inner y val originalSyscall state syscallState)
      · exact .inl (by simp [call, CoroutineImpl.syscall, hc, hs])
    | created | ready | suspend _ _ | complete _ | error _ =>
      exact .inl (by simp [call, CoroutineImpl.syscall, hc])
  | syscallResume =>
    cases hc : c.state with
    | systemCall y syscall state =>
      cases state with
      | finished => exact .inr (by simpa [call, syscallResume, hc] using Edge.finished y syscall)
      | timeout => exact .inr (by simpa [call, syscallResume, hc] using Edge.timeout y syscall)
      | computing | suspend _ | calling _ => exact .inl (by simp [call, syscallResume, hc])
    | created | ready | running | suspend _ _ | complete _ | error _ =>
      exact .inl (by simp [call, syscallResume, hc])
  | complete val =>
    cases hc : c.state with
    | running => exact .inr (by simpa [call, complete, hc] using Edge.complete val)
    | created | ready | suspend _ _ | systemCall _ _ _ | complete _ | error _ =>
      exact .inl (by simp [call, complete, hc])
  | error val =>
    cases hc : c.state with
    | running => exact .inr (by simpa [call, error, hc] using Edge.error val)
    | created | ready | suspend _ _ | systemCall _ _ _ | complete _ | error _ =>
      exact .inl (by simp [call, error, hc])

/-- A suspended coroutine changes its state only at a reading past its timestamp. -/
theorem call_due {c : CoroutineImpl Y R} {y : Y} {timestamp : Nat}
    (hc : c.state = .suspend y timestamp) {k : Call Y R} (hne : (c.call k).2.state ≠ c.state) :
    ∃ now, k.reading = some now ∧ timestamp ≤ now := by
  cases k with
  | ready now =>
    by_cases hnow : timestamp ≤ now
    · exact ⟨now, rfl, hnow⟩
    · exact absurd (by simp [call, ready, hc, hnow]) hne
  | running now =>
    by_cases hnow : timestamp ≤ now
    · exact ⟨now, rfl, hnow⟩
    · exact absurd (by simp [call, running, hc, hnow]) hne
  | suspend val timestamp' => exact absurd (by simp [call, suspend, hc]) hne
  | syscall val syscall state => exact absurd (by simp [call, CoroutineImpl.syscall, hc]) hne
  | syscallResume => exact absurd (by simp [call, syscallResume, hc]) hne
  | complete val => exact absurd (by simp [call, complete, hc]) hne
  | error val => exact absurd (by simp [call, error, hc]) hne

theorem call_failed {c : CoroutineImpl Y R} {k : Call Y R} {e : IoError}
    (h : (c.call k).1 = .error e) : (c.call k).2 = c := by
  rcases c.call_sets k with ⟨st, hk⟩ | ⟨e', hk⟩
  · rw [hk] at h
    cases h
  · rw [hk]

/-- Before the body runs `resume_with` does nothing or calls `running`. -/
theorem resumeEnter_call {κ : Type*} (c : CoroutineImpl Y R) (p : κ) (l : Locals κ) (now : Nat) :
    (∃ r, c.state = .complete r ∧ c.resumeEnter p l now = (some (.ok (.complete r)), c, l)) ∨
      ∃ answer l', c.resumeEnter p l now = (answer, (c.call (.running now)).2, l') ∧
        ∀ e, answer = some (.error e) ↔ (c.call (.running now)).1 = .error e := by
  cases hc : c.state with
  | complete r => exact .inl ⟨r, rfl, by simp [resumeEnter, hc]⟩
  | created | ready | running | suspend _ _ | systemCall _ _ _ | error _ =>
    refine .inr ?_
    simp only [resumeEnter, hc, call]
    split
    · rename_i e c' hr
      exact ⟨_, _, by rw [hr], fun e' => by simp [hr]⟩
    · rename_i c' hr
      exact ⟨_, _, by rw [hr], fun e' => by simp [hr]⟩

theorem complete_state (c : CoroutineImpl Y R) (val : R) :
    ({ c with done := true }.complete val).2.state = (c.complete val).2.state := by
  cases hc : c.state <;> simp [complete, hc]

theorem error_state (c : CoroutineImpl Y R) (val : String) :
    ({ c with done := true }.error val).2.state = (c.error val).2.state := by
  cases hc : c.state <;> simp [error, hc]

/-- After the body has given control back `resume_with` leaves the state or sets it by one
of the methods that take no reading. -/
theorem resumeExit_call {κ : Type*} (c : CoroutineImpl Y R) (l : Locals κ)
    (r : CoroutineResult Y R) :
    (c.resumeExit l r).2.1.state = c.state ∨
      ∃ k, Call.reading k = none ∧ (c.resumeExit l r).2.1.state = (c.call k).2.state := by
  cases r with
  | yield y =>
    simp only [resumeExit]
    split
    · refine .inr ⟨.suspend y l.popTimestamp.1, rfl, ?_⟩
      split
      all_goals
        rename_i hs
        rw [call, hs]
    · exact .inl rfl
    · exact .inl rfl
  | «return» result =>
    cases result with
    | ok val =>
      refine .inr ⟨.complete val, rfl, ?_⟩
      rw [call, ← complete_state]
      simp only [resumeExit]
      split
      all_goals
        rename_i hs
        rw [hs]
    | error message =>
      refine .inr ⟨.error message, rfl, ?_⟩
      rw [call, ← error_state]
      simp only [resumeExit]
      split
      all_goals
        rename_i hs
        rw [hs]

end CoroutineImpl

structure Machine (Y R : Type*) where
  coroutine : CoroutineImpl Y R
  inBody : Bool := false
  resumed : Nat := 0

inductive MachineOp (Y R : Type*) where
  | call (k : CoroutineImpl.Call Y R)
  | resumeWith (now : Nat)
  | leave (o : Leave Y R) (timestamp : List Nat)

namespace Machine

variable {Y R : Type*} [ToString Y] [ToString R]

def new (name : String) : Machine Y R := { coroutine := { name } }

def state (s : Machine Y R) : CoroutineState Y R := s.coroutine.state

def step (s : Machine Y R) : MachineOp Y R → Option (Machine Y R)
  | .call k => some { s with coroutine := (s.coroutine.call k).2 }
  | .resumeWith now =>
    if s.inBody then none
    else
      match s.coroutine.resumeEnter () {} now with
      | (some _, coroutine, _) => some { s with coroutine }
      | (none, coroutine, _) =>
        if coroutine.done then some { s with coroutine }
        else some { coroutine, inBody := true, resumed := s.resumed + 1 }
  | .leave o timestamp =>
    if s.inBody then
      let l : Locals Unit := { timestamp }
      some { s with coroutine := (s.coroutine.leave l o).2.1, inBody := false }
    else none

/-- The call returns `Err`, and a `resume_with` does so before the body runs. -/
def Fails (s : Machine Y R) : MachineOp Y R → Prop
  | .call k => ∃ e, (s.coroutine.call k).1 = .error e
  | .resumeWith now =>
    ∃ e, (s.coroutine.resumeEnter () ({} : Locals Unit) now).1 = some (.error e)
  | .leave _ _ => False

def reading : MachineOp Y R → Option Nat
  | .call k => k.reading
  | .resumeWith now => some now
  | .leave _ _ => none

/-- A step that changes the state does what a call of one method would do to it. -/
theorem step_call {s t : Machine Y R} {a : MachineOp Y R} (hs : s.step a = some t) :
    t.state = s.state ∨ ∃ k : CoroutineImpl.Call Y R, t.state = (s.coroutine.call k).2.state ∧
      ∀ now, k.reading = some now → reading a = some now := by
  cases a with
  | call k =>
    simp only [step, Option.some.injEq] at hs
    subst hs
    exact .inr ⟨k, rfl, fun now hk => hk⟩
  | resumeWith now =>
    simp only [step, Option.ite_none_left_eq_some] at hs
    obtain ⟨-, hs⟩ := hs
    rcases s.coroutine.resumeEnter_call () ({} : Locals Unit) now with
      ⟨r, -, he⟩ | ⟨answer, l, he, -⟩
    · rw [he] at hs
      simp only [Option.some.injEq] at hs
      subst hs
      exact .inl rfl
    · refine .inr ⟨.running now, ?_, fun now' hk => hk⟩
      rw [he] at hs
      cases answer with
      | some r =>
        simp only [Option.some.injEq] at hs
        rw [← hs]
        rfl
      | none =>
        simp only at hs
        split at hs
        all_goals
          simp only [Option.some.injEq] at hs
          rw [← hs]
          rfl
  | leave o timestamp =>
    simp only [step, Option.ite_none_right_eq_some, Option.some.injEq] at hs
    obtain ⟨-, rfl⟩ := hs
    rcases s.coroutine.resumeExit_call (o.onBody ({ timestamp } : Locals Unit)).2
      (o.onBody ({ timestamp } : Locals Unit)).1 with hr | ⟨k, hk, hr⟩
    · exact .inl hr
    · refine .inr ⟨k, hr, fun now hk' => ?_⟩
      rw [hk] at hk'
      cases hk'

theorem step_failed {s t : Machine Y R} {a : MachineOp Y R} (hs : s.step a = some t)
    (hf : s.Fails a) : t.state = s.state := by
  cases a with
  | leave o timestamp => cases hf
  | call k =>
    obtain ⟨e, he⟩ := hf
    simp only [step, Option.some.injEq] at hs
    rw [← hs, state, CoroutineImpl.call_failed he, state]
  | resumeWith now =>
    obtain ⟨e, he⟩ := hf
    simp only [step, Option.ite_none_left_eq_some] at hs
    obtain ⟨-, hs⟩ := hs
    rcases s.coroutine.resumeEnter_call () ({} : Locals Unit) now with
      ⟨r, -, hr⟩ | ⟨answer, l, hr, hiff⟩
    · rw [hr] at he
      cases he
    · rw [hr] at he hs
      have hc := CoroutineImpl.call_failed ((hiff e).1 he)
      rw [show answer = some (.error e) from he, hc] at hs
      simp only [Option.some.injEq] at hs
      rw [← hs]

/-- No edge leaves a terminal state, and `running` fails in it. -/
theorem step_terminal {s t : Machine Y R} {a : MachineOp Y R} (hs : s.step a = some t)
    (hterminal : s.state.IsTerminal) : t.state = s.state ∧ t.resumed = s.resumed := by
  constructor
  · rcases step_call hs with h | ⟨k, hk, -⟩
    · exact h
    · rcases s.coroutine.call_edge k with h | h
      · exact hk.trans h
      · exact absurd hterminal h.not_terminal
  · cases a with
    | call k =>
      simp only [step, Option.some.injEq] at hs
      rw [← hs]
    | leave o timestamp =>
      simp only [step, Option.ite_none_right_eq_some, Option.some.injEq] at hs
      rw [← hs.2]
    | resumeWith now =>
      simp only [step, Option.ite_none_left_eq_some] at hs
      obtain ⟨-, hs⟩ := hs
      have hsome : ∃ r c l,
          s.coroutine.resumeEnter () ({} : Locals Unit) now = (some r, c, l) := by
        have hst : s.coroutine.state.IsTerminal := hterminal
        cases hc : s.coroutine.state with
        | complete r =>
          simp only [CoroutineImpl.resumeEnter, hc]
          exact ⟨_, _, _, rfl⟩
        | error message =>
          simp only [CoroutineImpl.resumeEnter, CoroutineImpl.running, hc]
          exact ⟨_, _, _, rfl⟩
        | created | ready | running | suspend _ _ | systemCall _ _ _ =>
          rw [hc] at hst
          cases hst
      obtain ⟨r, c, l, he⟩ := hsome
      rw [he] at hs
      simp only [Option.some.injEq] at hs
      rw [← hs]

/-- What a step to `t` may do: a failed call changes nothing, a change of the state is a
documented one, and a suspension ends at its time. -/
structure Follows (s : Machine Y R) (a : MachineOp Y R) (t : Machine Y R) : Prop where
  atomic : s.Fails a → t.state = s.state
  edge : t.state ≠ s.state → Edge s.state t.state
  due : ∀ y timestamp, s.state = .suspend y timestamp → t.state ≠ s.state →
    ∃ now, reading a = some now ∧ timestamp ≤ now

def Conforms (s : Machine Y R) (a : MachineOp Y R) : Prop :=
  ∀ t, s.step a = some t → s.Follows a t

theorem step_conforms (s : Machine Y R) (a : MachineOp Y R) : s.Conforms a := by
  intro t hs
  refine ⟨step_failed hs, fun hne => ?_, fun y timestamp hst hne => ?_⟩
  · rcases step_call hs with h | ⟨k, hk, -⟩
    · exact absurd h hne
    · rcases s.coroutine.call_edge k with h | h
      · exact absurd (hk.trans h) hne
      · rw [hk]
        exact h
  · rcases step_call hs with h | ⟨k, hk, hreading⟩
    · exact absurd h hne
    · obtain ⟨now, hnow, hdue⟩ := CoroutineImpl.call_due (k := k) hst fun he => hne (hk.trans he)
      exact ⟨now, hreading now hnow, hdue⟩

/-- Every sequence of calls follows the state machine, and from a terminal state on nothing
changes and the body is not entered again. -/
theorem calls_conform (s : Machine Y R) (ops : List (MachineOp Y R)) :
    Guarded step Conforms s ops ∧
      (s.state.IsTerminal → ∀ t, run step s ops = some t →
        t.state = s.state ∧ t.resumed = s.resumed) := by
  refine ⟨.of_forall step_conforms ops, fun hterminal t ht => ?_⟩
  have hreach : Reaches step Free s t := .of_run ops ht (guarded_free ops)
  refine hreach.invariant (p := fun t => t.state = s.state ∧ t.resumed = s.resumed) ⟨rfl, rfl⟩ ?_
  rintro u a v ⟨hstate, hresumed⟩ - hs
  obtain ⟨hstate', hresumed'⟩ := step_terminal hs (hstate.symm ▸ hterminal)
  exact ⟨hstate'.trans hstate, hresumed'.trans hresumed⟩

/-- The body delays itself to time 5, is refused at 4, comes back at 5 and returns. -/
example : (run step (new "co" : Machine Nat Nat) [.resumeWith 0, .leave (.untilWith 1 5) [],
    .resumeWith 4, .resumeWith 5, .leave (.returns 7) [], .resumeWith 6]).map
      (fun s => (s.state, s.resumed)) = some (.complete 7, 2) := rfl

end Machine

end OpenCoroutine
