import OpenCoroutine.Threads

/-! Which timestamp `resume_with` records for a yield. The timestamp travels over the
thread-local `TIMESTAMP`, which is pushed by every delayed yield and popped only for a
coroutine that yields in state `Running`. `DelaysRunning` is the discipline under which
the two match: `until` and `delay` are called in state `Running` only. -/

namespace OpenCoroutine

open Transition

variable {θ κ Y R : Type*}

namespace CoroutineImpl

variable [ToString Y] [ToString R]

theorem leave_suspend {c c' : CoroutineImpl Y R} {l l' : Locals κ}
    {o : Leave Y R} {y : Y} {timestamp : Nat}
    (h : c.leave l o = (.ok (.suspend y timestamp), c', l')) :
    c.state = .running ∧
      (o = .suspendWith y ∧ timestamp = l.timestamp.headD 0 ∧
          l'.timestamp = l.timestamp.tail ∨
        o = .untilWith y timestamp ∧ l'.timestamp = l.timestamp) := by
  cases o with
  | suspendWith arg =>
    simp only [leave, Leave.onBody, resumeExit, Locals.popTimestamp, CoroutineImpl.suspend] at h
    split at h
    · rename_i hs
      simp only [hs, Prod.mk.injEq, Except.ok.injEq, CoroutineState.suspend.injEq] at h
      obtain ⟨⟨rfl, rfl⟩, rfl, rfl⟩ := h
      exact ⟨hs, .inl ⟨rfl, rfl, rfl⟩⟩
    · simp at h
    · simp at h
  | untilWith arg ts =>
    simp only [leave, Leave.onBody, resumeExit, Locals.popTimestamp, CoroutineImpl.suspend] at h
    split at h
    · rename_i hs
      simp only [hs, Prod.mk.injEq, Except.ok.injEq, CoroutineState.suspend.injEq] at h
      obtain ⟨⟨rfl, rfl⟩, rfl, rfl⟩ := h
      exact ⟨hs, .inr ⟨rfl, rfl⟩⟩
    · simp at h
    · simp at h
  | returns val =>
    simp only [leave, Leave.onBody, resumeExit] at h
    split at h <;> simp at h
  | panics message =>
    simp only [leave, Leave.onBody, resumeExit] at h
    split at h <;> simp at h
  | traps =>
    simp only [leave, Leave.onBody, resumeExit] at h
    split at h <;> simp at h

theorem leave_timestamp_nil {c : CoroutineImpl Y R} {l : Locals κ} {o : Leave Y R}
    (hl : l.timestamp = []) (ho : o.IsDelayed → c.state = .running) :
    (c.leave l o).2.2.timestamp = [] := by
  cases o with
  | suspendWith arg =>
    simp only [leave, Leave.onBody, resumeExit, Locals.popTimestamp]
    split
    · split <;> simp [hl]
    · simp [hl]
    · simp [hl]
  | untilWith arg ts =>
    have hs := ho trivial
    simp [leave, Leave.onBody, resumeExit, Locals.popTimestamp, CoroutineImpl.suspend, hs, hl]
  | returns val =>
    simp only [leave, Leave.onBody, resumeExit]
    split <;> simp [hl]
  | panics message =>
    simp only [leave, Leave.onBody, resumeExit]
    split <;> simp [hl]
  | traps =>
    simp only [leave, Leave.onBody, resumeExit]
    split <;> simp [hl]

end CoroutineImpl

namespace Threads

variable [DecidableEq θ]

def NoTimestamp (m : Threads θ κ Y R) : Prop := ∀ t, (m.locals t).timestamp = []

theorem NoTimestamp.update {m : Threads θ κ Y R} (h : m.NoTimestamp) {t : θ} {l : Locals κ}
    (hl : l.timestamp = []) (t' : θ) : (Function.update m.locals t l t').timestamp = [] := by
  by_cases he : t' = t
  · subst he; simpa using hl
  · simpa [Function.update_of_ne he] using h t'

variable [ToString Y] [ToString R] [DecidableEq κ]

def DelaysRunning (m : Threads θ κ Y R) : Act θ κ Y R → Prop
  | .leave t o => o.IsDelayed → m.stateOn t = some .running
  | _ => True

theorem NoTimestamp.resume {m m' : Threads θ κ Y R} (h : m.NoTimestamp) {t : θ} {p : κ} {now : Nat}
    (hs : m.resume t p now = some m') : m'.NoTimestamp := by
  have hl := (m.co p).resumeEnter_timestamp p (m.locals t) now
  rw [h t] at hl
  unfold Threads.resume at hs
  split at hs
  · cases hs
  · split at hs
    · rename_i he
      simp only [he] at hl
      cases hs
      exact h.update hl
    · rename_i he
      simp only [he] at hl
      split at hs <;> cases hs
      · exact h.update (h t)
      · exact h.update hl

theorem leave_eq {m m' : Threads θ κ Y R} {t : θ} {o : Leave Y R}
    {r : Except IoError (CoroutineState Y R)} (h : m.leave t o = some (r, m')) :
    ∃ p rest, m.active t = p :: rest ∧ r = ((m.co p).leave (m.locals t) o).1 ∧
      m'.co = Function.update m.co p ((m.co p).leave (m.locals t) o).2.1 ∧
      m'.locals = Function.update m.locals t ((m.co p).leave (m.locals t) o).2.2 ∧
      m'.active = Function.update m.active t rest := by
  unfold Threads.leave at h
  split at h
  · cases h
  · rename_i p rest ha
    simp only [Option.some.injEq, Prod.mk.injEq] at h
    obtain ⟨rfl, rfl⟩ := h
    exact ⟨p, rest, ha, rfl, rfl, rfl, rfl⟩

theorem NoTimestamp.leave {m m' : Threads θ κ Y R} (h : m.NoTimestamp) {t : θ} {o : Leave Y R}
    {r : Except IoError (CoroutineState Y R)} (ho : m.DelaysRunning (.leave t o))
    (hs : m.leave t o = some (r, m')) : m'.NoTimestamp := by
  obtain ⟨p, rest, ha, -, -, hl, -⟩ := leave_eq hs
  have hrun : o.IsDelayed → (m.co p).state = .running := by
    intro hd
    simpa [stateOn, ha] using ho hd
  intro t'
  rw [hl]
  exact h.update (CoroutineImpl.leave_timestamp_nil (h t) hrun) t'

theorem NoTimestamp.step {m m' : Threads θ κ Y R} (h : m.NoTimestamp) {a : Act θ κ Y R}
    (ha : m.DelaysRunning a) (hs : m.step a = some m') : m'.NoTimestamp := by
  cases a with
  | resume t p now => exact h.resume hs
  | call t k =>
    simp only [Threads.step, Threads.call] at hs
    split at hs <;> cases hs
    exact h
  | leave t o =>
    simp only [Threads.step, Option.map_eq_some_iff, Prod.exists, exists_eq_right] at hs
    obtain ⟨r, hr⟩ := hs
    exact h.leave ha hr

/-- As long as every delayed yield is made in state `Running`, no timestamp outlives
its yield, and what `resume_with` records is the deadline of the yield it returns from. -/
theorem recorded_deadline {m₀ m m' : Threads θ κ Y R} (h₀ : m₀.NoTimestamp)
    (h : Reaches Threads.step DelaysRunning m₀ m) {t : θ} {o : Leave Y R} {y : Y} {timestamp : Nat}
    (ho : m.DelaysRunning (.leave t o))
    (hs : m.leave t o = some (.ok (.suspend y timestamp), m')) :
    timestamp = o.deadline ∧ m.NoTimestamp ∧ m'.NoTimestamp := by
  have hm : m.NoTimestamp := h.invariant h₀ fun _ _ _ hi ha hst => hi.step ha hst
  refine ⟨?_, hm, hm.leave ho hs⟩
  obtain ⟨p, rest, -, hr, -⟩ := leave_eq hs
  have hl : (m.co p).leave (m.locals t) o =
      (.ok (.suspend y timestamp), ((m.co p).leave (m.locals t) o).2) := by
    rw [hr]
  obtain ⟨-, ⟨rfl, rfl, -⟩ | ⟨rfl, -⟩⟩ := CoroutineImpl.leave_suspend hl
  · simp [hm t, Leave.deadline]
  · rfl

/-- Coroutine 0 delays until 100, and coroutine 1 suspends on the same thread. -/
theorem recorded_deadline_until :
    ∃ m m' : Threads Unit (Fin 2) Unit Unit, (m.co 0).state = .suspend () 100 ∧
      m.leave () (.suspendWith ()) = some (.ok (.suspend () 0), m') ∧
      0 = (Leave.suspendWith () : Leave Unit Unit).deadline ∧ m'.NoTimestamp := by
  have h₀ : NoTimestamp (fresh fun _ => "co" : Threads Unit (Fin 2) Unit Unit) := fun _ => rfl
  obtain ⟨m, m', h, hco, hl⟩ : ∃ m m' : Threads Unit (Fin 2) Unit Unit,
      Reaches Threads.step DelaysRunning (fresh fun _ => "co") m ∧
        (m.co 0).state = .suspend () 100 ∧
        m.leave () (.suspendWith ()) = some (.ok (.suspend () 0), m') :=
    ⟨_, _, ((Reaches.start.next (a := .resume () 0 0) trivial rfl).next
      (a := .leave () (.untilWith () 100)) (fun _ => rfl) rfl).next
        (a := .resume () 1 1) trivial rfl, rfl, rfl⟩
  have hplain : m.DelaysRunning (.leave () (.suspendWith ())) := fun hd => hd.elim
  obtain ⟨hdeadline, -, hm'⟩ := recorded_deadline h₀ h hplain hl
  exact ⟨m, m', hco, hl, hdeadline, hm'⟩

/-- What `wait_just` does: coroutine 0 delays in a `SystemCall` state, so its timestamp
stays behind, and coroutine 1 is given it for a plain suspend. -/
theorem syscall_delay_leaks :
    ∃ m m' : Threads Unit (Fin 2) Unit Unit,
      Reaches Threads.step Free (fresh fun _ => "co") m ∧
      m.leave () (.suspendWith ()) = some (.ok (.suspend () 100), m') :=
  ⟨_, _, Reaches.of_run
    [.resume () 0 0, .call () (.syscall () .epoll_wait (.suspend 100)),
      .leave () (.untilWith () 100), .resume () 1 1] rfl (guarded_free _), rfl⟩

end Threads

end OpenCoroutine
