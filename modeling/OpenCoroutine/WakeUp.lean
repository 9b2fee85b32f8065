import OpenCoroutine.Transition
import OpenCoroutine.WaitResult

/-! One waiting thread and the worker that finishes its task, for any number of tasks
of the name one after the other and any entry of `waits` left over from before.

The wake-up is lost when the worker looks for a waiter after the waiter has missed the
result and before it has registered. -/

namespace OpenCoroutine

open Transition

namespace WaitResult

variable {ι R : Type*}

/-- The worker does not find `waits` empty while a waiter that has missed the result is
about to register. -/
def Seen (s : State ι R) : Act ι R → Prop
  | .work _ => s.worker = .getWaits → s.waits = none → ∀ i, (s.waiter i).missed = false
  | _ => True

structure Initial (s : State ι R) : Prop where
  waiter : ∀ i, s.waiter i = .idle
  worker : s.worker = .idle

/-- The worker has still to wake the threads registered in `waits`, or has done so. -/
def State.Answered (s : State ι R) : Prop :=
  s.worker = .getWaits ∨ s.worker = .panicked ∨
    ∃ arc, s.waits = some arc ∧ (s.worker = .notify arc ∨ s.pending arc = false)

theorem State.Answered.entry {s : State ι R} (h : s.Answered) (hget : s.worker ≠ .getWaits)
    (hpanic : s.worker ≠ .panicked) :
    ∃ arc, s.waits = some arc ∧ (s.worker = .notify arc ∨ s.pending arc = false) := by
  rcases h with hk | hk | hentry
  · exact absurd hk hget
  · exact absurd hk hpanic
  · exact hentry

def Waiter.waits (w : Waiter R) : Bool := w.missed || w.registered.isSome

structure Wakes (s : State ι R) : Prop where
  registered : ∀ i arc, (s.waiter i).registered = some arc → s.waits = some arc
  inserts : ∀ i, s.waiter i = .insertWaits → s.waits = none
  answered : ∀ i, (s.waiter i).waits = true → s.results ≠ none → s.Answered

theorem Initial.wakes {s : State ι R} (h : Initial s) : Wakes s where
  registered i arc hr := by simp [h.waiter i, Waiter.registered] at hr
  inserts i hi := by simp [h.waiter i] at hi
  answered i hw := by simp [h.waiter i, Waiter.waits, Waiter.missed, Waiter.registered] at hw

theorem Wakes.of_worker {s t : State ι R} (h : Wakes s) (hwaits : t.waits = s.waits)
    (hwaiter : t.waiter = s.waiter)
    (hans : ∀ i, (s.waiter i).waits = true → t.results ≠ none → t.Answered) : Wakes t where
  registered i arc hr := by
    rw [hwaiter] at hr
    rw [hwaits]
    exact h.registered i arc hr
  inserts i hi := by
    rw [hwaiter] at hi
    rw [hwaits]
    exact h.inserts i hi
  answered i hi := by
    rw [hwaiter] at hi
    exact hans i hi

theorem Wakes.of_waiter [Subsingleton ι] {s : State ι R} (i : ι)
    (hreg : ∀ arc, (s.waiter i).registered = some arc → s.waits = some arc)
    (hins : s.waiter i = .insertWaits → s.waits = none)
    (hans : (s.waiter i).waits = true → s.results ≠ none → s.Answered) : Wakes s where
  registered j arc hj := by
    obtain rfl := Subsingleton.elim i j
    exact hreg arc hj
  inserts j hj := by
    obtain rfl := Subsingleton.elim i j
    exact hins hj
  answered j hj := by
    obtain rfl := Subsingleton.elim i j
    exact hans hj

/-- `notify` clears the flag of the entry in `waits`, if it is that entry's. -/
theorem Wakes.notify {s : State ι R} (h : Wakes s) {arc : Nat} (hk : s.worker = .notify arc) :
    Wakes { s with pending := Function.update s.pending arc false, worker := .idle } := by
  refine h.of_worker rfl rfl fun i hi hne => ?_
  obtain ⟨arc', hw, hp⟩ := (h.answered i hi hne).entry (by simp [hk]) (by simp [hk])
  refine .inr (.inr ⟨arc', hw, .inr ?_⟩)
  by_cases he : arc' = arc
  · simp [he]
  · rcases hp with hk' | hp
    · rw [hk, Worker.notify.injEq] at hk'
      exact absurd hk'.symm he
    · simpa [Function.update_of_ne he] using hp

variable [DecidableEq ι] [Subsingleton ι]

theorem Wakes.rest (s : State ι R) (i : ι) {w : Waiter R} (hw : w.waits = false) :
    Wakes (s.goto i w) := by
  have hmissed : w.missed = false := by
    cases w <;> simp_all [Waiter.waits, Waiter.missed]
  refine Wakes.of_waiter i (fun arc hr => ?_) (fun hi => ?_) (fun ha => ?_)
  · rw [State.goto_self] at hr
    simp [Waiter.waits, hr] at hw
  · rw [State.goto_self] at hi
    simp [hi, Waiter.missed] at hmissed
  · rw [State.goto_self, hw] at ha
    cases ha

theorem Wakes.lock {s : State ι R} {i : ι} {arc : Nat} {w : Waiter R}
    (hw : w.registered = some arc) (hwaits : s.waits = some arc)
    (hans : s.results ≠ none → s.Answered) : Wakes (s.goto i w) := by
  refine Wakes.of_waiter i (fun arc' hr => ?_) (fun hi => ?_) (fun _ => hans)
  · rw [State.goto_self, hw] at hr
    exact hr ▸ hwaits
  · rw [State.goto_self] at hi
    simp [hi, Waiter.registered] at hw

theorem Wakes.advance {s t : State ι R} (h : Wakes s) {i : ι} (hs : Advances s i t) :
    Wakes t := by
  have hreg := h.registered i
  have hans := h.answered i
  cases hs with
  | takes | forgets | takesAgain | timesOut => exact Wakes.rest _ i rfl
  | misses hi hr =>
    refine Wakes.of_waiter i (fun arc hreg => ?_) (fun hi => ?_) (fun _ hne => absurd hr hne)
    · rw [State.goto_self] at hreg
      cases hreg
    · rw [State.goto_self] at hi
      cases hi
  | @finds arc hi hw =>
    have ha : s.results ≠ none → s.Answered := hans (by rw [hi]; rfl)
    exact Wakes.lock rfl hw ha
  | findsNone hi hw =>
    have ha : s.results ≠ none → s.Answered := hans (by rw [hi]; rfl)
    refine Wakes.of_waiter i (fun arc hreg => ?_) (fun _ => hw) (fun _ => ha)
    rw [State.goto_self] at hreg
    cases hreg
  | inserts hi =>
    have hw := h.inserts i hi
    have ha : s.results ≠ none → s.Answered := hans (by rw [hi]; rfl)
    rw [hw, Option.isNone_none, if_pos rfl]
    refine Wakes.lock rfl rfl fun hne => ?_
    rcases ha hne with hk | hk | ⟨arc, harc, -⟩
    · exact .inl hk
    · exact .inr (.inl hk)
    · rw [hw] at harc
      cases harc
  | @locks arc hi =>
    have hw := hreg arc (by rw [hi]; rfl)
    have ha : s.results ≠ none → s.Answered := hans (by rw [hi]; rfl)
    by_cases hp : s.pending arc = true
    · rw [if_pos hp]
      exact Wakes.lock rfl hw ha
    · rw [if_neg hp]
      exact Wakes.rest _ i rfl
  | removes hi => exact Wakes.rest _ i (by split <;> rfl)

theorem Wakes.work {s t : State ι R} (h : Wakes s)
    (hok : s.worker = .getWaits → s.waits = none → ∀ i, (s.waiter i).missed = false)
    (hs : Works s t) : Wakes t := by
  cases hs with
  | @inserts r hk =>
    refine h.of_worker rfl rfl fun _ _ _ => ?_
    by_cases hr : s.results.isNone
    · exact .inl (if_pos hr)
    · exact .inr (.inl (if_neg hr))
  | @finds arc hk hw => exact h.of_worker rfl rfl fun _ _ _ => .inr (.inr ⟨arc, hw, .inl rfl⟩)
  | findsNone hk hw =>
    refine h.of_worker rfl rfl fun i hi _ => ?_
    cases hr : (s.waiter i).registered with
    | some arc =>
      have harc := h.registered i arc hr
      rw [hw] at harc
      cases harc
    | none => simp [Waiter.waits, hok hk hw i, hr] at hi
  | @wakes arc i hk hi =>
    have hset := h.notify hk
    refine Wakes.lock rfl (hset.registered i arc (by simp [hi, Waiter.registered])) ?_
    exact hset.answered i (by simp [hi, Waiter.waits, Waiter.registered])
  | wakesNone hk hi => exact h.notify hk

variable [Fintype ι]

theorem Wakes.step {s t : State ι R} (h : Wakes s) {a : Act ι R} (hok : Seen s a)
    (hs : step s a = some t) : Wakes t := by
  cases a with
  | call i =>
    obtain ⟨-, rfl⟩ := step_call hs
    exact Wakes.rest s i rfl
  | advance i => exact h.advance (advances hs)
  | wake i =>
    obtain ⟨arc, hi, rfl⟩ := step_wake hs
    exact Wakes.lock rfl (h.registered i arc (by rw [hi]; rfl)) (h.answered i (by rw [hi]; rfl))
  | timeout i =>
    obtain ⟨arc, -, rfl⟩ := step_timeout hs
    exact Wakes.rest s i rfl
  | run r =>
    obtain ⟨hk, rfl⟩ := step_run hs
    refine h.of_worker rfl rfl fun i hi hne => ?_
    obtain ⟨arc, hw, hp⟩ := (h.answered i hi hne).entry (by simp [hk]) (by simp [hk])
    rw [hk] at hp
    exact .inr (.inr ⟨arc, hw, .inr (by simpa using hp)⟩)
  | work woken => exact h.work hok (works hs)

/-- Once `try_run` has finished, the waiter is not blocked on a pending flag while its
result is there. -/
theorem waiter_woken {s₀ s : State ι R} (h₀ : Initial s₀) (h : Reaches step Seen s₀ s)
    (hfinished : s.worker = .idle) (i : ι) (arc : Nat) :
    ¬ (s.waiter i = .blocked arc ∧ s.pending arc = true ∧ s.results ≠ none) := by
  rintro ⟨hblocked, hpending, hne⟩
  have hw : Wakes s := h.invariant h₀.wakes fun _ _ _ hi hok hs => hi.step hok hs
  have hreg : s.waits = some arc := hw.registered i arc (by rw [hblocked]; rfl)
  obtain ⟨arc', harc, hk | hp⟩ := (hw.answered i (by rw [hblocked]; rfl) hne).entry
    (by simp [hfinished]) (by simp [hfinished])
  · rw [hfinished] at hk
    cases hk
  · rw [hreg, Option.some.injEq] at harc
    rw [← harc, hpending] at hp
    cases hp

def unused : State Unit Nat := ⟨none, none, fun _ => false, 0, fun _ => .idle, .idle⟩

theorem waiter_woken_notified :
    ∃ s : State Unit Nat, s.results = some 7 ∧
      ¬ (s.waiter () = .blocked 0 ∧ s.pending 0 = true ∧ s.results ≠ none) := by
  have h : Reaches step Seen unused _ :=
    (((((((((Reaches.start.next (a := .call ()) trivial rfl).next
      (a := .advance ()) trivial rfl).next (a := .advance ()) trivial rfl).next
      (a := .advance ()) trivial rfl).next (a := .advance ()) trivial rfl).next
      (a := .run 7) trivial rfl).next (a := .work none) nofun rfl).next
      (a := .work none) nofun rfl).next (a := .work (some ())) nofun rfl)
  exact ⟨_, rfl, waiter_woken ⟨fun _ => rfl, rfl⟩ h rfl () 0⟩

/-- The worker looks for a waiter between the waiter's two map operations. -/
theorem waiter_lost :
    ∃ s : State Unit Nat, Reaches step Free unused s ∧ s.worker = .idle ∧
      s.waiter () = .blocked 0 ∧ s.pending 0 = true ∧ s.results = some 7 :=
  ⟨_, Reaches.of_run [.call (), .advance (), .run 7, .work none, .work none, .advance (),
    .advance (), .advance ()] rfl (guarded_free _), rfl, rfl, rfl, rfl⟩

end WaitResult

end OpenCoroutine
