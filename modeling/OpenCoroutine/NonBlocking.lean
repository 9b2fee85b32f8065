import Mathlib.Data.Fintype.Basic
import OpenCoroutine.Transition

/-! Hooked calls of `NioLinuxSyscall` that overlap on one descriptor. Each call runs
`impl_non_blocking!`: it samples the descriptor's `O_NONBLOCK` flag, sets it if it was
clear, runs the loop of its own macro, and clears the flag again if it had set it.
Samples, changes of the flag, inner calls and waits are separate steps. The answers of
the inner calls and of the waits stand in the labels.

The loops of `impl_nio_buf!`, `impl_nio_iovec!` and `impl_nio_msghdr!` go on and leave
by the same tests, so one `Hooked.buf` stands for them. `connect` returns from inside
the macro when its first inner call succeeds. -/

namespace OpenCoroutine

open Transition

namespace NonBlocking

inductive Hooked where
  | nio
  | buf (read : Bool) (length : Nat)
  | connect
  deriving DecidableEq, Repr

def Hooked.more : Hooked → Nat → Bool
  | buf _ length, done => done < length
  | nio, _ | connect, _ => true

inductive Errno where
  | success
  | wouldBlock
  | interrupted
  | inProgress
  | notConn
  | other
  deriving DecidableEq, Repr

/-- What an inner call returns: `r ≠ -1`, or `-1` and the error. -/
inductive Answer where
  | ok (r : Nat)
  | err (errno : Errno)
  deriving DecidableEq, Repr

/-- How a wait ends. For `connect` what follows it up to the next test of `errno` is
part of it: `getsockopt` and `getpeername` settle the call or leave an `errno`. -/
inductive Wake where
  | failed
  | ready
  | settled
  | unsettled (errno : Errno)
  deriving DecidableEq, Repr

inductive Pc where
  | outside
  | isBlocking (hooked : Hooked)
  | setNonBlocking (hooked : Hooked)
  | top (hooked : Hooked) (blocking : Bool) (done : Nat)
  | inner (hooked : Hooked) (blocking : Bool) (done : Nat)
  | waiting (hooked : Hooked) (blocking : Bool) (done : Nat)
  | spinning (blocking : Bool)
  | setBlocking (blocking : Bool)
  | panicked
  deriving DecidableEq, Repr

/-- `nonBlocking` is `none` for a descriptor on which `fcntl` fails. -/
structure State (ι : Type*) where
  nonBlocking : Option Bool
  pc : ι → Pc

inductive Act (ι : Type*) where
  | enter (i : ι) (hooked : Hooked)
  | advance (i : ι)
  | inner (i : ι) (answer : Answer)
  | wake (i : ι) (wake : Wake)

/-- The test of `errno` at the head of `connect`'s loop. -/
def connectErrno (blocking : Bool) : Errno → Pc
  | .inProgress | .notConn => .waiting .connect blocking 0
  | .interrupted => .spinning blocking
  | .success | .wouldBlock | .other => .setBlocking blocking

/-- The test of the error kind at the end of the other loops. -/
def ioErrno (hooked : Hooked) (blocking : Bool) (done : Nat) : Errno → Pc
  | .wouldBlock => .waiting hooked blocking done
  | .interrupted => .top hooked blocking done
  | .success | .inProgress | .notConn | .other => .setBlocking blocking

/-- Where a call goes after an inner call. A transfer that leaves the buffer loop short
comes to the test with `errno` reset. -/
def onAnswer (hooked : Hooked) (blocking : Bool) (done : Nat) (answer : Answer) : Pc :=
  match hooked, answer with
  | .connect, .ok _ => .outside
  | .connect, .err errno => connectErrno blocking errno
  | .nio, .ok _ => .setBlocking blocking
  | .nio, .err errno => ioErrno .nio blocking done errno
  | .buf read length, .ok r =>
    if length ≤ done + r ∨ read = true ∧ r = 0 then .setBlocking blocking
    else ioErrno (.buf read length) blocking (done + r) .success
  | .buf read length, .err errno => ioErrno (.buf read length) blocking done errno

def onWake (hooked : Hooked) (blocking : Bool) (done : Nat) : Wake → Option Pc
  | .failed => some (.setBlocking blocking)
  | .ready => if hooked = .connect then none else some (.top hooked blocking done)
  | .settled => if hooked = .connect then some (.setBlocking blocking) else none
  | .unsettled errno => if hooked = .connect then some (connectErrno blocking errno) else none

variable {ι : Type*} [DecidableEq ι]

def State.goto (s : State ι) (i : ι) (pc : Pc) : State ι :=
  { s with pc := Function.update s.pc i pc }

def advance (s : State ι) (i : ι) : Option (State ι) :=
  match s.pc i with
  | .isBlocking hooked =>
    some (s.goto i (if s.nonBlocking = some true then .top hooked false 0
      else .setNonBlocking hooked))
  | .setNonBlocking hooked =>
    match s.nonBlocking with
    | some _ => some ({ s with nonBlocking := some true }.goto i (.top hooked true 0))
    | none => some (s.goto i .panicked)
  | .top hooked blocking done =>
    some (s.goto i (if hooked.more done then .inner hooked blocking done
      else .setBlocking blocking))
  | .spinning _ => some s
  | .setBlocking true =>
    match s.nonBlocking with
    | some _ => some ({ s with nonBlocking := some false }.goto i .outside)
    | none => some (s.goto i .panicked)
  | .setBlocking false => some (s.goto i .outside)
  | .outside | .inner .. | .waiting .. | .panicked => none

def step (s : State ι) : Act ι → Option (State ι)
  | .enter i hooked =>
    match s.pc i with
    | .outside => some (s.goto i (.isBlocking hooked))
    | _ => none
  | .advance i => advance s i
  | .inner i answer =>
    match s.pc i with
    | .inner hooked blocking done => some (s.goto i (onAnswer hooked blocking done answer))
    | _ => none
  | .wake i wake =>
    match s.pc i with
    | .waiting hooked blocking done => (onWake hooked blocking done wake).map (s.goto i)
    | _ => none

namespace Pc

/-- The call is past its sample and can still come to an inner call without setting
the flag again. -/
def live : Pc → Bool
  | top hooked _ done => hooked.more done
  | inner .. => true
  | waiting hooked _ done => hooked ≠ .connect && hooked.more done
  | _ => false

/-- The call has found the flag clear and has yet to clear it again. -/
def owes : Pc → Bool
  | setNonBlocking _ => true
  | top _ blocking _ | inner _ blocking _ | waiting _ blocking _ | spinning blocking
  | setBlocking blocking => blocking
  | _ => false

def holds (pc : Pc) : Bool :=
  match pc with
  | setNonBlocking _ => false
  | pc => pc.owes

end Pc

/-- No call clears the flag under a call that is still at work, and no `connect` that
has set the flag succeeds at once. -/
def Undisturbed (s : State ι) : Act ι → Prop
  | .advance i => s.pc i = .setBlocking true → ∀ j, (s.pc j).live = false
  | .inner i (.ok _) => ∀ done, s.pc i ≠ .inner .connect true done
  | _ => True

instance [Fintype ι] (s : State ι) : (a : Act ι) → Decidable (Undisturbed s a)
  | .advance i =>
    inferInstanceAs (Decidable (s.pc i = .setBlocking true → ∀ j, (s.pc j).live = false))
  | .inner i (.ok _) =>
    match h : s.pc i with
    | .inner .connect true done => isFalse fun hok => hok done h
    | .inner .nio _ _ | .inner (.buf _ _) _ _ | .inner .connect false _ | .outside
    | .isBlocking _ | .setNonBlocking _ | .top .. | .waiting .. | .spinning _ | .setBlocking _
    | .panicked => isTrue fun done hpc => by rw [h] at hpc; cases hpc
  | .enter .. | .inner _ (.err _) | .wake .. => isTrue trivial

structure Guarded (initial : Option Bool) (s : State ι) : Prop where
  valid : s.nonBlocking.isSome = initial.isSome
  live : ∀ i, (s.pc i).live = true → s.nonBlocking = some true
  held : s.nonBlocking = some true → initial = some true ∨ ∃ i, (s.pc i).holds = true
  clear : s.nonBlocking = some false → initial = some false
  owed : ∀ i, (s.pc i).owes = true → initial ≠ some true

theorem Guarded.owed_goto {initial : Option Bool} {s : State ι} (h : Guarded initial s) {i : ι}
    {pc : Pc} (howes : pc.owes = true → initial ≠ some true) (j : ι)
    (hj : (Function.update s.pc i pc j).owes = true) : initial ≠ some true := by
  by_cases hij : j = i
  · subst hij
    rw [Function.update_self] at hj
    exact howes hj
  · rw [Function.update_of_ne hij] at hj
    exact h.owed j hj

theorem Guarded.goto {initial : Option Bool} {s : State ι} (h : Guarded initial s) {i : ι} {pc : Pc}
    (hlive : pc.live = true → s.nonBlocking = some true)
    (hholds : s.nonBlocking = some true → (s.pc i).holds = true → pc.holds = true)
    (howes : pc.owes = true → initial ≠ some true) : Guarded initial (s.goto i pc) where
  valid := h.valid
  live j hj := by
    by_cases hij : j = i
    · subst hij
      exact hlive (by simpa [State.goto] using hj)
    · exact h.live j (by simpa [State.goto, Function.update_of_ne hij] using hj)
  held hs := by
    rcases h.held hs with hi | ⟨j, hj⟩
    · exact .inl hi
    · refine .inr ⟨j, ?_⟩
      by_cases hij : j = i
      · subst hij
        simpa [State.goto] using hholds hs hj
      · simpa [State.goto, Function.update_of_ne hij] using hj
  clear := h.clear
  owed := h.owed_goto howes

theorem live_connectErrno (blocking : Bool) (errno : Errno) :
    (connectErrno blocking errno).live = false := by
  cases errno <;> rfl

theorem owes_connectErrno (blocking : Bool) (errno : Errno) :
    (connectErrno blocking errno).owes = blocking := by
  cases errno <;> rfl

theorem holds_connectErrno (blocking : Bool) (errno : Errno) :
    (connectErrno blocking errno).holds = blocking := by
  cases errno <;> rfl

theorem owes_ioErrno (hooked : Hooked) (blocking : Bool) (done : Nat) (errno : Errno) :
    (ioErrno hooked blocking done errno).owes = blocking := by
  cases errno <;> rfl

theorem holds_ioErrno (hooked : Hooked) (blocking : Bool) (done : Nat) (errno : Errno) :
    (ioErrno hooked blocking done errno).holds = blocking := by
  cases errno <;> rfl

theorem onAnswer_owes (hooked : Hooked) (blocking : Bool) (done : Nat) (answer : Answer)
    (h : hooked = .connect → ∀ r, answer ≠ .ok r) :
    (onAnswer hooked blocking done answer).owes = blocking ∧
      (onAnswer hooked blocking done answer).holds = blocking := by
  cases hooked with
  | nio =>
    cases answer with
    | ok r => exact ⟨rfl, rfl⟩
    | err errno => exact ⟨owes_ioErrno _ _ _ _, holds_ioErrno _ _ _ _⟩
  | buf read length =>
    cases answer with
    | ok r =>
      simp only [onAnswer]
      split
      · exact ⟨rfl, rfl⟩
      · exact ⟨owes_ioErrno _ _ _ _, holds_ioErrno _ _ _ _⟩
    | err errno => exact ⟨owes_ioErrno _ _ _ _, holds_ioErrno _ _ _ _⟩
  | connect =>
    cases answer with
    | ok r => exact absurd rfl (h rfl r)
    | err errno => exact ⟨owes_connectErrno _ _, holds_connectErrno _ _⟩

theorem onWake_keeps {hooked : Hooked} {blocking : Bool} {done : Nat} {wake : Wake} {pc : Pc}
    (h : onWake hooked blocking done wake = some pc) :
    (pc.live = true → (Pc.waiting hooked blocking done).live = true) ∧
      pc.owes = blocking ∧ pc.holds = blocking := by
  cases wake with
  | failed =>
    simp only [onWake, Option.some.injEq] at h
    subst h
    exact ⟨nofun, rfl, rfl⟩
  | ready =>
    simp only [onWake, Option.ite_none_left_eq_some, Option.some.injEq] at h
    obtain ⟨hne, rfl⟩ := h
    exact ⟨fun hl => by simpa [Pc.live, hne] using hl, rfl, rfl⟩
  | settled =>
    simp only [onWake, Option.ite_none_right_eq_some, Option.some.injEq] at h
    obtain ⟨-, rfl⟩ := h
    exact ⟨nofun, rfl, rfl⟩
  | unsettled errno =>
    simp only [onWake, Option.ite_none_right_eq_some, Option.some.injEq] at h
    obtain ⟨-, rfl⟩ := h
    refine ⟨fun hl => ?_, owes_connectErrno _ _, holds_connectErrno _ _⟩
    rw [live_connectErrno] at hl
    cases hl

omit [DecidableEq ι] in
/-- The flag of a descriptor is set only if it was set at the start or by a call. -/
theorem Guarded.not_set {initial : Option Bool} {s : State ι} (h : Guarded initial s)
    (hn : s.nonBlocking ≠ some true) : initial ≠ some true := by
  rintro rfl
  cases hb : s.nonBlocking with
  | none =>
    have hv := h.valid
    rw [hb] at hv
    cases hv
  | some b =>
    cases b with
    | true => exact hn hb
    | false => cases h.clear hb

theorem Guarded.setNonBlocking {initial : Option Bool} {s : State ι} (h : Guarded initial s)
    {i : ι} {b : Bool} {pc : Pc} (hb : s.nonBlocking = some b) (howe : initial ≠ some true)
    (hpc : pc.holds = true) :
    Guarded initial ({ s with nonBlocking := some true }.goto i pc) where
  valid := by
    rw [← h.valid, hb]
    rfl
  live _ _ := rfl
  held _ := by
    refine .inr ⟨i, ?_⟩
    simpa [State.goto] using hpc
  clear := nofun
  owed := h.owed_goto fun _ => howe

theorem Guarded.setBlocking {initial : Option Bool} {s : State ι} (h : Guarded initial s) {i : ι}
    {b : Bool} (hb : s.nonBlocking = some b) (howe : initial ≠ some true)
    (hquiet : ∀ j, (s.pc j).live = false) :
    Guarded initial ({ s with nonBlocking := some false }.goto i .outside) where
  valid := by
    rw [← h.valid, hb]
    rfl
  live j hj := by
    by_cases hij : j = i
    · subst hij
      simp [State.goto, Pc.live] at hj
    · have hq := hquiet j
      simp [State.goto, Function.update_of_ne hij, hq] at hj
  held := nofun
  clear _ := by
    have hv := h.valid
    rw [hb] at hv
    cases initial with
    | none => cases hv
    | some b =>
      cases b with
      | true => exact absurd rfl howe
      | false => rfl
  owed := h.owed_goto nofun

theorem Guarded.advance {initial : Option Bool} {s t : State ι} (h : Guarded initial s) {i : ι}
    (hok : Undisturbed s (.advance i)) (hs : advance s i = some t) : Guarded initial t := by
  have howed := h.owed i
  have hlive := h.live i
  cases hi : s.pc i with
  | outside | inner _ _ _ | waiting _ _ _ | panicked => simp [NonBlocking.advance, hi] at hs
  | isBlocking hooked =>
    simp only [NonBlocking.advance, hi, Option.some.injEq] at hs
    subst hs
    by_cases hn : s.nonBlocking = some true
    · rw [if_pos hn]
      exact h.goto (fun _ => hn) (by simp [hi, Pc.holds, Pc.owes]) nofun
    · rw [if_neg hn]
      exact h.goto nofun (by simp [hi, Pc.holds, Pc.owes]) fun _ => h.not_set hn
  | setNonBlocking hooked =>
    have howe := howed (by rw [hi]; rfl)
    cases hb : s.nonBlocking with
    | none =>
      simp only [NonBlocking.advance, hi, hb, Option.some.injEq] at hs
      subst hs
      exact h.goto nofun (by simp [hi, Pc.holds]) nofun
    | some b =>
      simp only [NonBlocking.advance, hi, hb, Option.some.injEq] at hs
      subst hs
      exact h.setNonBlocking hb howe rfl
  | top hooked blocking done =>
    simp only [NonBlocking.advance, hi, Option.some.injEq] at hs
    subst hs
    rw [hi] at howed hlive
    by_cases hm : hooked.more done = true
    · rw [if_pos hm]
      exact h.goto (fun _ => hlive hm) (by rw [hi]; exact fun _ hh => hh) howed
    · rw [if_neg hm]
      exact h.goto nofun (by rw [hi]; exact fun _ hh => hh) howed
  | spinning blocking =>
    simp only [NonBlocking.advance, hi, Option.some.injEq] at hs
    exact hs ▸ h
  | setBlocking blocking =>
    cases blocking with
    | false =>
      simp only [NonBlocking.advance, hi, Option.some.injEq] at hs
      subst hs
      exact h.goto nofun (by simp [hi, Pc.holds, Pc.owes]) nofun
    | true =>
      have hquiet := hok hi
      have howe := howed (by rw [hi]; rfl)
      cases hb : s.nonBlocking with
      | none =>
        simp only [NonBlocking.advance, hi, hb, Option.some.injEq] at hs
        subst hs
        exact h.goto nofun (by simp [hb]) nofun
      | some b =>
        simp only [NonBlocking.advance, hi, hb, Option.some.injEq] at hs
        subst hs
        exact h.setBlocking hb howe hquiet

theorem Guarded.step {initial : Option Bool} {s t : State ι} (h : Guarded initial s) {a : Act ι}
    (hok : Undisturbed s a) (hs : step s a = some t) : Guarded initial t := by
  cases a with
  | enter i hooked =>
    cases hi : s.pc i <;>
      simp only [NonBlocking.step, hi, Option.some.injEq, reduceCtorEq] at hs
    subst hs
    exact h.goto nofun (by simp [hi, Pc.holds, Pc.owes]) nofun
  | advance i => exact h.advance hok hs
  | inner i answer =>
    cases hi : s.pc i <;>
      simp only [NonBlocking.step, hi, Option.some.injEq, reduceCtorEq] at hs
    rename_i hooked blocking done
    subst hs
    have hset := h.live i (by rw [hi]; rfl)
    have howed := h.owed i
    rw [hi] at howed
    by_cases hc : hooked = .connect ∧ ∃ r, answer = .ok r
    · obtain ⟨rfl, r, rfl⟩ := hc
      have hb : blocking ≠ true := by
        rintro rfl
        exact hok done hi
      exact h.goto nofun (by simp [hi, Pc.holds, Pc.owes, hb]) nofun
    · have hk := onAnswer_owes hooked blocking done answer fun he r hr => hc ⟨he, r, hr⟩
      refine h.goto (fun _ => hset) (fun _ hh => ?_) fun ho => howed ?_
      · rw [hk.2]
        rwa [hi] at hh
      · rwa [hk.1] at ho
  | wake i wake =>
    cases hi : s.pc i <;>
      simp only [NonBlocking.step, hi, Option.map_eq_some_iff, reduceCtorEq] at hs
    obtain ⟨pc, hpc, rfl⟩ := hs
    obtain ⟨hlive, howes, hholds⟩ := onWake_keeps hpc
    have howed := h.owed i
    have hset := h.live i
    rw [hi] at howed hset
    refine h.goto (fun hl => hset (hlive hl)) (fun _ hh => ?_) fun ho => howed ?_
    · rw [hholds]
      rwa [hi] at hh
    · rwa [howes] at ho

omit [DecidableEq ι] in
theorem Guarded.start {s : State ι} (h : ∀ i, s.pc i = .outside) : Guarded s.nonBlocking s where
  valid := rfl
  live i hi := by simp [h i, Pc.live] at hi
  held := .inl
  clear := id
  owed i hi := by simp [h i, Pc.owes] at hi

/-- Undisturbed, inner calls are made on a non-blocking descriptor, and the flag has its
first value back when all calls have returned. -/
theorem inner_non_blocking {s₀ s : State ι} (h₀ : ∀ i, s₀.pc i = .outside)
    (h : Reaches step Undisturbed s₀ s) :
    (∀ i hooked blocking done, s.pc i = .inner hooked blocking done →
      s.nonBlocking = some true) ∧
      ((∀ i, s.pc i = .outside) → s.nonBlocking = s₀.nonBlocking) := by
  have hg : Guarded s₀.nonBlocking s :=
    h.invariant (.start h₀) fun _ _ _ hi hok hs => hi.step hok hs
  refine ⟨fun i hooked blocking done hi => hg.live i (by rw [hi]; rfl), fun hout => ?_⟩
  have hv := hg.valid
  cases hn : s.nonBlocking with
  | none =>
    rw [hn] at hv
    cases hn₀ : s₀.nonBlocking with
    | none => rfl
    | some b => simp [hn₀] at hv
  | some b =>
    cases b with
    | false => exact (hg.clear hn).symm
    | true =>
      rcases hg.held hn with hi | ⟨i, hi⟩
      · exact hi.symm
      · simp [hout i, Pc.holds, Pc.owes] at hi

def fresh : State (Fin 2) := ⟨some false, fun _ => .outside⟩

/-- A `send` by `j` comes to its inner call while a `recv` by `i` waits. -/
def sendBetween (i j : ι) : List (Act ι) :=
  [.enter i (.buf true 8), .advance i, .advance i, .advance i, .enter j (.buf false 8),
    .inner i (.err .wouldBlock), .advance j, .advance j]

theorem inner_non_blocking_recv :
    ∃ s t : State (Fin 2), s.pc 0 = .waiting (.buf true 8) true 0 ∧
      s.pc 1 = .inner (.buf false 8) false 0 ∧ s.nonBlocking = some true ∧
      t.nonBlocking = some false := by
  obtain ⟨s, t, hs, ht, h0, h1, hout⟩ : ∃ s t : State (Fin 2),
      Reaches step Undisturbed fresh s ∧ Reaches step Undisturbed fresh t ∧
        s.pc 0 = .waiting (.buf true 8) true 0 ∧ s.pc 1 = .inner (.buf false 8) false 0 ∧
        ∀ i, t.pc i = .outside :=
    ⟨_, _, Reaches.of_runGuarded (sendBetween 0 1) rfl,
      Reaches.of_runGuarded (sendBetween 0 1 ++ [.inner 1 (.ok 8), .advance 1, .wake 0 .ready,
        .advance 0, .inner 0 (.ok 8), .advance 0]) rfl, rfl, rfl, by decide⟩
  exact ⟨s, t, h0, h1, (inner_non_blocking (fun _ => rfl) hs).1 1 _ _ _ h1,
    (inner_non_blocking (fun _ => rfl) ht).2 hout⟩

/-- A `recv` sets the flag and waits, a `send` finds it set and waits, and the `recv`
clears it before the `send` calls again. -/
theorem inner_blocking :
    ∃ s : State (Fin 2), Reaches step Free fresh s ∧ s.pc 1 = .inner (.buf false 8) false 0 ∧
      s.nonBlocking = some false :=
  ⟨_, Reaches.of_run [.enter 0 (.buf true 8), .advance 0, .advance 0, .advance 0,
    .inner 0 (.err .wouldBlock), .enter 1 (.buf false 8), .advance 1, .advance 1,
    .inner 1 (.err .wouldBlock), .wake 0 .ready, .advance 0, .inner 0 (.ok 8), .advance 0,
    .wake 1 .ready, .advance 1] rfl (guarded_free _), rfl, rfl⟩

end NonBlocking

end OpenCoroutine
