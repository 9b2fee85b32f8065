import OpenCoroutine.Distinct

/-! `EventLoopImpl::wait_just` in a coroutine. Where the coroutine delays itself it goes through
a scheduler's syscall table, out of which a timer or an event takes it. What the call is
answered from outside is a `Wait`; its `view` is the event loop's pool as it is when the events
are handed on. In a coroutine `wait_event` is `wait_just`, `NetBlocker::block` is one such call
and `wait_result`, on a loop that is not `Running`, one after another. -/

namespace OpenCoroutine

open Transition

theorem World.live_reaches {ι θ : Type*} {n : Nat} [DecidableEq ι] [DecidableEq θ]
    {now : Nat → Nat} {s₀ s : World ι θ n} (h₀ : s₀.Initial)
    (h : Reaches (step now) Free s₀ s) : s.OfKind liveKinds :=
  h.invariant h₀.live fun _ _ _ hi _ hs => live_step hi hs

namespace WaitJust

/-- How a call ends that does not return: by a panic, or its coroutine is never resumed. -/
inductive Abort where
  | panics (message : String)
  | lost

inductive Wake where
  | timer
  | event
  deriving DecidableEq, Repr

/-- The state in which a coroutine of the syscall table becomes ready. -/
def Wake.wakes : Wake → Co → Except Stop Co
  | .timer, co => View.timeOut co
  | .event, co =>
    match co.state with
    | .systemCall val call _ =>
      match co.syscall val call .computing with
      | (.ok (), co) => .ok co
      | (.error e, _) => .error (.err e)
    | _ => .error (.unreachable "try_resume should never execute to here")

theorem tryResume_wakes {n : Nat} {v : View n} {coName : String} {co : Co} {syscall : SyscallTable}
    (h : v.sched.syscall.extract coName = (some co, syscall)) :
    v.tryResume coName =
      match Wake.event.wakes co with
      | .ok co => (none, (v.setSyscall syscall).pushReady co)
      | .error stop => (some stop, v.setSyscall syscall) := by
  cases hst : co.state with
  | systemCall y call state =>
    simp only [View.tryResume, h, Wake.wakes, hst, CoroutineImpl.syscall_of_systemCall hst]
  | created | ready | running | suspend _ _ | complete _ | error _ =>
    simp only [View.tryResume, h, Wake.wakes, hst]

/-- `now` is the clock at the call and `later` the one when the coroutine is resumed. The events
are the names that `map_name` finds for their keys. -/
structure Wait (n : Nat) where
  suspender : Bool
  locals : Locals String
  now : Nat
  wake : Wake
  later : Nat
  selected : Except IoError (Nat × List (Option String))
  view : View n

def expect (message : String) : Except IoError Unit × Co → Except Abort Co
  | (.ok (), co) => .ok co
  | (.error _, _) => .error (.panics message)

namespace Wait

variable {n : Nat}

/-- `suspender.delay(time)`, from when the coroutine gives control back to when it runs again. -/
def delay (w : Wait n) (co : Co) (time : Nat) : Except Abort Co :=
  match co.leave w.locals (.untilWith () (getTimeoutTime time w.now)) with
  | (.ok (.systemCall _ _ _), co, _) =>
    match w.wake.wakes co with
    | .error _ => .error .lost
    | .ok co =>
      match co.running w.later with
      | (.ok (), co) => .ok co
      | (.error _, _) => .error .lost
  | _ => .error .lost

def delays (w : Wait n) (co : Co) (time : Nat) : Except Abort Co := do
  let syscall ←
    match co.state with
    | .running => .ok .epoll_wait
    | .systemCall () syscall _ => .ok syscall
    | _ => .error (.panics "wait should never execute to here")
  let co ← expect "change to syscall state failed !"
    (co.syscall () syscall (.suspend (getTimeoutTime time w.now)))
  w.delay co time

end Wait

def notify {n : Nat} : List (Option String) → View n → Except Abort (View n)
  | [], v => .ok v
  | none :: events, v => notify events v
  | some coName :: events, v =>
    match v.tryResume coName with
    | (none, v) => notify events v
    | (some (.err _), _) => .error (.panics "has bug, notice !")
    | (some (.unreachable message), _) => .error (.panics message)

def calling (co : Co) : Except Abort Co :=
  match co.state with
  | .systemCall () syscall .computing | .systemCall () syscall .timeout =>
    expect "change to syscall state failed !" (co.syscall () syscall (.calling .epoll_wait))
  | _ => .error (.panics "wait should never execute to here")

def selected (co : Co) : Except Abort Co :=
  match co.state with
  | .systemCall () syscall (.calling _) =>
    expect "change to syscall state failed !" (co.syscall () syscall .computing)
  | _ => .error (.panics "wait should never execute to here")

/-- The part of `wait_just` up to the selection. -/
def Wait.delays? {n : Nat} (w : Wait n) (co : Co) : Option Nat → Except Abort Co
  | some time => if w.suspender then w.delays co time else .ok co
  | none => .ok co

def waitJust {n : Nat} (co : Co) (timeout : Option Nat) (w : Wait n) :
    Except Abort (Co × Except IoError Nat × View n) := do
  let co ← w.delays? co timeout
  let co ← calling co
  let co ← selected co
  match w.selected with
  | .error e => .ok (co, .error e, w.view)
  | .ok (count, events) =>
    if 0 < count then
      let v ← notify events w.view
      .ok (co, .ok count, v)
    else .ok (co, .ok count, w.view)

def once : Nat := 10000000

/-- The loop of `EventLoopImpl::wait_result` over its rounds of at most 10 ms. -/
def waitRounds {m : Type → Type} [Monad m] {σ R : Type}
    (round : Nat → σ → m (Option (Except IoError R) × σ)) (left : Nat) (s : σ) :
    m (Except IoError R × σ) :=
  if left = 0 then pure (.error ⟨.timedOut, "wait timeout"⟩, s)
  else do
    let (answer, s) ← round (min left once) s
    match answer with
    | some answer => pure (answer, s)
    | none => waitRounds round (left - once) s
termination_by left
decreasing_by
  simp only [once]
  omega

/-- A round of a coroutine on a loop that is not `Running`, which does not find the result where
there is `none` for it. -/
def waitRound {n : Nat} {R : Type} (rounds : Nat → Wait n × Option R) (time : Nat) (s : Co × Nat) :
    Except Abort (Option (Except IoError R) × Co × Nat) := do
  let (co, result, _) ← waitJust s.1 (some time) (rounds s.2).1
  match result with
  | .error e => .ok (some (.error e), co, s.2 + 1)
  | .ok _ => .ok ((rounds s.2).2.map .ok, co, s.2 + 1)

def waitResult {n : Nat} {R : Type} (co : Co) (waitTime : Nat)
    (rounds : Nat → Wait n × Option R) : Except Abort (Co × Except IoError R) := do
  let (answer, co, _) ← waitRounds (waitRound rounds) waitTime (co, 0)
  .ok (co, answer)

/-! What a call makes of the state. -/

variable {n : Nat} {co : Co} {call : Syscall} {state : SyscallState}

@[simp] theorem bind_ok {α β : Type} (a : α) (f : α → Except Abort β) :
    (Except.ok a >>= f) = f a := rfl

@[simp] theorem bind_error {α β : Type} (e : Abort) (f : α → Except Abort β) :
    (Except.error e >>= f) = .error e := rfl

def inCall (co : Co) (call : Syscall) (state : SyscallState) : Co :=
  { co with state := .systemCall () call state }

@[simp] theorem inCall_state (co : Co) (call : Syscall) (state : SyscallState) :
    (inCall co call state).state = .systemCall () call state := rfl

theorem syscall_inCall (h : co.state = .systemCall () call state) (state' : SyscallState) :
    co.syscall () call state' = (.ok (), inCall co call state') :=
  CoroutineImpl.syscall_of_systemCall h () state'

theorem syscall_running (h : co.state = .running) (call : Syscall) (state' : SyscallState) :
    co.syscall () call state' = (.ok (), inCall co call state') := by
  simp only [CoroutineImpl.syscall, h, inCall]

theorem Wait.delay_inCall (w : Wait n) (co : Co) (call : Syscall) (timestamp time : Nat) :
    ∃ state, (state = .computing ∨ state = .timeout) ∧
      w.delay (inCall co call (.suspend timestamp)) time = .ok (inCall co call state) := by
  have hleave : ∃ l, (inCall co call (.suspend timestamp)).leave w.locals
      (.untilWith () (getTimeoutTime time w.now)) =
        (.ok (.systemCall () call (.suspend timestamp)), inCall co call (.suspend timestamp), l) :=
    ⟨_, rfl⟩
  obtain ⟨l, hl⟩ := hleave
  unfold delay
  rw [hl]
  cases hw : w.wake with
  | timer =>
    refine ⟨.timeout, .inr rfl, ?_⟩
    simp only [Wake.wakes, View.timeOut, inCall_state, syscall_inCall (inCall_state co call _)]
    rfl
  | event =>
    refine ⟨.computing, .inl rfl, ?_⟩
    simp only [Wake.wakes, inCall_state, syscall_inCall (inCall_state co call _)]
    rfl

/-- A coroutine in a call, or in none, comes back from its delay in the call. -/
theorem Wait.delays_eq (w : Wait n) (time : Nat)
    (h : (∃ state, co.state = .systemCall () call state) ∨
      co.state = .running ∧ call = .epoll_wait) :
    ∃ state, (state = .computing ∨ state = .timeout) ∧
      w.delays co time = .ok (inCall co call state) := by
  obtain ⟨state', hstate, hd⟩ := w.delay_inCall co call (getTimeoutTime time w.now) time
  refine ⟨state', hstate, ?_⟩
  rcases h with ⟨state, h⟩ | ⟨h, rfl⟩
  · simp only [delays, h, bind_ok, syscall_inCall h, expect]
    exact hd
  · simp only [delays, h, bind_ok, syscall_running h, expect]
    exact hd

theorem calling_inCall (h : co.state = .systemCall () call state)
    (hstate : state = .computing ∨ state = .timeout) :
    calling co = .ok (inCall co call (.calling .epoll_wait)) := by
  rcases hstate with rfl | rfl <;> simp only [calling, h, syscall_inCall h, expect]

theorem selected_inCall (co : Co) (call inner : Syscall) :
    selected (inCall co call (.calling inner)) = .ok (inCall co call .computing) := by
  simp only [selected, inCall_state, syscall_inCall (inCall_state co call _), expect]
  rfl

theorem notify_live {v : View n} (h : v.OfKind liveKinds) (events : List (Option String)) :
    ∃ v', notify events v = .ok v' := by
  induction events generalizing v with
  | nil => exact ⟨v, rfl⟩
  | cons event events ih =>
    cases event with
    | none => exact ih h
    | some coName =>
      have hnone := View.tryResume_live h coName
      have hnext := h.tryResume liveKinds_closed coName
      cases hr : v.tryResume coName with
      | mk stop v' =>
        rw [hr] at hnone hnext
        have hstop : stop = none := hnone
        simp only [notify, hr, hstop]
        exact ih hnext

/-- The coroutine is in a system call, and where it does not delay itself it stands where
`wait_just` can go on. -/
def Accepts (co : Co) (timeout : Option Nat) (suspender : Bool) : Prop :=
  ∃ call state, co.state = .systemCall () call state ∧
    (timeout.isSome = true ∧ suspender = true ∨ state = .computing ∨ state = .timeout)

/-- The call returns with the coroutine in the state it has been in, and `resume_with` can
complete a coroutine that was `Running`. -/
def GivesBack {α : Type} (co : Co) (answer : Except Abort (Co × α)) : Prop :=
  ∃ co' result, answer = .ok (co', result) ∧
    (co.state = .running → co'.state = .running ∧ (co'.complete ()).1 = .ok ()) ∧
    ∀ call state, co.state = .systemCall () call state → co'.state = .systemCall () call .computing

inductive Ends {α : Type} (co : Co) (timeout : Option Nat) (suspender : Bool) :
    Except Abort (Co × α) → Prop where
  | panics {message : String} (hnot : ¬ Accepts co timeout suspender) :
      Ends co timeout suspender (.error (.panics message))
  | running {co' : Co} {result : α} (h : co.state = .running)
      (h' : co'.state = .systemCall () .epoll_wait .computing) :
      Ends co timeout suspender (.ok (co', result))
  | inCall {co' : Co} {result : α} {call : Syscall} {state : SyscallState}
      (h : co.state = .systemCall () call state) (haccepts : Accepts co timeout suspender)
      (h' : co'.state = .systemCall () call .computing) :
      Ends co timeout suspender (.ok (co', result))

theorem Ends.gives_iff {α : Type} {timeout : Option Nat} {suspender : Bool}
    {answer : Except Abort (Co × α)} (h : Ends co timeout suspender answer) :
    GivesBack co answer ↔ Accepts co timeout suspender := by
  cases h with
  | panics hnot =>
    refine iff_of_false ?_ hnot
    rintro ⟨co', result, he, -⟩
    cases he
  | running h h' =>
    refine iff_of_false ?_ ?_
    · rintro ⟨co', result, he, hrunning, -⟩
      cases he
      rw [(hrunning h).1] at h'
      cases h'
    · rintro ⟨call, state, hst, -⟩
      rw [h] at hst
      cases hst
  | inCall h haccepts h' =>
    refine iff_of_true ⟨_, _, rfl, fun hr => ?_, fun call state hst => ?_⟩ haccepts
    · rw [h] at hr
      cases hr
    · rw [h] at hst
      cases hst
      exact h'

/-- Once it is past its delay the call comes back in the system call that it is in. -/
theorem waitJust_delayed {timeout : Option Nat} {w : Wait n} {co' : Co}
    (hview : w.view.OfKind liveKinds) (hd : w.delays? co timeout = .ok co')
    (h : co'.state = .systemCall () call state) (hstate : state = .computing ∨ state = .timeout) :
    ∃ result v, waitJust co timeout w = .ok (inCall co' call .computing, result, v) := by
  have hselected : selected (inCall co' call (.calling .epoll_wait)) =
      .ok (inCall co' call .computing) := selected_inCall co' call .epoll_wait
  simp only [waitJust, hd, calling_inCall h hstate, hselected, bind_ok]
  cases hw : w.selected with
  | error e => exact ⟨_, _, rfl⟩
  | ok answer =>
    obtain ⟨count, events⟩ := answer
    obtain ⟨v, hv⟩ := notify_live hview events
    by_cases hcount : 0 < count
    · simp only [hcount, if_true, hv]
      exact ⟨_, _, rfl⟩
    · simp only [hcount, if_false]
      exact ⟨_, _, rfl⟩

theorem delays?_eq (w : Wait n) (co : Co) (timeout : Option Nat) :
    (timeout.isSome = true ∧ w.suspender = true) ∧
        (∃ time, w.delays? co timeout = w.delays co time) ∨
      ¬ (timeout.isSome = true ∧ w.suspender = true) ∧ w.delays? co timeout = .ok co := by
  cases timeout with
  | none => exact .inr ⟨by simp, rfl⟩
  | some time =>
    cases hs : w.suspender with
    | false => exact .inr ⟨by simp, by simp [Wait.delays?, hs]⟩
    | true => exact .inl ⟨by simp, time, by simp [Wait.delays?, hs]⟩

/-- A coroutine that does not delay itself has to stand where the call can go on. -/
theorem waitJust_panics {timeout : Option Nat} {w : Wait n} (hd : w.delays? co timeout = .ok co)
    (h : ∀ call state, co.state = .systemCall () call state →
      state ≠ .computing ∧ state ≠ .timeout) :
    waitJust co timeout w = .error (.panics "wait should never execute to here") := by
  have hcalling : calling co = .error (.panics "wait should never execute to here") := by
    cases hst : co.state with
    | systemCall y call state =>
      obtain ⟨hcomputing, htimeout⟩ := h call state hst
      cases state with
      | computing => exact absurd rfl hcomputing
      | timeout => exact absurd rfl htimeout
      | suspend timestamp | calling inner | finished => simp only [calling, hst]
    | created | ready | running | suspend _ _ | complete _ | error _ => simp only [calling, hst]
  simp only [waitJust, hd, hcalling, bind_ok, bind_error]

theorem waitJust_cases (co : Co) (timeout : Option Nat) {w : Wait n}
    (hview : w.view.OfKind liveKinds) :
    Ends co timeout w.suspender (waitJust co timeout w) := by
  have hstuck : co.state.isSystemCall = false → ¬ Accepts co timeout w.suspender := by
    rintro hno ⟨call, state, hst, -⟩
    rw [hst] at hno
    cases hno
  rcases delays?_eq w co timeout with ⟨hboth, time, hd⟩ | ⟨hno, hd⟩
  · cases hst : co.state with
    | systemCall y call state =>
      obtain ⟨state', hstate', he⟩ := w.delays_eq time (.inl ⟨state, hst⟩)
      obtain ⟨result, v, hr⟩ := waitJust_delayed hview (hd.trans he) rfl hstate'
      rw [hr]
      exact .inCall hst ⟨call, state, hst, .inl hboth⟩ rfl
    | running =>
      obtain ⟨state', hstate', he⟩ := w.delays_eq time (.inr ⟨hst, rfl⟩)
      obtain ⟨result, v, hr⟩ := waitJust_delayed hview (hd.trans he) rfl hstate'
      rw [hr]
      exact .running hst rfl
    | created | ready | suspend _ _ | complete _ | error _ =>
      have hp : waitJust co timeout w = .error (.panics "wait should never execute to here") := by
        simp only [waitJust, hd, Wait.delays, hst, bind_error]
      rw [hp]
      exact .panics (hstuck (by rw [hst]; rfl))
  · by_cases hgo : ∃ call state, co.state = .systemCall () call state ∧
        (state = .computing ∨ state = .timeout)
    · obtain ⟨call, state, hst, hstate⟩ := hgo
      obtain ⟨result, v, hr⟩ := waitJust_delayed hview hd hst hstate
      rw [hr]
      exact .inCall hst ⟨call, state, hst, .inr hstate⟩ rfl
    · rw [waitJust_panics hd fun call state hst => ?_]
      · refine .panics ?_
        rintro ⟨call, state, hst, hboth | hstate⟩
        · exact hno hboth
        · exact hgo ⟨call, state, hst, hstate⟩
      · exact not_or.1 fun hstate => hgo ⟨call, state, hst, hstate⟩

/-! The rounds of `wait_result`. -/

theorem waitRounds_eq {σ R : Type} (round : Nat → σ → Except Abort (Option (Except IoError R) × σ))
    {left : Nat} (hleft : left ≠ 0) (s : σ) :
    waitRounds round left s = (do
      let (answer, s) ← round (min left once) s
      match answer with
      | some answer => .ok (answer, s)
      | none => waitRounds round (left - once) s) := by
  rw [waitRounds, if_neg hleft]
  rfl

/-- Rounds that all return and keep something end with an answer, and with what they keep. -/
theorem waitRounds_keeps {σ R : Type}
    {round : Nat → σ → Except Abort (Option (Except IoError R) × σ)} (inv : σ → Prop)
    (hround : ∀ time s, inv s → ∃ answer s', round time s = .ok (answer, s') ∧ inv s')
    (left : Nat) {s : σ} (h : inv s) :
    ∃ answer s', waitRounds round left s = .ok (answer, s') ∧ inv s' := by
  induction left using Nat.strong_induction_on generalizing s with
  | _ left ih =>
    by_cases hleft : left = 0
    · rw [waitRounds, if_pos hleft]
      exact ⟨_, s, rfl, h⟩
    · obtain ⟨answer, s', hr, hinv⟩ := hround (min left once) s h
      rw [waitRounds_eq round hleft, hr, bind_ok]
      cases answer with
      | some answer => exact ⟨answer, s', rfl, hinv⟩
      | none => exact ih (left - once) (by simp only [once]; omega) hinv

theorem waitRounds_keeps_after {σ R : Type}
    {round : Nat → σ → Except Abort (Option (Except IoError R) × σ)} (inv : σ → Prop)
    (hround : ∀ time s, inv s → ∃ answer s', round time s = .ok (answer, s') ∧ inv s')
    {left : Nat} (hleft : left ≠ 0) {s s' : σ} {answer : Option (Except IoError R)}
    (hfirst : round (min left once) s = .ok (answer, s')) (h : inv s') :
    ∃ answer s', waitRounds round left s = .ok (answer, s') ∧ inv s' := by
  rw [waitRounds_eq round hleft, hfirst, bind_ok]
  cases answer with
  | some answer => exact ⟨answer, s', rfl, h⟩
  | none => exact waitRounds_keeps inv hround (left - once) h

theorem waitRound_eq {R : Type} {rounds : Nat → Wait n × Option R} {time : Nat} {s : Co × Nat}
    {co' : Co} {result : Except IoError Nat × View n}
    (h : waitJust s.1 (some time) (rounds s.2).1 = .ok (co', result)) :
    ∃ answer, waitRound rounds time s = .ok (answer, co', s.2 + 1) := by
  obtain ⟨result, v⟩ := result
  simp only [waitRound, h, bind_ok]
  cases result with
  | error e => exact ⟨_, rfl⟩
  | ok count => exact ⟨_, rfl⟩

theorem waitRound_inCall {R : Type} {rounds : Nat → Wait n × Option R}
    (hview : ∀ k, (rounds k).1.view.OfKind liveKinds) (time : Nat) {s : Co × Nat}
    (h : s.1.state = .systemCall () call .computing) :
    ∃ answer s', waitRound rounds time s = .ok (answer, s') ∧
      s'.1.state = .systemCall () call .computing := by
  have hends := waitJust_cases s.1 (some time) (hview s.2)
  obtain ⟨co', result, he, -, hgives⟩ :=
    hends.gives_iff.2 ⟨call, .computing, h, .inr (.inl rfl)⟩
  obtain ⟨answer, hr⟩ := waitRound_eq he
  exact ⟨answer, _, hr, hgives call .computing h⟩

/-- After a first round in which the coroutine is in a system call it stays in it. -/
theorem waitResult_inCall {R : Type} {waitTime : Nat} (hwait : waitTime ≠ 0)
    {rounds : Nat → Wait n × Option R} (hview : ∀ k, (rounds k).1.view.OfKind liveKinds)
    {co' : Co} {result : Except IoError Nat × View n}
    (h : waitJust co (some (min waitTime once)) (rounds 0).1 = .ok (co', result))
    (h' : co'.state = .systemCall () call .computing) :
    ∃ co'' answer, waitResult co waitTime rounds = .ok (co'', answer) ∧
      co''.state = .systemCall () call .computing := by
  obtain ⟨answer, hr⟩ := waitRound_eq (s := (co, 0)) h
  obtain ⟨answer, s', hrounds, hst⟩ := waitRounds_keeps_after
    (fun s : Co × Nat => s.1.state = .systemCall () call .computing)
    (fun time _ hs => waitRound_inCall hview time hs) hwait hr h'
  refine ⟨s'.1, answer, ?_, hst⟩
  rw [waitResult, hrounds, bind_ok]

theorem waitResult_cases {R : Type} (co : Co) {waitTime : Nat} (hwait : waitTime ≠ 0)
    {rounds : Nat → Wait n × Option R} (hview : ∀ k, (rounds k).1.view.OfKind liveKinds) :
    Ends co (some waitTime) (rounds 0).1.suspender (waitResult co waitTime rounds) := by
  have hends := waitJust_cases co (some (min waitTime once)) (hview 0)
  cases hr : waitJust co (some (min waitTime once)) (rounds 0).1 with
  | error e =>
    rw [hr] at hends
    cases hends with
    | @panics message hnot =>
      have hround : waitRound rounds (min waitTime once) (co, 0) = .error (.panics message) := by
        rw [waitRound, hr, bind_error]
      have hp : waitResult co waitTime rounds = .error (.panics message) := by
        rw [waitResult, waitRounds_eq _ hwait, hround, bind_error, bind_error]
      rw [hp]
      exact .panics hnot
  | ok answer =>
    obtain ⟨co', result⟩ := answer
    rw [hr] at hends
    cases hends with
    | running h h' =>
      obtain ⟨co'', answer, he, hst⟩ := waitResult_inCall hwait hview hr h'
      rw [he]
      exact .running h hst
    | inCall h haccepts h' =>
      obtain ⟨co'', answer, he, hst⟩ := waitResult_inCall hwait hview hr h'
      rw [he]
      exact .inCall h haccepts hst

/-- The view is that of an event loop somewhere in a run of the schedulers. -/
def Wait.Met {ι θ : Type*} [DecidableEq ι] [DecidableEq θ] (now : Nat → Nat) (s₀ : World ι θ n)
    (w : Wait n) : Prop :=
  ∃ s i, Reaches (World.step now) Free s₀ s ∧ w.view = s.view i

theorem Wait.Met.live {ι θ : Type*} [DecidableEq ι] [DecidableEq θ] {now : Nat → Nat}
    {s₀ : World ι θ n} (h₀ : s₀.Initial) {w : Wait n} (h : w.Met now s₀) :
    w.view.OfKind liveKinds := by
  obtain ⟨s, i, hs, he⟩ := h
  rw [he]
  exact (World.live_reaches h₀ hs).view i

/-- A call of `wait_just`, or of `wait_result` with its rounds, gives the coroutine its state
back if and only if it is in a system call and, where it does not delay itself at first, at a
point of the call from where `wait_just` goes on. -/
theorem givesBack_iff {ι θ R : Type} [DecidableEq ι] [DecidableEq θ] {now : Nat → Nat}
    {s₀ : World ι θ n} (h₀ : s₀.Initial) (co : Co) :
    (∀ timeout (w : Wait n), w.Met now s₀ →
        (GivesBack co (waitJust co timeout w) ↔ Accepts co timeout w.suspender)) ∧
      ∀ waitTime (rounds : Nat → Wait n × Option R), waitTime ≠ 0 →
        (∀ k, (rounds k).1.Met now s₀) →
        (GivesBack co (waitResult co waitTime rounds) ↔
          Accepts co (some waitTime) (rounds 0).1.suspender) := by
  constructor
  · intro timeout w hw
    exact (waitJust_cases co timeout (hw.live h₀)).gives_iff
  · intro waitTime rounds hwait hrounds
    exact (waitResult_cases co hwait fun k => (hrounds k).live h₀).gives_iff

/-- A wait on the first event loop of two. Its timer wakes the coroutine, and no event comes. -/
def quiet : Wait 2 where
  suspender := true
  locals := { coroutine := ["a"], suspender := ["a"] }
  now := 0
  wake := .timer
  later := 5
  selected := .ok (0, [])
  view := World.pair.view ⟨0, by decide⟩

theorem quiet_met : quiet.Met id World.pair := ⟨World.pair, 0, .start, rfl⟩

theorem givesBack_sleeping :
    GivesBack { name := "a", state := .systemCall () .nanosleep .computing }
      (waitJust { name := "a", state := .systemCall () .nanosleep .computing } (some 5) quiet) :=
  ((givesBack_iff (R := Unit) World.pair_initial _).1 (some 5) quiet quiet_met).2
    ⟨.nanosleep, .computing, rfl, .inl ⟨rfl, rfl⟩⟩

/-- A coroutine that waits in state `Running` is left in a system call of its own, in which
`resume_with` cannot complete it; without a timeout it panics. -/
theorem running_left_in_call :
    (∃ co result, waitJust { name := "a", state := .running } (some 5) quiet = .ok (co, result) ∧
        co.state = .systemCall () .epoll_wait .computing ∧ (co.complete ()).1 ≠ .ok ()) ∧
      waitJust { name := "a", state := .running } none quiet =
        .error (.panics "wait should never execute to here") ∧
      ¬ GivesBack { name := "a", state := .running }
        (waitJust { name := "a", state := .running } (some 5) quiet) := by
  have hwait : ∃ co result, waitJust { name := "a", state := .running } (some 5) quiet =
      .ok (co, result) ∧ co.state = .systemCall () .epoll_wait .computing := ⟨_, _, rfl, rfl⟩
  obtain ⟨co, result, he, hst⟩ := hwait
  refine ⟨⟨co, result, he, hst, ?_⟩, rfl, ?_⟩
  · simp [CoroutineImpl.complete, hst]
  · rintro ⟨co', result', he', hrunning, -⟩
    rw [he] at he'
    cases he'
    rw [(hrunning rfl).1] at hst
    cases hst

end WaitJust

end OpenCoroutine
