import OpenCoroutine.Finding
import OpenCoroutine.NoneLost
import OpenCoroutine.ReleaseOrder

/-! A scheduler gives up before its deadline only where there is nothing to do: no coroutine is
ready on any of the queues, and none of its own sleepers was due when the call last read the
clock. The time it says is left counts from that reading. -/

namespace OpenCoroutine

open Function Transition

/-- No timer of the scheduler is due at `time`. -/
structure SchedulerImpl.Sleeps {n : Nat} (sched : SchedulerImpl n) (time : Nat) : Prop where
  suspend : ∀ e ∈ sched.suspend.entries, time < e.1
  syscallSuspend : ∀ e ∈ sched.syscallSuspend.entries, time < e.1

theorem SchedulerImpl.Sleeps.mono {n : Nat} {sched : SchedulerImpl n} {time time' : Nat}
    (h : sched.Sleeps time') (hle : time ≤ time') : sched.Sleeps time :=
  ⟨fun e he => hle.trans_lt (h.suspend e he), fun e he => hle.trans_lt (h.syscallSuspend e he)⟩

namespace View

variable {n : Nat} {now : Nat → Nat}

theorem checkReady_sleeps (hmono : Monotone now) {v v' : View n}
    (h : v.checkReady now = (none, v')) : v'.sched.Sleeps (now v.readings) := by
  rw [checkReady] at h
  split at h
  · rename_i mid hmid
    have hlater : v.readings ≤ mid.readings := by
      obtain ⟨cos, hpush⟩ := wakeSuspended_pushes now v.sched.suspend.entryLen v
      rw [hmid] at hpush
      exact hpush.later
    have hsuspend : v'.sched.suspend = mid.sched.suspend := by
      have hsame := wakeTimedOut_suspend now mid.sched.syscallSuspend.entryLen mid
      rwa [h] at hsame
    refine ⟨fun e he => ?_, fun e he => ?_⟩
    · rw [hsuspend] at he
      exact wakeSuspended_later hmono rfl hmid e he
    · exact (hmono hlater).trans_lt (wakeTimedOut_later hmono rfl h e he)
  · cases h

theorem tryResume_sleeps {v : View n} {time : Nat} (h : v.sched.Sleeps time) (coName : String) :
    (v.tryResume coName).2.sched.Sleeps time := by
  rw [tryResume]
  split
  · exact h
  · split
    · split <;> exact ⟨h.suspend, h.syscallSuspend⟩
    · exact ⟨h.suspend, h.syscallSuspend⟩

theorem submit_sleeps {v : View n} {time : Nat} (h : v.sched.Sleeps time) (uuid : String) :
    (v.submit now uuid).2.sched.Sleeps time := by
  rw [submit]
  split <;> exact h

end View

/-- What a call that has gone so far has found out. -/
def Phase.Tends {θ : Type*} {n : Nat} (now : Nat → Nat) (sched : SchedulerImpl n)
    (readings : Nat) : Phase θ → Prop
  | .checking _ timeoutTime leftTime => 0 < leftTime ∧ timeoutTime - leftTime ≤ now readings
  | .popping _ timeoutTime leftTime =>
    0 < leftTime ∧ timeoutTime - leftTime ≤ now readings ∧ sched.Sleeps (timeoutTime - leftTime)
  | _ => True

theorem Phase.Tends.later {θ : Type*} {n : Nat} {now : Nat → Nat} (hmono : Monotone now)
    {phase : Phase θ} {sched sched' : SchedulerImpl n} {readings readings' : Nat}
    (h : phase.Tends now sched readings) (hr : readings ≤ readings')
    (hsched : ∀ time, sched.Sleeps time → sched'.Sleeps time) :
    phase.Tends now sched' readings' := by
  cases phase with
  | checking t timeoutTime leftTime => exact ⟨h.1, h.2.trans (hmono hr)⟩
  | popping t timeoutTime leftTime => exact ⟨h.1, h.2.1.trans (hmono hr), hsched _ h.2.2⟩
  | idle | top | resuming | returned => trivial

namespace World

variable {ι θ : Type*} {n : Nat} {now : Nat → Nat}

structure Tidy (s : World ι θ n) : Prop where
  wf : s.queue.WellFormed
  alike : s.queue.Alike
  unlocked : ∀ i, (s.sched i).ready.stealing = false

def Tends (now : Nat → Nat) (s : World ι θ n) : Prop :=
  ∀ i, (s.phase i).Tends now (s.sched i) s.readings

variable [DecidableEq ι] [DecidableEq θ]

theorem Tidy.step {s s' : World ι θ n} (h : s.Tidy) {a : Act ι θ}
    (hs : s.step now a = some s') : s'.Tidy := by
  cases step_touches hs with
  | rests hq hsched => exact ⟨hq ▸ h.wf, hq ▸ h.alike, hsched ▸ h.unlocked⟩
  | operates i v hv hq hsched =>
    obtain ⟨cos, hpush⟩ := hv.pushes
    have hqueue : v.queue.WellFormed ∧ v.queue.Alike :=
      hpush.keeps (p := fun q => q.WellFormed ∧ q.Alike)
        (fun q co hq => ⟨((s.view i).sched.ready.pushBack_gets q co).wf hq.1,
          hq.2.of_capacities ((s.view i).sched.ready.capacities_pushBack q co)⟩) ⟨h.wf, h.alike⟩
    refine ⟨hq ▸ hqueue.1, hq ▸ hqueue.2, fun j => ?_⟩
    rw [hsched]
    by_cases hj : j = i
    · subst hj
      rw [update_self, hpush.ready]
      exact h.unlocked j
    · rw [update_of_ne hj]
      exact h.unlocked j
  | pops i hq hsched =>
    refine ⟨hq ▸ ((s.sched i).ready.popFront_gives s.queue).wf h.wf,
      hq ▸ h.alike.of_capacities ((s.sched i).ready.capacities_popFront s.queue), fun j => ?_⟩
    rw [hsched]
    by_cases hj : j = i
    · subst hj
      rw [update_self]
      exact (s.sched j).ready.popFront_stealing (h.unlocked j) s.queue
    · rw [update_of_ne hj]
      exact h.unlocked j

omit [DecidableEq θ] in
/-- A step of scheduler `i` leaves the other ones where they are. -/
theorem Tends.set (hmono : Monotone now) {s s' : World ι θ n} (h : s.Tends now) (i : ι)
    {phase : Phase θ} (hphase : s'.phase = update s.phase i phase)
    (hsched : ∀ j, j ≠ i → s'.sched j = s.sched j) (hr : s.readings ≤ s'.readings)
    (hi : phase.Tends now (s'.sched i) s'.readings) : s'.Tends now := by
  intro j
  rw [hphase]
  by_cases hj : j = i
  · subst hj
    rw [update_self]
    exact hi
  · rw [update_of_ne hj, hsched j hj]
    exact (h j).later hmono hr fun _ hs => hs

omit [DecidableEq θ] in
theorem stop_rests (s : World ι θ n) (i : ι) (stop : Stop) :
    (s.stop i stop).phase = update s.phase i .idle ∧
      ((s.stop i stop).returns = s.returns ∨ ∃ e, (s.stop i stop).returns = .error e :: s.returns) := by
  cases stop with
  | err e => exact ⟨rfl, .inr ⟨e, rfl⟩⟩
  | unreachable message => exact ⟨rfl, .inl rfl⟩

variable (now) in
theorem enter_rests (s : World ι θ n) (i : ι) (t : θ) (timeoutTime : Nat) (co : Co) :
    (∃ phase : Phase θ, (s.enter now i t timeoutTime co).phase = update s.phase i phase ∧
        ∀ sched : SchedulerImpl n, ∀ readings, phase.Tends now sched readings) ∧
      (s.enter now i t timeoutTime co).returns = s.returns := by
  unfold World.enter
  split
  · exact ⟨⟨_, rfl, fun _ _ => trivial⟩, rfl⟩
  · split
    · exact ⟨⟨_, rfl, fun _ _ => trivial⟩, rfl⟩
    · exact ⟨⟨_, rfl, fun _ _ => trivial⟩, rfl⟩

omit [DecidableEq ι] [DecidableEq θ] in
theorem finish_rests (s : World ι θ n) (co : Co) (result : CoroutineState Unit Unit) :
    (s.finish co result).phase = s.phase ∧ (s.finish co result).returns = s.returns := by
  unfold World.finish
  split <;> exact ⟨rfl, rfl⟩

theorem step_readings {s s' : World ι θ n} {a : Act ι θ} (hs : s.step now a = some s') :
    s.readings ≤ s'.readings := by
  cases step_touches hs with
  | rests hq hsched hr => exact hr
  | operates j v hv hq hsched hr =>
    obtain ⟨cos, hpush⟩ := hv.pushes
    exact hr ▸ hpush.later
  | pops j hq hsched hr => exact hr

theorem Tends.turn (hmono : Monotone now) {s s' : World ι θ n} (h : s.Tends now) {i : ι}
    (hs : s.turn now i = some s') : s'.Tends now := by
  have hlater : s.readings ≤ s'.readings := step_readings (a := .turn i) hs
  cases turns hs with
  | timedOut hp => exact h.set hmono i rfl (fun _ _ => rfl) hlater trivial
  | @check t timeoutTime hp hleft =>
    have hle : now s.readings ≤ now (s.readings + 1) := hmono (Nat.le_succ _)
    have hback : timeoutTime - (timeoutTime - now s.readings) ≤ now s.readings := by omega
    exact h.set hmono i rfl (fun _ _ => rfl) hlater ⟨Nat.pos_of_ne_zero hleft, hback.trans hle⟩
  | @checked t timeoutTime leftTime v hp hv =>
    have hi := h i
    rw [hp] at hi
    refine h.set hmono i rfl (fun j hj => setView_sched_ne _ hj _) hlater
      ⟨hi.1, hi.2.trans (hmono hlater), ?_⟩
    show ((s.setView i v).sched i).Sleeps _
    rw [setView_sched]
    exact (View.checkReady_sleeps hmono hv).mono hi.2
  | @checkStops t timeoutTime leftTime stop v hp hv | @placeStops t timeoutTime co result stop v hp hv =>
    have hsched := ((s.setView i v).stop_containers i stop).2.1
    refine h.set hmono i ((s.setView i v).stop_rests i stop).1 (fun j hj => ?_) hlater trivial
    rw [hsched]
    exact setView_sched_ne _ hj _
  | @popsNone t timeoutTime leftTime ready queue hp hq =>
    exact h.set hmono i rfl (fun j hj => setView_sched_ne _ hj _) hlater trivial
  | @pops t timeoutTime leftTime co ready queue hp hq =>
    obtain ⟨⟨phase, hphase, htrivial⟩, -⟩ := enter_rests now (s.setView i { s.view i with
      queue, sched := { s.sched i with ready } }) i t timeoutTime co
    have hsched := (enter_containers now (s.setView i { s.view i with
      queue, sched := { s.sched i with ready } }) i t timeoutTime co).2.1
    refine h.set hmono i hphase (fun j hj => ?_) hlater (htrivial _ _)
    rw [hsched]
    exact setView_sched_ne _ hj _
  | @fails t timeoutTime co e hp => exact h.set hmono i rfl (fun _ _ => rfl) hlater trivial
  | @places t timeoutTime co result v hp hv =>
    obtain ⟨hphase, -⟩ := (s.setView i v).finish_rests co result
    have hsched := ((s.setView i v).finish_containers co result).2.1
    refine h.set hmono i (congrArg (update · i _) hphase) (fun j hj => ?_) hlater trivial
    show ((s.setView i v).finish co result).sched j = _
    rw [hsched]
    exact setView_sched_ne _ hj _

theorem Tends.step (hmono : Monotone now) {s s' : World ι θ n} (h : s.Tends now) {a : Act ι θ}
    (hs : s.step now a = some s') : s'.Tends now := by
  have hlater := step_readings hs
  cases a with
  | submit i uuid created =>
    cases created with
    | false => exact Option.some.inj hs ▸ h
    | true =>
      rw [step_submit, Option.some.injEq] at hs
      subst hs
      refine h.set hmono i (update_eq_self i s.phase).symm (fun j hj => setView_sched_ne _ hj _)
        hlater ?_
      show (s.phase i).Tends now ((s.setView i _).sched i) _
      rw [setView_sched]
      exact (h i).later hmono hlater fun _ hs => View.submit_sleeps (v := s.view i) hs uuid
  | tryResume i coName =>
    obtain ⟨panics, rfl⟩ := step_tryResume hs
    refine h.set hmono i (update_eq_self i s.phase).symm (fun j hj => setView_sched_ne _ hj _)
      hlater ?_
    show (s.phase i).Tends now ((s.setView i _).sched i) _
    rw [setView_sched]
    exact (h i).later hmono hlater fun _ hs => View.tryResume_sleeps (v := s.view i) hs coName
  | schedule i t timeoutTime =>
    obtain ⟨-, rfl⟩ := step_schedule hs
    exact h.set hmono i rfl (fun _ _ => rfl) hlater trivial
  | turn i => exact h.turn hmono hs
  | call i k =>
    obtain ⟨t, timeoutTime, co, -, rfl⟩ := step_call hs
    exact h.set hmono i rfl (fun _ _ => rfl) hlater trivial
  | leave i o =>
    obtain ⟨t, timeoutTime, co, -, rfl⟩ := step_leave hs
    exact h.set hmono i rfl (fun _ _ => rfl) hlater trivial

theorem single_initial : single.Initial where
  queue := by decide
  suspend _ := rfl
  syscall _ := rfl
  phase _ := rfl
  submitted := rfl
  finished := rfl
  panics := rfl
  returns := rfl

theorem single_tidy : single.Tidy where
  wf := ⟨rfl, fun _ => Nat.zero_le _⟩
  alike _ _ := rfl
  unlocked _ := rfl

/-- The one coroutine delays itself until 130. -/
def asleepActs : List (Act Unit Unit) :=
  [.submit () "a" true, .schedule () () 1000, .turn (), .turn (), .turn (),
    .leave () (.untilWith () 130), .turn (), .turn (), .turn ()]

end World

end OpenCoroutine
