import OpenCoroutine.Lifecycle

/-! The state of a pool from its start to its stop. Nothing but `start` and `stop` changes
it, so the position of the consumer and of a call of `stop` fix it, as long as no call of
`stop` finds the state that an earlier one has left it in. -/

namespace OpenCoroutine

open Function Transition

namespace Pools

variable {ι θ : Type*} {n : Nat} {now : Nat → Nat} [DecidableEq ι] {s s' : Pools ι θ n}

theorem update_state {pools : ι → CoroutinePoolImpl} {p : ι} {pool : CoroutinePoolImpl}
    (h : pool.state = (pools p).state) (q : ι) :
    (update pools p pool q).state = (pools q).state := by
  by_cases hq : q = p
  · rw [hq, update_self, h]
  · rw [update_of_ne hq]

variable [DecidableEq θ]

theorem lift_pool {a : World.Act ι θ} (h : s.lift now a = some s') : s'.pool = s.pool := by
  obtain ⟨world, -, rfl⟩ := lift_eq h
  rfl

theorem grow_state {p : ι} {shouldGrow created grown : Bool} {uuid : String}
    (h : s.grow now p shouldGrow uuid created = some (grown, s')) (q : ι) :
    (s'.pool q).state = (s.pool q).state := by
  cases grows h with
  | stays | fails => rfl
  | grows => exact update_state (by rfl) q

theorem listen_state {t : θ} {co : Co} {result : CoroutineState Unit Unit} {uuid : String}
    {created : Bool} (h : s.listen now t co result uuid created = some s') (q : ι) :
    (s'.pool q).state = (s.pool q).state := by
  cases listens h with
  | passes => rfl
  | grows _ _ hg => exact grow_state hg q
  | errs _ _ hg =>
    rw [grow_state hg q]
    exact update_state (by rfl) q

theorem advance_state {p : ι} (h : s.advance now p = some s') (q : ι) :
    (s'.pool q).state = (s.pool q).state := by
  obtain ⟨world, -, rfl | ⟨t, -, -, rfl⟩⟩ := advance_cases h
  · rfl
  · exact update_state (by rfl) q

theorem work_state {p : ι} {t : θ} {co : Co} {w : WorkerBody ι} (h : s.work now p t co w = some s')
    (q : ι) : (s'.pool q).state = (s.pool q).state := by
  cases works h with
  | noPool | findsNone | clashes => rfl
  | takes | finishes | waits | wakes => exact update_state (by rfl) q
  | recycled _ _ hl =>
    rw [lift_pool hl]
    exact update_state (by rfl) q

variable [Fintype ι]

/-- Only `change_state` changes the state of a pool. -/
theorem step_state {a : Act ι θ} (h : s.step now a = some s') {q : ι}
    (ha : ∀ state, a ≠ .changeState q state) : (s'.pool q).state = (s.pool q).state := by
  cases a with
  | submit p task | tryGetResult p task | setMinSize p minSize | setMaxSize p maxSize
  | setKeepAliveTime p keepAliveTime =>
    rw [← Option.some.inj h]
    exact update_state (by rfl) q
  | tryRun p =>
    obtain rfl | ⟨taskQueue, results, rfl⟩ := step_tryRun h
    · rfl
    · exact update_state (by rfl) q
  | changeState p state =>
    have hq : q ≠ p := fun he => ha state (he ▸ rfl)
    rw [← Option.some.inj h, setPool_ne _ hq]
  | tryResume p coName =>
    rw [lift_pool h]
  | schedule p t timeoutTime uuid created =>
    have hgrown : ∀ {grown s₁}, ((s.setPool p { s.pool p with scheduling := true }).setStack t
        (p :: s.stack t)).grow now p (s.pool p).state.isGrowing uuid created = some (grown, s₁) →
          (s₁.pool q).state = (s.pool q).state := by
      intro grown s₁ hg
      rw [grow_state hg q]
      exact update_state (by rfl) q
    cases (step_schedule h).2 with
    | already => rfl
    | fails hg =>
      rw [← hgrown hg]
      exact update_state (by rfl) q
    | starts hg hl => rw [lift_pool hl, hgrown hg]
  | turn p uuid created =>
    rcases step_turn h with ⟨t, timeoutTime, co, result, s₁, -, hl, hs⟩ | ⟨-, hs⟩
    · rw [advance_state hs q, listen_state hl q]
    · exact advance_state hs q
  | call p k =>
    obtain ⟨t, timeoutTime, co, w, -, -, -, hs⟩ := step_call h
    rw [lift_pool hs]
  | leave p o =>
    obtain ⟨t, timeoutTime, co, w, pc, -, -, -, hs⟩ := step_leave h
    rw [lift_pool hs]
    rfl
  | work p =>
    obtain ⟨t, timeoutTime, co, w, -, -, hs⟩ := step_work h
    exact work_state hs q

end Pools

inductive PoolState.Moves : PoolState → PoolState → Prop where
  | start : Moves .created .running
  | stopThread : Moves .running (.stopping true)
  | stop : Moves .created (.stopping false)
  | stopped (thread : Bool) : Moves (.stopping thread) .stopped

def PoolState.isStopping : PoolState → Bool
  | .stopping _ => true
  | .created | .running | .stopped => false

/-- The states in which the consumer can be where it is. -/
def ConsumerPc.Fits : ConsumerPc → PoolState → Prop
  | .absent, _ => True
  | .getState, st | .schedule false, st | .scheduling false, st =>
    st = .running ∨ st = .stopping true
  | .schedule true, st | .scheduling true, st | .isEmpty, st | .getRunningSize, st | .notify, st =>
    st = .stopping true
  | .exited, st => st = .stopping true ∨ st = .stopped
  | .panicked, _ => False

def StopPc.Fits {θ : Type*} : StopPc θ → PoolState → ConsumerPc → Prop
  | .outside, _, _ => True
  | .schedule state _, st, _ | .scheduling state _ _, st, _ | .changeState state _, st, _ =>
    state = st ∧ (st = .created ∨ st = .running)
  | .wait, st, _ => st = .stopping true
  | .stopped true, st, consumer => st = .stopping true ∧ consumer = .exited
  | .drain _, st, _ | .draining _, st, _ | .isEmpty _, st, _ | .getRunningSize _, st, _
  | .stopped false, st, _ => st = .stopping false

/-- A stop that has seen the consumer exit needs it to have exited. -/
theorem StopPc.Fits.setConsumer {θ : Type*} {stopper : StopPc θ} {state : PoolState}
    {consumer consumer' : ConsumerPc} (h : stopper.Fits state consumer)
    (hexited : consumer = .exited → consumer' = .exited) : stopper.Fits state consumer' := by
  cases stopper with
  | stopped thread =>
    cases thread with
    | true => exact ⟨h.1, hexited h.2⟩
    | false => exact h
  | outside | schedule state waitTime | scheduling state waitTime t | changeState state waitTime
  | wait | drain left | draining t | isEmpty leftTime | getRunningSize leftTime => exact h

namespace Lifecycle

variable {ι θ : Type*} {n : Nat} {p : ι}

/-- A stop does not find the state in which an earlier stop that gave up has left the pool. -/
def Unstopped (p : ι) (s : Lifecycle ι θ n) : Act ι θ → Prop
  | .stop _ => (s.state p).isStopping = false
  | _ => True

instance (s : Lifecycle ι θ n) : (a : Act ι θ) → Decidable (Unstopped p s a)
  | .stop _ => inferInstanceAs (Decidable (_ = false))
  | .pools _ | .start .. | .consume | .consumerSchedules .. | .stopSchedules .. | .stopScheduled _
  | .advance _ => isTrue trivial

structure Initial (p : ι) (s : Lifecycle ι θ n) : Prop where
  state : s.state p = .created
  consumer : s.consumer = .absent
  stopper : s.stopper = .outside
  pending : s.pending = true
  panics : s.panics = []

structure Sound (p : ι) (s : Lifecycle ι θ n) : Prop where
  panics : s.panics = []
  consumer : s.consumer.Fits (s.state p)
  stopper : s.stopper.Fits (s.state p) s.consumer
  exits : s.pending = false → s.consumer = .exited
  unstarted : s.dropped = false → s.consumer = .absent → s.stopper = .outside →
    s.outcomes = [] → s.state p = .created

theorem Initial.sound {s : Lifecycle ι θ n} (h : Initial p s) : Sound p s where
  panics := h.panics
  consumer := by
    rw [h.consumer]
    trivial
  stopper := by
    rw [h.stopper]
    trivial
  exits hp := by
    rw [h.pending] at hp
    cases hp
  unstarted _ _ _ _ := h.state

/-- The step leaves the state or moves it on. -/
def Keeps (p : ι) (s t : Lifecycle ι θ n) : Prop :=
  Sound p t ∧ (t.state p = s.state p ∨ PoolState.Moves (s.state p) (t.state p))

variable {s t : Lifecycle ι θ n}

theorem Sound.setConsumer (h : Sound p s) {consumer : ConsumerPc}
    (hfits : consumer.Fits (s.state p)) (hexited : s.consumer ≠ .exited)
    (habsent : consumer ≠ .absent) : Keeps p s { s with consumer } := by
  have hpending : s.pending = true := by
    by_contra hne
    exact hexited (h.exits (Bool.eq_false_iff.2 hne))
  refine ⟨⟨h.panics, hfits, ?_, fun hp => ?_, fun _ he => absurd he habsent⟩, .inl rfl⟩
  · exact h.stopper.setConsumer fun he => absurd he hexited
  · have hp' : s.pending = false := hp
    rw [hpending] at hp'
    cases hp'

theorem Sound.setStopper (h : Sound p s) {stopper : StopPc θ}
    (hfits : stopper.Fits (s.state p) s.consumer) (hne : stopper ≠ .outside) :
    Keeps p s { s with stopper } :=
  ⟨⟨h.panics, h.consumer, hfits, h.exits, fun _ _ he => absurd he hne⟩, .inl rfl⟩

theorem Sound.giveBack (h : Sound p s) (outcome : Except IoError Unit) :
    Keeps p s (s.giveBack outcome) :=
  ⟨⟨h.panics, h.consumer, trivial, h.exits, fun _ _ _ he => by cases he⟩, .inl rfl⟩

theorem Sound.setPools (h : Sound p s) {pools : Pools ι θ n}
    (hstate : (pools.pool p).state = s.state p) : Keeps p s { s with pools } := by
  have hstate' : { s with pools }.state p = s.state p := hstate
  refine ⟨⟨h.panics, ?_, ?_, h.exits, ?_⟩, .inl hstate⟩
  · rw [hstate']
    exact h.consumer
  · rw [hstate']
    exact h.stopper
  · rw [hstate']
    exact h.unstarted

theorem Sound.drainAgain (h : Sound p s) (hstate : s.state p = .stopping false) (leftTime : Nat) :
    Keeps p s (s.drainAgain leftTime) := by
  unfold Lifecycle.drainAgain
  split
  · exact h.giveBack _
  · exact h.setStopper hstate nofun

theorem Keeps.after {u : Lifecycle ι θ n} (hstate : t.state p = s.state p) (h : Keeps p t u) :
    Keeps p s u :=
  ⟨h.1, hstate ▸ h.2⟩

variable [DecidableEq ι]

theorem changeState_state (s : Lifecycle ι θ n) (p : ι) (state : PoolState) :
    (s.changeState p state).state p = state := by
  simp [Lifecycle.changeState, Lifecycle.state]

theorem assertChange_eq {expected state : PoolState}
    {next : Lifecycle ι θ n → Lifecycle ι θ n} (h : expected = s.state p) :
    s.assertChange p expected state next = next (s.changeState p state) := if_pos h

theorem ConsumerPc.Fits.stopThread {consumer : ConsumerPc} (h : consumer.Fits .running) :
    consumer.Fits (.stopping true) := by
  cases consumer with
  | absent => trivial
  | getState => exact .inr rfl
  | schedule draining | scheduling draining =>
    cases draining with
    | false => exact .inr rfl
    | true => cases h
  | isEmpty | getRunningSize | notify => cases h
  | exited => exact .inl rfl
  | panicked => exact h

/-- Without a consumer's state there is no consumer. -/
theorem ConsumerPc.Fits.absent {consumer : ConsumerPc} {state : PoolState}
    (h : consumer.Fits state) (hstate : state = .created ∨ state = .stopping false) :
    consumer = .absent := by
  cases consumer with
  | absent => rfl
  | schedule draining | scheduling draining =>
    cases draining <;> rcases hstate with rfl | rfl <;> simp [ConsumerPc.Fits] at h
  | getState | isEmpty | getRunningSize | notify | exited | panicked =>
    rcases hstate with rfl | rfl <;> simp [ConsumerPc.Fits] at h

theorem Sound.advance (h : Sound p s) {timedOut : Bool} (hs : s.advance p timedOut = some t) :
    Keeps p s t := by
  have hfits := h.stopper
  cases hst : s.stopper with
  | outside | schedule state waitTime | scheduling state waitTime t | drain left | draining t =>
    simp [Lifecycle.advance, hst] at hs
  | changeState state waitTime =>
    rw [hst] at hfits
    obtain ⟨rfl, hcases⟩ := hfits
    simp only [Lifecycle.advance, hst] at hs
    split at hs
    · rename_i hrun
      rw [assertChange_eq hrun, Option.some.injEq] at hs
      subst hs
      have hstate : ∀ stopper, { s.changeState p (.stopping true) with stopper }.state p =
          .stopping true := fun _ => changeState_state s p _
      have hconsumer : s.consumer.Fits (.stopping true) :=
        ConsumerPc.Fits.stopThread (hrun ▸ h.consumer)
      refine ⟨⟨h.panics, ?_, hstate _, h.exits, fun _ _ he => by cases he⟩, .inr ?_⟩
      · rw [hstate]
        exact hconsumer
      · rw [hstate, ← hrun]
        exact .stopThread
    · rename_i hrun
      have hcreated : s.state p = .created := hcases.resolve_right fun he => hrun he.symm
      rw [assertChange_eq hcreated.symm, Option.some.injEq] at hs
      subst hs
      have hstate : ∀ stopper, { s.changeState p (.stopping false) with stopper }.state p =
          .stopping false := fun _ => changeState_state s p _
      have habsent : s.consumer = .absent := ConsumerPc.Fits.absent h.consumer (.inl hcreated)
      refine ⟨⟨h.panics, ?_, hstate _, h.exits, fun _ _ he => by cases he⟩, .inr ?_⟩
      · change s.consumer.Fits _
        rw [habsent]
        trivial
      · rw [hstate, hcreated]
        exact .stop
  | wait =>
    rw [hst] at hfits
    simp only [Lifecycle.advance, hst] at hs
    split at hs
    · split at hs <;> simp only [Option.some.injEq, reduceCtorEq] at hs
      exact hs ▸ h.giveBack _
    · rename_i hp
      simp only [Option.some.injEq] at hs
      subst hs
      exact h.setStopper ⟨hfits, h.exits (Bool.eq_false_iff.2 hp)⟩ nofun
  | isEmpty leftTime =>
    rw [hst] at hfits
    simp only [Lifecycle.advance, hst] at hs
    split at hs <;> simp only [Option.some.injEq] at hs <;> subst hs
    · exact h.setStopper hfits nofun
    · exact h.drainAgain hfits leftTime
  | getRunningSize leftTime =>
    rw [hst] at hfits
    simp only [Lifecycle.advance, hst] at hs
    split at hs <;> simp only [Option.some.injEq] at hs <;> subst hs
    · exact h.setStopper hfits nofun
    · exact h.drainAgain hfits leftTime
  | stopped thread =>
    have hthread : s.state p = .stopping thread := by
      rw [hst] at hfits
      cases thread with
      | true => exact hfits.1
      | false => exact hfits
    have hconsumer : s.consumer.Fits .stopped := by
      rw [hst] at hfits
      cases thread with
      | true =>
        rw [hfits.2]
        exact .inr rfl
      | false =>
        rw [ConsumerPc.Fits.absent h.consumer (.inr hthread)]
        trivial
    simp only [Lifecycle.advance, hst, assertChange_eq hthread.symm, Option.some.injEq] at hs
    subst hs
    have hstate : ((s.changeState p .stopped).giveBack (.ok ())).state p = .stopped :=
      changeState_state s p _
    refine ⟨⟨h.panics, ?_, trivial, h.exits, fun _ _ _ he => by cases he⟩, .inr ?_⟩
    · rw [hstate]
      exact hconsumer
    · rw [hstate, hthread]
      exact .stopped thread

theorem Sound.start (h : Sound p s) {blockerName : String} {spawned : Bool}
    (hcreated : s.state p = .created) (hconsumer : s.consumer = .absent)
    (hstopper : s.stopper = .outside) : Keeps p s (s.start p blockerName spawned) := by
  have hpending : s.pending = true := by
    by_contra hne
    have he := h.exits (Bool.eq_false_iff.2 hne)
    rw [hconsumer] at he
    cases he
  have hexits : ∀ consumer, s.pending = false → consumer = ConsumerPc.exited := by
    intro consumer hp
    rw [hpending] at hp
    cases hp
  unfold Lifecycle.start
  split
  · exact ⟨⟨h.panics, h.consumer, h.stopper, h.exits, fun he => by cases he⟩, .inl rfl⟩
  · rw [assertChange_eq hcreated.symm]
    have hstate := changeState_state s p .running
    have hmoves : PoolState.Moves (s.state p) .running := hcreated ▸ .start
    split
    · refine ⟨⟨h.panics, .inl hstate, ?_, hexits _, fun _ he => by cases he⟩, .inr ?_⟩
      · change s.stopper.Fits _ _
        rw [hstopper]
        trivial
      · change PoolState.Moves (s.state p) ((s.changeState p .running).state p)
        rw [hstate]
        exact hmoves
    · refine ⟨⟨h.panics, ?_, ?_, h.exits, fun he => by cases he⟩, .inr ?_⟩
      · change s.consumer.Fits _
        rw [hconsumer]
        trivial
      · change s.stopper.Fits _ _
        rw [hstopper]
        trivial
      · change PoolState.Moves (s.state p) ((s.changeState p .running).state p)
        rw [hstate]
        exact hmoves

variable [DecidableEq θ] {consumerThread : θ}

omit [DecidableEq ι] in
theorem Sound.consume (h : Sound p s) (hs : s.consume p consumerThread = some t) :
    Keeps p s t := by
  have hfits := h.consumer
  cases hc : s.consumer with
  | absent | schedule draining | exited | panicked => simp [Lifecycle.consume, hc] at hs
  | getState =>
    rw [hc] at hfits
    have hne : s.consumer ≠ .exited := by rw [hc]; exact nofun
    rcases hfits with hst | hst
    · simp only [Lifecycle.consume, hc, hst, Option.some.injEq] at hs
      subst hs
      exact h.setConsumer (.inl hst) hne nofun
    · simp only [Lifecycle.consume, hc, hst, Option.some.injEq] at hs
      subst hs
      exact h.setConsumer hst hne nofun
  | scheduling draining =>
    rw [hc] at hfits
    have hne : s.consumer ≠ .exited := by rw [hc]; exact nofun
    simp only [Lifecycle.consume, hc] at hs
    split at hs <;> simp only [Option.some.injEq, reduceCtorEq] at hs
    subst hs
    cases draining with
    | true => exact h.setConsumer hfits hne nofun
    | false => exact h.setConsumer hfits hne nofun
  | isEmpty =>
    rw [hc] at hfits
    have hne : s.consumer ≠ .exited := by rw [hc]; exact nofun
    simp only [Lifecycle.consume, hc, Option.some.injEq] at hs
    subst hs
    cases s.isEmpty p with
    | true => exact h.setConsumer hfits hne nofun
    | false => exact h.setConsumer hfits hne nofun
  | getRunningSize =>
    rw [hc] at hfits
    have hne : s.consumer ≠ .exited := by rw [hc]; exact nofun
    simp only [Lifecycle.consume, hc, Option.some.injEq] at hs
    subst hs
    split
    · exact h.setConsumer hfits hne nofun
    · exact h.setConsumer hfits hne nofun
  | notify =>
    rw [hc] at hfits
    simp only [Lifecycle.consume, hc, Option.some.injEq] at hs
    subst hs
    have hstopper : s.stopper.Fits (s.state p) .exited := h.stopper.setConsumer fun _ => rfl
    exact ⟨⟨h.panics, .inl hfits, hstopper, fun _ => rfl, fun _ he => by cases he⟩, .inl rfl⟩

variable [Fintype ι] {now : Nat → Nat}

theorem tryTimedSchedule_eq {t : θ} {dur : Nat} {uuid : String} {created : Bool}
    {s' : Lifecycle ι θ n} (hs : s.tryTimedSchedule now p t dur uuid created = some s') :
    ∃ pools, s' = { s with pools } ∧ state { s with pools } p = s.state p := by
  simp only [tryTimedSchedule, Option.map_eq_some_iff] at hs
  obtain ⟨pools, hp, rfl⟩ := hs
  exact ⟨pools, rfl, Pools.step_state hp nofun⟩

theorem step_stopSchedules {t : θ} {uuid : String} {created : Bool} {s' : Lifecycle ι θ n}
    (hs : s.step now p consumerThread (.stopSchedules t uuid created) = some s') :
    ∃ pools stopper, s' = { s with pools, stopper } ∧ state { s with pools } p = s.state p ∧
      ((∃ state waitTime, s.stopper = .schedule state waitTime ∧
          stopper = .scheduling state waitTime t) ∨
        ∃ left, s.stopper = .drain left ∧ stopper = .draining t) := by
  simp only [Lifecycle.step] at hs
  split at hs
  · rename_i state waitTime hst
    simp only [Option.map_eq_some_iff] at hs
    obtain ⟨s₁, hsched, rfl⟩ := hs
    obtain ⟨pools, rfl, hstate⟩ := tryTimedSchedule_eq hsched
    exact ⟨pools, _, rfl, hstate, .inl ⟨state, waitTime, hst, rfl⟩⟩
  · rename_i left hst
    simp only [Option.map_eq_some_iff] at hs
    obtain ⟨s₁, hsched, rfl⟩ := hs
    obtain ⟨pools, rfl, hstate⟩ := tryTimedSchedule_eq hsched
    exact ⟨pools, _, rfl, hstate, .inr ⟨left, hst, rfl⟩⟩
  · cases hs

theorem step_stopScheduled {result : Except IoError Nat} {s' : Lifecycle ι θ n}
    (hs : s.step now p consumerThread (.stopScheduled result) = some s') :
    (∃ state waitTime t, s.stopper = .scheduling state waitTime t ∧
        (s' = { s with stopper := .changeState state waitTime } ∨
          ∃ e, s' = s.giveBack (.error e))) ∨
      ∃ t, s.stopper = .draining t ∧ ((∃ leftTime, s' = { s with stopper := .isEmpty leftTime }) ∨
        ∃ e, s' = s.giveBack (.error e)) := by
  simp only [Lifecycle.step] at hs
  split at hs
  · rename_i state waitTime t hst
    refine .inl ⟨state, waitTime, t, hst, ?_⟩
    simp only [Option.ite_none_left_eq_some] at hs
    obtain ⟨-, hs⟩ := hs
    split at hs
    · exact .inl (Option.some.inj hs).symm
    · exact .inr ⟨_, (Option.some.inj hs).symm⟩
  · rename_i t hst
    refine .inr ⟨t, hst, ?_⟩
    simp only [Option.ite_none_left_eq_some] at hs
    obtain ⟨-, hs⟩ := hs
    split at hs
    · exact .inl ⟨_, (Option.some.inj hs).symm⟩
    · exact .inr ⟨_, (Option.some.inj hs).symm⟩
  · cases hs

theorem pools_eq {a : Pools.Act ι θ} {s' : Lifecycle ι θ n}
    (hs : s.step now p consumerThread (.pools a) = some s') :
    ∃ pools, s' = { s with pools } ∧ state { s with pools } p = s.state p := by
  have key : ∃ pools, s.pools.step now a = some pools ∧ (∀ state, a ≠ .changeState p state) ∧
      { s with pools } = s' := by
    cases a with
    | changeState q state =>
      simp only [Lifecycle.step] at hs
      split at hs
      · cases hs
      · rename_i hq
        simp only [Option.map_eq_some_iff] at hs
        obtain ⟨pools, hp, he⟩ := hs
        exact ⟨pools, hp, fun state' he' => hq (by cases he'; rfl), he⟩
    | submit q task | tryGetResult q task | tryRun q | setMinSize q minSize | setMaxSize q maxSize
    | setKeepAliveTime q keepAliveTime | tryResume q coName | turn q uuid created | call q k
    | schedule q t timeoutTime uuid created | leave q o | work q =>
      simp only [Lifecycle.step, Option.map_eq_some_iff] at hs
      obtain ⟨pools, hp, he⟩ := hs
      exact ⟨pools, hp, nofun, he⟩
  obtain ⟨pools, hp, ha, rfl⟩ := key
  exact ⟨pools, rfl, Pools.step_state hp ha⟩

theorem Sound.step (h : Sound p s) {a : Act ι θ} (hok : Unstopped p s a)
    (hs : s.step now p consumerThread a = some t) : Keeps p s t := by
  cases a with
  | pools a =>
    obtain ⟨pools, rfl, hstate⟩ := pools_eq hs
    exact h.setPools hstate
  | start blockerName spawned =>
    simp only [Lifecycle.step] at hs
    split at hs
    · cases hs
    · rename_i hno
      simp only [Option.some.injEq] at hs
      subst hs
      simp only [Bool.or_eq_true, bne_iff_ne, ne_eq, Bool.not_eq_true', List.isEmpty_eq_false_iff,
        not_or, not_not] at hno
      obtain ⟨⟨⟨⟨hdropped, hconsumer⟩, hstopper⟩, houtcomes⟩, -⟩ := hno
      exact h.start (h.unstarted (Bool.eq_false_iff.2 hdropped) hconsumer hstopper houtcomes)
        hconsumer hstopper
  | consume => exact h.consume hs
  | consumerSchedules uuid created =>
    simp only [Lifecycle.step] at hs
    split at hs
    · rename_i draining hc
      simp only [Option.map_eq_some_iff] at hs
      obtain ⟨s₁, hsched, rfl⟩ := hs
      obtain ⟨pools, rfl, hstate⟩ := tryTimedSchedule_eq hsched
      have hk : Keeps p s { s with pools } := h.setPools hstate
      have hfits : s.consumer.Fits ((pools.pool p).state) := hk.1.consumer
      rw [hc] at hfits
      have hne : s.consumer ≠ .exited := by rw [hc]; exact nofun
      refine Keeps.after hstate (hk.1.setConsumer ?_ hne nofun)
      cases draining with
      | true => exact hfits
      | false => exact hfits
    · cases hs
  | stop waitTime =>
    simp only [Lifecycle.step] at hs
    split at hs
    · cases hs
    · split at hs
      · simp only [Option.some.injEq] at hs
        exact hs ▸ h.giveBack _
      · rename_i hne
        simp only [Option.some.injEq] at hs
        subst hs
        refine h.setStopper ⟨rfl, ?_⟩ nofun
        have hok' : (s.state p).isStopping = false := hok
        cases hst : s.state p with
        | created => exact .inl rfl
        | running => exact .inr rfl
        | stopping thread =>
          rw [hst] at hok'
          cases hok'
        | stopped => exact absurd hst hne
  | stopSchedules t uuid created =>
    have hfits := h.stopper
    obtain ⟨pools, stopper, rfl, hstate, hcases⟩ := step_stopSchedules hs
    have hk : Keeps p s { s with pools } := h.setPools hstate
    rcases hcases with ⟨st, waitTime, hst, rfl⟩ | ⟨left, hst, rfl⟩
    · rw [hst] at hfits
      have hopen : state { s with pools } p = .created ∨ state { s with pools } p = .running := by
        rw [hstate]
        exact hfits.2
      exact Keeps.after hstate (hk.1.setStopper ⟨hfits.1.trans hstate.symm, hopen⟩ nofun)
    · rw [hst] at hfits
      exact Keeps.after hstate (hk.1.setStopper (hstate.trans hfits) nofun)
  | stopScheduled result =>
    have hfits := h.stopper
    obtain ⟨state, waitTime, t, hst, rfl | ⟨e, rfl⟩⟩ | ⟨t, hst, ⟨leftTime, rfl⟩ | ⟨e, rfl⟩⟩ :=
      step_stopScheduled hs
    · rw [hst] at hfits
      exact h.setStopper hfits nofun
    · exact h.giveBack _
    · rw [hst] at hfits
      exact h.setStopper hfits nofun
    · exact h.giveBack _
  | advance timedOut => exact h.advance hs

/-- As long as no stop follows one that has given up, every step leaves the state or moves
it on, and no assertion fails. -/
theorem stop_moves {s₀ : Lifecycle ι θ n} (h₀ : Initial p s₀)
    (h : Reaches (step now p consumerThread) (Unstopped p) s₀ s) {a : Act ι θ}
    (hok : Unstopped p s a) (hs : s.step now p consumerThread a = some t) :
    (t.state p = s.state p ∨ PoolState.Moves (s.state p) (t.state p)) ∧ t.panics = [] := by
  have hsound : Sound p s := h.invariant h₀.sound fun _ _ _ hi hok hs => (hi.step hok hs).1
  have hkeeps := hsound.step hok hs
  exact ⟨hkeeps.2, hkeeps.1.panics⟩

def single : Lifecycle (Fin 2) (Fin 2) 2 := { pools := Pools.two }

theorem single_initial : Initial 0 single := ⟨rfl, rfl, rfl, rfl, rfl⟩

/-- Thread `t` starts the pool and calls `stop`, which gives up at once. -/
def stopping {ι θ : Type*} (p : ι) (t : θ) : List (Act ι θ) :=
  [.start "DelayBlocker" true, .stop 0, .stopSchedules t "" false, .pools (.turn p "" false),
    .stopScheduled (.ok 0), .advance false, .advance true]

theorem stop_moves_stopped :
    ∃ s t : Lifecycle (Fin 2) (Fin 2) 2, s.state 0 = .stopping true ∧ t.state 0 = .stopped ∧
      (t.state 0 = s.state 0 ∨ PoolState.Moves (s.state 0) (t.state 0)) ∧ t.panics = [] := by
  obtain ⟨s, h, hst, hs⟩ : ∃ s : Lifecycle (Fin 2) (Fin 2) 2,
      Reaches (step id 0 0) (Unstopped 0) single s ∧ s.state 0 = .stopping true ∧
        s.stopper = .stopped true :=
    ⟨_, Reaches.of_runGuarded ((stopping 0 1).dropLast ++ [.consume, .consume, .consume, .consume,
      .advance false]) rfl, rfl, rfl⟩
  have hok : Unstopped 0 s (.advance false) := trivial
  obtain ⟨t, ht, hstopped⟩ :
      ∃ t, s.step id 0 0 (.advance false) = some t ∧ t.state 0 = .stopped := by
    refine ⟨(s.changeState 0 .stopped).giveBack (.ok ()), ?_, changeState_state s 0 _⟩
    simp [step, advance, hs, assertChange_eq hst.symm]
  exact ⟨s, t, hst, hstopped, stop_moves single_initial h hok ht⟩

/-- A second stop finds `Stopping(true)`, and the consumer what that stop has made of it. -/
theorem stop_again_panics :
    ∃ s : Lifecycle (Fin 2) (Fin 2) 2, Reaches (step id 0 0) Free single s ∧
      s.outcomes = [.error stopTimeout] ∧ s.state 0 = .stopping false ∧
      s.panics = [.unreachable "never happens", .assertEq .created (.stopping true)] :=
  ⟨_, Reaches.of_run (stopping 0 1 ++ [.stop 0, .stopSchedules 1 "" false, .pools (.turn 0 "" false),
    .stopScheduled (.ok 0), .advance false, .consume]) rfl (guarded_free _), rfl, rfl, rfl⟩

end Lifecycle

end OpenCoroutine
