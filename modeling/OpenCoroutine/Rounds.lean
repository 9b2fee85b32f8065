import OpenCoroutine.Starvation
import OpenCoroutine.Waiting

/-! The rounds that a scheduler goes: it reads the clock, looks at its timers and takes a coroutine
out of the ready queue. What waits for it goes on waiting through the steps of all schedulers. -/

namespace OpenCoroutine

open Function Transition

namespace LocalQueue

open WorkStealQueue

variable {T : Type*} {n : Nat} {l : LocalQueue n} {k : Fin n}

theorem popLocal_localQueues (hk : k ≠ l.queue) (q : WorkStealQueue T n) :
    (q.popLocal l.queue).2.localQueues k = q.localQueues k := update_of_ne hk _ _

theorem spill_other (hk : k ≠ l.queue) (count : Nat) (q : WorkStealQueue T n) :
    (spill l.queue count q).localQueues k = q.localQueues k := by
  refine spill_loop (R := fun q q' => q'.localQueues k = q.localQueues k) (fun _ => rfl)
    (fun _ _ _ h h' => h'.trans h) (fun q item q' he => ?_) (fun q q' he => ?_) count q
  · have hpop := popLocal_localQueues hk q
    rw [he] at hpop
    exact hpop
  · have hpop := popLocal_localQueues hk q
    rw [he] at hpop
    exact hpop

theorem pushBack_other (hk : k ≠ l.queue) (q : WorkStealQueue T n) (item : T) :
    (l.pushBack q item).localQueues k = q.localQueues k := by
  unfold pushBack
  split
  · exact update_of_ne hk _ _
  · exact spill_other hk _ q

/-- Nothing comes into an empty worker by another one. -/
theorem popFront_other {q : WorkStealQueue T n} (hk : k ≠ l.queue)
    (hnil : (q.localQueues k).items = []) : ((l.popFront q).2.2.localQueues k).items = [] := by
  rcases l.popFront_leaves q with he | he | ⟨another, count, hne, hs, he⟩
  · rw [he, pop_localQueues]
    exact hnil
  · rw [he, popLocal_localQueues hk]
    exact hnil
  · have hk' : k ≠ another := by
      rintro rfl
      exact hs hnil
    have hmove : (q.move another l.queue count).localQueues k = q.localQueues k :=
      (update_of_ne hk _ _).trans (update_of_ne hk' _ _)
    rw [he, popLocal_localQueues hk, hmove]
    exact hnil

end LocalQueue

theorem WorkStealQueue.Nears.of_none {T : Type*} {n : Nat} {q q' : WorkStealQueue T n}
    (h : q.Nears none q') (r : Option T) : q.Nears r q' := fun x spot hx =>
  .inr ((h x spot hx).resolve_left (Option.some_ne_none x).symm)

namespace Phase

variable {θ : Type*}

def isChecking : Phase θ → Bool
  | checking .. => true
  | _ => false

def isPopping : Phase θ → Bool
  | popping .. => true
  | _ => false

end Phase

namespace World

variable {ι θ : Type*} {n : Nat} {now : Nat → Nat}

/-- The step is a `pop_front` of scheduler `i`. -/
def Pops (s : World ι θ n) (a : Act ι θ) (i : ι) : Prop :=
  a = .turn i ∧ (s.phase i).isPopping = true

/-- The coroutine that a step takes out of the ready queue. -/
def popped (s : World ι θ n) : Act ι θ → Option Co
  | .turn i => if (s.phase i).isPopping then ((s.sched i).ready.popFront s.queue).1 else none
  | _ => none

variable [DecidableEq ι] [DecidableEq θ]

variable (now) in
theorem enter_phase (s : World ι θ n) (i : ι) (t : θ) (timeoutTime : Nat) (co : Co) :
    ∃ phase : Phase θ, (s.enter now i t timeoutTime co).phase = update s.phase i phase ∧
      phase.isChecking = false ∧ phase.isPopping = false := by
  unfold World.enter
  split
  · exact ⟨_, rfl, rfl, rfl⟩
  · split
    · exact ⟨_, rfl, rfl, rfl⟩
    · exact ⟨_, rfl, rfl, rfl⟩

theorem Pops.step {s s' : World ι θ n} {a : Act ι θ} {i : ι} (hp : s.Pops a i)
    (hs : s.step now a = some s') :
    s'.queue = ((s.sched i).ready.popFront s.queue).2.2 ∧
      s'.sched = update s.sched i
        { s.sched i with ready := ((s.sched i).ready.popFront s.queue).2.1 } ∧
      (s'.phase i).isPopping = false := by
  obtain ⟨rfl, hp⟩ := hp
  cases turns (s := s) hs with
  | @popsNone t timeoutTime leftTime ready queue _ hq =>
    rw [hq]
    refine ⟨rfl, rfl, ?_⟩
    rw [setPhase_phase]
    rfl
  | @pops t timeoutTime leftTime co ready queue _ hq =>
    obtain ⟨hqueue, hsched, -⟩ := enter_containers now (s.setView i { s.view i with
      queue, sched := { s.sched i with ready } }) i t timeoutTime co
    obtain ⟨phase, hphase, -, hout⟩ := enter_phase now (s.setView i { s.view i with
      queue, sched := { s.sched i with ready } }) i t timeoutTime co
    rw [hq, hqueue, hsched, hphase, update_self]
    exact ⟨rfl, rfl, hout⟩
  | timedOut hp' | check hp' | checked hp' | checkStops hp' | fails hp' | places hp'
  | placeStops hp' =>
    rw [hp'] at hp
    cases hp

/-- Any other step leaves the containers, or makes an operation on those of one scheduler. -/
theorem step_operates {s s' : World ι θ n} {a : Act ι θ} (hno : ∀ i, ¬ s.Pops a i)
    (hs : s.step now a = some s') :
    s'.queue = s.queue ∧ s'.sched = s.sched ∨
      ∃ i v, Operates now s i a v ∧ s'.queue = v.queue ∧ s'.sched = update s.sched i v.sched := by
  cases a with
  | submit i uuid created =>
    cases created with
    | false =>
      cases hs
      exact .inl ⟨rfl, rfl⟩
    | true =>
      rw [step_submit, Option.some.injEq] at hs
      subst hs
      exact .inr ⟨i, _, .submit uuid, rfl, rfl⟩
  | tryResume i coName =>
    obtain ⟨panics, rfl⟩ := step_tryResume hs
    exact .inr ⟨i, _, .tryResume coName, rfl, rfl⟩
  | schedule i t timeoutTime =>
    obtain ⟨-, rfl⟩ := step_schedule hs
    exact .inl ⟨rfl, rfl⟩
  | call i k =>
    obtain ⟨t, timeoutTime, co, -, rfl⟩ := step_call hs
    exact .inl ⟨rfl, rfl⟩
  | leave i o =>
    obtain ⟨t, timeoutTime, co, -, rfl⟩ := step_leave hs
    exact .inl ⟨rfl, rfl⟩
  | turn i =>
    cases turns (s := s) hs with
    | timedOut hp | check hp => exact .inl ⟨rfl, rfl⟩
    | @checked t timeoutTime leftTime v hp hv =>
      have hop : Operates now s i (.turn i) ((s.view i).checkReady now).2 := .checkReady hp
      rw [hv] at hop
      exact .inr ⟨i, v, hop, rfl, rfl⟩
    | @checkStops t timeoutTime leftTime stop v hp hv =>
      have hop : Operates now s i (.turn i) ((s.view i).checkReady now).2 := .checkReady hp
      rw [hv] at hop
      obtain ⟨hq, hsched, -⟩ := (s.setView i v).stop_containers i stop
      exact .inr ⟨i, v, hop, hq, hsched⟩
    | popsNone hp | pops hp => exact absurd ⟨rfl, by rw [hp]; rfl⟩ (hno i)
    | @fails t timeoutTime co e hp =>
      obtain ⟨hq, hsched, -⟩ := s.stop_containers i (.err e)
      exact .inl ⟨hq, hsched⟩
    | @places t timeoutTime co result v hp hv =>
      have hop : Operates now s i (.turn i) ((s.view i).place now co result).2 := .place hp
      rw [hv] at hop
      obtain ⟨hq, hsched, -⟩ := (s.setView i v).finish_containers co result
      exact .inr ⟨i, v, hop, hq, hsched⟩
    | @placeStops t timeoutTime co result stop v hp hv =>
      have hop : Operates now s i (.turn i) ((s.view i).place now co result).2 := .place hp
      rw [hv] at hop
      obtain ⟨hq, hsched, -⟩ := (s.setView i v).stop_containers i stop
      exact .inr ⟨i, v, hop, hq, hsched⟩

/-- What a step does to the phase of scheduler `j`: it leaves it, brings it to where no timers are
looked at, reads the clock before it looks, or is the look. -/
inductive Rounds (now : Nat → Nat) (s s' : World ι θ n) (j : ι) : Prop where
  | keeps (h : s'.phase j = s.phase j)
  | passes (hchecking : (s'.phase j).isChecking = false) (hpopping : (s'.phase j).isPopping = false)
  | reads (hpopping : (s'.phase j).isPopping = false) (hr : s.readings < s'.readings)
  | looks (hp : (s.phase j).isChecking = true) (hchecking : (s'.phase j).isChecking = false)
      (hv : (s.view j).checkReady now = (none, s'.view j))

omit [DecidableEq θ] in
theorem Rounds.update {s s' : World ι θ n} {i j : ι} {phase : Phase θ}
    (hphase : s'.phase = update s.phase i phase) (hi : j = i → Rounds now s s' j) :
    Rounds now s s' j := by
  by_cases hj : j = i
  · exact hi hj
  · refine .keeps ?_
    rw [hphase, update_of_ne hj]

omit [DecidableEq θ] in
theorem Rounds.pass {s s' : World ι θ n} {i j : ι} {phase : Phase θ}
    (hphase : s'.phase = Function.update s.phase i phase) (hchecking : phase.isChecking = false)
    (hpopping : phase.isPopping = false) : Rounds now s s' j := by
  refine Rounds.update hphase ?_
  rintro rfl
  refine .passes ?_ ?_
  · rw [hphase, update_self]
    exact hchecking
  · rw [hphase, update_self]
    exact hpopping

theorem turn_rounds {s s' : World ι θ n} {i : ι} (hs : s.turn now i = some s') (j : ι) :
    Rounds now s s' j := by
  cases turns hs with
  | timedOut hp => exact .pass rfl rfl rfl
  | @check t timeoutTime hp hleft =>
    refine Rounds.update rfl ?_
    rintro rfl
    refine .reads ?_ (Nat.lt_succ_self _)
    rw [setPhase_phase]
    rfl
  | @checked t timeoutTime leftTime v hp hv =>
    refine Rounds.update rfl ?_
    rintro rfl
    refine .looks (by rw [hp]; rfl) (by rw [setPhase_phase]; rfl) ?_
    have hview : ((s.setView j v).setPhase j (.popping t timeoutTime leftTime)).view j = v := by
      show (⟨v.queue, Function.update s.sched j v.sched j, v.readings, v.fired⟩ : View n) = v
      rw [update_self]
    rw [hview]
    exact hv
  | @checkStops t timeoutTime leftTime stop v hp hv
  | @placeStops t timeoutTime co result stop v hp hv =>
    exact .pass ((s.setView i v).stop_rests i stop).1 rfl rfl
  | popsNone hp hq => exact .pass rfl rfl rfl
  | @pops t timeoutTime leftTime co ready queue hp hq =>
    obtain ⟨phase, hphase, hchecking, hpopping⟩ := enter_phase now
      (s.setView i { s.view i with queue, sched := { s.sched i with ready } }) i t timeoutTime co
    exact .pass hphase hchecking hpopping
  | fails hp => exact .pass rfl rfl rfl
  | @places t timeoutTime co result v hp hv =>
    obtain ⟨hphase, -⟩ := (s.setView i v).finish_rests co result
    exact .pass (congrArg (Function.update · i _) hphase) rfl rfl

theorem step_rounds {s s' : World ι θ n} {a : Act ι θ} (hs : s.step now a = some s') (j : ι) :
    Rounds now s s' j := by
  cases a with
  | submit i uuid created =>
    cases created with
    | false =>
      cases hs
      exact .keeps rfl
    | true =>
      rw [step_submit, Option.some.injEq] at hs
      subst hs
      exact .keeps rfl
  | tryResume i coName =>
    obtain ⟨panics, rfl⟩ := step_tryResume hs
    exact .keeps rfl
  | schedule i t timeoutTime =>
    obtain ⟨-, rfl⟩ := step_schedule hs
    exact .pass rfl rfl rfl
  | turn i => exact turn_rounds hs j
  | call i k =>
    obtain ⟨t, timeoutTime, co, -, rfl⟩ := step_call hs
    exact .pass rfl rfl rfl
  | leave i o =>
    obtain ⟨t, timeoutTime, co, -, rfl⟩ := step_leave hs
    exact .pass rfl rfl rfl

omit [DecidableEq ι] [DecidableEq θ] in
theorem Pops.popped_eq {s : World ι θ n} {a : Act ι θ} {j : ι} (hp : s.Pops a j) :
    s.popped a = ((s.sched j).ready.popFront s.queue).1 := by
  rw [hp.1, popped, if_pos hp.2]

/-- What a step takes out of the queue is resumed; all else comes nearer to the front. -/
theorem step_nears {s s' : World ι θ n} {a : Act ι θ} (hs : s.step now a = some s') :
    s.queue.Nears (s.popped a) s'.queue := by
  by_cases hpops : ∃ i, s.Pops a i
  · obtain ⟨i, hp⟩ := hpops
    rw [hp.popped_eq, (hp.step hs).1]
    exact (s.sched i).ready.popFront_nears s.queue
  · refine WorkStealQueue.Nears.of_none ?_ _
    rcases step_operates (fun i hp => hpops ⟨i, hp⟩) hs with ⟨hq, -⟩ | ⟨i, v, hv, hq, -⟩
    · rw [hq]
      exact .refl _ _
    · rw [hq]
      obtain ⟨cos, hpush⟩ := hv.pushes
      exact hpush.keeps (p := fun q => s.queue.Nears none q)
        (fun q co hq => hq.trans ((s.view i).sched.ready.pushBack_nears q co)) (.refl _ _)

/-- Only its own `pop_front` moves the tick of a handle on. -/
theorem step_handle {s s' : World ι θ n} {a : Act ι θ} (hs : s.step now a = some s') (j : ι) :
    (s'.sched j).ready.queue = (s.sched j).ready.queue ∧
      (¬ s.Pops a j → (s'.sched j).ready.tick = (s.sched j).ready.tick) ∧
      (s.Pops a j → (s'.sched j).ready.tick = (s.sched j).ready.nextTick.2.tick) := by
  by_cases hpops : ∃ i, s.Pops a i
  · obtain ⟨i, hp⟩ := hpops
    have hk := (s.sched i).ready.popFront_handle s.queue
    rw [(hp.step hs).2.1]
    by_cases hj : j = i
    · subst hj
      rw [update_self]
      exact ⟨hk.1, fun hno => absurd hp hno, fun _ => hk.2⟩
    · rw [update_of_ne hj]
      refine ⟨rfl, fun _ => rfl, fun hp' => absurd ?_ hj⟩
      have hsame := hp'.1.symm.trans hp.1
      cases hsame
      rfl
  · have hno : ∀ i, ¬ s.Pops a i := fun i hp => hpops ⟨i, hp⟩
    have hready : (s'.sched j).ready = (s.sched j).ready := by
      rcases step_operates hno hs with ⟨-, hsched⟩ | ⟨i, v, hv, -, hsched⟩
      · rw [hsched]
      · obtain ⟨cos, hpush⟩ := hv.pushes
        rw [hsched]
        by_cases hj : j = i
        · subst hj
          rw [update_self]
          exact hpush.ready
        · rw [update_of_ne hj]
    rw [hready]
    exact ⟨rfl, fun _ => rfl, fun hp => absurd hp (hno j)⟩

/-- Workers that no scheduler has are empty. -/
def Unowned (s : World ι θ n) : Prop :=
  ∀ k, (∀ j, (s.sched j).ready.queue ≠ k) → (s.queue.localQueues k).items = []

theorem Unowned.step {s s' : World ι θ n} (h : s.Unowned) {a : Act ι θ}
    (hs : s.step now a = some s') : s'.Unowned := by
  intro k hk
  have hown : ∀ j, k ≠ (s.sched j).ready.queue := fun j hj =>
    hk j ((step_handle hs j).1.trans hj.symm)
  have hnil := h k fun j => (hown j).symm
  by_cases hpops : ∃ i, s.Pops a i
  · obtain ⟨i, hp⟩ := hpops
    rw [(hp.step hs).1]
    exact LocalQueue.popFront_other (hown i) hnil
  · rcases step_operates (fun i hp => hpops ⟨i, hp⟩) hs with ⟨hq, -⟩ | ⟨i, v, hv, hq, -⟩
    · rw [hq]
      exact hnil
    · obtain ⟨cos, hpush⟩ := hv.pushes
      rw [hq]
      refine hpush.keeps (p := fun q => (q.localQueues k).items = []) (fun q co hq => ?_) hnil
      exact (congrArg Worker.items (LocalQueue.pushBack_other (hown i) q co)).trans hq

/-- What waits for a scheduler goes on waiting for it, unless it is resumed. -/
theorem step_waits (hmono : Monotone now) {s s' : World ι θ n} (h : s.Sound now) {a : Act ι θ}
    (hs : s.step now a = some s') {j : ι} {coName : String} {time : Nat}
    (hw : (s.view j).Waits coName time) :
    (∃ co, s.popped a = some co ∧ co.name = coName) ∨ (s'.view j).Waits coName time := by
  by_cases hpops : ∃ i, s.Pops a i
  · obtain ⟨i, hp⟩ := hpops
    obtain ⟨hq, hsched, -⟩ := hp.step hs
    rcases hw with hr | hd
    · have hgives := ((s.sched i).ready.popFront_gives s.queue).contents
      have hmem : coName ∈ OpenCoroutine.names s.queue.contents := hr
      rw [hgives, names_add, Multiset.mem_add] at hmem
      rcases hmem with hmem | hmem
      · obtain ⟨co, hco, hname⟩ := Multiset.mem_map.1 hmem
        refine .inl ⟨co, ?_, hname⟩
        rw [hp.popped_eq]
        exact Option.mem_toList.1 (Multiset.mem_coe.1 hco)
      · right; left
        show coName ∈ OpenCoroutine.names s'.queue.contents
        rw [hq]
        exact hmem
    · right; right
      show (s'.sched j).Delays coName time
      rw [hsched]
      by_cases hj : j = i
      · subst hj
        rw [update_self]
        exact hd
      · rw [update_of_ne hj]
        exact hd
  · right
    rcases step_operates (fun i hp => hpops ⟨i, hp⟩) hs with ⟨hq, hsched⟩ | ⟨i, v, hv, hq, hsched⟩
    · rw [View.Waits, View.Ready, view, hq, hsched]
      exact hw
    · rw [View.Waits, View.Ready, view, hq, hsched]
      by_cases hj : j = i
      · subst hj
        rw [update_self]
        exact hv.waits hmono (h.view j) hw
      · rw [update_of_ne hj]
        obtain ⟨cos, hpush⟩ := hv.pushes
        have hready : (s.view j).Ready coName → v.Ready coName := fun hr =>
          View.Ready.pushed (v := s.view i) hr hpush
        exact hw.imp_left hready

/-- An infinite run. -/
structure Runs (now : Nat → Nat) (σ : Nat → World ι θ n) (act : Nat → Act ι θ) : Prop where
  step : ∀ i, (σ i).step now (act i) = some (σ (i + 1))
  disciplined : ∀ i, (σ i).Disciplined (act i)

variable {σ : Nat → World ι θ n} {act : Nat → Act ι θ}

/-- A step of the schedulers, or something else, in which the clock may be read. -/
def Moves (now : Nat → Nat) (s : World ι θ n) : Option (Act ι θ) → World ι θ n → Prop
  | some a, s' => s.Disciplined a ∧ s.step now a = some s'
  | none, s' => s' = s ∨ s' = s.tick

/-- The move is a `pop_front` of scheduler `i`. -/
def Comes (s : World ι θ n) (a : Option (Act ι θ)) (i : ι) : Prop := ∃ b, a = some b ∧ s.Pops b i

section

variable {s s' : World ι θ n} {a : Option (Act ι θ)}

theorem Comes.moves {i : ι} (hc : s.Comes a i) (h : s.Moves now a s') :
    ∃ b, a = some b ∧ s.Pops b i ∧ s.step now b = some s' := by
  obtain ⟨b, rfl, hp⟩ := hc
  exact ⟨b, rfl, hp, h.2⟩

theorem Moves.nears (h : s.Moves now a s') : s.queue.Nears (a.bind s.popped) s'.queue := by
  cases a with
  | some a => exact step_nears h.2
  | none =>
    rcases h with rfl | rfl
    · exact .refl _ _
    · exact .refl _ _

theorem Moves.handle (h : s.Moves now a s') (j : ι) :
    (s'.sched j).ready.queue = (s.sched j).ready.queue ∧
      (¬ s.Comes a j → (s'.sched j).ready.tick = (s.sched j).ready.tick) ∧
      (s.Comes a j → (s'.sched j).ready.tick = (s.sched j).ready.nextTick.2.tick) := by
  cases a with
  | some a =>
    obtain ⟨hq, hother, hown⟩ := step_handle h.2 j
    refine ⟨hq, fun hno => hother fun hp => hno ⟨a, rfl, hp⟩, fun hc => ?_⟩
    obtain ⟨b, hb, hp⟩ := hc
    cases hb
    exact hown hp
  | none =>
    have hsched : s'.sched = s.sched := by
      rcases h with rfl | rfl
      · rfl
      · rfl
    rw [hsched]
    refine ⟨rfl, fun _ => rfl, fun hc => ?_⟩
    obtain ⟨b, hb, -⟩ := hc
    cases hb

theorem Moves.rounds (h : s.Moves now a s') (j : ι) : Rounds now s s' j := by
  cases a with
  | some a => exact step_rounds h.2 j
  | none =>
    rcases h with rfl | rfl
    · exact .keeps rfl
    · exact .keeps rfl

theorem Moves.readings (h : s.Moves now a s') : s.readings ≤ s'.readings := by
  cases a with
  | some a => exact step_readings h.2
  | none =>
    rcases h with rfl | rfl
    · exact le_rfl
    · exact Nat.le_succ _

theorem Moves.waits (hmono : Monotone now) (hs : s.Sound now) (h : s.Moves now a s') {j : ι}
    {coName : String} {time : Nat} (hw : (s.view j).Waits coName time) :
    (∃ co, a.bind s.popped = some co ∧ co.name = coName) ∨ (s'.view j).Waits coName time := by
  cases a with
  | some a => exact step_waits hmono hs h.2 hw
  | none =>
    rcases h with rfl | rfl
    · exact .inr hw
    · exact .inr hw

theorem Moves.unowned (hs : s.Unowned) (h : s.Moves now a s') : s'.Unowned := by
  cases a with
  | some a => exact hs.step h.2
  | none =>
    rcases h with rfl | rfl
    · exact hs
    · exact hs

theorem Moves.tidy (hs : s.Tidy) (h : s.Moves now a s') : s'.Tidy := by
  cases a with
  | some a => exact hs.step h.2
  | none =>
    rcases h with rfl | rfl
    · exact hs
    · exact ⟨hs.wf, hs.alike, hs.unlocked⟩

theorem Moves.placed [Fintype ι] (hmono : Monotone now) (hs : s.Placed now)
    (h : s.Moves now a s') : s'.Placed now := by
  cases a with
  | some a => exact hs.step hmono h.1 h.2
  | none =>
    rcases h with rfl | rfl
    · exact hs
    · exact hs.tick hmono

end

/-- The schedulers on an infinite run of a system that they are a part of. -/
def Lasts (now : Nat → Nat) (σ : Nat → World ι θ n) (act : Nat → Option (Act ι θ)) : Prop :=
  ∀ i, (σ i).Moves now (act i) (σ (i + 1))

theorem Runs.lasts (h : Runs now σ act) : Lasts now σ fun i => some (act i) := fun i =>
  ⟨h.disciplined i, h.step i⟩

theorem Lasts.invariant {act : Nat → Option (Act ι θ)} (h : Lasts now σ act)
    {p : World ι θ n → Prop} (h₀ : p (σ 0))
    (hmove : ∀ s a s', p s → s.Moves now a s' → p s') (i : Nat) : p (σ i) := by
  induction i with
  | zero => exact h₀
  | succ i ih => exact hmove _ _ _ ih (h i)

end World

end OpenCoroutine
