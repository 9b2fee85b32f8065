import OpenCoroutine.EarlyTimeout

/-! What one step of a system of schedulers does to their containers: an operation on the
containers of one scheduler, a `pop_front` of one scheduler, or nothing. An operation only
pushes to the shared queue, so what pushes keep holds of the queue after it. -/

namespace OpenCoroutine

open Function

namespace View

variable {n : Nat}

/-- `v'` comes from `v` by pushes of coroutines, the clock going on. -/
structure Pushes (v : View n) (cos : List Co) (v' : View n) : Prop where
  queue : v'.queue = cos.foldl v.sched.ready.pushBack v.queue
  ready : v'.sched.ready = v.sched.ready
  later : v.readings ≤ v'.readings

theorem Pushes.refl (v : View n) : v.Pushes [] v := ⟨rfl, rfl, le_rfl⟩

theorem Pushes.trans {v v' v'' : View n} {cos cos' : List Co} (h : v.Pushes cos v')
    (h' : v'.Pushes cos' v'') : v.Pushes (cos ++ cos') v'' where
  queue := by rw [List.foldl_append, ← h.queue, h'.queue, h.ready]
  ready := h'.ready.trans h.ready
  later := h.later.trans h'.later

theorem Pushes.tick (v : View n) : v.Pushes [] v.tick := ⟨rfl, rfl, Nat.le_succ _⟩

theorem Pushes.pushReady (v : View n) (co : Co) : v.Pushes [co] (v.pushReady co) :=
  ⟨rfl, rfl, le_rfl⟩

/-- What every push keeps, an operation keeps. -/
theorem Pushes.keeps {v v' : View n} {cos : List Co} (h : v.Pushes cos v')
    {p : WorkStealQueue Co n → Prop}
    (hp : ∀ q co, p q → p (v.sched.ready.pushBack q co)) (hv : p v.queue) : p v'.queue := by
  rw [h.queue]
  generalize v.queue = q at hv
  clear h
  induction cos generalizing q with
  | nil => exact hv
  | cons co cos ih => exact ih (v.sched.ready.pushBack q co) (hp q co hv)

variable (now : Nat → Nat)

theorem wakeEntry_pushes (entry : List Co) (v : View n) :
    ∃ cos, v.Pushes cos (wakeEntry now entry v).2 := by
  induction entry generalizing v with
  | nil => exact ⟨[], .refl v⟩
  | cons co entry ih =>
    rw [View.wakeEntry]
    split
    · rename_i co' _
      obtain ⟨cos, h⟩ := ih (v.tick.pushReady co')
      exact ⟨_, ((Pushes.tick v).trans (.pushReady _ co')).trans h⟩
    · exact ⟨[], .tick v⟩

theorem Pushes.loop {v v' v'' : View n} (h : ∃ cos, v.Pushes cos v')
    (h' : ∃ cos, v'.Pushes cos v'') : ∃ cos, v.Pushes cos v'' := by
  obtain ⟨cos, h⟩ := h
  obtain ⟨cos', h'⟩ := h'
  exact ⟨_, h.trans h'⟩

theorem wakeSuspended_pushes (count : Nat) (v : View n) :
    ∃ cos, v.Pushes cos (wakeSuspended now count v).2 := by
  refine wakeSuspended_loop (R := fun v r => ∃ cos, v.Pushes cos r.2) (fun v => ⟨_, .refl v⟩)
    (fun v => ⟨_, .tick v⟩) (fun _ _ _ => Pushes.loop) ?_ count v
  intro v time entry suspend _ _
  have hset : v.Pushes [] (v.tick.setSuspend suspend) := ⟨rfl, rfl, Nat.le_succ _⟩
  exact Pushes.loop ⟨_, hset⟩ (wakeEntry_pushes now entry.inner _)

theorem timeoutEntry_pushes (time : Nat) (entry : List String) (v : View n) :
    ∃ cos, v.Pushes cos (timeoutEntry time entry v).2 := by
  induction entry generalizing v with
  | nil => exact ⟨[], .refl v⟩
  | cons coName entry ih =>
    rw [View.timeoutEntry]
    split
    · exact ih v
    · rename_i co syscall _
      split
      · rename_i ready _
        have hpush : v.Pushes [ready] (((v.setSyscall syscall).fire co time).pushReady ready) :=
          ⟨rfl, rfl, le_rfl⟩
        obtain ⟨cos, h⟩ := ih (((v.setSyscall syscall).fire co time).pushReady ready)
        exact ⟨_, hpush.trans h⟩
      · exact ⟨[], rfl, rfl, le_rfl⟩

theorem wakeTimedOut_pushes (count : Nat) (v : View n) :
    ∃ cos, v.Pushes cos (wakeTimedOut now count v).2 := by
  refine wakeTimedOut_loop (R := fun v r => ∃ cos, v.Pushes cos r.2) (fun v => ⟨_, .refl v⟩)
    (fun v => ⟨_, .tick v⟩) (fun _ _ _ => Pushes.loop) ?_ count v
  intro v time entry syscallSuspend _ _
  have hset : v.Pushes [] (v.tick.setSyscallSuspend syscallSuspend) := ⟨rfl, rfl, Nat.le_succ _⟩
  exact Pushes.loop ⟨_, hset⟩ (timeoutEntry_pushes (now v.readings) entry.inner _)

theorem checkReady_pushes (v : View n) : ∃ cos, v.Pushes cos (v.checkReady now).2 :=
  checkReady_loops (R := fun v r => ∃ cos, v.Pushes cos r.2) (fun _ _ _ => Pushes.loop)
    (wakeSuspended_pushes now) (wakeTimedOut_pushes now) v

theorem submit_pushes (v : View n) (uuid : String) : ∃ cos, v.Pushes cos (v.submit now uuid).2 :=
  ⟨_, .pushReady v _⟩

theorem tryResume_pushes (v : View n) (coName : String) :
    ∃ cos, v.Pushes cos (v.tryResume coName).2 := by
  rw [View.tryResume]
  split
  · exact ⟨[], .refl v⟩
  · split
    · split
      · exact ⟨[_], rfl, rfl, le_rfl⟩
      · exact ⟨[], rfl, rfl, le_rfl⟩
    · exact ⟨[], rfl, rfl, le_rfl⟩

theorem place_pushes (v : View n) (co : Co) (result : CoroutineState Unit Unit) :
    ∃ cos, v.Pushes cos (v.place now co result).2 := by
  cases result with
  | suspend y timestamp =>
    rw [View.place]
    split
    · exact ⟨_, (Pushes.tick v).trans (.pushReady _ co)⟩
    · exact ⟨[], rfl, rfl, Nat.le_succ _⟩
  | systemCall y call state => cases state <;> exact ⟨[], rfl, rfl, le_rfl⟩
  | created | ready | running | complete _ | error _ => exact ⟨[], .refl v⟩

end View

namespace World

variable {ι θ : Type*} {n : Nat} [DecidableEq ι] [DecidableEq θ] (now : Nat → Nat)

/-- The operation on the containers of scheduler `i` that a step comes to, and what it leaves. -/
inductive Operates (s : World ι θ n) (i : ι) : Act ι θ → View n → Prop where
  | submit (uuid : String) : Operates s i (.submit i uuid true) ((s.view i).submit now uuid).2
  | tryResume (coName : String) : Operates s i (.tryResume i coName) ((s.view i).tryResume coName).2
  | checkReady {t : θ} {timeoutTime leftTime : Nat}
      (hp : s.phase i = .checking t timeoutTime leftTime) :
      Operates s i (.turn i) ((s.view i).checkReady now).2
  | place {t : θ} {timeoutTime : Nat} {co : Co} {result : CoroutineState Unit Unit}
      (hp : s.phase i = .returned t timeoutTime co (.ok result)) :
      Operates s i (.turn i) ((s.view i).place now co result).2

omit [DecidableEq ι] [DecidableEq θ] in
theorem Operates.pushes {now : Nat → Nat} {s : World ι θ n} {i : ι} {a : Act ι θ} {v : View n}
    (h : Operates now s i a v) : ∃ cos, (s.view i).Pushes cos v := by
  cases h with
  | submit uuid => exact View.submit_pushes now _ uuid
  | tryResume coName => exact View.tryResume_pushes _ coName
  | checkReady hp => exact View.checkReady_pushes now _
  | place hp => exact View.place_pushes now _ _ _

/-- What a step does to the containers. -/
inductive Touches (s : World ι θ n) (a : Act ι θ) (s' : World ι θ n) : Prop where
  | rests (hq : s'.queue = s.queue) (hsched : s'.sched = s.sched) (hr : s.readings ≤ s'.readings)
      (hno : ∀ i v, ¬ Operates now s i a v)
  | operates (i : ι) (v : View n) (hv : Operates now s i a v) (hq : s'.queue = v.queue)
      (hsched : s'.sched = update s.sched i v.sched) (hr : s'.readings = v.readings)
  | pops (i : ι) (hq : s'.queue = ((s.sched i).ready.popFront s.queue).2.2)
      (hsched : s'.sched = update s.sched i
        { s.sched i with ready := ((s.sched i).ready.popFront s.queue).2.1 })
      (hr : s.readings ≤ s'.readings) (hno : ∀ i v, ¬ Operates now s i a v)

theorem enter_containers (s : World ι θ n) (i : ι) (t : θ) (timeoutTime : Nat) (co : Co) :
    (s.enter now i t timeoutTime co).queue = s.queue ∧
      (s.enter now i t timeoutTime co).sched = s.sched ∧
      (s.enter now i t timeoutTime co).readings = s.readings + 1 := by
  unfold World.enter
  split
  · exact ⟨rfl, rfl, rfl⟩
  · split <;> exact ⟨rfl, rfl, rfl⟩

omit [DecidableEq ι] [DecidableEq θ] in
theorem finish_containers (s : World ι θ n) (co : Co) (result : CoroutineState Unit Unit) :
    (s.finish co result).queue = s.queue ∧ (s.finish co result).sched = s.sched ∧
      (s.finish co result).readings = s.readings := by
  unfold World.finish
  split <;> exact ⟨rfl, rfl, rfl⟩

omit [DecidableEq θ] in
theorem stop_containers (s : World ι θ n) (i : ι) (stop : Stop) :
    (s.stop i stop).queue = s.queue ∧ (s.stop i stop).sched = s.sched ∧
      (s.stop i stop).readings = s.readings := by
  cases stop <;> exact ⟨rfl, rfl, rfl⟩

variable {now}

theorem turn_touches {s s' : World ι θ n} {i : ι} (hs : s.turn now i = some s') :
    Touches now s (.turn i) s' := by
  have hno : (∀ t timeoutTime leftTime, s.phase i ≠ .checking t timeoutTime leftTime) →
      (∀ t timeoutTime co result, s.phase i ≠ .returned t timeoutTime co (.ok result)) →
      ∀ j v, ¬ Operates now s j (.turn i) v := by
    intro hcheck hplace j v hv
    cases hv with
    | checkReady hp => exact hcheck _ _ _ hp
    | place hp => exact hplace _ _ _ _ hp
  cases turns hs with
  | timedOut hp | check hp =>
    refine .rests rfl rfl (Nat.le_succ _) (hno ?_ ?_)
    · simp [hp]
    · simp [hp]
  | @checked t timeoutTime leftTime v hp hv =>
    have hop : Operates now s i (.turn i) ((s.view i).checkReady now).2 := .checkReady hp
    rw [hv] at hop
    exact .operates i v hop rfl rfl rfl
  | @checkStops t timeoutTime leftTime stop v hp hv =>
    have hop : Operates now s i (.turn i) ((s.view i).checkReady now).2 := .checkReady hp
    rw [hv] at hop
    obtain ⟨hq, hsched, hr⟩ := (s.setView i v).stop_containers i stop
    exact .operates i v hop hq hsched hr
  | popsNone hp hq =>
    refine .pops i ?_ ?_ le_rfl (hno ?_ ?_)
    · rw [hq]
      rfl
    · rw [hq]
      rfl
    · simp [hp]
    · simp [hp]
  | @pops t timeoutTime leftTime co ready queue hp hq =>
    obtain ⟨hqueue, hsched, hr⟩ := enter_containers now (s.setView i { s.view i with
      queue, sched := { s.sched i with ready } }) i t timeoutTime co
    refine .pops i ?_ ?_ ?_ (hno ?_ ?_)
    · rw [hqueue, hq]
      rfl
    · rw [hsched, hq]
      rfl
    · rw [hr]
      exact Nat.le_succ _
    · simp [hp]
    · simp [hp]
  | @fails t timeoutTime co e hp =>
    obtain ⟨hq, hsched, hr⟩ := s.stop_containers i (.err e)
    refine .rests hq hsched hr.ge (hno ?_ ?_)
    · simp [hp]
    · simp [hp]
  | @places t timeoutTime co result v hp hv =>
    have hop : Operates now s i (.turn i) ((s.view i).place now co result).2 := .place hp
    rw [hv] at hop
    obtain ⟨hq, hsched, hr⟩ := (s.setView i v).finish_containers co result
    exact .operates i v hop hq hsched hr
  | @placeStops t timeoutTime co result stop v hp hv =>
    have hop : Operates now s i (.turn i) ((s.view i).place now co result).2 := .place hp
    rw [hv] at hop
    obtain ⟨hq, hsched, hr⟩ := (s.setView i v).stop_containers i stop
    exact .operates i v hop hq hsched hr

theorem step_touches {s s' : World ι θ n} {a : Act ι θ} (hs : s.step now a = some s') :
    Touches now s a s' := by
  cases a with
  | submit i uuid created =>
    cases created with
    | true =>
      rw [step_submit, Option.some.injEq] at hs
      subst hs
      exact .operates i _ (.submit uuid) rfl rfl rfl
    | false =>
      cases hs
      exact .rests rfl rfl le_rfl (fun i v hv => by cases hv)
  | tryResume i coName =>
    obtain ⟨panics, rfl⟩ := step_tryResume hs
    exact .operates i _ (.tryResume coName) rfl rfl rfl
  | schedule i t timeoutTime =>
    obtain ⟨-, rfl⟩ := step_schedule hs
    exact .rests rfl rfl le_rfl (fun i v hv => by cases hv)
  | turn i => exact turn_touches hs
  | call i k =>
    obtain ⟨t, timeoutTime, co, -, rfl⟩ := step_call hs
    exact .rests rfl rfl le_rfl (fun i v hv => by cases hv)
  | leave i o =>
    obtain ⟨t, timeoutTime, co, -, rfl⟩ := step_leave hs
    exact .rests rfl rfl le_rfl (fun i v hv => by cases hv)

end World

end OpenCoroutine
