import OpenCoroutine.PoolDriver

/-! A pool whose scheduler is called again and again, by whatever threads. Its tasks are taken one
after another: as long as one is left, some worker comes to the top of its loop, or all workers
end and the next call makes a new one. -/

namespace OpenCoroutine

open Descent Function Transition

namespace Pools

variable {θ : Type*} {n : Nat} {now : Nat → Nat} [DecidableEq θ]

section

variable {s s' : Pools Unit θ n} {a : Act Unit θ}

/-- The scheduler is called, goes on, or resumes a worker that is not about to look for a task. -/
inductive Phases (now : Nat → Nat) (s : Pools Unit θ n) (a : Act Unit θ) (s' : Pools Unit θ n) :
    Prop where
  | keeps (hphase : s'.world.phase () = s.world.phase ())
  | starts {t : θ} {uuid : String} {created : Bool} {s₁ : Pools Unit θ n}
    (hidle : s.world.phase () = .idle)
    (hg : ((s.setPool () { s.pool () with scheduling := true }).setStack t (() :: s.stack t)).grow
      now () (s.pool ()).state.isGrowing uuid created = some (true, s₁))
    (hsub : s'.world.submitted = s₁.world.submitted)
  | turns {uuid : String} {created : Bool} (ha : a = .turn () uuid created)
  | runs {t : θ} {timeoutTime : Nat} {co : Co} {pc : WorkerPc Unit}
    (hr : s.world.running () = some (t, timeoutTime, co)) (hpc : s.pc co.name = some pc)
    (htop : pc.isTop = false)

theorem step_phases (hs : s.step now a = some s') : Phases now s a s' := by
  cases a with
  | submit | tryGetResult | changeState | setMinSize | setMaxSize | setKeepAliveTime =>
    simp only [Pools.step, Option.some.injEq] at hs
    subst hs
    exact .keeps rfl
  | tryRun p =>
    obtain rfl | ⟨taskQueue, results, rfl⟩ := step_tryRun hs
    · exact .keeps rfl
    · exact .keeps rfl
  | tryResume p coName =>
    obtain ⟨world, hw, rfl⟩ := lift_eq hs
    obtain ⟨panics, rfl⟩ := World.step_tryResume hw
    exact .keeps rfl
  | schedule p t timeoutTime uuid created =>
    cases (step_schedule hs).2 with
    | already => exact .keeps rfl
    | fails hg =>
      have hphase := (grow_phase hg).1
      exact .keeps (congrFun hphase ())
    | starts hg hl =>
      obtain ⟨world, hw, rfl⟩ := lift_eq hl
      obtain ⟨hidle, rfl⟩ := World.step_schedule hw
      rw [(grow_phase hg).1] at hidle
      exact .starts hidle hg rfl
  | turn p uuid created => exact .turns rfl
  | call p k =>
    obtain ⟨t, timeoutTime, co, w, hr, hw, htasking, hl⟩ := step_call hs
    refine .runs hr (pc_eq hw) ?_
    cases hpc : w.pc with
    | top =>
      rw [hpc] at htasking
      cases htasking
    | tasking | starved | suspending | blocking | failing | returned => rfl
  | leave p o =>
    obtain ⟨t, timeoutTime, co, w, pc, hr, hw, hpc, hl⟩ := step_leave hs
    refine .runs hr (pc_eq hw) ?_
    cases hold : w.pc with
    | top =>
      rw [hold] at hpc
      cases hpc
    | tasking | starved | suspending | blocking | failing | returned => rfl
  | work p =>
    obtain ⟨t, timeoutTime, co, w, hr, hw, hs⟩ := step_work hs
    cases htop : w.pc.isTop with
    | false => exact .runs hr (pc_eq hw) htop
    | true =>
      cases works hs with
      | noPool | findsNone | takes => exact .keeps rfl
      | clashes hpc | finishes hpc | recycled hpc | waits hpc | wakes hpc =>
        rw [hpc] at htop
        cases htop

/-- A worker that is about to look for a task and is being resumed goes on being resumed. -/
theorem top_runs (hs : s.step now a = some s') {t : θ} {timeoutTime : Nat} {co : Co}
    (hp : s.world.phase () = .resuming t timeoutTime co) (htop : s.pc co.name = some .top) :
    s'.world.phase () = .resuming t timeoutTime co := by
  cases step_phases hs with
  | keeps hphase => rw [hphase, hp]
  | starts hidle =>
    rw [hidle] at hp
    cases hp
  | turns ha =>
    subst ha
    rcases step_turn hs with ⟨t', timeoutTime', co', result, s₁, hp', -⟩ | ⟨-, ha⟩
    · rw [hp] at hp'
      cases hp'
    · obtain ⟨world, hw, -⟩ := advance_cases ha
      simp only [World.turn, hp] at hw
      cases hw
  | runs hr hpc hno =>
    have hp' := World.running_eq hr
    rw [hp] at hp'
    cases hp'
    rw [htop, Option.some.injEq] at hpc
    rw [← hpc] at hno
    cases hno

omit [DecidableEq θ] in
/-- A worker that has been put aside waits for the scheduler or is busy. -/
theorem held_at (hk : s.world.OfKind (dutyKinds s.pc)) {coName : String}
    (hm : coName ∈ s.world.held) :
    (∃ time, (s.world.view ()).Waits coName time ∧ IsParked s.pc coName) ∨ IsBusy s.pc coName := by
  simp only [World.held, Family.total, Finset.univ_unique, Finset.sum_singleton,
    Multiset.mem_add] at hm
  rcases hm with hready | hparked
  · obtain ⟨co, hco, rfl⟩ := Multiset.mem_map.1 hready
    exact .inl ⟨0, .inl hready, (hk.ready co hco).1⟩
  · obtain ⟨co, hco, rfl⟩ := Multiset.mem_map.1 hparked
    rcases Multiset.mem_add.1 hco with hco | hco
    · obtain ⟨⟨time, co⟩, he, rfl⟩ := List.mem_map.1 (Multiset.mem_coe.1 hco)
      exact .inl ⟨time, .inr (.inl ⟨co, rfl, he⟩), hk.suspended () _ he⟩
    · obtain ⟨e, he, rfl⟩ := List.mem_map.1 (Multiset.mem_coe.1 hco)
      exact .inr (hk.syscall () e he)

omit [DecidableEq θ] in
/-- While no coroutine is being resumed, every worker has been put aside or has ended. -/
theorem Accounted.where_at (h : Accounted now s 0) (hk : s.world.OfKind (dutyKinds s.pc))
    (hrest : s.Resting) {coName : String} (hm : coName ∈ s.world.submitted) :
    coName ∈ s.world.held ∨ ∃ x ∈ s.pc coName, x.isOver = true := by
  rw [← Multiset.mem_coe, ← h.placed.names, World.names_eq] at hm
  simp only [Family.total, Finset.univ_unique, Finset.sum_singleton, Multiset.mem_add] at hm
  rcases hm with hheld | hco | hfinished
  · exact .inl hheld
  · have hnone : (s.world.phase default).co = 0 := hrest ()
    rw [hnone] at hco
    cases Multiset.notMem_zero _ hco
  · obtain ⟨co, hco, rfl⟩ := Multiset.mem_map.1 hfinished
    exact .inr (hk.finished co (Multiset.mem_coe.1 hco))

omit [DecidableEq θ] in
/-- Where the workers have all ended, none has been put aside. -/
theorem Accounted.held_eq (h : Accounted now s 0) (hk : s.world.OfKind (dutyKinds s.pc))
    (hover : ∀ coName ∈ s.world.submitted, ∃ x ∈ s.pc coName, x.isOver = true) :
    s.world.held = 0 := by
  refine Multiset.eq_zero_of_forall_notMem fun coName hm => ?_
  have hsub : coName ∈ s.world.submitted := by
    rw [← Multiset.mem_coe, ← h.placed.names, World.names_eq]
    exact Multiset.mem_add.2 (.inl hm)
  obtain ⟨x, hx, hend⟩ := hover coName hsub
  have hgoing : ∃ y ∈ s.pc coName, y.isTop = true ∨ y.isBusy = true := by
    rcases held_at hk hm with ⟨time, -, hparked⟩ | hbusy
    · exact hparked
    · exact hbusy.parked
  obtain ⟨y, hy, hgoing⟩ := hgoing
  rw [Option.mem_unique hx hy] at hend
  cases y with
  | failing | returned =>
    rcases hgoing with hgoing | hgoing
    · cases hgoing
    · cases hgoing
  | top | tasking | starved | suspending | blocking => cases hend

omit [DecidableEq θ] in
theorem Pops.resting (h : s.Pops a ()) : s.Resting := fun _ => by
  have hpopping := h.2
  show (s.world.phase ()).co = 0
  cases hp : s.world.phase () with
  | popping => rfl
  | idle | top | checking | resuming | returned =>
    rw [hp] at hpopping
    cases hpopping

/-- A `pop_front` that comes upon a coroutine resumes it. -/
theorem Pops.resumes (hmono : Monotone now) (hplaced : s.world.Placed now) (hpops : s.Pops a ())
    (hs : s.step now a = some s') {co : Co}
    (hpop : ((s.world.sched ()).ready.popFront s.world.queue).1 = some co) :
    ∃ t timeoutTime co', s'.world.phase () = .resuming t timeoutTime co' ∧ co'.name = co.name := by
  obtain ⟨⟨uuid, created, rfl⟩, hpopping⟩ := hpops
  rcases step_turn hs with ⟨t, timeoutTime, co₀, result, s₁, hp, -⟩ | ⟨-, ha⟩
  · rw [hp] at hpopping
    cases hpopping
  · obtain ⟨world, hw, hends⟩ := advance_cases ha
    have hphase : s'.world.phase () = world.phase () := by
      obtain rfl | ⟨t, -, -, rfl⟩ := hends
      · rfl
      · rfl
    cases hplaced.goes hmono hw with
    | timedOut hp | check hp | checked hp | places hp =>
      rw [hp] at hpopping
      cases hpopping
    | popsNone hp hq =>
      rw [hq] at hpop
      cases hpop
    | @pops t timeoutTime leftTime co₀ ready queue hp hq hco =>
      rw [hq, Option.some.injEq] at hpop
      subst hpop
      obtain ⟨co', l, -, hname, -, he⟩ := World.enter_eq
        (s := s.world.setView () { s.world.view () with
          queue, sched := { s.world.sched () with ready } }) hco () t timeoutTime
      rw [hphase, he, World.setPhase_phase]
      exact ⟨t, timeoutTime, co', rfl, hname⟩

/-- One that comes upon none gives back control. -/
theorem Pops.idles (hpops : s.Pops a ()) (hs : s.step now a = some s')
    (hpop : ((s.world.sched ()).ready.popFront s.world.queue).1 = none) :
    s'.world.phase () = .idle := by
  obtain ⟨⟨uuid, created, rfl⟩, hpopping⟩ := hpops
  rcases step_turn hs with ⟨t, timeoutTime, co₀, result, s₁, hp, -⟩ | ⟨-, ha⟩
  · rw [hp] at hpopping
    cases hpopping
  · obtain ⟨world, hw, hends⟩ := advance_cases ha
    have hphase : s'.world.phase () = world.phase () := by
      obtain rfl | ⟨t, -, -, rfl⟩ := hends
      · rfl
      · rfl
    cases World.turns hw with
    | timedOut hp | check hp | checked hp | checkStops hp | fails hp | places hp | placeStops hp =>
      rw [hp] at hpopping
      cases hpopping
    | popsNone hp hq =>
      rw [hphase, World.setPhase_phase]
    | pops hp hq =>
      rw [hq] at hpop
      cases hpop

/-- Where the workers have all ended, the call of the scheduler makes a new one. -/
theorem Accounted.starts_worker (h : Accounted now s 0) (hheld : s.world.held = 0)
    (hidle : s.world.phase () = .idle) (hleft : s'.world.phase () ≠ .idle)
    (hs : s.step now a = some s') (hgrowing : (s.pool ()).state.isGrowing = true)
    (hmax : 0 < (s.pool ()).maxSize.toNat) (htasks : (s.pool ()).taskQueue ≠ []) :
    s'.world.submitted ≠ s.world.submitted := by
  have hrest : s.Resting := fun _ => by
    show (s.world.phase ()).co = 0
    rw [hidle]
    rfl
  have hrunning : (s.pool ()).running = 0 := by
    rw [h.of_resting hrest (), live, hheld]
    exact Multiset.countP_zero _
  cases step_phases hs with
  | keeps hphase =>
    rw [hphase] at hleft
    exact absurd hidle hleft
  | starts _ hg hsub =>
    rw [hsub]
    cases grows hg with
    | stays hstays =>
      simp only [Pools.setStack, setPool_self] at hstays
      rcases hstays with hno | hnil | hle
      · rw [hgrowing] at hno
        cases hno
      · exact absurd hnil htasks
      · omega
    | grows hgrow hlt hw =>
      rw [World.step_submit, Option.some.injEq] at hw
      subst hw
      exact List.cons_ne_self _ _
  | turns ha =>
    subst ha
    rcases step_turn hs with ⟨t, timeoutTime, co, result, s₁, hp, -⟩ | ⟨-, ha⟩
    · rw [hidle] at hp
      cases hp
    · obtain ⟨world, hw, -⟩ := advance_cases ha
      simp only [World.turn, hidle] at hw
      cases hw
  | runs hr =>
    have hp := World.running_eq hr
    rw [hidle] at hp
    cases hp

end

/-- An infinite run of a pool that may always have workers, and whose scheduler comes to
`pop_front` again and again. Every worker ends its tasks and its waits, and the tasks leave it in
state `Running`. The clock comes to any time. -/
structure Serves (now : Nat → Nat) (σ : Nat → Pools Unit θ n) (act : Nat → Act Unit θ) : Prop where
  runs : Runs now σ act
  initial : (σ 0).Initial
  tidy : (σ 0).world.Tidy
  monotone : Monotone now
  reaches : ∀ time, ∃ reading, time ≤ now reading
  pops : Recurs fun i => (σ i).Pops (act i) ()
  steady : ∀ i, (σ i).Steady (act i)
  frees : ∀ coName, Recurs fun i => ¬ IsBusy (σ i).pc coName
  grows : ∀ i, ((σ i).pool ()).state.isGrowing = true ∧ 0 < ((σ i).pool ()).maxSize.toNat

/-- From `i` on there are tasks, and none is taken. -/
structure Stalls (σ : Nat → Pools Unit θ n) (act : Nat → Act Unit θ) (i : Nat) : Prop where
  tasks : ∀ k, i ≤ k → ((σ k).pool ()).taskQueue ≠ []
  untaken : ∀ k, i ≤ k → (σ k).taken (act k) = none

namespace Serves

variable {σ : Nat → Pools Unit θ n} {act : Nat → Act Unit θ} (h : Serves now σ act)

include h

theorem accounted (i : Nat) : Accounted now (σ i) 0 :=
  h.runs.invariant (p := fun s => Accounted now s 0) h.initial.accounted
    (fun _ _ _ hi hok hs => hi.step h.monotone hok hs) i

theorem upkeeps (i : Nat) : (σ i).Upkeeps (act i) (σ (i + 1)) :=
  (h.accounted i).upkeeps h.monotone (h.runs.homed i) (h.runs.step i)

theorem kinds (i : Nat) : (σ i).world.OfKind (dutyKinds (σ i).pc) := by
  induction i with
  | zero => exact h.initial.world.ofKind _
  | succ i ih =>
    exact step_kinds h.monotone (h.accounted i) ih (h.runs.homed i) (h.steady i) (h.runs.step i)

variable {i : Nat} (hstalls : Stalls σ act i)

include hstalls

/-- A worker that is about to look for a task goes on being about to. -/
theorem top_lasts {coName : String} {k j : Nat} (hik : i ≤ k)
    (htop : (σ k).pc coName = some .top) (hkj : k ≤ j) : (σ j).pc coName = some .top := by
  induction j, hkj using Nat.le_induction with
  | base => exact htop
  | succ j hkj ih =>
    have hij := hik.trans hkj
    exact (h.accounted j).top_stays (h.upkeeps j) (hstalls.untaken j hij)
      (fun _ => hstalls.tasks j hij) ih

/-- No worker is about to look for a task, since it would come to be resumed. -/
theorem no_top (coName : String) {k : Nat} (hik : i ≤ k) : (σ k).pc coName ≠ some .top := by
  intro htop
  -- at the next `pop_front` it waits for the scheduler
  obtain ⟨j, hkj, hpops⟩ := h.pops k
  have htop' := h.top_lasts hstalls hik htop hkj
  have hwaits : ∃ time, ((σ j).world.view ()).Waits coName time := by
    obtain ⟨w, hw, -⟩ := exists_worker htop'
    have hm := (h.accounted j).made coName w hw
    rcases (h.accounted j).where_at (h.kinds j) hpops.resting hm with hheld | ⟨x, hx, hover⟩
    · rcases held_at (h.kinds j) hheld with ⟨time, hwaits, -⟩ | ⟨x, hx, hbusy⟩
      · exact ⟨time, hwaits⟩
      · rw [htop', Option.mem_some] at hx
        rw [← hx] at hbusy
        cases hbusy
    · rw [htop', Option.mem_some] at hx
      rw [← hx] at hover
      cases hover
  -- so it is resumed some time, and then never gives back control
  obtain ⟨time, hwaits⟩ := hwaits
  obtain ⟨reading, hreading⟩ := h.reaches time
  obtain ⟨m, hjm, q, co, hpops', hpop, hname⟩ :=
    h.runs.popped h.monotone h.initial.world h.tidy (fun _ => h.pops) hreading hwaits
  obtain ⟨t, timeoutTime, co', hp, hname'⟩ :=
    hpops'.resumes h.monotone (h.accounted m).placed (h.runs.step m) hpop
  have hruns : ∀ l, m + 1 ≤ l → (σ l).world.phase () = .resuming t timeoutTime co' := by
    intro l hl
    induction l, hl using Nat.le_induction with
    | base => exact hp
    | succ l hl ih =>
      refine top_runs (h.runs.step l) ih ?_
      rw [hname', hname]
      exact h.top_lasts hstalls hik htop (by omega)
  obtain ⟨l, hl, hpops''⟩ := h.pops (m + 1)
  have hpopping := hpops''.2
  rw [hruns l hl] at hpopping
  cases hpopping

/-- No worker is made. -/
theorem submitted_stays {j : Nat} (hij : i ≤ j) :
    (σ (j + 1)).world.submitted = (σ j).world.submitted := by
  cases h.upkeeps j with
  | shifts _ _ _ _ hsub => exact hsub
  | grows hgrown =>
    cases hgrown with
    | keeps _ hsub => exact hsub
    | @bears coName _ hpc =>
      have hno := h.no_top hstalls coName (Nat.le_succ_of_le hij)
      rw [hpc, update_self] at hno
      exact absurd rfl hno

theorem submitted_lasts {j : Nat} (hij : i ≤ j) :
    (σ j).world.submitted = (σ i).world.submitted := by
  induction j, hij using Nat.le_induction with
  | base => rfl
  | succ j hij ih => rw [h.submitted_stays hstalls hij, ih]

/-- A busy worker ends. -/
theorem busy_ends {coName : String} {k : Nat} (hik : i ≤ k) (hbusy : IsBusy (σ k).pc coName) :
    ∃ j, k ≤ j ∧ ∃ x ∈ (σ j).pc coName, x.isOver = true := by
  obtain ⟨j, hkj, hfree⟩ := h.frees coName k
  have hends : ∀ j, k ≤ j →
      IsBusy (σ j).pc coName ∨ ∃ m, k ≤ m ∧ ∃ x ∈ (σ m).pc coName, x.isOver = true := by
    intro j hkj
    induction j, hkj using Nat.le_induction with
    | base => exact .inl hbusy
    | succ j hkj ih =>
      rcases ih with hbusy | hover
      · rcases (h.accounted j).busy_goes (h.upkeeps j) hbusy with hbusy | htop | hover
        · exact .inl hbusy
        · exact absurd htop (h.no_top hstalls coName (by omega))
        · exact .inr ⟨j + 1, by omega, hover⟩
      · exact .inr hover
  exact (hends j hkj).resolve_left hfree

/-- Every worker ends. -/
theorem worker_ends {coName : String} (hm : coName ∈ (σ i).world.submitted) :
    ∃ j, i ≤ j ∧ ∃ x ∈ (σ j).pc coName, x.isOver = true := by
  obtain ⟨k, hik, hpops⟩ := h.pops i
  rw [← h.submitted_lasts hstalls hik] at hm
  have hends : IsBusy (σ k).pc coName → ∃ j, i ≤ j ∧ ∃ x ∈ (σ j).pc coName, x.isOver = true := by
    intro hbusy
    obtain ⟨j, hkj, hover⟩ := h.busy_ends hstalls hik hbusy
    exact ⟨j, hik.trans hkj, hover⟩
  rcases (h.accounted k).where_at (h.kinds k) hpops.resting hm with hheld | hover
  · rcases held_at (h.kinds k) hheld with ⟨time, -, x, hx, htop | hbusy⟩ | hbusy
    · cases x with
      | top => exact absurd hx (h.no_top hstalls coName hik)
      | tasking | starved | suspending | blocking | failing | returned => cases htop
    · exact hends ⟨x, hx, hbusy⟩
    · exact hends hbusy
  · exact ⟨k, hik, hover⟩

theorem held_lasts : ∃ j, i ≤ j ∧ ∀ k, j ≤ k → (σ k).world.held = 0 := by
  obtain ⟨j, hij, hover⟩ := eventually_all
    (p := fun k coName => ∃ x ∈ (σ k).pc coName, x.isOver = true)
    (fun k coName hover => (h.accounted k).over_stays (h.upkeeps k) hover)
    fun coName hm => h.worker_ends hstalls hm
  refine ⟨j, hij, fun k hjk => (h.accounted k).held_eq (h.kinds k) ?_⟩
  rw [h.submitted_lasts hstalls (hij.trans hjk)]
  exact hover k hjk

/-- In the end the scheduler is called with no worker left, and makes one. -/
theorem no_stall : False := by
  obtain ⟨j, hij, hheld⟩ := h.held_lasts hstalls
  obtain ⟨k, hjk, hpops⟩ := h.pops j
  have hpop : (((σ k).world.sched ()).ready.popFront (σ k).world.queue).1 = none := by
    have hcontents := (((σ k).world.sched ()).ready.popFront_gives (σ k).world.queue).contents
    have hzero : (σ k).world.queue.contents = 0 :=
      Multiset.map_eq_zero.1 (add_eq_zero.1 (hheld k hjk)).1
    rw [hzero] at hcontents
    cases hco : (((σ k).world.sched ()).ready.popFront (σ k).world.queue).1 with
    | none => rfl
    | some co =>
      rw [hco] at hcontents
      have hsum := (add_eq_zero.1 hcontents.symm).1
      exact absurd hsum (Multiset.singleton_ne_zero co)
  have hidle := hpops.idles (h.runs.step k) hpop
  have hstays : ∀ m, k + 1 ≤ m → (σ m).world.phase () = .idle := by
    intro m hm
    induction m, hm using Nat.le_induction with
    | base => exact hidle
    | succ m hm ih =>
      by_contra hleft
      obtain ⟨hgrowing, hmax⟩ := h.grows m
      exact (h.accounted m).starts_worker (hheld m (by omega)) ih hleft (h.runs.step m) hgrowing
        hmax (hstalls.tasks m (by omega)) (h.submitted_stays hstalls (by omega))
  obtain ⟨m, hm, hpops'⟩ := h.pops (k + 1)
  have hpopping := hpops'.2
  rw [hstays m hm] at hpopping
  cases hpopping

omit hstalls

theorem queue_lasts {i k : Nat} (hik : i ≤ k)
    (hno : ∀ j, i ≤ j → j < k → (σ j).taken (act j) = none) :
    ∃ newer, ((σ k).pool ()).taskQueue = ((σ i).pool ()).taskQueue ++ newer := by
  induction k, hik using Nat.le_induction with
  | base => exact ⟨[], (List.append_nil _).symm⟩
  | succ k hik ih =>
    obtain ⟨newer, hnewer⟩ := ih fun j hij hjk => hno j hij (by omega)
    have huntaken : ∀ task, (σ k).taken (act k) ≠ some ((), task) := by
      intro task
      rw [hno k hik (by omega)]
      exact (Option.some_ne_none _).symm
    obtain ⟨newer', hnewer'⟩ := (step_drains (h.runs.step k)).keeps () huntaken
    exact ⟨newer ++ newer', by rw [hnewer', hnewer, List.append_assoc]⟩

/-- Where there are tasks the head of them is taken, and up to then others only come behind. -/
theorem head_taken {i : Nat} {task : String} {rest : List String}
    (htasks : ((σ i).pool ()).taskQueue = task :: rest) :
    ∃ j newer, i ≤ j ∧ (σ j).taken (act j) = some ((), task) ∧
      ((σ j).pool ()).taskQueue = task :: rest ++ newer ∧
      ((σ (j + 1)).pool ()).taskQueue = rest ++ newer := by
  have hsome : ∃ j, i ≤ j ∧ (σ j).taken (act j) ≠ none := by
    by_contra hnever
    have hno : ∀ j, i ≤ j → (σ j).taken (act j) = none := fun j hij => by
      by_contra htaken
      exact hnever ⟨j, hij, htaken⟩
    refine h.no_stall ⟨fun k hik => ?_, hno⟩
    obtain ⟨newer, hnewer⟩ := h.queue_lasts hik fun j hij _ => hno j hij
    rw [hnewer, htasks]
    exact List.cons_ne_nil _ _
  classical
  obtain ⟨hij, htaken⟩ := Nat.find_spec hsome
  obtain ⟨newer, hnewer⟩ := h.queue_lasts hij fun k hik hk => by
    by_contra hearlier
    exact Nat.find_min hsome hk ⟨hik, hearlier⟩
  rw [htasks] at hnewer
  obtain ⟨⟨p, task'⟩, htask'⟩ := Option.ne_none_iff_exists'.1 htaken
  have htakes := (step_drains (h.runs.step _)).takes () task' htask'
  rw [hnewer, List.cons_append, List.cons.injEq] at htakes
  obtain ⟨rfl, hrest⟩ := htakes
  exact ⟨_, newer, hij, htask', hnewer, hrest.symm⟩

/-- Each task of the queue is taken when it comes to be the head of it. -/
theorem task_taken {i m : Nat} {task : String} (hm : ((σ i).pool ()).taskQueue[m]? = some task) :
    ∃ j newer, i ≤ j ∧ (σ j).taken (act j) = some ((), task) ∧
      ((σ j).pool ()).taskQueue = ((σ i).pool ()).taskQueue.drop m ++ newer := by
  induction m generalizing i with
  | zero =>
    cases hq : ((σ i).pool ()).taskQueue with
    | nil =>
      rw [hq] at hm
      cases hm
    | cons head rest =>
      rw [hq, List.getElem?_cons_zero, Option.some.injEq] at hm
      obtain ⟨j, newer, hij, htaken, hj, -⟩ := h.head_taken hq
      exact ⟨j, newer, hij, hm ▸ htaken, hj⟩
  | succ m ih =>
    cases hq : ((σ i).pool ()).taskQueue with
    | nil =>
      rw [hq] at hm
      cases hm
    | cons head rest =>
      rw [hq, List.getElem?_cons_succ] at hm
      obtain ⟨j, newer, hij, -, -, hrest⟩ := h.head_taken hq
      have hlt : m < rest.length := (List.getElem?_eq_some_iff.1 hm).1
      have hm' : ((σ (j + 1)).pool ()).taskQueue[m]? = some task := by
        rw [hrest, List.getElem?_append_left hlt, hm]
      obtain ⟨k, newer', hjk, htaken, hk⟩ := ih hm'
      refine ⟨k, newer ++ newer', by omega, htaken, ?_⟩
      rw [hk, hrest, List.drop_append_of_le_length hlt.le, List.append_assoc, List.drop_succ_cons]

end Serves

/-- One pool with at most one worker at a time. -/
def solo : Pools Unit Unit 1 where
  world := World.single
  pool _ := { minSize := 0, maxSize := 1, keepAliveTime := 0 }
  stack _ := []

theorem solo_initial : solo.Initial where
  world := World.single_initial
  running _ := rfl
  workers _ := rfl
  decrements := rfl

/-- The worker takes both tasks, and returns. -/
def soloActs : List (Act Unit Unit) :=
  [.submit () "x", .submit () "y", .schedule () () 1000 "a" true, .turn () "" false,
    .turn () "" false, .turn () "" false, .work (), .work (), .work (), .work (), .work (),
    .work (), .turn () "" false]

theorem task_taken_second : ∃ (σ : Nat → Pools Unit Unit 1) (act : Nat → Act Unit Unit) (i : Nat),
    ((σ i).pool ()).taskQueue = ["x", "y"] ∧
      ∃ j newer, i ≤ j ∧ (σ j).taken (act j) = some ((), "y") ∧
        ((σ j).pool ()).taskQueue = "y" :: newer := by
  have hmono : Monotone World.everyTwenty := fun a b hab => Nat.mul_le_mul_left 20 hab
  obtain ⟨s, hrun, hco, hthread, hfinished, htasks, hpc, hgrowing, hmax⟩ : ∃ s : Pools Unit Unit 1,
      runGuarded (step World.everyTwenty) (Tended World.everyTwenty) solo soloActs = some s ∧
        (s.world.phase ()).co = 0 ∧ (s.world.phase ()).thread = some () ∧
        s.world.finished.map (fun co => co.name) = s.world.submitted ∧ (s.pool ()).taskQueue = [] ∧
        (∀ coName ∈ s.world.submitted, (s.pc coName).any WorkerPc.isBusy = false) ∧
        (s.pool ()).state.isGrowing = true ∧ 0 < (s.pool ()).maxSize.toNat :=
    ⟨_, rfl, rfl, rfl, rfl, rfl, by decide, rfl, by decide⟩
  have hacc : Accounted World.everyTwenty s 0 :=
    (Reaches.of_runGuarded soloActs hrun).invariant (p := fun s => Accounted World.everyTwenty s 0)
      solo_initial.accounted fun _ _ _ hi hok hs => hi.step hmono hok.1 hs
  have hquiet : s.Quiet World.everyTwenty := by
    refine ⟨⟨hacc.placed, fun t timeoutTime co hp => ?_⟩, ?_, htasks, fun hidle => ?_⟩
    · rw [hp] at hco
      exact absurd hco (Multiset.singleton_ne_zero co)
    · rw [names, Multiset.map_coe, hfinished]
    · rw [hidle] at hthread
      cases hthread
  obtain ⟨σ, act, hbegin, hruns, hpops, hlater⟩ :=
    exists_runs hmono soloActs hrun hquiet hgrowing hmax
  have hstart : solo = σ 0 := Option.some.inj (hbegin 0 (Nat.zero_le _))
  have hfree : ∀ coName, ¬ IsBusy s.pc coName := by
    rintro coName ⟨x, hx, hbusy⟩
    obtain ⟨w, hw, -⟩ := exists_worker hx
    have hidle := hpc coName (hacc.made coName w hw)
    rw [Option.mem_def.1 hx, Option.any_some, hbusy] at hidle
    cases hidle
  have hserves : Serves World.everyTwenty σ act := by
    refine ⟨⟨fun i => (hruns i).1, fun i => (hruns i).2.1⟩, hstart ▸ solo_initial,
      hstart ▸ World.single_tidy, hmono, fun time => ⟨time, ?_⟩, hpops, fun i => (hruns i).2.2.1,
      fun coName i => ⟨max i soloActs.length, Nat.le_max_left _ _, ?_⟩, fun i => (hruns i).2.2.2⟩
    · exact Nat.le_mul_of_pos_left time (by decide)
    · have hsame := hlater (max i soloActs.length) (Nat.le_max_right _ _)
      show ¬ IsBusy (σ (max i soloActs.length)).pc coName
      rw [hsame]
      exact hfree coName
  have hqueue : ((σ 2).pool ()).taskQueue = ["x", "y"] := by
    have hsecond := hbegin 2 (by decide)
    have htwo : (run (step World.everyTwenty) solo (soloActs.take 2)).map
        (fun s => (s.pool ()).taskQueue) = some ["x", "y"] := rfl
    rw [hsecond] at htwo
    exact Option.some.inj htwo
  have hm : ((σ 2).pool ()).taskQueue[1]? = some "y" := by rw [hqueue]; rfl
  obtain ⟨j, newer, hij, htaken, hj⟩ := hserves.task_taken hm
  rw [hqueue] at hj
  exact ⟨σ, act, 2, hqueue, j, newer, hij, htaken, hj⟩

end Pools

end OpenCoroutine
