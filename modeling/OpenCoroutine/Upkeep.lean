import OpenCoroutine.Accounting

/-! Where the workers of the pools are in their bodies, and what one step changes of it. -/

namespace OpenCoroutine

open Function Transition

namespace WorkerPc

variable {ι : Type*}

def isTop : WorkerPc ι → Bool
  | top => true
  | _ => false

/-- In a task, or waiting with its thread for the next one. -/
def isBusy : WorkerPc ι → Bool
  | tasking _ _ | blocking _ => true
  | _ => false

/-- The body does not come back to its loop. -/
def isOver : WorkerPc ι → Bool
  | failing _ | returned => true
  | _ => false

end WorkerPc

namespace Pools

variable {ι θ : Type*} {n : Nat} {now : Nat → Nat}

def pc (s : Pools ι θ n) (coName : String) : Option (WorkerPc ι) :=
  (s.workers coName).map fun w => w.pc

/-- The head of the queue of pool `p`. -/
def nextTask (s : Pools ι θ n) (p : ι) : Option (ι × String) :=
  (s.pool p).taskQueue.head?.map fun task => (p, task)

/-- The task that a step takes out of the queue of a pool. -/
def taken (s : Pools ι θ n) : Act ι θ → Option (ι × String)
  | .tryRun p => s.nextTask p
  | .work p =>
    (s.world.running p).bind fun r =>
      if (s.pc r.2.2.name).any WorkerPc.isTop then (s.current r.1).bind s.nextTask else none
  | _ => none

theorem pc_eq {s : Pools ι θ n} {coName : String} {w : WorkerBody ι}
    (hw : s.workers coName = some w) : s.pc coName = some w.pc := by
  rw [pc, hw]
  rfl

theorem exists_worker {s : Pools ι θ n} {coName : String} {pc : WorkerPc ι}
    (h : s.pc coName = some pc) : ∃ w, s.workers coName = some w ∧ w.pc = pc :=
  Option.map_eq_some_iff.1 h

theorem pc_setWorker (s : Pools ι θ n) (coName : String) (w : WorkerBody ι) :
    (s.setWorker coName w).pc = update s.pc coName (some w.pc) := by
  funext coName'
  by_cases hn : coName' = coName
  · rw [hn, update_self, pc, setWorker_self]
    rfl
  · rw [update_of_ne hn, pc, setWorker_ne _ hn, pc]

theorem taken_work {s : Pools ι θ n} {p : ι} {t : θ} {timeoutTime : Nat} {co : Co}
    {pc : WorkerPc ι} (hr : s.world.running p = some (t, timeoutTime, co))
    (hpc : s.pc co.name = some pc) :
    s.taken (.work p) = if pc.isTop then (s.current t).bind s.nextTask else none := by
  simp only [taken, hr, Option.bind_some, hpc, Option.any_some]

/-- How the body of a worker goes on in a step. -/
inductive Shifts (s : Pools ι θ n) (a : Act ι θ) (t : θ) : WorkerPc ι → WorkerPc ι → Prop where
  | stays {pc : WorkerPc ι} (hpc : pc.isTop = false) : Shifts s a t pc pc
  | noPool {message : String} (hcurrent : s.current t = none) : Shifts s a t .top (.failing message)
  | findsNone {q : ι} (hcurrent : s.current t = some q) (htasks : (s.pool q).taskQueue = []) :
    Shifts s a t .top (.starved q)
  | takes {q : ι} {task : String} (htaken : s.taken a = some (q, task)) :
    Shifts s a t .top (.tasking q task)
  | clashes {q : ι} {task message : String} : Shifts s a t (.tasking q task) (.failing message)
  | finishes {q : ι} {task : String} : Shifts s a t (.tasking q task) .top
  | traps {q : ι} {task : String} : Shifts s a t (.tasking q task) .returned
  | recycled {q : ι} : Shifts s a t (.starved q) .returned
  | waits {q : ι} : Shifts s a t (.starved q) .suspending
  | blocks {q : ι} : Shifts s a t (.starved q) (.blocking q)
  | gives : Shifts s a t .suspending .top
  | wakes {q : ι} : Shifts s a t (.blocking q) .top
  | panics {message : String} : Shifts s a t (.failing message) .returned

theorem leave_shifts (s : Pools ι θ n) (a : Act ι θ) (t : θ) {o : Leave Unit Unit}
    {pc pc' : WorkerPc ι} (h : pc.leave o = some pc') : Shifts s a t pc pc' := by
  cases pc with
  | top | starved | returned => cases h
  | tasking q task =>
    cases o with
    | suspendWith | untilWith => exact Option.some.inj h ▸ .stays rfl
    | traps => exact Option.some.inj h ▸ .traps
    | returns | panics => cases h
  | suspending =>
    cases o with
    | suspendWith => exact Option.some.inj h ▸ .gives
    | untilWith | returns | panics | traps => cases h
  | blocking q =>
    cases o with
    | suspendWith | untilWith => exact Option.some.inj h ▸ .stays rfl
    | returns | panics | traps => cases h
  | failing message =>
    cases o with
    | panics =>
      rw [WorkerPc.leave, Option.ite_none_right_eq_some] at h
      exact Option.some.inj h.2 ▸ .panics
    | suspendWith | untilWith | returns | traps => cases h

/-- The workers are where they were in their bodies, and at most one is new, at the top of its
loop. -/
inductive Grown (s s' : Pools ι θ n) : Prop where
  | keeps (hpc : s'.pc = s.pc) (hsub : s'.world.submitted = s.world.submitted)
  | bears {coName : String} (hnew : coName ∉ s.world.submitted)
    (hpc : s'.pc = update s.pc coName (some .top))
    (hsub : s'.world.submitted = coName :: s.world.submitted)

/-- A step leaves the workers where they are in their bodies, makes a new one, or goes on with the
one that runs. -/
inductive Upkeeps (s : Pools ι θ n) (a : Act ι θ) (s' : Pools ι θ n) : Prop where
  | grows (h : s.Grown s')
  | shifts {p : ι} {t : θ} {timeoutTime : Nat} {co : Co} {pc pc' : WorkerPc ι}
    (hr : s.world.running p = some (t, timeoutTime, co)) (hold : s.pc co.name = some pc)
    (hshifts : Shifts s a t pc pc') (hpc : s'.pc = update s.pc co.name (some pc'))
    (hsub : s'.world.submitted = s.world.submitted)

section

variable {s s₁ s' s'' : Pools ι θ n} {a : Act ι θ}

/-- Before and after it, the workers stay where they are. -/
theorem Grown.between (h : s₁.Grown s') (hpc₁ : s₁.pc = s.pc)
    (hsub₁ : s₁.world.submitted = s.world.submitted) (hpc : s''.pc = s'.pc)
    (hsub : s''.world.submitted = s'.world.submitted) : s.Grown s'' := by
  cases h with
  | keeps hpc' hsub' => exact .keeps (hpc.trans (hpc'.trans hpc₁)) (hsub.trans (hsub'.trans hsub₁))
  | bears hnew hpc' hsub' =>
    rw [hsub₁] at hnew hsub'
    rw [hpc₁] at hpc'
    exact .bears hnew (hpc.trans hpc') (hsub.trans hsub')

variable [DecidableEq ι] [DecidableEq θ]

theorem grow_grown {p : ι} {shouldGrow created grown : Bool} {uuid : String}
    (hnew : created = true → (s.world.sched p).name ++ "|" ++ uuid ∉ s.world.submitted)
    (h : s.grow now p shouldGrow uuid created = some (grown, s')) : s.Grown s' := by
  cases grows h with
  | stays => exact .keeps rfl rfl
  | fails => exact .keeps rfl rfl
  | grows hgrow hmax hw =>
    rw [World.step_submit, Option.some.injEq] at hw
    subst hw
    exact .bears (hnew rfl) (pc_setWorker _ _ _) rfl

theorem listen_grown {t : θ} {co : Co} {result : CoroutineState Unit Unit} {created : Bool}
    {uuid : String}
    (hnew : created = true → ∀ q, (s.world.sched q).name ++ "|" ++ uuid ∉ s.world.submitted)
    (h : s.listen now t co result uuid created = some s') : s.Grown s' := by
  cases listens h with
  | passes => exact .keeps rfl rfl
  | grows hcurrent hresult hg => exact grow_grown (fun hc => hnew hc _) hg
  | @errs q message grown _ hcurrent hresult hg =>
    have hgrown := grow_grown (s := s.decrement q _ _) (fun hc => hnew hc q) hg
    exact hgrown.between rfl rfl rfl rfl

variable [Fintype ι]

theorem advance_grown (hmono : Monotone now) (hplaced : s.world.Placed now) {p : ι}
    (h : s.advance now p = some s') : s'.pc = s.pc ∧ s'.world.submitted = s.world.submitted := by
  obtain ⟨world, hw, hends⟩ := advance_cases h
  have hsub := (hplaced.turned hmono hw).submitted
  obtain rfl | ⟨t, -, -, rfl⟩ := hends
  · exact ⟨rfl, hsub⟩
  · exact ⟨rfl, hsub⟩

omit [Fintype ι] in
theorem work_upkeeps {p : ι} {t : θ} {timeoutTime : Nat} {co : Co} {w : WorkerBody ι}
    (hr : s.world.running p = some (t, timeoutTime, co)) (hw : s.workers co.name = some w)
    (hs : s.work now p t co w = some s') : s.Upkeeps (.work p) s' := by
  have hold := pc_eq hw
  cases works hs with
  | noPool hpc hcurrent =>
    rw [hpc] at hold
    exact .shifts hr hold (.noPool hcurrent) (pc_setWorker _ _ _) rfl
  | findsNone hpc hcurrent htasks =>
    rw [hpc] at hold
    exact .shifts hr hold (.findsNone hcurrent htasks) (pc_setWorker _ _ _) rfl
  | @takes q task taskQueue hpc hcurrent htasks =>
    rw [hpc] at hold
    have htaken : s.taken (.work p) = some (q, task) := by
      rw [taken_work hr hold, hcurrent]
      simp only [WorkerPc.isTop, if_true, Option.bind_some, nextTask, htasks, List.head?_cons,
        Option.map_some]
    exact .shifts hr hold (.takes htaken) (pc_setWorker _ _ _) rfl
  | clashes hpc hresult =>
    rw [hpc] at hold
    exact .shifts hr hold .clashes (pc_setWorker _ _ _) rfl
  | finishes hpc hresult =>
    rw [hpc] at hold
    exact .shifts hr hold .finishes (pc_setWorker _ _ _) rfl
  | recycled hpc hrecycles hl =>
    rw [hpc] at hold
    obtain ⟨world, hworld, rfl⟩ := lift_eq hl
    obtain ⟨t', timeoutTime', co', -, rfl⟩ := World.step_leave hworld
    exact .shifts hr hold .recycled (pc_setWorker _ _ _) rfl
  | @waits q pc hpc hrecycles hnext =>
    rw [hpc] at hold
    have hshifts : Shifts s (.work p) t (.starved q) pc := by
      rw [hnext]
      split
      · exact .waits
      · exact .blocks
    exact .shifts hr hold hshifts (pc_setWorker _ _ _) rfl
  | wakes hpc =>
    rw [hpc] at hold
    exact .shifts hr hold .wakes (pc_setWorker _ _ _) rfl

theorem schedule_grown {p : ι} {t : θ} {timeoutTime : Nat} {created : Bool} {uuid : String}
    (hok : s.Homed now (.schedule p t timeoutTime uuid created))
    (hs : s.step now (.schedule p t timeoutTime uuid created) = some s') : s.Grown s' := by
  have hgrown : ∀ grown s₁,
      ((s.setPool p { s.pool p with scheduling := true }).setStack t (p :: s.stack t)).grow now p
        (s.pool p).state.isGrowing uuid created = some (grown, s₁) → s.Grown s₁ := by
    intro grown s₁ hg
    have hset := grow_grown (s := (s.setPool p _).setStack t _) hok hg
    exact hset.between rfl rfl rfl rfl
  cases (step_schedule hs).2 with
  | already => exact .keeps rfl rfl
  | fails hg =>
    have hset := hgrown _ _ hg
    exact hset.between rfl rfl rfl rfl
  | starts hg hl =>
    obtain ⟨world, hw, rfl⟩ := lift_eq hl
    obtain ⟨-, rfl⟩ := World.step_schedule hw
    have hset := hgrown _ _ hg
    exact hset.between rfl rfl rfl rfl

theorem Accounted.upkeeps (hmono : Monotone now) (h : Accounted now s 0) (hok : s.Homed now a)
    (hs : s.step now a = some s') : s.Upkeeps a s' := by
  cases a with
  | submit | tryGetResult | changeState | setMinSize | setMaxSize | setKeepAliveTime =>
    simp only [Pools.step, Option.some.injEq] at hs
    subst hs
    exact .grows (.keeps rfl rfl)
  | tryRun p =>
    obtain rfl | ⟨taskQueue, results, rfl⟩ := step_tryRun hs
    · exact .grows (.keeps rfl rfl)
    · exact .grows (.keeps rfl rfl)
  | tryResume p coName =>
    obtain ⟨world, hw, rfl⟩ := lift_eq hs
    obtain ⟨panics, rfl⟩ := World.step_tryResume hw
    exact .grows (.keeps rfl rfl)
  | schedule p t timeoutTime uuid created => exact .grows (schedule_grown hok hs)
  | turn p uuid created =>
    rcases step_turn hs with ⟨t, timeoutTime, co, result, s₁, hp, hl, ha⟩ | ⟨-, ha⟩
    · obtain ⟨hpc, hsub⟩ := advance_grown hmono (h.listen hmono hp hok.1 hok.2 hl).1.placed ha
      exact .grows ((listen_grown hok.1 hl).between rfl rfl hpc hsub)
    · obtain ⟨hpc, hsub⟩ := advance_grown hmono h.placed ha
      exact .grows (.keeps hpc hsub)
  | call p k =>
    obtain ⟨t, timeoutTime, co, w, -, -, -, hl⟩ := step_call hs
    obtain ⟨world, hw, rfl⟩ := lift_eq hl
    obtain ⟨t', timeoutTime', co', -, rfl⟩ := World.step_call hw
    exact .grows (.keeps rfl rfl)
  | leave p o =>
    obtain ⟨t, timeoutTime, co, w, pc, hr, hw, hpc, hl⟩ := step_leave hs
    obtain ⟨world, hworld, rfl⟩ := lift_eq hl
    obtain ⟨t', timeoutTime', co', -, rfl⟩ := World.step_leave hworld
    exact .shifts hr (pc_eq hw) (leave_shifts s _ t hpc) (pc_setWorker _ _ _) rfl
  | work p =>
    obtain ⟨t, timeoutTime, co, w, hr, hw, hs⟩ := step_work hs
    exact work_upkeeps hr hw hs

end

section

variable {s s' : Pools ι θ n} {a : Act ι θ} [DecidableEq ι] [Fintype ι]

theorem Accounted.no_pc {x : Multiset String} (h : Accounted now s x) {coName : String}
    (hnew : coName ∉ s.world.submitted) : s.pc coName = none := by
  rw [pc, Option.map_eq_none_iff]
  by_contra hsome
  obtain ⟨w, hw⟩ := Option.ne_none_iff_exists'.1 hsome
  exact hnew (h.made coName w hw)

/-- A worker stays where it is in its body, or is the one that goes on. -/
theorem Accounted.goes (h : Accounted now s 0) (hup : s.Upkeeps a s') {coName : String}
    {pc : WorkerPc ι} (hpc : s.pc coName = some pc) :
    s'.pc coName = some pc ∨
      ∃ p t pc', s.current t = some p ∧ Shifts s a t pc pc' ∧ s'.pc coName = some pc' := by
  cases hup with
  | grows hgrown =>
    cases hgrown with
    | keeps hsame => exact .inl (hsame ▸ hpc)
    | @bears coName' hnew hpc' =>
      have hne : coName ≠ coName' := by
        rintro rfl
        rw [h.no_pc hnew] at hpc
        cases hpc
      rw [hpc', update_of_ne hne]
      exact .inl hpc
  | @shifts p t timeoutTime co pc₀ pc' hr hold hshifts hpc' =>
    by_cases hn : coName = co.name
    · rw [hn, hold, Option.some.injEq] at hpc
      have hcurrent : s.current t = some p :=
        h.current p t (by rw [World.running_eq hr]; rfl)
      rw [hn, hpc', update_self]
      exact .inr ⟨p, t, pc', hcurrent, hpc ▸ hshifts, rfl⟩
    · rw [hpc', update_of_ne hn]
      exact .inl hpc

theorem Accounted.over_stays (h : Accounted now s 0) (hup : s.Upkeeps a s') {coName : String}
    (hover : ∃ pc ∈ s.pc coName, pc.isOver = true) : ∃ pc ∈ s'.pc coName, pc.isOver = true := by
  obtain ⟨pc, hpc, hover⟩ := hover
  rcases h.goes hup hpc with hpc' | ⟨p, t, pc', -, hshifts, hpc'⟩
  · exact ⟨pc, hpc', hover⟩
  · refine ⟨pc', hpc', ?_⟩
    cases hshifts with
    | stays => exact hover
    | panics => rfl
    | noPool | findsNone | takes | clashes | finishes | traps | recycled | waits | blocks | gives
    | wakes => cases hover

/-- What is busy is busy afterwards, or comes back to its loop, or ends. -/
theorem Accounted.busy_goes (h : Accounted now s 0) (hup : s.Upkeeps a s') {coName : String}
    (hbusy : ∃ pc ∈ s.pc coName, pc.isBusy = true) :
    (∃ pc ∈ s'.pc coName, pc.isBusy = true) ∨ s'.pc coName = some .top ∨
      ∃ pc ∈ s'.pc coName, pc.isOver = true := by
  obtain ⟨pc, hpc, hbusy⟩ := hbusy
  rcases h.goes hup hpc with hpc' | ⟨p, t, pc', -, hshifts, hpc'⟩
  · exact .inl ⟨pc, hpc', hbusy⟩
  · cases hshifts with
    | stays => exact .inl ⟨pc, hpc', hbusy⟩
    | finishes | wakes => exact .inr (.inl hpc')
    | clashes | traps => exact .inr (.inr ⟨_, hpc', rfl⟩)
    | noPool | findsNone | takes | recycled | waits | gives | panics | blocks => cases hbusy

/-- A worker at the top of its loop stays there while no task is taken and there are some. -/
theorem Accounted.top_stays (h : Accounted now s 0) (hup : s.Upkeeps a s')
    (hno : s.taken a = none) (htasks : ∀ p, (s.pool p).taskQueue ≠ []) {coName : String}
    (htop : s.pc coName = some .top) : s'.pc coName = some .top := by
  rcases h.goes hup htop with hpc' | ⟨p, t, pc', hcurrent, hshifts, hpc'⟩
  · exact hpc'
  · cases hshifts with
    | stays hpc => cases hpc
    | noPool hnone =>
      rw [hcurrent] at hnone
      cases hnone
    | findsNone hq hnil => exact absurd hnil (htasks _)
    | takes htaken =>
      rw [hno] at htaken
      cases htaken

end

/-! What a step changes of the phase of a scheduler and of the queue of a pool. -/

section

variable {s s' : Pools ι θ n} {a : Act ι θ} [DecidableEq ι] [DecidableEq θ]

omit [DecidableEq θ] in
theorem setPool_queue {p : ι} {pool : CoroutinePoolImpl}
    (hp : pool.taskQueue = (s.pool p).taskQueue) (q : ι) :
    ((s.setPool p pool).pool q).taskQueue = (s.pool q).taskQueue := by
  by_cases hq : q = p
  · rw [hq, setPool_self, hp]
  · rw [setPool_ne _ hq]

/-- What a step takes is the head of its queue. Otherwise a queue only gets longer. -/
structure Drains (s : Pools ι θ n) (a : Act ι θ) (s' : Pools ι θ n) : Prop where
  takes : ∀ p task, s.taken a = some (p, task) →
    (s.pool p).taskQueue = task :: (s'.pool p).taskQueue
  keeps : ∀ p, (∀ task, s.taken a ≠ some (p, task)) →
    ∃ newer, (s'.pool p).taskQueue = (s.pool p).taskQueue ++ newer

omit [DecidableEq θ] [DecidableEq ι] in
theorem Drains.of_none (htaken : s.taken a = none) (hqueue : ∀ p, ∃ newer,
    (s'.pool p).taskQueue = (s.pool p).taskQueue ++ newer) : Drains s a s' where
  takes p task ht := by
    rw [htaken] at ht
    cases ht
  keeps p _ := hqueue p

omit [DecidableEq θ] [DecidableEq ι] in
theorem Drains.of_head {p : ι} {task : String} {taskQueue : List String}
    (hqueue : (s.pool p).taskQueue = task :: taskQueue) (htaken : s.taken a = some (p, task))
    (hself : (s'.pool p).taskQueue = taskQueue)
    (hother : ∀ q, q ≠ p → (s'.pool q).taskQueue = (s.pool q).taskQueue) : Drains s a s' where
  takes q task' ht := by
    rw [htaken] at ht
    cases ht
    rw [hself, hqueue]
  keeps q hno := by
    have hq : q ≠ p := by
      rintro rfl
      exact hno task htaken
    exact ⟨[], by rw [hother q hq, List.append_nil]⟩

theorem grow_phase {p : ι} {shouldGrow created grown : Bool} {uuid : String}
    (h : s.grow now p shouldGrow uuid created = some (grown, s')) :
    s'.world.phase = s.world.phase ∧
      ∀ q, (s'.pool q).taskQueue = (s.pool q).taskQueue := by
  cases grows h with
  | stays => exact ⟨rfl, fun _ => rfl⟩
  | fails => exact ⟨rfl, fun _ => rfl⟩
  | grows hgrow hmax hw =>
    rw [World.step_submit, Option.some.injEq] at hw
    subst hw
    refine ⟨rfl, fun q => ?_⟩
    by_cases hq : q = p
    · rw [hq, setPool_self]
    · rw [setPool_ne _ hq]
      rfl

theorem listen_queue {t : θ} {co : Co} {result : CoroutineState Unit Unit} {created : Bool}
    {uuid : String} (h : s.listen now t co result uuid created = some s') (p : ι) :
    (s'.pool p).taskQueue = (s.pool p).taskQueue := by
  cases listens h with
  | passes => rfl
  | grows hcurrent hresult hg => exact (grow_phase hg).2 p
  | @errs q message grown _ hcurrent hresult hg =>
    rw [(grow_phase hg).2 p]
    exact setPool_queue (by rfl) p

theorem advance_queue {p : ι} (h : s.advance now p = some s') (q : ι) :
    (s'.pool q).taskQueue = (s.pool q).taskQueue := by
  obtain ⟨world, -, rfl | ⟨t, -, -, rfl⟩⟩ := advance_cases h
  · rfl
  · exact setPool_queue (by rfl) q

theorem work_queue {p : ι} {t : θ} {timeoutTime : Nat} {co : Co} {w : WorkerBody ι}
    (hr : s.world.running p = some (t, timeoutTime, co)) (hw : s.workers co.name = some w)
    (hs : s.work now p t co w = some s') : Drains s (.work p) s' := by
  have hold := pc_eq hw
  have hidle : w.pc.isTop = false → s.taken (.work p) = none := by
    intro htop
    rw [taken_work hr hold, htop]
    rfl
  have hsame : ∀ {q : ι} {pool : CoroutinePoolImpl}, pool.taskQueue = (s.pool q).taskQueue →
      ∀ r, ∃ newer, ((s.setPool q pool).pool r).taskQueue = (s.pool r).taskQueue ++ newer :=
    fun hp r => ⟨[], by rw [setPool_queue hp r, List.append_nil]⟩
  cases works hs with
  | noPool hpc hcurrent =>
    refine .of_none ?_ fun r => ⟨[], (List.append_nil _).symm⟩
    rw [taken_work hr hold, hcurrent]
    exact ite_self _
  | findsNone hpc hcurrent htasks =>
    refine .of_none ?_ fun r => ⟨[], (List.append_nil _).symm⟩
    rw [taken_work hr hold, hcurrent, Option.bind_some, nextTask, htasks]
    exact ite_self _
  | @takes q task taskQueue hpc hcurrent htasks =>
    refine .of_head htasks ?_ ?_ fun r hne => ?_
    · rw [taken_work hr hold, hcurrent, Option.bind_some, nextTask, htasks, hpc]
      rfl
    · show ((s.setPool q _).pool q).taskQueue = taskQueue
      rw [setPool_self]
    · show ((s.setPool q _).pool r).taskQueue = _
      rw [setPool_ne _ hne]
  | clashes hpc => exact .of_none (hidle (by rw [hpc]; rfl)) fun r => ⟨[], (List.append_nil _).symm⟩
  | finishes hpc | wakes hpc => exact .of_none (hidle (by rw [hpc]; rfl)) (hsame (by rfl))
  | recycled hpc hrecycles hl =>
    obtain ⟨world, -, rfl⟩ := lift_eq hl
    exact .of_none (hidle (by rw [hpc]; rfl)) (hsame (by rfl))
  | waits hpc => exact .of_none (hidle (by rw [hpc]; rfl)) (hsame (by rfl))

variable [Fintype ι]

theorem schedule_queue {p : ι} {t : θ} {timeoutTime : Nat} {created : Bool} {uuid : String}
    (hs : s.step now (.schedule p t timeoutTime uuid created) = some s') (q : ι) :
    (s'.pool q).taskQueue = (s.pool q).taskQueue := by
  have hset : ∀ r, ((s.setPool p { s.pool p with scheduling := true }).pool r).taskQueue =
      (s.pool r).taskQueue := setPool_queue (by rfl)
  cases (step_schedule hs).2 with
  | already => rfl
  | fails hg =>
    have hgrow := (grow_phase hg).2 q
    exact (setPool_queue (by rfl) q).trans (hgrow.trans (hset q))
  | starts hg hl =>
    obtain ⟨world, -, rfl⟩ := lift_eq hl
    have hgrow := (grow_phase hg).2 q
    exact hgrow.trans (hset q)

theorem step_drains (hs : s.step now a = some s') : Drains s a s' := by
  cases a with
  | submit p task =>
    simp only [Pools.step, Option.some.injEq] at hs
    subst hs
    refine .of_none rfl fun q => ?_
    by_cases hq : q = p
    · exact ⟨[task], by rw [hq, setPool_self]⟩
    · exact ⟨[], by rw [setPool_ne _ hq, List.append_nil]⟩
  | tryGetResult | changeState | setMinSize | setMaxSize | setKeepAliveTime =>
    simp only [Pools.step, Option.some.injEq] at hs
    subst hs
    exact .of_none rfl fun q => ⟨[], (setPool_queue (by rfl) q).trans (List.append_nil _).symm⟩
  | tryRun p =>
    simp only [Pools.step] at hs
    split at hs
    · rename_i hnil
      rw [← Option.some.inj hs]
      refine .of_none ?_ fun q => ⟨[], (List.append_nil _).symm⟩
      rw [taken, nextTask, hnil]
      rfl
    · rename_i task taskQueue hcons
      rw [← Option.some.inj hs]
      refine .of_head hcons ?_ (by rw [setPool_self]) fun q hq => by rw [setPool_ne _ hq]
      rw [taken, nextTask, hcons]
      rfl
  | tryResume p coName =>
    obtain ⟨world, -, rfl⟩ := lift_eq hs
    exact .of_none rfl fun q => ⟨[], (List.append_nil _).symm⟩
  | call p k =>
    obtain ⟨t, timeoutTime, co, w, -, -, -, hl⟩ := step_call hs
    obtain ⟨world, -, rfl⟩ := lift_eq hl
    exact .of_none rfl fun q => ⟨[], (List.append_nil _).symm⟩
  | leave p o =>
    obtain ⟨t, timeoutTime, co, w, pc, -, -, -, hl⟩ := step_leave hs
    obtain ⟨world, -, rfl⟩ := lift_eq hl
    exact .of_none rfl fun q => ⟨[], (List.append_nil _).symm⟩
  | schedule p t timeoutTime uuid created =>
    exact .of_none rfl fun q => ⟨[], by rw [schedule_queue hs q, List.append_nil]⟩
  | turn p uuid created =>
    refine .of_none rfl fun q => ⟨[], ?_⟩
    rw [List.append_nil]
    rcases step_turn hs with ⟨t, timeoutTime, co, result, s₁, -, hl, ha⟩ | ⟨-, ha⟩
    · rw [advance_queue ha q, listen_queue hl q]
    · rw [advance_queue ha q]
  | work p =>
    obtain ⟨t, timeoutTime, co, w, hr, hw, hs⟩ := step_work hs
    exact work_queue hr hw hs

end

end Pools

end OpenCoroutine
