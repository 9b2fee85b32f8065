import OpenCoroutine.Accounting
import OpenCoroutine.EarlyTimeout
import OpenCoroutine.Kinds

/-! One pool on one thread, with the signals of the monitor. `sigurg_handler` suspends the
coroutine that runs wherever its body is, and so also a worker that is about to be recycled:
it has read the counter and has still to store it, or has stored it and has still to
return. A worker goes on where the handler has suspended it. -/

namespace OpenCoroutine

open Function Transition

/-- What a worker that has decided to return has read of its pool. -/
inductive Recycling where
  | storing (recycle : Bool) (running : Nat)
  | returning
  deriving DecidableEq, Repr

structure OnePool (n : Nat) where
  pools : Pools Unit Unit n
  recycling : String → Option Recycling := fun _ => none
  preempted : String → Option (WorkerPc Unit) := fun _ => none

namespace OnePool

inductive Act where
  | pools (a : Pools.Act Unit Unit)
  | read
  | store
  | finish
  | sigurgHandler
  | goOn

variable {n : Nat}

def pool (s : OnePool n) : CoroutinePoolImpl := s.pools.pool ()

/-- The worker that runs. -/
def worker (s : OnePool n) : Option Co := (s.pools.world.running ()).map fun r => r.2.2

def isFree (s : OnePool n) (co : Co) : Bool :=
  (s.recycling co.name).isNone && (s.preempted co.name).isNone

variable (now : Nat → Nat)

/-- A worker that is about to be recycled or has been suspended by the handler takes none of
the steps of the pools, and none recycles a worker. -/
def admits (s : OnePool n) : Pools.Act Unit Unit → Bool
  | .call .. | .leave .. => s.worker.all s.isFree
  | .work _ => s.worker.all s.isFree && (s.pools.recycled now ()).isNone
  | _ => true

def step (s : OnePool n) : Act → Option (OnePool n)
  | .pools a =>
    if s.admits now a then (s.pools.step now a).map fun pools => { s with pools } else none
  | .read =>
    (s.pools.recycled now ()).bind fun co =>
      if s.isFree co then
        some { s with
          pools := s.pools.tick
          recycling := update s.recycling co.name
            (some (.storing (!s.pool.state.isGrowing) s.pool.running)) }
      else none
  | .store =>
    s.worker.bind fun co => (s.pools.workers co.name).bind fun w =>
      match s.recycling co.name, s.preempted co.name with
      | some (.storing _ running), none =>
        some { s with
          pools := (s.pools.setWorker co.name { w with pc := .returned }).decrement () co.name
            (running - 1)
          recycling := update s.recycling co.name (some .returning) }
      | _, _ => none
  | .finish =>
    s.worker.bind fun co =>
      match s.recycling co.name, s.preempted co.name with
      | some .returning, none =>
        (s.pools.lift now (.leave () (.returns ()))).map fun pools =>
          { s with pools, recycling := update s.recycling co.name none }
      | _, _ => none
  | .sigurgHandler =>
    (s.pools.world.running ()).bind fun (t, _, co) => (s.pools.workers co.name).bind fun w =>
      if (s.pools.world.locals t).suspender ≠ [] ∧ (s.preempted co.name).isNone = true then
        ((s.pools.setWorker co.name { w with pc := .top }).lift now
          (.leave () (.suspendWith ()))).map fun pools =>
            { s with pools, preempted := update s.preempted co.name (some w.pc) }
      else none
  | .goOn =>
    s.worker.bind fun co => (s.preempted co.name).bind fun pc =>
      (s.pools.workers co.name).map fun w =>
        { s with
          pools := s.pools.setWorker co.name { w with pc }
          preempted := update s.preempted co.name none }

/-- The sizes stay as they are, the names are all different, and a worker yields in state
`Running` or `SystemCall` and ends in state `Running`. -/
def Allowed (s : OnePool n) : Act → Prop
  | .pools (.schedule _ _ _ uuid created) | .pools (.turn _ uuid created) =>
    created = true → (s.pools.world.sched ()).name ++ "|" ++ uuid ∉ s.pools.world.submitted
  | .pools (.leave p o) => s.pools.world.Disciplined (.leave p o)
  | .pools (.setMinSize ..) | .pools (.setMaxSize ..) => False
  | .finish => ∀ co ∈ s.worker, co.state = .running
  | .sigurgHandler => ∀ co ∈ s.worker, co.MayLeave (.suspendWith ())
  | _ => True

instance (s : OnePool n) : (a : Act) → Decidable (s.Allowed a)
  | .pools (.schedule _ _ _ uuid created) | .pools (.turn _ uuid created) =>
    inferInstanceAs (Decidable (created = true →
      (s.pools.world.sched ()).name ++ "|" ++ uuid ∉ s.pools.world.submitted))
  | .pools (.leave p o) => inferInstanceAs (Decidable (s.pools.world.Disciplined (.leave p o)))
  | .pools (.setMinSize ..) | .pools (.setMaxSize ..) => isFalse id
  | .finish => inferInstanceAs (Decidable (∀ co ∈ s.worker, co.state = .running))
  | .sigurgHandler =>
    inferInstanceAs (Decidable (∀ co ∈ s.worker, co.MayLeave (.suspendWith ())))
  | .pools (.submit ..) | .pools (.tryGetResult ..) | .pools (.tryRun ..)
  | .pools (.changeState ..) | .pools (.setKeepAliveTime ..) | .pools (.tryResume ..)
  | .pools (.call ..) | .pools (.work ..) | .read | .store | .goOn => isTrue trivial

/-- The handler suspends no worker between its reading of the counter and its return. -/
def Whole (s : OnePool n) : Act → Prop
  | .sigurgHandler => ∀ co ∈ s.worker, s.recycling co.name = none
  | _ => True

instance (s : OnePool n) : (a : Act) → Decidable (s.Whole a)
  | .sigurgHandler =>
    inferInstanceAs (Decidable (∀ co ∈ s.worker, s.recycling co.name = none))
  | .pools _ | .read | .store | .finish | .goOn => isTrue trivial

end OnePool

/-! What the steps of the pools keep besides. -/

theorem Phase.mem_of_failed {θ : Type*} {phase : Phase θ} {co : Co} (h : co ∈ phase.failed) :
    co ∈ phase.co := by
  unfold Phase.failed at h
  split at h
  · rw [← Option.some.inj h]
    exact Multiset.mem_singleton_self _
  · cases h

namespace World

variable {ι θ : Type*} {n : Nat} [Fintype ι] [DecidableEq ι] [DecidableEq θ] {now : Nat → Nat}

theorem Placed.step_submitted (hmono : Monotone now) {s s' : World ι θ n} (h : s.Placed now)
    {a : Act ι θ} (hok : s.Disciplined a) (hs : s.step now a = some s')
    (ha : ∀ i uuid created, a ≠ .submit i uuid created) : s'.submitted = s.submitted := by
  cases a with
  | submit i uuid created => exact absurd rfl (ha i uuid created)
  | tryResume i coName =>
    obtain ⟨panics, rfl⟩ := World.step_tryResume hs
    rfl
  | schedule i t timeoutTime =>
    obtain ⟨-, rfl⟩ := World.step_schedule hs
    rfl
  | turn i => exact (h.turned hmono hs).submitted
  | call i k =>
    obtain ⟨t, timeoutTime, co, -, rfl⟩ := World.step_call hs
    rfl
  | leave i o =>
    obtain ⟨t, timeoutTime, co, -, rfl⟩ := World.step_leave hs
    rfl

end World

namespace Pools

variable {ι θ : Type*} {n : Nat} {now : Nat → Nat} [DecidableEq ι]

/-- No pool counts more workers than it may have, and every coroutine is a worker. -/
structure Kept (s : Pools ι θ n) : Prop where
  within : ∀ p, (s.pool p).running ≤ (s.pool p).maxSize.toNat
  staffed : ∀ coName ∈ s.world.submitted, (s.workers coName).isSome = true

variable {s : Pools ι θ n}

theorem Kept.setPool (h : s.Kept) {p : ι} {pool : CoroutinePoolImpl}
    (hp : pool.running ≤ pool.maxSize.toNat) : (s.setPool p pool).Kept where
  within q := by
    by_cases hq : q = p
    · rw [hq, setPool_self]
      exact hp
    · rw [setPool_ne _ hq]
      exact h.within q
  staffed := h.staffed

omit [DecidableEq ι] in
theorem Kept.setWorker (h : s.Kept) (coName : String) (w : WorkerBody ι) :
    (s.setWorker coName w).Kept where
  within := h.within
  staffed coName' hm := by
    by_cases hn : coName' = coName
    · rw [hn, setWorker_self]
      rfl
    · rw [setWorker_ne _ hn]
      exact h.staffed coName' hm

omit [DecidableEq ι] in
theorem Kept.setWorld (h : s.Kept) {world : World ι θ n}
    (hsub : world.submitted = s.world.submitted) : Kept { s with world } where
  within := h.within
  staffed coName hm := h.staffed coName (hsub ▸ hm)

theorem Kept.decrement (h : s.Kept) {p : ι} {coName : String} {running : Nat}
    (hr : running ≤ (s.pool p).running) : (s.decrement p coName running).Kept := by
  have hset : (s.setPool p { s.pool p with running }).Kept :=
    h.setPool (hr.trans (h.within p))
  exact ⟨hset.within, hset.staffed⟩

theorem Kept.grow [DecidableEq θ] [Fintype ι] (h : s.Kept) {p : ι} {shouldGrow : Bool}
    {uuid : String} {created grown : Bool} {s' : Pools ι θ n}
    (hs : s.grow now p shouldGrow uuid created = some (grown, s')) : s'.Kept := by
  cases grows hs with
  | stays => exact h
  | fails => exact h.setWorld rfl
  | grows _ hmax hw =>
    rw [World.step_submit, Option.some.injEq] at hw
    subst hw
    have hle := Nat.mod_le ((s.pool p).running + 1) (2 ^ 64)
    refine Kept.setPool ?_ ?_
    · refine ⟨h.within, fun coName hm => ?_⟩
      rcases List.mem_cons.1 hm with rfl | hm
      · exact congrArg Option.isSome (setWorker_self _ _ _)
      · exact (h.setWorker _ _).staffed coName hm
    · exact hle.trans hmax

variable [Fintype ι] [DecidableEq θ]

theorem Kept.listen (h : s.Kept) {t : θ} {co : Co} {result : CoroutineState Unit Unit}
    {uuid : String} {created : Bool} {s' : Pools ι θ n}
    (hpos : ∀ p message, s.current t = some p → result = .error message → 0 < (s.pool p).running)
    (hs : s.listen now t co result uuid created = some s') : s'.Kept := by
  cases listens hs with
  | passes => exact h
  | grows _ _ hg => exact h.grow hg
  | @errs p message _ _ hcurrent hresult hg =>
    have hp := hpos p message hcurrent hresult
    have hwrap : ((s.pool p).running + (2 ^ 64 - 1)) % 2 ^ 64 ≤ (s.pool p).running := by omega
    exact (h.decrement hwrap).grow hg

omit [Fintype ι] in
theorem Kept.advance (h : s.Kept) {p : ι} {s' : Pools ι θ n}
    (hsub : ∀ world, s.world.turn now p = some world → world.submitted = s.world.submitted)
    (hs : s.advance now p = some s') : s'.Kept := by
  obtain ⟨world, hw, hends⟩ := advance_cases hs
  have hkept : Kept { s with world } := h.setWorld (hsub world hw)
  obtain rfl | ⟨t, -, -, rfl⟩ := hends
  · exact hkept
  · refine Kept.setPool ?_ ?_
    · exact ⟨hkept.within, hkept.staffed⟩
    · exact hkept.within p

omit [Fintype ι] in
theorem Kept.work (h : s.Kept) {p : ι} {t : θ} {co : Co} {w : WorkerBody ι}
    (hrecycled : ∀ q, w.pc = .starved q →
      (s.pool q).recycles w.createTime (now s.world.readings) = false)
    {s' : Pools ι θ n} (hs : s.work now p t co w = some s') : s'.Kept := by
  cases works hs with
  | noPool | findsNone | clashes => exact h.setWorker _ _
  | @takes q | @finishes q | @wakes q =>
    refine Kept.setWorker (h.setPool ?_) _ _
    exact h.within q
  | recycled hpc hrec =>
    rw [hrecycled _ hpc] at hrec
    cases hrec
  | @waits q =>
    have htick : s.tick.Kept := h.setWorld rfl
    refine Kept.setWorker (htick.setPool ?_) _ _
    exact h.within q

theorem Kept.lift (hmono : Monotone now) (h : s.Kept) {a : World.Act ι θ}
    (hplaced : s.world.Placed now) (hok : s.world.Disciplined a)
    (ha : ∀ i uuid created, a ≠ .submit i uuid created) {s' : Pools ι θ n}
    (hs : s.lift now a = some s') : s'.Kept := by
  obtain ⟨world, hw, rfl⟩ := lift_eq hs
  exact h.setWorld (hplaced.step_submitted hmono hok hw ha)

theorem Kept.schedule (h : s.Kept) {p : ι} {t : θ} {timeoutTime : Nat} {uuid : String}
    {created : Bool} {s' : Pools ι θ n}
    (hs : s.step now (.schedule p t timeoutTime uuid created) = some s') : s'.Kept := by
  have hpool : (s.setPool p { s.pool p with scheduling := true }).Kept := by
    refine h.setPool ?_
    exact h.within p
  have hstack : ((s.setPool p { s.pool p with scheduling := true }).setStack t
      (p :: s.stack t)).Kept := ⟨hpool.within, hpool.staffed⟩
  cases (step_schedule hs).2 with
  | already => exact h
  | fails hg =>
    have hgrow := hstack.grow hg
    refine hgrow.setPool ?_
    exact hgrow.within p
  | starts hg hl =>
    obtain ⟨world, hw, rfl⟩ := lift_eq hl
    obtain ⟨-, rfl⟩ := World.step_schedule hw
    exact (hstack.grow hg).setWorld rfl

/-- A step that recycles no worker. -/
theorem Kept.step (hmono : Monotone now) (hacc : Accounted now s 0) (h : s.Kept) {a : Act ι θ}
    (hok : s.Homed now a) (hsize : ∀ p maxSize, a ≠ .setMaxSize p maxSize)
    (hrecycled : ∀ p, a = .work p → s.recycled now p = none) {s' : Pools ι θ n}
    (hs : s.step now a = some s') : s'.Kept := by
  cases a with
  | submit p task | tryGetResult p task | changeState p state | setMinSize p minSize
  | setKeepAliveTime p keepAliveTime =>
    simp only [Pools.step, Option.some.injEq] at hs
    rw [← hs]
    refine h.setPool ?_
    exact h.within p
  | setMaxSize p maxSize => exact absurd rfl (hsize p maxSize)
  | tryRun p =>
    obtain rfl | ⟨taskQueue, results, rfl⟩ := step_tryRun hs
    · exact h
    · refine h.setPool ?_
      exact h.within p
  | tryResume p coName =>
    exact h.lift hmono hacc.placed (a := .tryResume p coName) trivial (by simp) hs
  | schedule p t timeoutTime uuid created => exact h.schedule hs
  | turn p uuid created =>
    have hsub : ∀ s₁ : Pools ι θ n, s₁.world.Placed now →
        ∀ world, s₁.world.turn now p = some world → world.submitted = s₁.world.submitted :=
      fun s₁ hplaced world hw => (hplaced.turned hmono hw).submitted
    rcases step_turn hs with ⟨t, timeoutTime, co, result, s₁, hp, hl, ha⟩ | ⟨-, ha⟩
    · have hplaced := (hacc.listen hmono hp hok.1 hok.2 hl).1.placed
      have hcurrent : s.current t = some p := hacc.current p t (by rw [hp]; rfl)
      refine (h.listen (fun q message hq he => ?_) hl).advance (hsub s₁ hplaced) ha
      rw [hcurrent, Option.some.injEq] at hq
      subst hq he
      have hcreator : s.creator co.name = some p := hok.2 co (by rw [hp]; rfl)
      exact hacc.running_pos (q := p) (by rw [hp]; rfl) (by rw [hp]; rfl) hcreator
    · exact h.advance (hsub s hacc.placed) ha
  | call p k =>
    obtain ⟨t, timeoutTime, co, w, -, -, -, hs⟩ := step_call hs
    exact h.lift hmono hacc.placed (a := .call p k) trivial (by simp) hs
  | leave p o =>
    obtain ⟨t, timeoutTime, co, w, pc, -, -, -, hs⟩ := step_leave hs
    exact (h.setWorker co.name { w with pc }).lift hmono hacc.placed (a := .leave p o) hok
      (by simp) hs
  | work p =>
    obtain ⟨t, timeoutTime, co, w, hr, hw, hs⟩ := step_work hs
    refine h.work (fun q hq => ?_) hs
    have hnone := hrecycled p rfl
    simpa [recycled, hr, hw, hq] using hnone

end Pools

namespace OnePool

variable {n : Nat} {now : Nat → Nat}

/-- A step that comes in between while a worker runs, on its thread or another one. -/
structure Between (s s' : Pools Unit Unit n) : Prop where
  phase : s'.world.phase = s.world.phase
  workers : s'.workers = s.workers
  submitted : s'.world.submitted = s.world.submitted
  running : (s'.pool ()).running = (s.pool ()).running
  minSize : (s'.pool ()).minSize = (s.pool ()).minSize
  maxSize : (s'.pool ()).maxSize = (s.pool ()).maxSize

theorem Between.kept {s s' : Pools Unit Unit n} (h : Between s s') (hk : s.Kept) : s'.Kept where
  within p := by
    rw [h.running, h.maxSize]
    exact hk.within p
  staffed coName hm := by
    rw [h.submitted] at hm
    rw [h.workers]
    exact hk.staffed coName hm

/-- The steps of the worker itself. -/
def isOwn : Pools.Act Unit Unit → Bool
  | .call .. | .leave .. | .work _ => true
  | _ => false

theorem between_setPool (s : Pools Unit Unit n) {pool : CoroutinePoolImpl}
    (hr : pool.running = (s.pool ()).running) (hmin : pool.minSize = (s.pool ()).minSize)
    (hmax : pool.maxSize = (s.pool ()).maxSize) : Between s (s.setPool () pool) :=
  ⟨rfl, rfl, rfl, by rw [Pools.setPool_self, hr], by rw [Pools.setPool_self, hmin],
    by rw [Pools.setPool_self, hmax]⟩

theorem between (hmono : Monotone now) {s s' : Pools Unit Unit n} {timeoutTime : Nat} {co : Co}
    (hphase : s.world.phase () = .resuming () timeoutTime co) {a : Pools.Act Unit Unit}
    (hown : isOwn a = false) (hmin : ∀ p minSize, a ≠ .setMinSize p minSize)
    (hmax : ∀ p maxSize, a ≠ .setMaxSize p maxSize) (hs : s.step now a = some s')
    {x : Multiset String} (h : Pools.Accounted now s x) :
    Between s s' ∧ Pools.Accounted now s' x := by
  cases a with
  | submit p task | tryGetResult p task | changeState p state
  | setKeepAliveTime p keepAliveTime =>
    simp only [Pools.step, Option.some.injEq] at hs
    rw [← hs]
    exact ⟨between_setPool s rfl rfl rfl, h.setPool rfl⟩
  | setMinSize p minSize => exact absurd rfl (hmin p minSize)
  | setMaxSize p maxSize => exact absurd rfl (hmax p maxSize)
  | tryRun p =>
    obtain rfl | ⟨taskQueue, results, rfl⟩ := Pools.step_tryRun hs
    · exact ⟨⟨rfl, rfl, rfl, rfl, rfl, rfl⟩, h⟩
    · exact ⟨between_setPool s rfl rfl rfl, h.setPool rfl⟩
  | tryResume p coName =>
    obtain ⟨world, hw, rfl⟩ := Pools.lift_eq hs
    have hacc := h.tryResume hmono hw
    obtain ⟨panics, rfl⟩ := World.step_tryResume hw
    exact ⟨⟨rfl, rfl, rfl, rfl, rfl, rfl⟩, hacc⟩
  | schedule p t timeoutTime uuid created =>
    exact absurd (by rw [hphase]; rfl) ((Pools.step_schedule hs).1 ())
  | turn p uuid created =>
    simp only [Pools.step, hphase, Pools.advance, Pools.lift, World.step, World.turn] at hs
    cases hs
  | call p k | leave p o | work p => cases hown

theorem worker_phase {s : OnePool n} {co : Co} (h : s.worker = some co) :
    ∃ timeoutTime, s.pools.world.running () = some ((), timeoutTime, co) ∧
      s.pools.world.phase () = .resuming () timeoutTime co := by
  simp only [worker, Option.map_eq_some_iff] at h
  obtain ⟨⟨t, timeoutTime, co'⟩, hr, rfl⟩ := h
  exact ⟨timeoutTime, hr, World.running_eq hr⟩

theorem recycled_some {s : Pools Unit Unit n} {co : Co} (h : s.recycled now () = some co) :
    ∃ timeoutTime w, s.world.running () = some ((), timeoutTime, co) ∧
      s.workers co.name = some w ∧ w.pc = .starved () ∧
      (s.pool ()).recycles w.createTime (now s.world.readings) = true := by
  simp only [Pools.recycled, Option.bind_eq_some_iff] at h
  obtain ⟨⟨t, timeoutTime, co'⟩, hr, w, hw, h⟩ := h
  split at h
  · rename_i q hpc
    simp only [Option.ite_none_right_eq_some, Option.some.injEq] at h
    obtain ⟨hrec, rfl⟩ := h
    exact ⟨timeoutTime, w, hr, hw, hpc, hrec⟩
  · cases h

/-- The worker `co` runs and is about to be recycled. -/
structure Recycles (s : OnePool n) (co : Co) (w : WorkerBody Unit) (r : Recycling) : Prop where
  phase : ∃ timeoutTime, s.pools.world.phase () = .resuming () timeoutTime co
  others : ∀ coName, coName ≠ co.name → s.recycling coName = none
  recycling : s.recycling co.name = some r
  free : s.preempted co.name = none
  body : s.pools.workers co.name = some w

inductive Stage (now : Nat → Nat) (s : OnePool n) : Prop where
  | whole (hnone : ∀ coName, s.recycling coName = none) (hacc : Pools.Accounted now s.pools 0)
  | storing {co : Co} {w : WorkerBody Unit} {recycle : Bool} {running : Nat}
    (hco : s.Recycles co w (.storing recycle running)) (hpc : w.pc = .starved ())
    (hrunning : s.pool.running = running)
    (hmin : recycle = false → s.pool.minSize.toNat < running)
    (hacc : Pools.Accounted now s.pools 0)
  | returning {co : Co} {w : WorkerBody Unit} (hco : s.Recycles co w .returning)
    (hpc : w.pc = .returned) (hacc : Pools.Accounted now s.pools {co.name})

structure Sound (now : Nat → Nat) (s : OnePool n) : Prop where
  kept : s.pools.Kept
  stage : Stage now s

theorem creator_eq {s : Pools Unit Unit n} (hk : s.Kept) {x : Multiset String}
    (hacc : Pools.Accounted now s x) {co : Co} (hco : co ∈ (s.world.phase ()).co) :
    s.creator co.name = some () := by
  have hstaffed := hk.staffed co.name (hacc.placed.distinct.mem_submitted hco)
  obtain ⟨w, hw⟩ := Option.isSome_iff_exists.1 hstaffed
  rw [Pools.creator, hw]
  rfl

theorem homed {s : OnePool n} (hk : s.pools.Kept) (hacc : Pools.Accounted now s.pools 0)
    {a : Pools.Act Unit Unit} (hok : s.Allowed (.pools a)) (hadmits : s.admits now a = true) :
    s.pools.Homed now a := by
  cases a with
  | schedule p t timeoutTime uuid created => exact hok
  | turn p uuid created =>
    exact ⟨fun hc _ => hok hc, fun co hco => creator_eq hk hacc (Phase.mem_of_failed hco)⟩
  | leave p o => exact hok
  | work p =>
    simp only [admits, Bool.and_eq_true, Option.isNone_iff_eq_none] at hadmits
    intro co hco
    rw [hadmits.2] at hco
    cases hco
  | submit p task | tryGetResult p task | tryRun p | changeState p state | setMinSize p minSize
  | setMaxSize p maxSize | setKeepAliveTime p keepAliveTime | tryResume p coName | call p k =>
    trivial

theorem step_own {s pools : Pools Unit Unit n} {a : Pools.Act Unit Unit} (hown : isOwn a = true)
    (hs : s.step now a = some pools) : ∃ r, s.world.running () = some r := by
  cases a with
  | call p k | leave p o | work p =>
    simp only [Pools.step, Option.bind_eq_some_iff] at hs
    obtain ⟨r, hr, -⟩ := hs
    exact ⟨r, hr⟩
  | submit p task | tryGetResult p task | tryRun p | changeState p state | setMinSize p minSize
  | setMaxSize p maxSize | setKeepAliveTime p keepAliveTime | tryResume p coName
  | schedule p t timeoutTime uuid created | turn p uuid created => cases hown

theorem Recycles.eq {s : OnePool n} {co co' : Co} {w : WorkerBody Unit} {r : Recycling}
    (h : s.Recycles co w r) (hco : s.worker = some co') : co' = co := by
  obtain ⟨timeoutTime, hp⟩ := h.phase
  obtain ⟨timeoutTime', -, hp'⟩ := worker_phase hco
  rw [hp, Phase.resuming.injEq] at hp'
  exact hp'.2.2.symm

/-- A worker that is about to be recycled takes none of the steps of the pools. -/
theorem Recycles.not_own {s : OnePool n} {co : Co} {w : WorkerBody Unit} {r : Recycling}
    (h : s.Recycles co w r) {a : Pools.Act Unit Unit} (hadmits : s.admits now a = true)
    {pools : Pools Unit Unit n} (hs : s.pools.step now a = some pools) : isOwn a = false := by
  by_contra hown
  rw [Bool.not_eq_false] at hown
  obtain ⟨⟨t, timeoutTime, co'⟩, hr⟩ := step_own hown hs
  have hworker : s.worker = some co' := by
    rw [worker, hr]
    rfl
  obtain rfl := h.eq hworker
  have hfree : s.isFree co' = false := by simp [isFree, h.recycling]
  cases a with
  | call p k | leave p o | work p => simp [admits, hworker, hfree] at hadmits
  | submit p task | tryGetResult p task | tryRun p | changeState p state | setMinSize p minSize
  | setMaxSize p maxSize | setKeepAliveTime p keepAliveTime | tryResume p coName
  | schedule p t timeoutTime uuid created | turn p uuid created => cases hown

theorem Recycles.between {s : OnePool n} {co : Co} {w : WorkerBody Unit} {r : Recycling}
    (h : s.Recycles co w r) {pools : Pools Unit Unit n} (hb : Between s.pools pools) :
    Recycles { s with pools } co w r where
  phase := by
    obtain ⟨timeoutTime, hp⟩ := h.phase
    exact ⟨timeoutTime, (congrFun hb.phase ()).trans hp⟩
  others := h.others
  recycling := h.recycling
  free := h.free
  body := (congrFun hb.workers co.name).trans h.body

theorem Sound.pools (hmono : Monotone now) {s : OnePool n} (h : s.Sound now)
    {a : Pools.Act Unit Unit} (hok : s.Allowed (.pools a)) (hadmits : s.admits now a = true)
    {pools : Pools Unit Unit n} (hs : s.pools.step now a = some pools) :
    Sound now { s with pools } := by
  have hmin : ∀ p minSize, a ≠ .setMinSize p minSize := by
    rintro p minSize rfl
    exact hok
  have hmax : ∀ p maxSize, a ≠ .setMaxSize p maxSize := by
    rintro p maxSize rfl
    exact hok
  cases h.stage with
  | whole hnone hacc =>
    have hhomed := homed h.kept hacc hok hadmits
    have hrecycled : ∀ p, a = .work p → s.pools.recycled now p = none := by
      rintro p rfl
      simp only [admits, Bool.and_eq_true, Option.isNone_iff_eq_none] at hadmits
      exact hadmits.2
    exact ⟨h.kept.step hmono hacc hhomed hmax hrecycled hs,
      .whole hnone (hacc.step hmono hhomed hs)⟩
  | storing hco hpc hrunning hread hacc =>
    obtain ⟨timeoutTime, hp⟩ := hco.phase
    obtain ⟨hb, hacc'⟩ := between hmono hp (hco.not_own hadmits hs) hmin hmax hs hacc
    refine ⟨hb.kept h.kept, .storing (hco.between hb) hpc (hb.running.trans hrunning) ?_ hacc'⟩
    intro hr
    show (pools.pool ()).minSize.toNat < _
    rw [hb.minSize]
    exact hread hr
  | returning hco hpc hacc =>
    obtain ⟨timeoutTime, hp⟩ := hco.phase
    obtain ⟨hb, hacc'⟩ := between hmono hp (hco.not_own hadmits hs) hmin hmax hs hacc
    exact ⟨hb.kept h.kept, .returning (hco.between hb) hpc hacc'⟩

theorem Sound.read (hmono : Monotone now) {s t : OnePool n} (h : s.Sound now)
    (hs : s.step now .read = some t) : t.Sound now := by
  simp only [step, Option.bind_eq_some_iff, Option.ite_none_right_eq_some,
    Option.some.injEq] at hs
  obtain ⟨co, hco, hfree, rfl⟩ := hs
  obtain ⟨timeoutTime, w, hr, hw, hpc, hrec⟩ := recycled_some hco
  simp only [isFree, Bool.and_eq_true, Option.isNone_iff_eq_none] at hfree
  have hworker : s.worker = some co := by
    rw [worker, hr]
    rfl
  cases h.stage with
  | whole hnone hacc =>
    have hrecycles : Recycles { s with
        pools := s.pools.tick
        recycling := update s.recycling co.name
          (some (.storing (!s.pool.state.isGrowing) s.pool.running)) } co w
        (.storing (!s.pool.state.isGrowing) s.pool.running) :=
      ⟨⟨timeoutTime, World.running_eq hr⟩, fun coName hne =>
        (update_of_ne hne _ _).trans (hnone coName), update_self _ _ _, hfree.2, hw⟩
    refine ⟨h.kept.setWorld rfl, .storing hrecycles hpc rfl (fun hgrowing => ?_)
      (hacc.tick hmono)⟩
    have hg : s.pool.state.isGrowing = true := by simpa using hgrowing
    have hrec' : s.pool.recycles w.createTime (now s.pools.world.readings) = true := hrec
    simp only [CoroutinePoolImpl.recycles, hg, Bool.not_true, Bool.or_false, Bool.and_eq_true,
      decide_eq_true_eq] at hrec'
    exact hrec'.2
  | storing hruns | returning hruns =>
    obtain rfl := hruns.eq hworker
    rw [hruns.recycling] at hfree
    cases hfree.1

theorem Sound.store {s t : OnePool n} (h : s.Sound now) (hs : s.step now .store = some t) :
    t.Sound now := by
  simp only [step, Option.bind_eq_some_iff] at hs
  obtain ⟨co, hworker, w, hw, hs⟩ := hs
  split at hs
  · rename_i recycle running hread hfree
    simp only [Option.some.injEq] at hs
    cases h.stage with
    | whole hnone hacc =>
      rw [hnone co.name] at hread
      cases hread
    | storing hruns hpc hrunning hmin hacc =>
      obtain rfl := hruns.eq hworker
      obtain ⟨timeoutTime, hp⟩ := hruns.phase
      have hsame := hruns.recycling
      rw [hread, Option.some.injEq, Recycling.storing.injEq] at hsame
      obtain ⟨-, rfl⟩ := hsame
      have hco : co ∈ (s.pools.world.phase ()).co := by
        rw [hp]
        exact Multiset.mem_singleton_self co
      have hcr := creator_eq h.kept hacc hco
      have hpos : 0 < s.pool.running :=
        hacc.running_pos (q := ()) (by rw [hp]; rfl) (by rw [hp]; rfl) hcr
      have hset : Pools.Accounted now (s.pools.setWorker co.name { w with pc := .returned }) 0 :=
        hacc.setWorker hw fun q hq => by cases hq
      have hcr' : (s.pools.setWorker co.name { w with pc := .returned }).creator co.name =
          some () := by
        rw [Pools.creator_setWorker hw]
        exact hcr
      have hone : running - 1 + 1 = (s.pools.pool ()).running := by
        have hle : (s.pools.pool ()).running = running := hrunning
        have hpos' : 0 < (s.pools.pool ()).running := hpos
        omega
      have hrecycles : Recycles { s with
          pools := (s.pools.setWorker co.name { w with pc := .returned }).decrement () co.name
            (running - 1)
          recycling := update s.recycling co.name (some .returning) } co
          { w with pc := .returned } .returning :=
        ⟨hruns.phase, fun coName hne => (update_of_ne hne _ _).trans (hruns.others coName hne),
          update_self _ _ _, hfree, Pools.setWorker_self _ _ _⟩
      have hle : running - 1 ≤ (s.pools.pool ()).running := by omega
      rw [← hs]
      exact ⟨(h.kept.setWorker _ _).decrement hle,
        .returning hrecycles rfl (hset.decrement hcr' hone)⟩
    | returning hruns hpc hacc =>
      obtain rfl := hruns.eq hworker
      rw [hruns.recycling] at hread
      cases hread
  · cases hs

theorem Sound.finish (hmono : Monotone now) {s t : OnePool n} (h : s.Sound now)
    (hok : s.Allowed .finish) (hs : s.step now .finish = some t) : t.Sound now := by
  simp only [step, Option.bind_eq_some_iff] at hs
  obtain ⟨co, hworker, hs⟩ := hs
  split at hs
  · rename_i hread hfree
    simp only [Option.map_eq_some_iff] at hs
    obtain ⟨pools, hlift, rfl⟩ := hs
    cases h.stage with
    | whole hnone hacc =>
      rw [hnone co.name] at hread
      cases hread
    | storing hruns =>
      obtain rfl := hruns.eq hworker
      rw [hruns.recycling] at hread
      cases hread
    | returning hruns hpc hacc =>
      obtain rfl := hruns.eq hworker
      obtain ⟨timeoutTime, hr, hp⟩ := worker_phase hworker
      have hst : co.MayLeave (.returns ()) := hok co hworker
      have hdisciplined : s.pools.world.Disciplined (.leave () (.returns ())) := by
        intro r hr'
        rw [Option.mem_def, hr, Option.some.injEq] at hr'
        exact hr' ▸ hst
      have hacc' := hacc.leave hmono hr hruns.body (fun q hq => by rw [hpc] at hq; cases hq) hst
        rfl hlift
      refine ⟨h.kept.lift hmono hacc.placed hdisciplined (by simp) hlift,
        .whole (fun coName => ?_) hacc'⟩
      by_cases hne : coName = co.name
      · rw [hne]
        exact update_self _ _ _
      · exact (update_of_ne hne _ _).trans (hruns.others coName hne)
  · cases hs

theorem Sound.sigurgHandler (hmono : Monotone now) {s t : OnePool n} (h : s.Sound now)
    (hok : s.Allowed .sigurgHandler) (hwhole : s.Whole .sigurgHandler)
    (hs : s.step now .sigurgHandler = some t) : t.Sound now := by
  simp only [step, Option.bind_eq_some_iff, Option.ite_none_right_eq_some,
    Option.map_eq_some_iff] at hs
  obtain ⟨⟨thread, timeoutTime, co⟩, hr, w, hw, -, pools, hlift, rfl⟩ := hs
  have hworker : s.worker = some co := by
    rw [worker, hr]
    rfl
  have hmay := hok co hworker
  have hnone' := hwhole co hworker
  cases h.stage with
  | whole hnone hacc =>
    have hset : Pools.Accounted now (s.pools.setWorker co.name { w with pc := .top }) 0 :=
      hacc.setWorker hw fun q hq => by cases hq
    have hdisciplined : s.pools.world.Disciplined (.leave () (.suspendWith ())) := by
      intro r hr'
      rw [Option.mem_def, hr, Option.some.injEq] at hr'
      exact hr' ▸ hmay
    have hacc' := hset.leave hmono hr (Pools.setWorker_self _ _ _) (fun q hq => by cases hq) hmay
      rfl hlift
    exact ⟨(h.kept.setWorker _ _).lift hmono hacc.placed hdisciplined (by simp) hlift,
      .whole hnone hacc'⟩
  | storing hruns | returning hruns =>
    obtain rfl := hruns.eq hworker
    rw [hruns.recycling] at hnone'
    cases hnone'

theorem Sound.goOn {s t : OnePool n} (h : s.Sound now) (hs : s.step now .goOn = some t) :
    t.Sound now := by
  simp only [step, Option.bind_eq_some_iff, Option.map_eq_some_iff] at hs
  obtain ⟨co, hworker, pc, hpreempted, w, hw, rfl⟩ := hs
  obtain ⟨timeoutTime, -, hp⟩ := worker_phase hworker
  cases h.stage with
  | whole hnone hacc =>
    exact ⟨h.kept.setWorker _ _, .whole hnone
      (hacc.setWorker hw fun q _ => ⟨(), timeoutTime, co, hp, rfl⟩)⟩
  | storing hruns | returning hruns =>
    obtain rfl := hruns.eq hworker
    rw [hruns.free] at hpreempted
    cases hpreempted

theorem Sound.step (hmono : Monotone now) {s t : OnePool n} (h : s.Sound now) {a : Act}
    (hok : s.Allowed a) (hwhole : s.Whole a) (hs : s.step now a = some t) : t.Sound now := by
  cases a with
  | pools a =>
    simp only [OnePool.step, Option.ite_none_right_eq_some, Option.map_eq_some_iff] at hs
    obtain ⟨hadmits, pools, hs, rfl⟩ := hs
    exact h.pools hmono hok hadmits hs
  | read => exact h.read hmono hs
  | store => exact h.store hs
  | finish => exact h.finish hmono hok hs
  | sigurgHandler => exact h.sigurgHandler hmono hok hwhole hs
  | goOn => exact h.goOn hs

structure Initial (s : OnePool n) : Prop where
  pools : s.pools.Initial
  recycling : ∀ coName, s.recycling coName = none
  preempted : ∀ coName, s.preempted coName = none

theorem Initial.sound {s : OnePool n} (h : s.Initial) : s.Sound now where
  kept := by
    refine ⟨fun p => ?_, fun coName hm => ?_⟩
    · rw [h.pools.running p]
      exact Nat.zero_le _
    · rw [h.pools.world.submitted] at hm
      cases hm
  stage := .whole h.recycling h.pools.accounted

theorem Sound.running_eq {s : OnePool n} (h : s.Sound now) (hrest : s.pools.Resting) :
    s.pool.running = s.pools.live () := by
  cases h.stage with
  | whole hnone hacc => exact hacc.of_resting hrest ()
  | storing hruns | returning hruns =>
    obtain ⟨timeoutTime, hp⟩ := hruns.phase
    have hco := hrest ()
    rw [hp] at hco
    exact absurd hco (Multiset.singleton_ne_zero _)

def one : OnePool 1 where
  pools := {
    world := World.single
    pool := fun _ => { minSize := 0, maxSize := 1, keepAliveTime := 0 }
    stack := fun _ => [] }

end OnePool

end OpenCoroutine
