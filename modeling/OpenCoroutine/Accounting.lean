import OpenCoroutine.Pools

/-! The counter of a pool against the workers that its `grow` made. A worker counts until
its end is accounted for: a return is when the body lowers the counter, a panic or a trap
when the listener does. Both lower the counter of the pool that `current` finds, which is
the pool of the scheduler that the worker has ended on. -/

namespace OpenCoroutine

open Family Function Transition

namespace WorkerPc

variable {ι : Type*} {pc pc' : WorkerPc ι} {o : Leave Unit Unit}

theorem leave_ne_starved (h : pc.leave o = some pc') (q : ι) : pc' ≠ .starved q := by
  rintro rfl
  cases pc <;> cases o <;> simp [WorkerPc.leave] at h

theorem leave_ne_returns (h : pc.leave o = some pc') : o ≠ .returns () := by
  rintro rfl
  cases pc <;> simp [WorkerPc.leave] at h

end WorkerPc

namespace Pools

variable {ι θ : Type*} {n : Nat} {now : Nat → Nat} [DecidableEq ι]

@[simp] theorem setPool_self (s : Pools ι θ n) (p : ι) (pool : CoroutinePoolImpl) :
    (s.setPool p pool).pool p = pool := update_self _ _ _

@[simp] theorem setPool_ne (s : Pools ι θ n) {p q : ι} (hq : q ≠ p) (pool : CoroutinePoolImpl) :
    (s.setPool p pool).pool q = s.pool q := update_of_ne hq _ _

omit [DecidableEq ι] in
@[simp] theorem setWorker_self (s : Pools ι θ n) (coName : String) (w : WorkerBody ι) :
    (s.setWorker coName w).workers coName = some w := update_self _ _ _

omit [DecidableEq ι] in
@[simp] theorem setWorker_ne (s : Pools ι θ n) {coName coName' : String} (hn : coName' ≠ coName)
    (w : WorkerBody ι) : (s.setWorker coName w).workers coName' = s.workers coName' :=
  update_of_ne hn _ _

omit [DecidableEq ι] in
@[simp] theorem setStack_ne [DecidableEq θ] (s : Pools ι θ n) {t t' : θ} (ht : t' ≠ t)
    (stack : List ι) : (s.setStack t stack).stack t' = s.stack t' := update_of_ne ht _ _

@[simp] theorem decrement_self (s : Pools ι θ n) (p : ι) (coName : String) (running : Nat) :
    (s.decrement p coName running).pool p = { s.pool p with running } := update_self _ _ _

@[simp] theorem decrement_ne (s : Pools ι θ n) {p q : ι} (hq : q ≠ p) (coName : String)
    (running : Nat) : (s.decrement p coName running).pool q = s.pool q := update_of_ne hq _ _

theorem setPool_running {s : Pools ι θ n} {p : ι} {pool : CoroutinePoolImpl}
    (hr : pool.running = (s.pool p).running) (q : ι) :
    ((s.setPool p pool).pool q).running = (s.pool q).running := by
  by_cases hq : q = p
  · rw [hq, setPool_self, hr]
  · rw [setPool_ne _ hq]

omit [DecidableEq ι] in
theorem creator_setWorker {s : Pools ι θ n} {coName : String} {w : WorkerBody ι}
    (hw : s.workers coName = some w) (pc : WorkerPc ι) :
    (s.setWorker coName { w with pc }).creator = s.creator := by
  funext coName'
  by_cases hn : coName' = coName
  · rw [creator, creator, hn, setWorker_self, hw]
    rfl
  · rw [creator, creator, setWorker_ne _ hn]

/-- How many of the coroutines named in `m` the `grow` of pool `p` has created. -/
def owned (s : Pools ι θ n) (p : ι) (m : Multiset String) : Nat :=
  m.countP fun coName => s.creator coName = some p

theorem owned_add (s : Pools ι θ n) (p : ι) (m m' : Multiset String) :
    s.owned p (m + m') = s.owned p m + s.owned p m' := Multiset.countP_add _ _ _

theorem owned_mono (s : Pools ι θ n) (p : ι) {m m' : Multiset String} (h : m ≤ m') :
    s.owned p m ≤ s.owned p m' := Multiset.countP_le_of_le _ h

theorem owned_singleton (s : Pools ι θ n) (p : ι) (coName : String) :
    s.owned p {coName} = if s.creator coName = some p then 1 else 0 := by
  rw [owned, ← Multiset.cons_zero, Multiset.countP_cons, Multiset.countP_zero, zero_add]

theorem owned_congr {s s' : Pools ι θ n} (p : ι) {m : Multiset String}
    (h : ∀ coName ∈ m, s'.creator coName = s.creator coName) : s'.owned p m = s.owned p m :=
  Multiset.countP_congr rfl fun coName hm => by rw [h coName hm]

/-- The worker that the next part of its body recycles on scheduler `p`. -/
def recycled (now : Nat → Nat) (s : Pools ι θ n) (p : ι) : Option Co :=
  (s.world.running p).bind fun (_, _, co) =>
    (s.workers co.name).bind fun w =>
      match w.pc with
      | .starved q =>
        if (s.pool q).recycles w.createTime (now s.world.readings) then some co else none
      | _ => none

/-- A worker ends in state `Running`, resumed by the scheduler of the pool whose `grow`
has created it. Coroutines yield in state `Running` or `SystemCall`, and every worker has
a name of its own. -/
def Homed (now : Nat → Nat) (s : Pools ι θ n) : Act ι θ → Prop
  | .schedule p _ _ uuid created =>
    created = true → (s.world.sched p).name ++ "|" ++ uuid ∉ s.world.submitted
  | .turn p uuid created =>
    (created = true → ∀ q, (s.world.sched q).name ++ "|" ++ uuid ∉ s.world.submitted) ∧
      ∀ co ∈ (s.world.phase p).failed, s.creator co.name = some p
  | .leave p o => s.world.Disciplined (.leave p o)
  | .work p => ∀ co ∈ s.recycled now p, s.creator co.name = some p ∧ co.state = .running
  | _ => True

variable [Fintype ι]

instance (s : Pools ι θ n) : (a : Act ι θ) → Decidable (s.Homed now a)
  | .schedule p _ _ uuid created => inferInstanceAs (Decidable
      (created = true → (s.world.sched p).name ++ "|" ++ uuid ∉ s.world.submitted))
  | .turn p uuid created => inferInstanceAs (Decidable
      ((created = true → ∀ q, (s.world.sched q).name ++ "|" ++ uuid ∉ s.world.submitted) ∧
        ∀ co ∈ (s.world.phase p).failed, s.creator co.name = some p))
  | .leave p o => inferInstanceAs (Decidable (s.world.Disciplined (.leave p o)))
  | .work p => inferInstanceAs (Decidable
      (∀ co ∈ s.recycled now p, s.creator co.name = some p ∧ co.state = .running))
  | .submit .. | .tryGetResult .. | .tryRun .. | .changeState .. | .setMinSize .. | .setMaxSize ..
  | .setKeepAliveTime .. | .tryResume .. | .call .. => isTrue trivial

/-- How many workers of pool `p` are ready, suspended or in a syscall table. -/
def live (s : Pools ι θ n) (p : ι) : Nat := s.owned p s.world.held

def Resting (s : Pools ι θ n) : Prop := ∀ q, (s.world.phase q).co = 0

/-- The counters are right but for the workers in `x`, whose end has been counted and is
still to come. -/
structure Accounted (now : Nat → Nat) (s : Pools ι θ n) (x : Multiset String) : Prop where
  placed : s.world.Placed now
  made : ∀ coName w, s.workers coName = some w → coName ∈ s.world.submitted
  current : ∀ p t, (s.world.phase p).thread = some t → s.current t = some p
  starved : ∀ coName w q, s.workers coName = some w → w.pc = .starved q →
    ∃ t timeoutTime co, s.world.phase q = .resuming t timeoutTime co ∧ co.name = coName
  bounded : ∀ p, (s.pool p).running < 2 ^ 64
  running : ∀ p, (s.pool p).running + s.owned p (s.world.ended + x) = s.owned p ↑s.world.submitted
  decrements : ∀ d ∈ s.decrements, s.creator d.worker = some d.pool ∧ 0 < d.running

variable {s : Pools ι θ n} {x : Multiset String}

theorem Accounted.running_eq (h : Accounted now s x) (p : ι) :
    (s.pool p).running + s.owned p x +
        s.owned p (total (fun _ phase => phase.ended) s.world.phase) =
      s.live p + s.owned p (total (fun _ phase => names phase.co) s.world.phase) := by
  have hr := h.running p
  rw [← h.placed.names, World.names_eq, World.ended] at hr
  simp only [owned_add] at hr
  rw [live]
  omega

theorem Accounted.of_resting (h : Accounted now s 0) (hrest : s.Resting) (p : ι) :
    (s.pool p).running = s.live p := by
  have hr := h.running_eq p
  have hco : total (fun _ phase => names phase.co) s.world.phase = 0 :=
    total_zero fun q => by rw [hrest q, names_zero]
  have hend : total (fun _ phase => phase.ended) s.world.phase = 0 :=
    total_zero fun q => by
      have hle := (s.world.phase q).ended_le
      rw [hrest q, names_zero] at hle
      exact Multiset.le_zero.1 hle
  have hzero : s.owned p 0 = 0 := Multiset.countP_zero _
  rw [hco, hend, hzero] at hr
  omega

theorem Accounted.running_pos (h : Accounted now s 0) {p q : ι} {co : Co}
    (hco : (s.world.phase q).co = {co}) (hend : (s.world.phase q).ended = 0)
    (hcr : s.creator co.name = some p) : 0 < (s.pool p).running := by
  have hr := h.running_eq p
  have hle := s.owned_mono p (s.world.total_names_ended q hend)
  have hone : s.owned p (names (s.world.phase q).co) = 1 := by
    rw [hco, names_singleton, owned_singleton, if_pos hcr]
  have hzero : s.owned p 0 = 0 := Multiset.countP_zero _
  rw [owned_add, hone] at hle
  omega

theorem Accounted.ended_submitted (h : Accounted now s x) {coName : String}
    (hm : coName ∈ s.world.ended) : coName ∈ s.world.submitted := by
  have hle : s.world.ended ≤ s.world.names := by
    have hphase : total (fun _ phase => phase.ended) s.world.phase ≤
        total (fun _ phase => names phase.co) s.world.phase :=
      Finset.sum_le_sum fun q _ => (s.world.phase q).ended_le
    rw [World.names_eq, World.ended, add_comm (names ↑s.world.finished)]
    exact (add_le_add_left hphase _).trans (Multiset.le_add_left _ _)
  have hn := Multiset.mem_of_le hle hm
  rw [h.placed.names] at hn
  exact Multiset.mem_coe.1 hn

theorem Accounted.setPool (h : Accounted now s x) {p : ι} {pool : CoroutinePoolImpl}
    (hr : pool.running = (s.pool p).running) : Accounted now (s.setPool p pool) x where
  placed := h.placed
  made := h.made
  current := h.current
  starved := h.starved
  bounded q := by
    rw [setPool_running hr q]
    exact h.bounded q
  running q := by
    rw [setPool_running hr q]
    exact h.running q
  decrements := h.decrements

theorem Accounted.setWorker (h : Accounted now s x) {coName : String} {w : WorkerBody ι}
    {pc : WorkerPc ι} (hw : s.workers coName = some w)
    (hpc : ∀ q, pc = .starved q →
      ∃ t timeoutTime co, s.world.phase q = .resuming t timeoutTime co ∧ co.name = coName) :
    Accounted now (s.setWorker coName { w with pc }) x where
  placed := h.placed
  made coName' w' hw' := by
    by_cases hn : coName' = coName
    · exact hn ▸ h.made coName w hw
    · rw [setWorker_ne _ hn] at hw'
      exact h.made coName' w' hw'
  current := h.current
  starved coName' w' q hw' hpc' := by
    by_cases hn : coName' = coName
    · rw [hn, setWorker_self, Option.some.injEq] at hw'
      rw [hn]
      exact hpc q (by rw [← hpc', ← hw'])
    · rw [setWorker_ne _ hn] at hw'
      exact h.starved coName' w' q hw' hpc'
  bounded := h.bounded
  running q := by
    have hc := creator_setWorker hw pc
    rw [owned_congr q fun _ _ => congrFun hc _, owned_congr q fun _ _ => congrFun hc _]
    exact h.running q
  decrements d hd := by
    rw [creator_setWorker hw pc]
    exact h.decrements d hd

theorem Accounted.setStack [DecidableEq θ] (h : Accounted now s x) {t : θ} (stack : List ι)
    (hfree : ∀ q, (s.world.phase q).thread ≠ some t) : Accounted now (s.setStack t stack) x where
  placed := h.placed
  made := h.made
  current q t' ht := by
    have hne : t' ≠ t := fun he => hfree q (he ▸ ht)
    rw [Pools.current, setStack_ne _ hne]
    exact h.current q t' ht
  starved := h.starved
  bounded := h.bounded
  running := h.running
  decrements := h.decrements

/-- A step of the schedulers that resumes a starved worker no longer where it is resumed
now, and counts the end of the workers in `x` but those in `y`. -/
theorem Accounted.setWorld (h : Accounted now s x) {world : World ι θ n} {y : Multiset String}
    (hp : world.Placed now) (hsub : world.submitted = s.world.submitted)
    (hended : world.ended + y = s.world.ended + x)
    (hthread : ∀ q t, (world.phase q).thread = some t → s.current t = some q)
    (hstay : ∀ q t timeoutTime co w, s.world.phase q = .resuming t timeoutTime co →
      s.workers co.name = some w → w.pc = .starved q →
      ∃ t timeoutTime co', world.phase q = .resuming t timeoutTime co' ∧ co'.name = co.name) :
    Accounted now { s with world } y where
  placed := hp
  made coName w hw := by
    rw [hsub]
    exact h.made coName w hw
  current := hthread
  starved coName w q hw hpc := by
    obtain ⟨t, timeoutTime, co, hphase, rfl⟩ := h.starved coName w q hw hpc
    exact hstay q t timeoutTime co w hphase hw hpc
  bounded := h.bounded
  running p := by
    have hr := h.running p
    show _ + s.owned p (world.ended + y) = s.owned p ↑world.submitted
    rw [hended, hsub]
    exact hr
  decrements := h.decrements

theorem Accounted.tick (hmono : Monotone now) (h : Accounted now s x) : Accounted now s.tick x :=
  h.setWorld (h.placed.tick hmono) rfl rfl h.current fun _ t timeoutTime co _ hp _ _ =>
    ⟨t, timeoutTime, co, hp, rfl⟩

theorem Accounted.decrement (h : Accounted now s 0) {p : ι} {coName : String} {running : Nat}
    (hcr : s.creator coName = some p) (hr : running + 1 = (s.pool p).running) :
    Accounted now (s.decrement p coName running) {coName} where
  placed := h.placed
  made := h.made
  current := h.current
  starved := h.starved
  bounded q := by
    have hb := h.bounded q
    by_cases hq : q = p
    · subst hq
      rw [decrement_self]
      show running < 2 ^ 64
      omega
    · rw [decrement_ne _ hq]
      exact hb
  running q := by
    have hsame : ∀ m, (s.decrement p coName running).owned q m = s.owned q m := fun _ => rfl
    have hq₀ := h.running q
    rw [add_zero] at hq₀
    rw [hsame, hsame, owned_add, owned_singleton, hcr]
    by_cases hq : q = p
    · subst hq
      rw [decrement_self, if_pos rfl]
      show running + (s.owned q s.world.ended + 1) = s.owned q ↑s.world.submitted
      omega
    · have hne : some p ≠ some q := fun he => hq (Option.some.inj he).symm
      rw [decrement_ne _ hq, if_neg hne, add_zero]
      exact hq₀
  decrements d hd := by
    rcases List.mem_cons.1 hd with rfl | hd
    · exact ⟨hcr, by show 0 < (s.pool p).running; omega⟩
    · exact h.decrements d hd

theorem Accounted.addWorker (h : Accounted now s x)
    (hx : ∀ coName ∈ x, coName ∈ s.world.submitted) {world : World ι θ n} {coName : String}
    (hp : world.Placed now) (hsub : world.submitted = coName :: s.world.submitted)
    (hphase : world.phase = s.world.phase) (hfin : world.finished = s.world.finished)
    (hnew : coName ∉ s.world.submitted) {w : WorkerBody ι} (hpc : w.pc = .top)
    {pool : CoroutinePoolImpl} (hr : pool.running = (s.pool w.creator).running + 1)
    (hb : pool.running < 2 ^ 64) :
    Accounted now ((Pools.setWorker { s with world } coName w).setPool w.creator pool) x := by
  obtain ⟨s', hs'⟩ : ∃ s', s' = (Pools.setWorker { s with world } coName w).setPool w.creator pool :=
    ⟨_, rfl⟩
  have hworld : s'.world = world := by rw [hs']; rfl
  have hself : s'.workers coName = some w := by
    rw [hs']
    exact setWorker_self _ _ _
  have hother : ∀ coName', coName' ≠ coName → s'.workers coName' = s.workers coName' := by
    intro coName' hn
    rw [hs']
    exact setWorker_ne { s with world } hn w
  have hold : ∀ coName' ∈ s.world.submitted, s'.creator coName' = s.creator coName' := by
    intro coName' hm
    have hn : coName' ≠ coName := fun he => hnew (he ▸ hm)
    exact congrArg _ (hother coName' hn)
  have hrest : ∀ q, s'.owned q ↑s.world.submitted = s.owned q ↑s.world.submitted := fun q =>
    owned_congr q fun coName' hm => hold coName' (Multiset.mem_coe.1 hm)
  have hended : ∀ q, s'.owned q (world.ended + x) = s.owned q (s.world.ended + x) := by
    intro q
    rw [World.ended, hphase, hfin]
    refine owned_congr q fun coName' hm => hold coName' ?_
    rcases Multiset.mem_add.1 hm with hm | hm
    · exact h.ended_submitted hm
    · exact hx coName' hm
  have hpool : ∀ q, (s'.pool q).running =
      (s.pool q).running + if w.creator = q then 1 else 0 := by
    intro q
    by_cases hq : q = w.creator
    · rw [hs', hq, setPool_self, if_pos rfl, hr]
    · rw [hs', setPool_ne _ hq, if_neg fun he => hq he.symm]
      rfl
  rw [← hs']
  refine ⟨hworld ▸ hp, fun coName' w' hw' => ?_, fun q t ht => ?_, fun coName' w' q hw' hpc' => ?_,
    fun q => ?_, fun q => ?_, fun d hd => ?_⟩
  · rw [hworld, hsub]
    by_cases hn : coName' = coName
    · exact hn ▸ List.mem_cons_self
    · rw [hother coName' hn] at hw'
      exact List.mem_cons_of_mem _ (h.made coName' w' hw')
  · rw [hworld, hphase] at ht
    rw [hs']
    exact h.current q t ht
  · have hn : coName' ≠ coName := by
      rintro rfl
      rw [hself, Option.some.injEq] at hw'
      rw [← hw', hpc] at hpc'
      cases hpc'
    rw [hother coName' hn] at hw'
    rw [hworld, hphase]
    exact h.starved coName' w' q hw' hpc'
  · by_cases hq : q = w.creator
    · rw [hs', hq, setPool_self]
      exact hb
    · rw [hs', setPool_ne _ hq]
      exact h.bounded q
  · have hrun := h.running q
    have hcr : s'.creator coName = some w.creator := congrArg _ hself
    rw [hworld, hended, hsub, ← Multiset.cons_coe, ← Multiset.singleton_add, owned_add s' q, hrest,
      owned_singleton, hcr, hpool]
    by_cases hq : w.creator = q
    · rw [if_pos hq, if_pos (congrArg _ hq)]
      omega
    · rw [if_neg hq, if_neg fun he => hq (Option.some.inj he)]
      omega
  · have hd' : d ∈ s.decrements := by
      rw [hs'] at hd
      exact hd
    obtain ⟨hcr, hpos⟩ := h.decrements d hd'
    obtain ⟨w', hw', -⟩ := Option.map_eq_some_iff.1 hcr
    rw [hold d.worker (h.made d.worker w' hw')]
    exact ⟨hcr, hpos⟩

theorem Accounted.grow [DecidableEq θ] (hmono : Monotone now) (h : Accounted now s x)
    (hx : ∀ coName ∈ x, coName ∈ s.world.submitted) {p : ι} {shouldGrow : Bool} {uuid : String}
    {created : Bool}
    (hnew : created = true → (s.world.sched p).name ++ "|" ++ uuid ∉ s.world.submitted)
    {grown : Bool} {s' : Pools ι θ n}
    (hs : s.grow now p shouldGrow uuid created = some (grown, s')) :
    Accounted now s' x ∧ s'.world.phase = s.world.phase ∧ s'.stack = s.stack := by
  cases grows hs with
  | stays => exact ⟨h, rfl, rfl⟩
  | fails => exact ⟨h.tick hmono, rfl, rfl⟩
  | grows _ hlt hw =>
    have hp := (h.placed.tick hmono).step hmono (a := .submit p uuid true) hnew hw
    rw [World.step_submit, Option.some.injEq] at hw
    subst hw
    have hmax := (s.pool p).maxSize.toNat_lt
    have hbound : (s.pool p).running + 1 < 2 ^ 64 := by omega
    refine ⟨(h.tick hmono).addWorker hx hp rfl rfl rfl (hnew rfl) rfl (Nat.mod_eq_of_lt hbound) ?_,
      rfl, rfl⟩
    exact Nat.mod_lt _ (by decide)

variable [DecidableEq θ]

theorem Accounted.listen (hmono : Monotone now) (h : Accounted now s 0) {p : ι} {t : θ}
    {timeoutTime : Nat} {co : Co} {result : CoroutineState Unit Unit}
    (hp : s.world.phase p = .returned t timeoutTime co (.ok result)) {uuid : String} {created : Bool}
    (hnew : created = true → ∀ q, (s.world.sched q).name ++ "|" ++ uuid ∉ s.world.submitted)
    (hcr : ∀ co' ∈ (s.world.phase p).failed, s.creator co'.name = some p) {s' : Pools ι θ n}
    (hs : s.listen now t co result uuid created = some s') :
    Accounted now s' (names ↑(s.world.phase p).failed.toList) ∧ s'.world.phase = s.world.phase := by
  have hcurrent : s.current t = some p := h.current p t (by rw [hp]; rfl)
  have hfailed : (∀ message, result ≠ .error message) → (s.world.phase p).failed = none := by
    intro hresult
    rw [hp]
    cases result with
    | error message => exact absurd rfl (hresult message)
    | created | ready | running | complete _ | suspend _ _ | systemCall _ _ _ => rfl
  cases listens hs with
  | passes hresult =>
    rw [hfailed fun message he => by rw [hresult message he] at hcurrent; cases hcurrent]
    exact ⟨h, rfl⟩
  | grows _ hresult hg =>
    have hgrow := h.grow hmono (fun _ hm => absurd hm (Multiset.notMem_zero _))
      (fun hc => hnew hc _) hg
    rw [hfailed hresult]
    exact ⟨hgrow.1, hgrow.2.1⟩
  | @errs q message _ _ hq hresult hg =>
    subst hresult
    rw [hcurrent, Option.some.injEq] at hq
    subst hq
    rw [hp] at hcr ⊢
    have hcreator : s.creator co.name = some p := hcr co rfl
    have hpos : 0 < (s.pool p).running :=
      h.running_pos (q := p) (by rw [hp]; rfl) (by rw [hp]; rfl) hcreator
    have hb := h.bounded p
    have hdec := h.decrement hcreator
      (show ((s.pool p).running + (2 ^ 64 - 1)) % 2 ^ 64 + 1 = (s.pool p).running by omega)
    obtain ⟨w, hw, -⟩ := Option.map_eq_some_iff.1 hcreator
    have hgrow := hdec.grow hmono
      (fun coName hm => Multiset.mem_singleton.1 hm ▸ h.made co.name w hw) (fun hc => hnew hc p) hg
    exact ⟨hgrow.1, hgrow.2.1⟩

theorem Accounted.advance (hmono : Monotone now) {p : ι}
    (h : Accounted now s (names ↑(s.world.phase p).failed.toList)) {s' : Pools ι θ n}
    (hs : s.advance now p = some s') : Accounted now s' 0 := by
  obtain ⟨world, hw, hends⟩ := advance_cases hs
  have hplaced := h.placed.step hmono (a := .turn p) trivial hw
  have hturn := h.placed.turned hmono hw
  have hthread : ∀ q t, (world.phase q).thread = some t → s.current t = some q := by
    intro q t ht
    by_cases hq : q = p
    · subst hq
      rcases hturn.phase with ⟨t', timeoutTime, co, result, hp, htop, -⟩ | ⟨-, -, -, hidle | hsame⟩
      · rw [htop] at ht
        exact h.current q t (by rw [hp]; exact ht)
      · rw [hidle] at ht
        cases ht
      · rw [hsame] at ht
        exact h.current q t ht
    · rw [hturn.others q hq] at ht
      exact h.current q t ht
  have hacc : Accounted now { s with world } 0 := by
    refine h.setWorld hplaced hturn.submitted ?_ hthread fun q t timeoutTime co w hp _ _ => ?_
    · rw [hturn.ended, add_zero]
    · have hq : q ≠ p := by
        rintro rfl
        rcases hturn.phase with ⟨t', timeoutTime', co', result, hp', -⟩ | ⟨hco, -⟩
        · rw [hp] at hp'
          cases hp'
        · rw [hp] at hco
          exact Multiset.singleton_ne_zero co hco
      exact ⟨t, timeoutTime, co, (hturn.others q hq).trans hp, rfl⟩
  obtain rfl | ⟨t, hidle, ht, rfl⟩ := hends
  · exact hacc
  · have hfree : ∀ q, (world.phase q).thread ≠ some t := by
      intro q hq
      have hcq := hthread q t hq
      have hcp := h.current p t ht
      rw [hcq, Option.some.injEq] at hcp
      rw [hcp, hidle] at hq
      cases hq
    exact (hacc.setStack _ hfree).setPool rfl

theorem Accounted.leave (hmono : Monotone now) (h : Accounted now s x) {p : ι} {t : θ}
    {timeoutTime : Nat} {co : Co} {w : WorkerBody ι} {o : Leave Unit Unit}
    (hr : s.world.running p = some (t, timeoutTime, co)) (hw : s.workers co.name = some w)
    (hpc : ∀ q, w.pc ≠ .starved q) (hok : co.MayLeave o)
    (hx : x = if o = .returns () then {co.name} else 0) {s' : Pools ι θ n}
    (hs : s.lift now (.leave p o) = some s') : Accounted now s' 0 := by
  obtain ⟨world, hstep, rfl⟩ := lift_eq hs
  have hphase := World.running_eq hr
  have hplaced := h.placed.step hmono (a := .leave p o)
    (fun r hr' => by rw [hr, Option.mem_some_iff] at hr'; exact hr' ▸ hok) hstep
  obtain ⟨hsub, hfin, hothers, hthread, hend⟩ := World.leave_cases hr hok hstep
  refine h.setWorld hplaced hsub ?_ (fun q t' ht => ?_) fun q t' timeoutTime' co' w' hp hw' hpc' => ?_
  · have ht := total_update_add (fun (_ : ι) (phase : Phase θ) => phase.ended) s.world.phase p
      (world.phase p)
    have hupdate : update s.world.phase p (world.phase p) = world.phase := by
      funext q
      by_cases hq : q = p
      · rw [hq, update_self]
      · rw [update_of_ne hq, hothers q hq]
    have hzero : (s.world.phase p).ended = 0 := by rw [hphase]; rfl
    rw [hupdate, hzero, add_zero, hend, ← hx] at ht
    rw [World.ended, World.ended, hfin, ht, add_zero, add_assoc]
  · by_cases hq : q = p
    · rw [hq, hthread, Option.some.injEq] at ht
      rw [hq, ← ht]
      exact h.current p t (by rw [hphase]; rfl)
    · rw [hothers q hq] at ht
      exact h.current q t' ht
  · by_cases hq : q = p
    · subst hq
      rw [hphase, Phase.resuming.injEq] at hp
      obtain ⟨-, -, rfl⟩ := hp
      rw [hw, Option.some.injEq] at hw'
      exact absurd (hw' ▸ hpc') (hpc q)
    · exact ⟨t', timeoutTime', co', (hothers q hq).trans hp, rfl⟩

theorem Accounted.work (hmono : Monotone now) (h : Accounted now s 0) {p : ι} {t : θ}
    {timeoutTime : Nat} {co : Co} {w : WorkerBody ι}
    (hr : s.world.running p = some (t, timeoutTime, co)) (hw : s.workers co.name = some w)
    (hok : s.Homed now (.work p)) {s' : Pools ι θ n} (hs : s.work now p t co w = some s') :
    Accounted now s' 0 := by
  have hphase := World.running_eq hr
  have hcurrent : s.current t = some p := h.current p t (by rw [hphase]; rfl)
  cases works hs with
  | noPool _ hnone =>
    rw [hcurrent] at hnone
    cases hnone
  | @findsNone q _ hq =>
    rw [hcurrent, Option.some.injEq] at hq
    refine h.setWorker hw fun q' hq' => ?_
    rw [WorkerPc.starved.injEq] at hq'
    exact ⟨t, timeoutTime, co, by rw [← hq', ← hq]; exact hphase, rfl⟩
  | @takes q task taskQueue =>
    have hpool : Accounted now (s.setPool q { s.pool q with taskQueue }) 0 := h.setPool rfl
    exact hpool.setWorker hw fun q hq => by cases hq
  | clashes => exact h.setWorker hw fun q hq => by cases hq
  | @finishes q task =>
    have hpool : Accounted now (s.setPool q { s.pool q with
        results := task :: (s.pool q).results, popFailTimes := 0 }) 0 := h.setPool rfl
    exact hpool.setWorker hw fun q hq => by cases hq
  | @recycled q _ hpc hrec hl =>
    obtain ⟨t', timeoutTime', co', hphase', hname⟩ := h.starved co.name w q hw hpc
    have hco' : co' ∈ (s.world.phase q).co := by
      rw [hphase']
      exact Multiset.mem_singleton_self co'
    have hco : co ∈ (s.world.phase p).co := by
      rw [hphase]
      exact Multiset.mem_singleton_self co
    have hq : q = p := h.placed.distinct.phase_unique hco' hco hname
    subst hq
    have hmem : co ∈ s.recycled now q := by
      simp only [recycled, hr, Option.bind_some, hw, hpc, hrec, if_true]
      rfl
    obtain ⟨hcr, hst⟩ := hok co hmem
    have hpos : 0 < (s.pool q).running :=
      h.running_pos (q := q) (by rw [hphase]; rfl) (by rw [hphase]; rfl) hcr
    have hset : Accounted now (s.tick.setWorker co.name { w with pc := .returned }) 0 :=
      (h.tick hmono).setWorker hw fun q hq => by cases hq
    have hcr' : (s.tick.setWorker co.name { w with pc := .returned }).creator co.name = some q := by
      rw [creator_setWorker (s := s.tick) hw]
      exact hcr
    have hdec := hset.decrement hcr' (show (s.pool q).running - 1 + 1 = (s.pool q).running by omega)
    exact hdec.leave (o := .returns ()) hmono hr (setWorker_self _ _ _) (fun q hq => by cases hq) hst
      rfl hl
  | @waits q pc _ _ hnext =>
    have hpool : Accounted now (s.tick.setPool q { s.pool q with
        popFailTimes := ((s.pool q).popFailTimes + 1) % 2 ^ 64 }) 0 := (h.tick hmono).setPool rfl
    refine hpool.setWorker hw fun q' hq' => ?_
    rw [hnext] at hq'
    split at hq' <;> cases hq'
  | @wakes q =>
    have hpool : Accounted now (s.setPool q { s.pool q with popFailTimes := 0 }) 0 := h.setPool rfl
    exact hpool.setWorker hw fun q hq => by cases hq

theorem Accounted.schedule (hmono : Monotone now) (h : Accounted now s 0) {p : ι} {t : θ}
    {timeoutTime : Nat} {uuid : String} {created : Bool}
    (hok : s.Homed now (.schedule p t timeoutTime uuid created)) {s' : Pools ι θ n}
    (hs : s.step now (.schedule p t timeoutTime uuid created) = some s') : Accounted now s' 0 := by
  obtain ⟨hfree, hschedules⟩ := step_schedule hs
  have hpool : Accounted now (s.setPool p { s.pool p with scheduling := true }) 0 := h.setPool rfl
  have hset := hpool.setStack (p :: s.stack t) hfree
  have hno : ∀ coName ∈ (0 : Multiset String), coName ∈ s.world.submitted :=
    fun _ hm => absurd hm (Multiset.notMem_zero _)
  cases hschedules with
  | already => exact h
  | fails hg => exact (hset.grow hmono hno hok hg).1.setPool rfl
  | @starts s₁ _ hg hl =>
    obtain ⟨hgrow, hphase, hstack⟩ := hset.grow hmono hno hok hg
    have hcurrent : s₁.current t = some p := by
      rw [Pools.current, hstack]
      show (update s.stack t (p :: s.stack t) t).head? = some p
      rw [update_self]
      rfl
    obtain ⟨world, hw, rfl⟩ := lift_eq hl
    have hplaced := hgrow.placed.step hmono (a := .schedule p t timeoutTime) trivial hw
    obtain ⟨hidle, rfl⟩ := World.step_schedule hw
    refine hgrow.setWorld hplaced rfl ?_ (fun q t' ht => ?_)
      fun q t' timeoutTime' co w hp _ _ => ?_
    · rw [World.ended_setPhase (by rw [hidle]; rfl)]
    · by_cases hq : q = p
      · rw [hq, World.setPhase_phase] at ht
        cases ht
        rw [hq]
        exact hcurrent
      · rw [World.setPhase_phase_ne _ hq] at ht
        exact hgrow.current q t' ht
    · have hq : q ≠ p := by
        rintro rfl
        rw [hidle] at hp
        cases hp
      exact ⟨t', timeoutTime', co, (World.setPhase_phase_ne _ hq _).trans hp, rfl⟩

theorem Accounted.call (hmono : Monotone now) (h : Accounted now s 0) {p : ι}
    {k : CoroutineImpl.Call Unit Unit} {s' : Pools ι θ n}
    (hs : s.lift now (.call p k) = some s') : Accounted now s' 0 := by
  obtain ⟨world, hw, rfl⟩ := lift_eq hs
  have hplaced := h.placed.step hmono (a := .call p k) trivial hw
  obtain ⟨t, timeoutTime, co, hr, rfl⟩ := World.step_call hw
  have hphase := World.running_eq hr
  refine h.setWorld hplaced rfl ?_ (fun q t' ht => ?_) fun q t' timeoutTime' co' w hp _ _ => ?_
  · rw [World.ended_setPhase (by rw [hphase]; rfl)]
  · by_cases hq : q = p
    · rw [hq, World.setPhase_phase] at ht
      rw [hq]
      exact h.current p t' (by rw [hphase]; exact ht)
    · rw [World.setPhase_phase_ne _ hq] at ht
      exact h.current q t' ht
  · by_cases hq : q = p
    · subst hq
      rw [hphase, Phase.resuming.injEq] at hp
      obtain ⟨-, -, rfl⟩ := hp
      exact ⟨t, timeoutTime, _, World.setPhase_phase _ _ _, co.call_name k⟩
    · exact ⟨t', timeoutTime', co', (World.setPhase_phase_ne _ hq _).trans hp, rfl⟩

theorem Accounted.tryResume (hmono : Monotone now) (h : Accounted now s x) {p : ι}
    {coName : String} {world : World ι θ n}
    (hw : s.world.step now (.tryResume p coName) = some world) :
    Accounted now { s with world } x := by
  have hplaced := h.placed.step hmono (a := .tryResume p coName) trivial hw
  obtain ⟨panics, rfl⟩ := World.step_tryResume hw
  exact h.setWorld hplaced rfl rfl h.current fun q t timeoutTime co w hp _ _ =>
    ⟨t, timeoutTime, co, hp, rfl⟩

theorem Accounted.step (hmono : Monotone now) (h : Accounted now s 0) {a : Act ι θ}
    (hok : s.Homed now a) {s' : Pools ι θ n} (hs : s.step now a = some s') :
    Accounted now s' 0 := by
  cases a with
  | submit p task | tryGetResult p task | changeState p state | setMinSize p minSize
  | setMaxSize p maxSize | setKeepAliveTime p keepAliveTime =>
    simp only [Pools.step, Option.some.injEq] at hs
    exact hs ▸ h.setPool rfl
  | tryRun p =>
    obtain rfl | ⟨taskQueue, results, rfl⟩ := step_tryRun hs
    · exact h
    · exact h.setPool rfl
  | tryResume p coName =>
    obtain ⟨world, hw, rfl⟩ := lift_eq hs
    exact h.tryResume hmono hw
  | schedule p t timeoutTime uuid created => exact h.schedule hmono hok hs
  | turn p uuid created =>
    rcases step_turn hs with ⟨t, timeoutTime, co, result, s₁, hp, hl, ha⟩ | ⟨hfailed, ha⟩
    · obtain ⟨hlisten, hphase⟩ := h.listen hmono hp hok.1 hok.2 hl
      rw [← hphase] at hlisten
      exact hlisten.advance hmono ha
    · refine Accounted.advance hmono ?_ ha
      rw [hfailed]
      exact h
  | call p k =>
    obtain ⟨t, timeoutTime, co, w, -, -, -, hs⟩ := step_call hs
    exact h.call hmono hs
  | leave p o =>
    obtain ⟨t, timeoutTime, co, w, pc, hr, hw, hpc, hs⟩ := step_leave hs
    have hset : Accounted now (s.setWorker co.name { w with pc }) 0 :=
      h.setWorker hw fun q hq => absurd hq (WorkerPc.leave_ne_starved hpc q)
    refine hset.leave hmono hr (setWorker_self _ _ _) (WorkerPc.leave_ne_starved hpc)
      (hok _ hr) ?_ hs
    rw [if_neg (WorkerPc.leave_ne_returns hpc)]
  | work p =>
    obtain ⟨t, timeoutTime, co, w, hr, hw, hs⟩ := step_work hs
    exact h.work hmono hr hw hok hs

structure Initial (s : Pools ι θ n) : Prop where
  world : s.world.Initial
  running : ∀ p, (s.pool p).running = 0
  workers : ∀ coName, s.workers coName = none
  decrements : s.decrements = []

omit [DecidableEq θ] in
theorem Initial.accounted (h : s.Initial) : Accounted now s 0 where
  placed := h.world.placed
  made coName w hw := by
    rw [h.workers coName] at hw
    cases hw
  current p t ht := by
    rw [h.world.phase p] at ht
    cases ht
  starved coName w q hw := by
    rw [h.workers coName] at hw
    cases hw
  bounded p := by
    rw [h.running p]
    decide
  running p := by
    have hnone : ∀ m, s.owned p m = 0 := by
      intro m
      refine Multiset.countP_eq_zero.2 fun coName _ => ?_
      rw [creator, h.workers coName]
      exact fun he => by cases he
    rw [h.running p, hnone, hnone]
  decrements d hd := by
    rw [h.decrements] at hd
    cases hd

/-- Where no worker is being resumed, every counter is the number of the live workers of
its pool. Every decrement was for a worker of its pool, and of a positive counter. -/
theorem running_eq_live (hmono : Monotone now) {s₀ s : Pools ι θ n} (h₀ : s₀.Initial)
    (h : Reaches (step now) (Homed now) s₀ s) :
    (s.Resting → ∀ p, (s.pool p).running = s.live p) ∧
      ∀ d ∈ s.decrements, s.creator d.worker = some d.pool ∧ 0 < d.running := by
  have hs : Accounted now s 0 :=
    h.invariant (p := fun s => Accounted now s 0) h₀.accounted
      fun _ _ _ hi hok hstep => hi.step hmono hok hstep
  exact ⟨hs.of_resting, hs.decrements⟩

def two : Pools (Fin 2) (Fin 2) 2 where
  world := World.pair
  pool _ := { minSize := 0, maxSize := 8, keepAliveTime := 0 }
  stack _ := []

theorem two_initial : two.Initial where
  world := World.pair_initial
  running _ := rfl
  workers _ := rfl
  decrements := rfl

instance (s : Pools ι θ n) : Decidable s.Resting :=
  inferInstanceAs (Decidable (∀ q, (s.world.phase q).co = 0))

/-- The second scheduler steals the worker of pool 0, which suspends in a task of pool 1. The
first one steals it back and recycles it. -/
theorem running_eq_live_recycled :
    ∃ s : Pools (Fin 2) (Fin 2) 2, (s.pool 0).results = ["x"] ∧ (s.pool 1).results = ["y"] ∧
      s.decrements = [⟨0, "s|a", 1⟩] ∧ (s.pool 0).running = s.live 0 ∧
      s.creator "s|a" = some 0 := by
  obtain ⟨s, h, hrest, hx, hy, hdec⟩ : ∃ s : Pools (Fin 2) (Fin 2) 2,
      Reaches (step id) (Homed id) two s ∧ s.Resting ∧ (s.pool 0).results = ["x"] ∧
        (s.pool 1).results = ["y"] ∧ s.decrements = [⟨0, "s|a", 1⟩] :=
    ⟨_, Reaches.of_runGuarded [.submit 0 "x", .schedule 0 0 1000 "a" true,
      .schedule 1 1 1000 "b" true, .turn 1 "" false, .turn 1 "" false, .submit 1 "y",
      .turn 1 "" false, .work 1, .leave 1 (.suspendWith ()), .turn 1 "" false, .turn 1 "" false,
      .turn 1 "" false, .turn 0 "" false, .turn 0 "" false, .turn 0 "" false, .turn 1 "" false,
      .work 0, .work 0, .work 0, .work 0, .work 0, .turn 0 "" false] rfl, by decide, rfl, rfl, rfl⟩
  obtain ⟨hrun, hall⟩ := running_eq_live monotone_id two_initial h
  exact ⟨s, hx, hy, hdec, hrun hrest 0, (hall ⟨0, "s|a", 1⟩ (hdec ▸ List.mem_singleton_self _)).1⟩

/-- The second scheduler steals the worker of pool 0, whose next task traps. The counter
of pool 1 wraps, and that of pool 0 keeps counting the worker. -/
theorem stolen_worker_miscounts :
    ∃ s : Pools (Fin 2) (Fin 2) 2, Reaches (step id) Free two s ∧ s.Resting ∧
      s.creator "s|a" = some 0 ∧ s.decrements = [⟨1, "s|a", 0⟩] ∧
      (s.pool 0).running = 1 ∧ s.live 0 = 0 ∧ (s.pool 1).running = 2 ^ 64 - 1 ∧ s.live 1 = 0 :=
  ⟨_, Reaches.of_run [.submit 0 "x", .schedule 0 0 1000 "a" true, .schedule 1 1 1000 "b" true,
    .turn 1 "" false, .turn 1 "" false, .submit 1 "y", .turn 1 "" false, .work 1, .leave 1 .traps,
    .turn 1 "c" false] rfl (guarded_free _), by decide, rfl, rfl, rfl, rfl, rfl, rfl⟩

end Pools

end OpenCoroutine
