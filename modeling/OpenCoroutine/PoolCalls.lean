import OpenCoroutine.Nesting
import OpenCoroutine.Pools

/-! `CoroutinePoolImpl::try_timeout_schedule` on threads whose tasks call it for other pools.
A call is its entry, up to the run of the scheduler, and its exit, which is labelled with what
the scheduler has returned; a scheduler that panics unwinds through the call. In between the
tasks on that thread may enter other calls and leave them. Whatever else happens to a pool
leaves the flag `scheduling` alone. Preemption signals are left out. -/

namespace OpenCoroutine

open Function Nesting Transition

/-- `stack` is `COROUTINE_POOL`. The calls in progress on a thread stand innermost first, each
with what it has found there. -/
structure PoolCalls (ι θ : Type*) where
  pool : ι → CoroutinePoolImpl
  stack : θ → List ι
  calls : θ → List (ι × List ι)

namespace CoroutinePoolImpl

/-- `grow` gets to the creation of a worker. -/
def needsWorker (pool : CoroutinePoolImpl) : Bool :=
  pool.state.isGrowing && !pool.taskQueue.isEmpty && decide (pool.running < pool.maxSize.toNat)

/-- `grow`, as `try_timeout_schedule` calls it, with `false` where it fails. -/
def grow (pool : CoroutinePoolImpl) (created : Bool) : Bool × CoroutinePoolImpl :=
  if pool.needsWorker then
    if created then (true, { pool with running := (pool.running + 1) % 2 ^ 64 })
    else (false, pool)
  else (true, pool)

end CoroutinePoolImpl

namespace PoolCalls

inductive Act (ι θ : Type*) where
  | schedule (t : θ) (p : ι) (created : Bool)
  | scheduled (t : θ) (result : Except IoError Nat)
  | unwinds (t : θ)
  | other (p : ι) (pool : CoroutinePoolImpl)

/-- A call that has ended: its pool, and the flag and the stack that it has found. -/
structure Ended (ι θ : Type*) where
  thread : θ
  pool : ι
  scheduling : Bool
  stack : List ι

variable {ι θ : Type*} [DecidableEq ι] [DecidableEq θ]

def current (s : PoolCalls ι θ) (t : θ) : Option ι := (s.stack t).head?

def setPool (s : PoolCalls ι θ) (p : ι) (pool : CoroutinePoolImpl) : PoolCalls ι θ :=
  { s with pool := update s.pool p pool }

def setStack (s : PoolCalls ι θ) (t : θ) (stack : List ι) : PoolCalls ι θ :=
  { s with stack := update s.stack t stack }

def setCalls (s : PoolCalls ι θ) (t : θ) (calls : List (ι × List ι)) : PoolCalls ι θ :=
  { s with calls := update s.calls t calls }

def setScheduling (s : PoolCalls ι θ) (p : ι) (scheduling : Bool) : PoolCalls ι θ :=
  s.setPool p { s.pool p with scheduling }

def initCurrent (s : PoolCalls ι θ) (t : θ) (p : ι) : PoolCalls ι θ :=
  s.setStack t (p :: s.stack t)

def cleanCurrent (s : PoolCalls ι θ) (t : θ) : PoolCalls ι θ := s.setStack t (s.stack t).tail

/-- The entry of `try_timeout_schedule`. -/
def schedule (s : PoolCalls ι θ) (t : θ) (p : ι) (created : Bool) : PoolCalls ι θ :=
  if (s.pool p).scheduling then s
  else
    let s' := (s.setScheduling p true).initCurrent t p
    match (s'.pool p).grow created with
    | (true, pool) => (s'.setPool p pool).setCalls t ((p, s.stack t) :: s.calls t)
    | (false, pool) => (s'.setPool p pool).setScheduling p false

def step (s : PoolCalls ι θ) : Act ι θ → Option (PoolCalls ι θ)
  | .schedule t p created => some (s.schedule t p created)
  | .scheduled t _ =>
    match s.calls t with
    | [] => none
    | (p, _) :: calls => some (((s.cleanCurrent t).setScheduling p false).setCalls t calls)
  | .unwinds t =>
    match s.calls t with
    | [] => none
    | _ :: calls => some (s.setCalls t calls)
  | .other p pool => some (s.setPool p { pool with scheduling := (s.pool p).scheduling })

/-- The call of `try_timeout_schedule` that returns in a step. A call that has found the flag
set, or has failed to grow, returns at once. -/
def ends (s : PoolCalls ι θ) : Act ι θ → Option (Ended ι θ)
  | .schedule t p created =>
    if (s.pool p).scheduling then some ⟨t, p, true, s.stack t⟩
    else if ((s.pool p).grow created).1 then none
    else some ⟨t, p, false, s.stack t⟩
  | .scheduled t _ => (s.calls t).head?.map fun call => ⟨t, call.1, false, call.2⟩
  | .unwinds _ | .other _ _ => none

/-- A call that returns leaves the flag and the stack as it has found them, so that the pool of
the enclosing call is the current one again. -/
def Traceless (s : PoolCalls ι θ) (a : Act ι θ) : Prop :=
  ∀ s' e, s.step a = some s' → s.ends a = some e →
    (s'.pool e.pool).scheduling = e.scheduling ∧ s'.stack e.thread = e.stack ∧
      s'.current e.thread = ((s'.calls e.thread).map Prod.fst).head?

/-- A worker can be created where `grow` needs one. -/
def Creates (s : PoolCalls ι θ) : Act ι θ → Prop
  | .schedule _ p created =>
    (s.pool p).scheduling = false → (s.pool p).needsWorker = true → created = true
  | .scheduled _ _ | .unwinds _ | .other _ _ => True

def Returns : Act ι θ → Prop
  | .unwinds _ => False
  | .schedule _ _ _ | .scheduled _ _ | .other _ _ => True

structure Initial (s : PoolCalls ι θ) : Prop where
  stack : ∀ t, s.stack t = []
  calls : ∀ t, s.calls t = []

def Sound (s : PoolCalls ι θ) : Prop := ∀ t, Nested [] (s.stack t) (s.calls t)

variable {s s' : PoolCalls ι θ} {a : Act ι θ}

omit [DecidableEq ι] [DecidableEq θ] in
theorem Initial.sound (h : s.Initial) : s.Sound := by
  intro t
  rw [h.calls t]
  exact h.stack t

omit [DecidableEq ι] [DecidableEq θ] in
theorem Sound.current (h : s.Sound) (t : θ) :
    s.current t = ((s.calls t).map Prod.fst).head? :=
  (h t).head?

theorem grow_fst (pool : CoroutinePoolImpl) (created : Bool) :
    (pool.grow created).1 = (!pool.needsWorker || created) := by
  unfold CoroutinePoolImpl.grow
  cases pool.needsWorker <;> cases created <;> rfl

/-! What the entry of a call does. -/

theorem schedule_already {t : θ} {p : ι} {created : Bool} (h : (s.pool p).scheduling = true) :
    s.schedule t p created = s := by
  rw [schedule, if_pos h]

theorem schedule_stack {t : θ} {p : ι} {created : Bool} (h : (s.pool p).scheduling = false) :
    (s.schedule t p created).stack = update s.stack t (p :: s.stack t) := by
  unfold schedule
  rw [if_neg (by simp [h])]
  dsimp only
  split <;> rfl

theorem schedule_calls {t : θ} {p : ι} {created : Bool} (h : (s.pool p).scheduling = false) :
    (s.schedule t p created).calls =
      if ((s.pool p).grow created).1 then update s.calls t ((p, s.stack t) :: s.calls t)
      else s.calls := by
  have hsame : ((((s.setScheduling p true).initCurrent t p).pool p).grow created).1 =
      ((s.pool p).grow created).1 := by
    rw [grow_fst, grow_fst]
    simp [initCurrent, setStack, setScheduling, setPool, CoroutinePoolImpl.needsWorker]
  unfold schedule
  rw [if_neg (by simp [h]), ← hsame]
  dsimp only
  split
  · rename_i he
    rw [he]
    rfl
  · rename_i he
    rw [he]
    rfl

/-! The stack. -/

omit [DecidableEq ι] [DecidableEq θ] in
theorem Creates.grown {t : θ} {p : ι} {created : Bool} (h : s.Creates (.schedule t p created))
    (hflag : (s.pool p).scheduling = false) : ((s.pool p).grow created).1 = true := by
  have hc := h hflag
  rw [grow_fst]
  cases hn : (s.pool p).needsWorker with
  | false => rfl
  | true =>
    rw [hc hn]
    rfl

omit [DecidableEq ι] in
theorem Sound.set (h : s.Sound) {t : θ} {stack : List ι} {calls : List (ι × List ι)}
    (hn : Nested [] stack calls) (hstack : s'.stack = update s.stack t stack)
    (hcalls : s'.calls = update s.calls t calls) : s'.Sound := by
  intro t'
  by_cases ht : t' = t
  · rw [hstack, hcalls, ht, update_self, update_self]
    exact hn
  · rw [hstack, hcalls, update_of_ne ht, update_of_ne ht]
    exact h t'

theorem Sound.step (h : s.Sound) (hs : s.step a = some s') (hcreates : s.Creates a)
    (hreturns : Returns a) : s'.Sound := by
  cases a with
  | schedule t p created =>
    simp only [PoolCalls.step, Option.some.injEq] at hs
    subst hs
    cases hflag : (s.pool p).scheduling with
    | true =>
      rw [schedule_already hflag]
      exact h
    | false =>
      have hgrown := hcreates.grown hflag
      refine h.set ((h t).enter p) (schedule_stack hflag) ?_
      rw [schedule_calls hflag, if_pos hgrown]
  | scheduled t result =>
    simp only [PoolCalls.step] at hs
    split at hs
    · cases hs
    · rename_i p found calls hcalls
      cases hs
      have hn := h t
      rw [hcalls] at hn
      exact h.set hn.leave.2 rfl rfl
  | unwinds t => cases hreturns
  | other p pool =>
    cases hs
    exact h

/-- A call that could not create its worker keeps its pool on the stack. -/
theorem not_traceless {t : θ} {p : ι} (hflag : (s.pool p).scheduling = false)
    (hneeds : (s.pool p).needsWorker = true) : ¬ s.Traceless (.schedule t p false) := by
  have hgrow : ((s.pool p).grow false).1 = false := by
    rw [grow_fst, hneeds]
    rfl
  intro h
  have hstack := (h _ ⟨t, p, false, s.stack t⟩ rfl (by simp [ends, hflag, hgrow])).2.1
  rw [schedule_stack hflag, update_self] at hstack
  exact List.cons_ne_self _ _ hstack

theorem Sound.traceless (h : s.Sound) (hcreates : s.Creates a) (hreturns : Returns a) :
    s.Traceless a := by
  intro s' e hs hends
  have hcurrent := (h.step hs hcreates hreturns).current e.thread
  cases a with
  | schedule t p created =>
    simp only [PoolCalls.step, Option.some.injEq] at hs
    subst hs
    cases hflag : (s.pool p).scheduling with
    | true =>
      simp only [ends, hflag, if_true, Option.some.injEq] at hends
      subst hends
      rw [schedule_already hflag] at hcurrent ⊢
      exact ⟨hflag, rfl, hcurrent⟩
    | false =>
      simp [ends, hflag, hcreates.grown hflag] at hends
  | scheduled t result =>
    simp only [PoolCalls.step] at hs
    split at hs
    · cases hs
    · rename_i p found calls hcalls
      cases hs
      have hn := h t
      rw [hcalls] at hn
      simp only [ends, hcalls, List.head?_cons, Option.map_some, Option.some.injEq] at hends
      subst hends
      refine ⟨?_, ?_, hcurrent⟩
      · simp [setCalls, setScheduling, setPool]
      · have hstack : (update s.stack t (s.stack t).tail) t = found := by
          rw [update_self]
          exact hn.leave.1
        exact hstack
  | unwinds t => cases hreturns
  | other p pool => cases hends

/-- Every call leaves the flag and the stack as it has found them, in a run in which workers
can be created where they are needed and no scheduler panics; and in no other run as far as
the workers go. -/
theorem schedule_traceless (h : s.Initial) (as : List (Act ι θ)) :
    (Guarded step (fun s a => s.Creates a ∧ Returns a) s as → Guarded step Traceless s as) ∧
      (Guarded step Traceless s as → Guarded step Creates s as) := by
  constructor
  · intro hg
    exact hg.imp Sound (fun _ _ _ hs ha ht => hs.step ht ha.1 ha.2)
      (fun _ _ hs ha => hs.traceless ha.1 ha.2) h.sound
  · intro hg
    refine hg.imp (fun _ => True) (fun _ _ _ _ _ _ => trivial) (fun s a _ ha => ?_) trivial
    cases a with
    | schedule t p created =>
      intro hflag hneeds
      by_contra hc
      rw [Bool.not_eq_true] at hc
      exact not_traceless hflag hneeds (hc ▸ ha)
    | scheduled t result => trivial
    | unwinds t => trivial
    | other p pool => trivial

/-- Two pools, each with a task and room for a worker. -/
def two : PoolCalls Nat Unit where
  pool _ := { taskQueue := ["a"], minSize := 0, maxSize := 65536, keepAliveTime := 0 }
  stack _ := []
  calls _ := []

theorem two_initial : two.Initial where
  stack _ := rfl
  calls _ := rfl

def inner : List (Act Nat Unit) :=
  [.schedule () 0 true, .schedule () 1 true, .scheduled () (.ok 0), .scheduled () (.ok 0)]

theorem schedule_traceless_inner :
    (Guarded step (fun s a => s.Creates a ∧ Returns a) two inner →
        Guarded step Traceless two inner) ∧
      (Guarded step Traceless two inner → Guarded step Creates two inner) :=
  schedule_traceless two_initial inner

/-- A task of pool 0 schedules pool 1, whose worker cannot be created: when that call has
failed, pool 1 is the current one for the task of pool 0. -/
theorem failed_call_left_current :
    ∃ s s' : PoolCalls Nat Unit, Reaches step Free two s ∧
      s.step (.schedule () 1 false) = some s' ∧
      s.ends (.schedule () 1 false) = some ⟨(), 1, false, [0]⟩ ∧
      (s'.calls ()).map Prod.fst = [0] ∧ s'.current () = some 1 ∧
      ¬ s.Traceless (.schedule () 1 false) := by
  obtain ⟨s, s', h, hs, hends, hcalls, hcurrent⟩ : ∃ s s' : PoolCalls Nat Unit,
      run step two [.schedule () 0 true] = some s ∧ s.step (.schedule () 1 false) = some s' ∧
      s.ends (.schedule () 1 false) = some ⟨(), 1, false, [0]⟩ ∧
      (s'.calls ()).map Prod.fst = [0] ∧ s'.current () = some 1 :=
    ⟨_, _, rfl, rfl, rfl, rfl, rfl⟩
  refine ⟨s, s', .of_run _ h (guarded_free _), hs, hends, hcalls, hcurrent, fun ht => ?_⟩
  have henclosing := (ht s' _ hs hends).2.2
  rw [hcurrent, hcalls] at henclosing
  cases henclosing

end PoolCalls

end OpenCoroutine
