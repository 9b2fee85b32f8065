import OpenCoroutine.Tracking

/-! What a process leaves behind when it leaves a task for good. `try_run` records the result
and notifies the waiter after `TaskImpl::run`, so a trap in the task passes both by, and the
assertion between the two passes the second by. -/

namespace OpenCoroutine

open Function Transition

namespace Tasks

variable {ρ : Type*}

namespace State

/-- The result to be inserted meets an earlier one of its name, and a waiter is registered. -/
def obstructed (s : State ρ) (p : ρ) : Bool :=
  match s.stack p with
  | .insert task _ :: _ => (s.results task.name).isSome && (s.waits task.name).isSome
  | _ => false

/-- No trap ends a task, and no registered waiter has an earlier result in its way. -/
def Survives (s : State ρ) : Act ρ → Prop
  | .trap p => tasks (s.stack p) = []
  | .insert p => s.obstructed p = false
  | _ => True

instance (s : State ρ) : (a : Act ρ) → Decidable (s.Survives a)
  | .trap p => inferInstanceAs (Decidable (tasks (s.stack p) = []))
  | .insert p => inferInstanceAs (Decidable (s.obstructed p = false))
  | .submit _ | .tryRun _ | .ends .. | .answer _ | .tryGetResult .. | .waitResult ..
  | .advance .. | .wake _ | .timeout _ | .finish _ => isTrue trivial

end State

open State

/-- A task that has been started is still on the stack, or its result has been recorded and
the waiter registered at its end notified. -/
structure Answered (s : State ρ) : Prop where
  departs : ∀ x ∈ s.started, x.2 ∈ tasks (s.stack x.1) ∨ ∃ waiter, (x.2, waiter) ∈ s.departed
  recorded : ∀ p task, Frame.answer task ∈ s.stack p →
    ∃ result, (task.number, result) ∈ s.recorded
  departed : ∀ x ∈ s.departed, (∃ result, (x.1.number, result) ∈ s.recorded) ∧
    ∀ arc, x.2 = some arc → arc < s.arcs ∧ s.pending arc = false
  waits : ∀ name arc, s.waits name = some arc → arc < s.arcs

theorem new_answered (kind : ρ → Kind) : Answered (.new kind) where
  departs x hx := by simp [State.new] at hx
  recorded p task ht := by simp [State.new] at ht
  departed x hx := by simp [State.new] at hx
  waits name arc hw := by simp [State.new] at hw

variable {s t : State ρ}

/-- Nothing is started or left. -/
theorem Answered.same (h : Answered s) (hstarted : t.started = s.started)
    (htasks : ∀ p, tasks (t.stack p) = tasks (s.stack p))
    (hanswer : ∀ p task, Frame.answer task ∈ t.stack p → Frame.answer task ∈ s.stack p)
    (hrecorded : t.recorded = s.recorded) (hdeparted : t.departed = s.departed)
    (hpending : ∀ arc < s.arcs, s.pending arc = false → t.pending arc = false)
    (harcs : s.arcs ≤ t.arcs) (hwaits : ∀ name arc, t.waits name = some arc → arc < t.arcs) :
    Answered t where
  departs x hx := by
    rw [hstarted] at hx
    rw [htasks, hdeparted]
    exact h.departs x hx
  recorded p task ht := by
    rw [hrecorded]
    exact h.recorded p task (hanswer p task ht)
  departed x hx := by
    rw [hdeparted] at hx
    rw [hrecorded]
    obtain ⟨hr, hw⟩ := h.departed x hx
    refine ⟨hr, fun arc ha => ?_⟩
    have hlt := (hw arc ha).1
    exact ⟨by omega, hpending arc hlt (hw arc ha).2⟩
  waits := hwaits

/-- The other fields say nothing about what has been answered. -/
theorem Answered.log (h : Answered s) (submitted : List String) (taskQueue : List TaskImpl)
    (results : String → Option Delivery) (endings : List (Nat × Ending))
    (taken : List (ρ × Delivery)) (returned : List Delivery) (finished : ρ → Bool)
    (panics : List String) : Answered { s with
      submitted, taskQueue, results, endings, taken, returned, finished, panics } :=
  h.same rfl (fun _ => rfl) (fun _ _ ht => ht) rfl rfl (fun _ _ hp => hp) (Nat.le_refl _) h.waits

/-- A frame put on top that does not answer makes no process answer. -/
theorem answer_mem_cons {rest : List Frame} {frame frame' : Frame} {task : TaskImpl}
    (hno : frame' ≠ .answer task) (ht : Frame.answer task ∈ frame' :: rest) :
    Frame.answer task ∈ frame :: rest := by
  rcases List.mem_cons.1 ht with he | ht
  · exact absurd he.symm hno
  · exact List.mem_cons_of_mem _ ht

variable [DecidableEq ρ] {p : ρ} {stack rest : List Frame}

theorem Answered.setStack (h : Answered s) (htasks : tasks stack = tasks (s.stack p))
    (hanswer : ∀ task, Frame.answer task ∈ stack → Frame.answer task ∈ s.stack p) :
    Answered (s.setStack p stack) := by
  refine h.same rfl (setStack_stack tasks htasks) (fun q task ht => ?_) rfl rfl
    (fun _ _ hp => hp) (Nat.le_refl _) h.waits
  by_cases hq : q = p
  · subst hq
    rw [setStack_self] at ht
    exact hanswer task ht
  · rw [setStack_ne _ hq] at ht
    exact ht

theorem tasks_unwind (stack : List Frame) : tasks (Frame.unwind stack) = tasks stack := by
  induction stack with
  | nil => rfl
  | cons frame stack ih =>
    cases frame with
    | wait name pc => exact ih
    | running task | insert task ending | answer task => rfl

theorem Answered.unwindTo (h : Answered s) (htasks : tasks rest = tasks (s.stack p))
    (hanswer : ∀ task, Frame.answer task ∈ rest → Frame.answer task ∈ s.stack p) :
    Answered (s.unwindTo p rest) := by
  obtain ⟨finished, he⟩ := unwindTo_eq s p rest
  have hk : Answered (s.setStack p (Frame.unwind rest)) :=
    h.setStack ((tasks_unwind rest).trans htasks) fun task ht =>
      hanswer task ((unwind_suffix rest).subset ht)
  rw [he]
  exact hk.log _ _ _ _ _ _ _ _

/-- The task leaves the stack of process `p`, which has departed from it. -/
theorem Answered.drop (h : Answered s) {task : TaskImpl}
    (hin : ∃ waiter, (task, waiter) ∈ s.departed)
    (htasks : tasks (s.stack p) = task :: tasks stack)
    (hanswer : ∀ task, Frame.answer task ∈ stack → Frame.answer task ∈ s.stack p) :
    Answered (s.setStack p stack) := by
  refine ⟨fun x hx => ?_, fun q task' ht => ?_, h.departed, h.waits⟩
  · rcases h.departs x hx with ht | ht
    · by_cases hq : x.1 = p
      · rw [hq, htasks] at ht
        rcases List.mem_cons.1 ht with he | ht
        · exact .inr (he ▸ hin)
        · rw [hq, setStack_self]
          exact .inl ht
      · rw [setStack_ne _ hq]
        exact .inl ht
    · exact .inr ht
  · by_cases hq : q = p
    · subst hq
      rw [setStack_self] at ht
      exact h.recorded q task' (hanswer task' ht)
    · rw [setStack_ne _ hq] at ht
      exact h.recorded q task' ht

omit [DecidableEq ρ] in
theorem Answered.depart (h : Answered s) {task : TaskImpl}
    (hrecorded : ∃ result, (task.number, result) ∈ s.recorded)
    (hpending : ∀ arc, s.waits task.name = some arc → s.pending arc = false) :
    Answered (s.depart task) := by
  refine ⟨fun x hx => ?_, h.recorded, fun x hx => ?_, h.waits⟩
  · rcases h.departs x hx with ht | ⟨waiter, hw⟩
    · exact .inl ht
    · exact .inr ⟨waiter, List.mem_cons_of_mem _ hw⟩
  · rcases List.mem_cons.1 hx with rfl | hx
    · exact ⟨hrecorded, fun arc hw => ⟨h.waits _ arc hw, hpending arc hw⟩⟩
    · exact h.departed x hx

omit [DecidableEq ρ] in
theorem Answered.store (h : Answered s) (task : TaskImpl) (result : TaskResult) :
    Answered (s.store task result) := by
  refine ⟨h.departs, fun p task' ht => ?_, fun x hx => ?_, h.waits⟩
  · obtain ⟨result', hr⟩ := h.recorded p task' ht
    exact ⟨result', List.mem_cons_of_mem _ hr⟩
  · obtain ⟨⟨result', hr⟩, hw⟩ := h.departed x hx
    exact ⟨⟨result', List.mem_cons_of_mem _ hr⟩, hw⟩

theorem Answered.pop (h : Answered s) (htasks : tasks rest = tasks (s.stack p))
    (hanswer : ∀ task, Frame.answer task ∈ rest → Frame.answer task ∈ s.stack p) :
    Answered (s.pop p rest) := by
  unfold State.pop
  split
  · exact h.setStack htasks hanswer
  · rename_i task taskQueue hq
    refine ⟨fun x hx => ?_, fun q task' ht => ?_, h.departed, h.waits⟩
    · rcases List.mem_cons.1 hx with rfl | hx
      · rw [setStack_self]
        exact .inl List.mem_cons_self
      · rcases h.departs x hx with ht | ht
        · by_cases hp : x.1 = p
          · rw [hp, ← htasks] at ht
            rw [hp, setStack_self]
            exact .inl (List.mem_cons_of_mem _ ht)
          · rw [setStack_ne _ hp]
            exact .inl ht
        · exact .inr ht
    · by_cases hp : q = p
      · subst hp
        rw [setStack_self] at ht
        rcases List.mem_cons.1 ht with he | ht
        · cases he
        · exact h.recorded q task' (hanswer task' ht)
      · rw [setStack_ne _ hp] at ht
        exact h.recorded q task' ht

theorem Answered.insert (h : Answered s) {task : TaskImpl} {ending : Ending}
    (hp : s.stack p = .insert task ending :: rest)
    (hok : s.results task.name ≠ none → s.waits task.name = none) :
    Answered (insertResult s p task ending rest) := by
  have hrecorded : ∃ result, (task.number, result) ∈ (s.store task ending.result).recorded :=
    ⟨_, List.mem_cons_self⟩
  have hanswer : ∀ task', Frame.answer task' ∈ rest → Frame.answer task' ∈ s.stack p := by
    intro task' ht
    rw [hp]
    exact List.mem_cons_of_mem _ ht
  have hstore := h.store task ending.result
  unfold insertResult
  split
  · refine ⟨fun x hx => ?_, fun q task' ht => ?_, hstore.departed, hstore.waits⟩
    · have htasks : tasks (.answer task :: rest) = tasks ((s.store task ending.result).stack p) := by
        change _ = tasks (s.stack p)
        rw [hp]
        rfl
      rw [setStack_stack tasks htasks]
      exact hstore.departs x hx
    · by_cases hq : q = p
      · subst hq
        rw [setStack_self] at ht
        rcases List.mem_cons.1 ht with he | ht
        · cases he
          exact hrecorded
        · exact hstore.recorded q task' (hanswer task' ht)
      · rw [setStack_ne _ hq] at ht
        exact hstore.recorded q task' ht
  · rename_i delivery hd
    have hnone : s.waits task.name = none := hok (by rw [hd]; exact nofun)
    have hdepart : Answered ((s.store task ending.result).depart task) := by
      refine hstore.depart hrecorded fun arc hw => ?_
      have hw' : s.waits task.name = some arc := hw
      rw [hnone] at hw'
      cases hw'
    have htasks : tasks (s.stack p) = task :: tasks (Frame.unwind rest) := by
      rw [hp, tasks_unwind]
      rfl
    have hdrop : Answered (((s.store task ending.result).depart task).setStack p
        (Frame.unwind rest)) :=
      hdepart.drop ⟨_, List.mem_cons_self⟩ htasks fun task' ht =>
        hanswer task' ((unwind_suffix rest).subset ht)
    obtain ⟨finished, he⟩ :=
      unwindTo_eq (((s.store task ending.result).depart task).panic alreadyThere) p rest
    rw [he]
    exact hdrop.log _ _ _ _ _ _ _ _

theorem Answered.answer (h : Answered s) {task : TaskImpl}
    (hp : s.stack p = .answer task :: rest) : Answered (answer s p task rest) := by
  have hrecorded : ∃ result, (task.number, result) ∈ s.recorded :=
    h.recorded p task (hp ▸ List.mem_cons_self)
  have htasks : tasks (s.stack p) = task :: tasks rest := by rw [hp]; rfl
  have hanswer : ∀ task', Frame.answer task' ∈ rest → Frame.answer task' ∈ s.stack p := by
    intro task' ht
    rw [hp]
    exact List.mem_cons_of_mem _ ht
  unfold Tasks.answer
  split
  · rename_i arc hw
    have hnotify : Answered { s with pending := update s.pending arc false } := by
      refine h.same rfl (fun _ => rfl) (fun _ _ ht => ht) rfl rfl (fun arc' _ hp => ?_)
        (Nat.le_refl _) h.waits
      by_cases he : arc' = arc
      · subst he
        exact update_self _ _ _
      · exact (update_of_ne he _ _).trans hp
    have hdepart := hnotify.depart hrecorded fun arc' hw' => by
      have he : arc' = arc := Option.some.inj (hw'.symm.trans hw)
      subst he
      exact update_self _ _ _
    exact hdepart.drop ⟨_, List.mem_cons_self⟩ htasks hanswer
  · rename_i hw
    have hdepart : Answered (s.depart task) := h.depart hrecorded fun arc hw' => by
      rw [hw] at hw'
      cases hw'
    exact hdepart.drop ⟨_, List.mem_cons_self⟩ htasks hanswer

omit [DecidableEq ρ] in
theorem Answered.take (h : Answered s) {name : String} {delivery : Delivery}
    (hs : s.take p name = some (delivery, t)) : Answered t ∧ t.stack = s.stack := by
  obtain ⟨-, rfl⟩ := take_eq hs
  exact ⟨h.log _ _ _ _ _ _ _ _, rfl⟩

omit [DecidableEq ρ] in
theorem Answered.forget (h : Answered s) (name : String) :
    Answered { s with waits := update s.waits name none } := by
  refine h.same rfl (fun _ => rfl) (fun _ _ ht => ht) rfl rfl (fun _ _ hp => hp) (Nat.le_refl _)
    fun name' arc hw => ?_
  by_cases he : name' = name
  · simp [he] at hw
  · simp only [update_of_ne he] at hw
    exact h.waits name' arc hw

omit [DecidableEq ρ] in
/-- A new waiter has an `Arc` that no task has been left with. -/
theorem Answered.register (h : Answered s) (name : String) :
    Answered { s with
      waits := update s.waits name (some s.arcs)
      pending := update s.pending s.arcs true
      arcs := s.arcs + 1 } := by
  refine h.same rfl (fun _ => rfl) (fun _ _ ht => ht) rfl rfl (fun arc hlt hp => ?_)
    (Nat.le_succ _) fun name' arc hw => ?_
  · have hne : arc ≠ s.arcs := Nat.ne_of_lt hlt
    exact (update_of_ne hne _ _).trans hp
  · change arc < s.arcs + 1
    by_cases he : name' = name
    · simp only [he, update_self, Option.some.injEq] at hw
      omega
    · simp only [update_of_ne he] at hw
      have hlt := h.waits name' arc hw
      omega

theorem Answered.advance (h : Answered s) {name : String} {pc : WaitPc}
    (hp : s.stack p = .wait name pc :: rest) (hs : Advances s p name rest pc t) : Answered t := by
  have hout : ∀ s', Answered s' → s'.stack = s.stack → Answered (s'.setStack p rest) := by
    intro s' h' hstack
    refine h'.setStack ?_ fun task ht => ?_
    · rw [hstack, hp]
      rfl
    · rw [hstack, hp]
      exact List.mem_cons_of_mem _ ht
  have hgo : ∀ pc' s', Answered s' → s'.stack = s.stack →
      Answered (s'.setStack p (.wait name pc' :: rest)) := by
    intro pc' s' h' hstack
    refine h'.setStack ?_ fun task ht => ?_
    · rw [hstack, hp]
      rfl
    · rw [hstack, hp]
      exact answer_mem_cons (by simp) ht
  have hpanic : ∀ s', Answered s' → s'.stack = s.stack → Answered (s'.unwindTo p rest) := by
    intro s' h' hstack
    refine h'.unwindTo ?_ fun task ht => ?_
    · rw [hstack, hp]
      rfl
    · rw [hstack, hp]
      exact List.mem_cons_of_mem _ ht
  cases hs with
  | takes ht | takesLast ht => exact hgo _ _ (h.take ht).1 (h.take ht).2
  | misses | runsAgain | finds | findsNone | blocks | passes => exact hgo _ _ h rfl
  | timesOut | missesLast => exact hout _ h rfl
  | forgets | removes => exact hout _ ((h.forget name).log _ _ _ _ _ _ _ _) rfl
  | takesAgain ht => exact hout _ ((h.take ht).1.log _ _ _ _ _ _ _ _) (h.take ht).2
  | inserts => exact hgo _ _ (h.register name) rfl
  | insertPanics => exact hpanic _ ((h.register name).log _ _ _ _ _ _ _ _) rfl
  | removePanics => exact hpanic _ (h.log _ _ _ _ _ _ _ _) rfl

theorem Answered.finish (h : Answered s) (hp : tasks (s.stack p) = []) : Answered (s.finish p) := by
  have hk : Answered (s.setStack p []) := h.setStack hp.symm fun task ht => absurd ht List.not_mem_nil
  exact hk.log _ _ _ _ _ _ _ _

theorem Answered.unblock (h : Answered s) {name : String} {arc : Nat} (pc : WaitPc)
    (hp : s.stack p = .wait name (.blocked arc) :: rest) :
    Answered (s.setStack p (.wait name pc :: rest)) := by
  refine h.setStack (by rw [hp]; rfl) fun task ht => ?_
  rw [hp]
  exact answer_mem_cons (by simp) ht

theorem Answered.step (h : Answered s) {a : Act ρ} (hok : s.Survives a) (hs : step s a = some t) :
    Answered t := by
  cases a with
  | submit name =>
    simp only [Tasks.step, Option.some.injEq] at hs
    subst hs
    exact h.log _ _ _ _ _ _ _ _
  | tryRun p =>
    rcases step_tryRun hs with ⟨name, rest, hp, rfl⟩ | ⟨-, rfl⟩
    · refine h.pop (by rw [hp]; rfl) fun task ht => ?_
      rw [hp]
      exact answer_mem_cons (by simp) ht
    · exact h.pop rfl fun _ ht => ht
  | ends p ending =>
    obtain ⟨task, rest, hp, rfl⟩ := step_ends hs
    have hk : Answered (s.setStack p (.insert task ending :: rest)) :=
      h.setStack (by rw [hp]; rfl) fun task ht => by
        rw [hp]
        exact answer_mem_cons (by simp) ht
    exact hk.log _ _ _ _ _ _ _ _
  | insert p =>
    obtain ⟨task, ending, rest, hp, rfl⟩ := step_insert hs
    have hok' : s.obstructed p = false := hok
    simp only [State.obstructed, hp, Bool.and_eq_false_iff, Option.isSome_eq_false_iff,
      Option.isNone_iff_eq_none] at hok'
    exact h.insert hp fun hne => hok'.resolve_left hne
  | answer p =>
    obtain ⟨task, rest, hp, rfl⟩ := step_answer hs
    exact h.answer hp
  | tryGetResult p name =>
    obtain rfl | ⟨delivery, s', ht, rfl⟩ := step_tryGetResult hs
    · exact h
    · exact (h.take ht).1.log _ _ _ _ _ _ _ _
  | waitResult p name =>
    obtain ⟨-, rfl⟩ := step_waitResult hs
    refine h.setStack rfl fun task ht => ?_
    rcases List.mem_cons.1 ht with he | ht
    · cases he
    · exact ht
  | advance p timedOut =>
    obtain ⟨name, pc, rest, hp, hs⟩ := step_advance hs
    exact h.advance hp hs
  | wake p =>
    obtain ⟨name, arc, rest, hp, rfl⟩ := step_wake hs
    exact h.unblock _ hp
  | timeout p =>
    obtain ⟨name, arc, rest, hp, rfl⟩ := step_timeout hs
    exact h.unblock _ hp
  | trap p =>
    obtain ⟨-, rfl⟩ := step_trap hs
    rw [trap_eq hok]
    exact h.finish hok
  | finish p =>
    obtain ⟨hnil, rfl⟩ := step_finish hs
    exact h.finish (by rw [hnil]; rfl)

/-- A process that no longer has a started task on its stack, so one that has finished or
has taken another task in its loop, has recorded its result and notified its waiter. -/
theorem task_answered {kind : ρ → Kind} (h : Reaches Tasks.step State.Survives (.new kind) s)
    {task : TaskImpl} (hstarted : (p, task) ∈ s.started) (hleft : task ∉ tasks (s.stack p)) :
    (∃ result, (task.number, result) ∈ s.recorded) ∧
      ∃ waiter, (task, waiter) ∈ s.departed ∧ ∀ arc, waiter = some arc → s.pending arc = false := by
  have ha : Answered s := h.invariant (new_answered kind) fun _ _ _ hi hok hs => hi.step hok hs
  rcases ha.departs _ hstarted with ht | ⟨waiter, hw⟩
  · exact absurd ht hleft
  · have hd := ha.departed _ hw
    exact ⟨hd.1, waiter, hw, fun arc he => (hd.2 arc he).2⟩

/-- A worker takes the task "a", for which a thread waits. -/
def joined {ρ : Type*} (worker thread : ρ) : List (Act ρ) :=
  [.submit "a", .waitResult thread "a", .advance thread false, .advance thread false,
    .advance thread false, .advance thread false, .tryRun worker]

def workerAndThread : State (Fin 2) := .new fun p => if p.val = 0 then .worker else .thread

theorem task_answered_joined :
    ∃ s : State (Fin 2), s.stack 0 = [] ∧
      (∃ result, (0, result) ∈ s.recorded) ∧
        ∃ waiter, (⟨0, "a"⟩, waiter) ∈ s.departed ∧ ∀ arc, waiter = some arc → s.pending arc = false := by
  obtain ⟨s, h, hstarted, hstack⟩ : ∃ s : State (Fin 2),
      Reaches Tasks.step State.Survives workerAndThread s ∧ (0, ⟨0, "a"⟩) ∈ s.started ∧
        s.stack 0 = [] :=
    ⟨_, Reaches.of_runGuarded (joined 0 1 ++ [.ends 0 (.returned none), .insert 0, .answer 0]) rfl,
      List.mem_cons_self, rfl⟩
  have hleft : (⟨0, "a"⟩ : TaskImpl) ∉ tasks (s.stack 0) := by
    rw [hstack]
    exact List.not_mem_nil
  exact ⟨s, hstack, task_answered h hstarted hleft⟩

/-- The task of worker 0 ends in a trap. -/
theorem trapped_unanswered :
    ∃ s : State (Fin 2), Reaches Tasks.step Free workerAndThread s ∧ s.finished 0 = true ∧
      (0, ⟨0, "a"⟩) ∈ s.started ∧ (⟨0, "a"⟩ : TaskImpl) ∉ tasks (s.stack 0) ∧
        s.recorded = [] ∧ (⟨0, "a"⟩, some 0) ∈ s.departed ∧ s.pending 0 = true := by
  refine ⟨_, Reaches.of_run (joined 0 1 ++ [.trap 0]) rfl (guarded_free _), rfl, ?_, ?_, rfl, ?_, rfl⟩
  · exact List.mem_cons_self
  · exact List.not_mem_nil
  · exact List.mem_cons_self

end Tasks

end OpenCoroutine
