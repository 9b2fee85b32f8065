import Mathlib.Data.List.Nodup
import OpenCoroutine.Tasks
import OpenCoroutine.Transition

/-! Where the tasks of a pool are, as long as no task is submitted under the name of one
whose result is still to be taken and no trap ends a task. For every started task the
frames that run it or hold its ending, the entry in `results` and the removals from it are
counted together, and the count stays one. -/

namespace OpenCoroutine

open Function Transition

namespace Tasks

variable {ρ : Type*}

namespace Frame

def runs : Frame → Option TaskImpl
  | running task => some task
  | _ => none

def ended : Frame → Option (TaskImpl × Ending)
  | insert task ending => some (task, ending)
  | _ => none

/-- The result that a call of `wait_result` has removed and not yet returned. -/
def carries : Frame → Option Delivery
  | wait _ (.forget delivery) | wait _ (.removeWaits delivery) => some delivery
  | _ => none

end Frame

def tasks (stack : List Frame) : List TaskImpl := stack.filterMap Frame.task

def running (stack : List Frame) : List TaskImpl := stack.filterMap Frame.runs

def ended (stack : List Frame) : List (TaskImpl × Ending) := stack.filterMap Frame.ended

def carried (stack : List Frame) : List Delivery := stack.filterMap Frame.carries

namespace State

/-- Whether `results` holds the result of the task. -/
def stored (s : State ρ) (task : TaskImpl) : Nat :=
  if (s.results task.name).map Prod.fst = some task.number then 1 else 0

def takenNumbers (s : State ρ) : List Nat := s.taken.map fun x => x.2.1

/-- A new task has a name under which every earlier result has been taken, and no trap ends
a task. -/
def Fresh (s : State ρ) : Act ρ → Prop
  | .submit name =>
    ∀ i < s.submitted.length, s.submitted[i]? = some name → i ∈ s.takenNumbers
  | .trap p => tasks (s.stack p) = []
  | _ => True

instance (s : State ρ) : (a : Act ρ) → Decidable (s.Fresh a)
  | .submit _ => inferInstanceAs (Decidable (∀ i < s.submitted.length, _ → _))
  | .trap p => inferInstanceAs (Decidable (tasks (s.stack p) = []))
  | .tryRun _ | .ends .. | .insert _ | .answer _ | .tryGetResult .. | .waitResult ..
  | .advance .. | .wake _ | .timeout _ | .finish _ => isTrue trivial

end State

open State

/-- Where each started task is, and that it is there once. -/
structure Tracked (s : State ρ) : Prop where
  order : (s.started.map Prod.snd).reverse ++ s.taskQueue = s.submitted.mapIdx TaskImpl.mk
  distinct : ∀ i j name, s.submitted[i]? = some name → s.submitted[j]? = some name →
    i ∉ s.takenNumbers → j ∉ s.takenNumbers → i = j
  runs : ∀ p, ∀ task ∈ running (s.stack p), (p, task) ∈ s.started
  ends : ∀ p, ∀ x ∈ ended (s.stack p), (p, x.1) ∈ s.started ∧ (x.1.number, x.2) ∈ s.endings
  stores : ∀ name delivery, s.results name = some delivery → ∃ p ending,
    (p, ⟨delivery.1, name⟩) ∈ s.started ∧ (delivery.1, ending) ∈ s.endings ∧
      delivery.2 = ending.result
  takes : ∀ x ∈ s.taken, ∃ q task ending, (q, task) ∈ s.started ∧ task.number = x.2.1 ∧
    (x.2.1, ending) ∈ s.endings ∧ x.2.2 = ending.result
  endings : ∀ x ∈ s.endings, ∃ y ∈ s.started, y.2.number = x.1
  once : ∀ x ∈ s.started, (running (s.stack x.1)).count x.2 +
    ((ended (s.stack x.1)).map Prod.fst).count x.2 + s.stored x.2 +
      s.takenNumbers.count x.2.number = 1
  ran : ∀ x ∈ s.started, (running (s.stack x.1)).count x.2 +
    (s.endings.map Prod.fst).count x.2.number = 1

/-- What is removed from `results` is returned by the call that removed it, once. -/
structure Handed (s : State ρ) : Prop where
  carries : ∀ p, ∀ delivery ∈ carried (s.stack p), (p, delivery) ∈ s.taken
  gives : ∀ delivery ∈ s.returned, ∃ p, (p, delivery) ∈ s.taken
  once : ∀ x ∈ s.taken, ((carried (s.stack x.1)).map Prod.fst).count x.2.1 +
    (s.returned.map Prod.fst).count x.2.1 ≤ 1

theorem new_tracked (kind : ρ → Kind) : Tracked (.new kind) where
  order := rfl
  distinct i j name hi := by simp [State.new] at hi
  runs p task ht := by simp [State.new, running] at ht
  ends p x hx := by simp [State.new, ended] at hx
  stores name delivery hd := by simp [State.new] at hd
  takes x hx := by simp [State.new] at hx
  endings x hx := by simp [State.new] at hx
  once x hx := by simp [State.new] at hx
  ran x hx := by simp [State.new] at hx

theorem new_handed (kind : ρ → Kind) : Handed (.new kind) where
  carries p delivery hd := by simp [State.new, carried] at hd
  gives delivery hd := by simp [State.new] at hd
  once x hx := by simp [State.new] at hx

theorem numbers_mapIdx (names : List String) :
    (names.mapIdx TaskImpl.mk).map TaskImpl.number = List.range names.length := by
  apply List.ext_getElem
  · simp
  · intro i hi hi'
    simp

variable {s t : State ρ}

theorem Tracked.numbers (h : Tracked s) :
    (s.started.map fun x => x.2.number).reverse ++ s.taskQueue.map TaskImpl.number =
      List.range s.submitted.length := by
  rw [← numbers_mapIdx, ← h.order, List.map_append, List.map_reverse, List.map_map]
  rfl

theorem Tracked.nodup (h : Tracked s) :
    (s.started.map fun x => x.2.number).Nodup ∧
      ∀ x ∈ s.started, ∀ task ∈ s.taskQueue, x.2.number ≠ task.number := by
  have hnodup : (List.range s.submitted.length).Nodup := List.nodup_range
  rw [← h.numbers, List.nodup_append] at hnodup
  obtain ⟨hstarted, -, hdisjoint⟩ := hnodup
  refine ⟨List.nodup_reverse.1 hstarted, fun x hx task ht => ?_⟩
  have hmem : x.2.number ∈ (s.started.map fun x => x.2.number).reverse :=
    List.mem_reverse.2 (List.mem_map_of_mem hx)
  exact hdisjoint _ hmem _ (List.mem_map_of_mem ht)

/-- A number stands for one task of one process. -/
theorem Tracked.unique (h : Tracked s) {x y : ρ × TaskImpl} (hx : x ∈ s.started)
    (hy : y ∈ s.started) (he : x.2.number = y.2.number) : x = y :=
  List.inj_on_of_nodup_map h.nodup.1 hx hy he

theorem Tracked.submitted (h : Tracked s) {x : ρ × TaskImpl} (hx : x ∈ s.started) :
    s.submitted[x.2.number]? = some x.2.name := by
  have hmem : x.2 ∈ s.submitted.mapIdx TaskImpl.mk := by
    rw [← h.order, List.mem_append, List.mem_reverse]
    exact .inl (List.mem_map_of_mem hx)
  rw [List.mem_mapIdx] at hmem
  obtain ⟨i, hi, he⟩ := hmem
  rw [← he]
  exact List.getElem?_eq_getElem hi

theorem Tracked.taken_le (h : Tracked s) (i : Nat) : s.takenNumbers.count i ≤ 1 := by
  by_cases hi : i ∈ s.takenNumbers
  · obtain ⟨x, hx, rfl⟩ := List.mem_map.1 hi
    obtain ⟨q, task, ending, hstarted, hnumber, -⟩ := h.takes x hx
    have honce := h.once _ hstarted
    rw [hnumber] at honce
    omega
  · rw [List.count_eq_zero_of_not_mem hi]
    omega

theorem Tracked.taken_unique (h : Tracked s) {x y : ρ × Delivery} (hx : x ∈ s.taken)
    (hy : y ∈ s.taken) (he : x.2.1 = y.2.1) : x = y :=
  List.inj_on_of_nodup_map (List.nodup_iff_count_le_one.2 h.taken_le) hx hy he

/-- The two states agree in all that a task's place depends on. -/
structure Same (s t : State ρ) : Prop where
  submitted : t.submitted = s.submitted
  taskQueue : t.taskQueue = s.taskQueue
  results : t.results = s.results
  started : t.started = s.started
  endings : t.endings = s.endings
  taken : t.taken = s.taken
  running : ∀ p, running (t.stack p) = running (s.stack p)
  ended : ∀ p, ended (t.stack p) = ended (s.stack p)

theorem Tracked.same (h : Tracked s) (hst : Same s t) : Tracked t where
  order := by
    rw [hst.started, hst.taskQueue, hst.submitted]
    exact h.order
  distinct := by
    rw [State.takenNumbers, hst.taken, hst.submitted]
    exact h.distinct
  runs p := by
    rw [hst.running, hst.started]
    exact h.runs p
  ends p := by
    rw [hst.ended, hst.started, hst.endings]
    exact h.ends p
  stores := by
    rw [hst.results, hst.started, hst.endings]
    exact h.stores
  takes := by
    rw [hst.taken, hst.started, hst.endings]
    exact h.takes
  endings := by
    rw [hst.endings, hst.started]
    exact h.endings
  once x hx := by
    rw [hst.started] at hx
    rw [hst.running, hst.ended, State.stored, hst.results, State.takenNumbers, hst.taken]
    exact h.once x hx
  ran x hx := by
    rw [hst.started] at hx
    rw [hst.running, hst.endings]
    exact h.ran x hx

theorem Handed.same (h : Handed s) (htaken : t.taken = s.taken) (hreturned : t.returned = s.returned)
    (hcarried : ∀ p, (carried (t.stack p)).Sublist (carried (s.stack p))) : Handed t where
  carries p delivery hd := by
    rw [htaken]
    exact h.carries p delivery ((hcarried p).subset hd)
  gives := by
    rw [htaken, hreturned]
    exact h.gives
  once x hx := by
    rw [htaken] at hx
    rw [hreturned]
    have hle := ((hcarried x.1).map Prod.fst).count_le x.2.1
    have honce := h.once x hx
    omega

theorem stored_ne_zero {task : TaskImpl} (h : s.stored task ≠ 0) :
    ∃ delivery, s.results task.name = some delivery ∧ delivery.1 = task.number := by
  by_contra hne
  refine h (if_neg fun he => hne ?_)
  rwa [Option.map_eq_some_iff] at he

theorem take_eq {p : ρ} {name : String} {delivery : Delivery}
    (hs : s.take p name = some (delivery, t)) : s.results name = some delivery ∧
      t = { s with results := update s.results name none, taken := (p, delivery) :: s.taken } := by
  simp only [State.take, Option.map_eq_some_iff, Prod.mk.injEq] at hs
  obtain ⟨delivery, hd, rfl, rfl⟩ := hs
  exact ⟨hd, rfl⟩

/-- A result that is still stored has been neither taken nor overtaken. -/
theorem Tracked.stored_once (h : Tracked s) {name : String} {delivery : Delivery}
    (hd : s.results name = some delivery) :
    ∃ q, (q, ⟨delivery.1, name⟩) ∈ s.started ∧ s.stored ⟨delivery.1, name⟩ = 1 ∧
      s.takenNumbers.count delivery.1 = 0 := by
  obtain ⟨q, ending, hstarted, -⟩ := h.stores name delivery hd
  have hstored : s.stored ⟨delivery.1, name⟩ = 1 := by simp [State.stored, hd]
  have honce := h.once _ hstarted
  exact ⟨q, hstarted, hstored, by dsimp only at honce; omega⟩

theorem Tracked.take (h : Tracked s) {p : ρ} {name : String} {delivery : Delivery}
    (hs : s.take p name = some (delivery, t)) : Tracked t := by
  obtain ⟨hd, rfl⟩ := take_eq hs
  obtain ⟨q, hstarted, hstored, hcount⟩ := h.stored_once hd
  have hkeep : ∀ i, i ∈ s.takenNumbers → i ∈ delivery.1 :: s.takenNumbers :=
    fun i hi => List.mem_cons_of_mem _ hi
  refine ⟨h.order, fun i j name hi hj hni hnj => ?_, h.runs, h.ends, fun name' d' hd' => ?_,
    fun x hx => ?_, h.endings, fun x hx => ?_, h.ran⟩
  · exact h.distinct i j name hi hj (fun hm => hni (hkeep i hm)) fun hm => hnj (hkeep j hm)
  · by_cases hn : name' = name
    · simp [hn] at hd'
    · simp only [update_of_ne hn] at hd'
      exact h.stores name' d' hd'
  · rcases List.mem_cons.1 hx with rfl | hx
    · obtain ⟨q, ending, hq⟩ := h.stores name delivery hd
      exact ⟨q, _, ending, hq.1, rfl, hq.2⟩
    · exact h.takes x hx
  · have honce := h.once x hx
    by_cases he : x.2.number = delivery.1
    · have hx' : x = (q, ⟨delivery.1, name⟩) := h.unique hx hstarted he
      subst hx'
      simp only [State.stored, State.takenNumbers, List.map_cons, List.count_cons_self,
        update_self] at honce hstored ⊢
      simp only [Option.map_none, reduceCtorEq, if_false]
      omega
    · have hcons : (delivery.1 :: s.takenNumbers).count x.2.number =
          s.takenNumbers.count x.2.number := List.count_cons_of_ne (Ne.symm he)
      have hst : State.stored { s with
          results := update s.results name none
          taken := (p, delivery) :: s.taken } x.2 = s.stored x.2 := by
        by_cases hn : x.2.name = name
        · simp [State.stored, hn, hd, Ne.symm he]
        · simp only [State.stored, update_of_ne hn]
      rw [hst]
      simp only [State.takenNumbers, List.map_cons] at hcons ⊢
      rw [hcons]
      exact honce

theorem Handed.take (h : Handed s) (ht : Tracked s) {p : ρ} {name : String} {delivery : Delivery}
    (hs : s.take p name = some (delivery, t)) : Handed t ∧ (p, delivery) ∈ t.taken ∧
      delivery.1 ∉ (carried (t.stack p)).map Prod.fst ∧ delivery.1 ∉ t.returned.map Prod.fst := by
  obtain ⟨hd, rfl⟩ := take_eq hs
  obtain ⟨q, -, -, hcount⟩ := ht.stored_once hd
  have hnew : ∀ x ∈ s.taken, x.2.1 ≠ delivery.1 := by
    intro x hx he
    have hmem : delivery.1 ∈ s.takenNumbers := he ▸ List.mem_map_of_mem hx
    exact List.count_eq_zero.1 hcount hmem
  have hcarried : delivery.1 ∉ (carried (s.stack p)).map Prod.fst := by
    intro hm
    obtain ⟨d, hd, he⟩ := List.mem_map.1 hm
    exact hnew _ (h.carries p d hd) he
  have hreturned : delivery.1 ∉ s.returned.map Prod.fst := by
    intro hm
    obtain ⟨d, hd, he⟩ := List.mem_map.1 hm
    obtain ⟨q', hq'⟩ := h.gives d hd
    exact hnew _ hq' he
  refine ⟨⟨fun q d hd => List.mem_cons_of_mem _ (h.carries q d hd), fun d hd => ?_, fun x hx => ?_⟩,
    List.mem_cons_self, hcarried, hreturned⟩
  · obtain ⟨q', hq'⟩ := h.gives d hd
    exact ⟨q', List.mem_cons_of_mem _ hq'⟩
  · rcases List.mem_cons.1 hx with rfl | hx
    · dsimp only
      rw [List.count_eq_zero_of_not_mem hcarried, List.count_eq_zero_of_not_mem hreturned]
      omega
    · exact h.once x hx

/-- The result of a process that holds at most one call's worth of it is returned. -/
theorem Handed.giveBack (h : Handed s) (ht : Tracked s) {p : ρ} {delivery : Delivery}
    (htaken : (p, delivery) ∈ s.taken) (hreturned : delivery.1 ∉ s.returned.map Prod.fst)
    (hcarried : delivery.1 ∉ (carried (s.stack p)).map Prod.fst) :
    Handed (s.giveBack delivery) where
  carries := h.carries
  gives d hd := by
    rcases List.mem_cons.1 hd with rfl | hd
    · exact ⟨p, htaken⟩
    · exact h.gives d hd
  once x hx := by
    have honce := h.once x hx
    by_cases he : x.2.1 = delivery.1
    · have hx' : x = (p, delivery) := ht.taken_unique hx htaken he
      subst hx'
      have hc := List.count_eq_zero_of_not_mem hcarried
      have hr := List.count_eq_zero_of_not_mem hreturned
      simp only [State.giveBack, List.map_cons, List.count_cons_self]
      omega
    · simp only [State.giveBack, List.map_cons, List.count_cons_of_ne (Ne.symm he)]
      exact honce

variable [DecidableEq ρ] {p : ρ} {stack rest : List Frame}

@[simp] theorem setStack_self (s : State ρ) (p : ρ) (stack : List Frame) :
    (s.setStack p stack).stack p = stack := update_self _ _ _

@[simp] theorem setStack_ne (s : State ρ) {p q : ρ} (hq : q ≠ p) (stack : List Frame) :
    (s.setStack p stack).stack q = s.stack q := update_of_ne hq _ _

/-- A trap that ends no task ends the coroutine alone. -/
theorem trap_eq (hok : tasks (s.stack p) = []) : trap s p = s.finish p := by
  have hnil : (s.stack p).filterMap Frame.task = [] := hok
  rw [trap, hnil]
  rfl

theorem setStack_stack {β : Type*} (f : List Frame → β) (h : f stack = f (s.stack p)) (q : ρ) :
    f ((s.setStack p stack).stack q) = f (s.stack q) := by
  by_cases hq : q = p
  · subst hq
    rw [setStack_self, h]
  · rw [setStack_ne s hq]

/-- The top of the stack of process `p` changes, and none of its tasks. -/
theorem same_setStack (s : State ρ) (hrunning : running stack = running (s.stack p))
    (hended : ended stack = ended (s.stack p)) : Same s (s.setStack p stack) :=
  ⟨rfl, rfl, rfl, rfl, rfl, rfl, setStack_stack running hrunning, setStack_stack ended hended⟩

theorem setStack_carried (s : State ρ)
    (h : (carried stack).Sublist (carried (s.stack p))) (q : ρ) :
    (carried ((s.setStack p stack).stack q)).Sublist (carried (s.stack q)) := by
  by_cases hq : q = p
  · subst hq
    rw [setStack_self]
    exact h
  · rw [setStack_ne s hq]

theorem running_unwind (stack : List Frame) : running (Frame.unwind stack) = running stack := by
  induction stack with
  | nil => rfl
  | cons frame stack ih =>
    cases frame with
    | wait name pc => exact ih
    | running task | insert task ending | answer task => rfl

theorem ended_unwind (stack : List Frame) : ended (Frame.unwind stack) = ended stack := by
  induction stack with
  | nil => rfl
  | cons frame stack ih =>
    cases frame with
    | wait name pc => exact ih
    | running task | insert task ending | answer task => rfl

theorem unwind_suffix (stack : List Frame) : Frame.unwind stack <:+ stack := by
  induction stack with
  | nil => exact List.suffix_rfl
  | cons frame stack ih =>
    cases frame with
    | wait name pc => exact ih.trans (List.suffix_cons _ _)
    | running task | insert task ending | answer task => exact List.suffix_rfl

theorem carried_unwind (stack : List Frame) :
    (carried (Frame.unwind stack)).Sublist (carried stack) :=
  (unwind_suffix stack).sublist.filterMap Frame.carries

theorem unwindTo_eq (s : State ρ) (p : ρ) (rest : List Frame) :
    ∃ finished, s.unwindTo p rest = { s.setStack p (Frame.unwind rest) with finished } := by
  unfold State.unwindTo
  split
  · rename_i hnil
    rw [hnil]
    split
    · exact ⟨_, rfl⟩
    · exact ⟨s.finished, rfl⟩
  · exact ⟨s.finished, rfl⟩

theorem Tracked.submit (h : Tracked s) {name : String} (hok : s.Fresh (.submit name))
    (hs : step s (.submit name) = some t) : Tracked t := by
  simp only [step, Option.some.injEq] at hs
  subst hs
  have horder : (s.started.map Prod.snd).reverse ++
      (s.taskQueue ++ [⟨s.submitted.length, name⟩]) =
        (s.submitted ++ [name]).mapIdx TaskImpl.mk := by
    rw [List.mapIdx_concat, ← List.append_assoc, h.order]
  have hcases : ∀ i name', (s.submitted ++ [name])[i]? = some name' →
      s.submitted[i]? = some name' ∨ i = s.submitted.length ∧ name' = name := by
    intro i name' hi
    by_cases hlt : i < s.submitted.length
    · rw [List.getElem?_append_left hlt] at hi
      exact .inl hi
    · rw [List.getElem?_append_right (by omega)] at hi
      have hz : i - s.submitted.length = 0 := by
        by_contra hne
        rw [List.getElem?_eq_none (by simp; omega)] at hi
        cases hi
      rw [hz] at hi
      exact .inr ⟨by omega, (Option.some.inj hi).symm⟩
  refine ⟨horder, fun i j name' hi hj hni hnj => ?_, h.runs, h.ends, h.stores, h.takes,
    h.endings, h.once, h.ran⟩
  rcases hcases i name' hi with hi' | ⟨rfl, rfl⟩
  · rcases hcases j name' hj with hj' | ⟨rfl, rfl⟩
    · exact h.distinct i j name' hi' hj' hni hnj
    · exact absurd (hok i (List.getElem?_eq_some_iff.1 hi').1 hi') hni
  · rcases hcases j name' hj with hj' | ⟨rfl, -⟩
    · exact absurd (hok j (List.getElem?_eq_some_iff.1 hj').1 hj') hnj
    · rfl

theorem Tracked.pop (h : Tracked s) (hrunning : running rest = running (s.stack p))
    (hended : ended rest = ended (s.stack p)) : Tracked (s.pop p rest) := by
  cases hq : s.taskQueue with
  | nil =>
    simp only [State.pop, hq]
    exact h.same (same_setStack s hrunning hended)
  | cons task taskQueue =>
    simp only [State.pop, hq]
    have hnew : ∀ x ∈ s.started, x.2.number ≠ task.number := fun x hx =>
      h.nodup.2 x hx task (hq ▸ List.mem_cons_self)
    have hnot : ∀ x ∈ s.started, x.2 ≠ task := fun x hx he => hnew x hx (he ▸ rfl)
    have horder := h.order
    rw [hq] at horder
    have hstored : s.stored task = 0 := by
      by_contra hne
      obtain ⟨delivery, hd, he⟩ := stored_ne_zero hne
      obtain ⟨q, -, hstarted, -⟩ := h.stores _ _ hd
      exact hnew _ hstarted he
    have htaken : task.number ∉ s.takenNumbers := by
      intro hm
      obtain ⟨x, hx, he⟩ := List.mem_map.1 hm
      obtain ⟨q, task', -, hstarted, hnumber, -⟩ := h.takes x hx
      exact hnew _ hstarted (hnumber.trans he)
    have hends : task.number ∉ s.endings.map Prod.fst := by
      intro hm
      obtain ⟨x, hx, he⟩ := List.mem_map.1 hm
      obtain ⟨y, hy, hnumber⟩ := h.endings x hx
      exact hnew y hy (hnumber.trans he)
    have hrun : task ∉ running (s.stack p) := fun hm => hnot _ (h.runs p task hm) rfl
    have hend : task ∉ (ended (s.stack p)).map Prod.fst := by
      intro hm
      obtain ⟨x, hx, he⟩ := List.mem_map.1 hm
      exact hnot _ (h.ends p x hx).1 he
    have hstack : running (.running task :: rest) = task :: running (s.stack p) := by
      rw [← hrunning]
      rfl
    have hended' : ended (.running task :: rest) = ended (s.stack p) := by
      rw [← hended]
      rfl
    have hcount : ∀ x ∈ s.started, (running (((s.start p task taskQueue).setStack p
        (.running task :: rest)).stack x.1)).count x.2 = (running (s.stack x.1)).count x.2 := by
      intro x hx
      by_cases hp : x.1 = p
      · rw [hp, setStack_self, hstack, List.count_cons_of_ne (Ne.symm (hnot x hx))]
      · rw [setStack_ne _ hp]
        rfl
    have hsame : ∀ q, ended (((s.start p task taskQueue).setStack p
        (.running task :: rest)).stack q) = ended (s.stack q) := setStack_stack ended hended'
    refine ⟨?_, h.distinct, fun q task' ht => ?_, fun q x hx => ?_, fun name d hd => ?_,
      fun x hx => ?_, fun x hx => ?_, fun x hx => ?_, fun x hx => ?_⟩
    · simpa [State.setStack, State.start] using horder
    · by_cases hp : q = p
      · subst hp
        rw [setStack_self, hstack] at ht
        rcases List.mem_cons.1 ht with rfl | ht
        · exact List.mem_cons_self
        · exact List.mem_cons_of_mem _ (h.runs q task' ht)
      · rw [setStack_ne _ hp] at ht
        exact List.mem_cons_of_mem _ (h.runs q task' ht)
    · rw [hsame] at hx
      exact ⟨List.mem_cons_of_mem _ (h.ends q x hx).1, (h.ends q x hx).2⟩
    · obtain ⟨q, ending, hstarted, hd⟩ := h.stores name d hd
      exact ⟨q, ending, List.mem_cons_of_mem _ hstarted, hd⟩
    · obtain ⟨q, task', ending, hstarted, hx⟩ := h.takes x hx
      exact ⟨q, task', ending, List.mem_cons_of_mem _ hstarted, hx⟩
    · obtain ⟨y, hy, he⟩ := h.endings x hx
      exact ⟨y, List.mem_cons_of_mem _ hy, he⟩
    · rcases List.mem_cons.1 hx with rfl | hx
      · rw [hsame, setStack_self, hstack, List.count_cons_self,
          List.count_eq_zero_of_not_mem hrun, List.count_eq_zero_of_not_mem hend]
        have hz := List.count_eq_zero_of_not_mem htaken
        change 0 + 1 + 0 + s.stored task + s.takenNumbers.count task.number = 1
        omega
      · rw [hcount x hx, hsame]
        exact h.once x hx
    · rcases List.mem_cons.1 hx with rfl | hx
      · rw [setStack_self, hstack, List.count_cons_self, List.count_eq_zero_of_not_mem hrun]
        have hz := List.count_eq_zero_of_not_mem hends
        change 0 + 1 + (s.endings.map Prod.fst).count task.number = 1
        omega
      · rw [hcount x hx]
        exact h.ran x hx

/-- The function of the task on top has ended. -/
theorem Tracked.end (h : Tracked s) {task : TaskImpl} {ending : Ending}
    (hp : s.stack p = .running task :: rest) :
    Tracked ((s.endTask task ending).setStack p (.insert task ending :: rest)) := by
  have hrunning : running (s.stack p) = task :: running rest := by rw [hp]; rfl
  have hended : ended (s.stack p) = ended rest := by rw [hp]; rfl
  have hstarted : (p, task) ∈ s.started := h.runs p task (hrunning ▸ List.mem_cons_self)
  refine ⟨h.order, h.distinct, fun q task' ht => ?_, fun q x hx => ?_, fun name d hd => ?_,
    fun x hx => ?_, fun x hx => ?_, fun x hx => ?_, fun x hx => ?_⟩
  · by_cases hq : q = p
    · subst hq
      rw [setStack_self] at ht
      exact h.runs q task' (hrunning ▸ List.mem_cons_of_mem _ ht)
    · rw [setStack_ne _ hq] at ht
      exact h.runs q task' ht
  · by_cases hq : q = p
    · subst hq
      rw [setStack_self] at hx
      rcases List.mem_cons.1 (show x ∈ (task, ending) :: ended rest from hx) with rfl | hx
      · exact ⟨hstarted, List.mem_cons_self⟩
      · have hold := h.ends q x (hended ▸ hx)
        exact ⟨hold.1, List.mem_cons_of_mem _ hold.2⟩
    · rw [setStack_ne _ hq] at hx
      exact ⟨(h.ends q x hx).1, List.mem_cons_of_mem _ (h.ends q x hx).2⟩
  · obtain ⟨q, e, hq, he, hr⟩ := h.stores name d hd
    exact ⟨q, e, hq, List.mem_cons_of_mem _ he, hr⟩
  · obtain ⟨q, task', e, hq, hn, he, hr⟩ := h.takes x hx
    exact ⟨q, task', e, hq, hn, List.mem_cons_of_mem _ he, hr⟩
  · rcases List.mem_cons.1 hx with rfl | hx
    · exact ⟨_, hstarted, rfl⟩
    · exact h.endings x hx
  · have honce := h.once x hx
    by_cases hq : x.1 = p
    · rw [hq, hrunning, hended] at honce
      rw [hq, setStack_self]
      change (running rest).count x.2 + (task :: (ended rest).map Prod.fst).count x.2 +
        s.stored x.2 + s.takenNumbers.count x.2.number = 1
      rw [List.count_cons] at honce ⊢
      omega
    · rw [setStack_ne _ hq]
      exact honce
  · have hran := h.ran x hx
    by_cases he : x.2.number = task.number
    · have hx' : x = (p, task) := h.unique hx hstarted he
      subst hx'
      rw [setStack_self]
      change (running rest).count task +
        (task.number :: s.endings.map Prod.fst).count task.number = 1
      rw [List.count_cons_self]
      dsimp only at hran
      rw [hrunning, List.count_cons_self] at hran
      omega
    · have hends : (task.number :: s.endings.map Prod.fst).count x.2.number =
          (s.endings.map Prod.fst).count x.2.number := List.count_cons_of_ne (Ne.symm he)
      have hne : x.2 ≠ task := fun heq => he (heq ▸ rfl)
      have hcount : (running (((s.endTask task ending).setStack p
          (.insert task ending :: rest)).stack x.1)).count x.2 =
            (running (s.stack x.1)).count x.2 := by
        by_cases hq : x.1 = p
        · rw [hq, setStack_self, hrunning, List.count_cons_of_ne (Ne.symm hne)]
          rfl
        · rw [setStack_ne _ hq]
          rfl
      change _ + (task.number :: s.endings.map Prod.fst).count x.2.number = 1
      rw [hcount, hends]
      exact hran

omit [DecidableEq ρ] in
/-- No earlier result of the name is left when a task's own is inserted. -/
theorem Tracked.no_previous (h : Tracked s) {task : TaskImpl} {ending : Ending}
    (hp : s.stack p = .insert task ending :: rest) : s.results task.name = none := by
  by_contra hne
  obtain ⟨delivery, hd⟩ := Option.ne_none_iff_exists'.1 hne
  obtain ⟨q, hstarted, hstored, htaken⟩ := h.stored_once hd
  have hend : (task, ending) ∈ ended (s.stack p) := by
    rw [hp]
    exact List.mem_cons_self
  have hown := (h.ends p _ hend).1
  have honce := h.once _ hown
  have hcount : 0 < ((ended (s.stack p)).map Prod.fst).count task :=
    List.count_pos_iff.2 (List.mem_map_of_mem hend)
  have hfree : task.number ∉ s.takenNumbers := by
    rw [← List.count_eq_zero]
    dsimp only at honce
    omega
  have he : task.number = delivery.1 :=
    h.distinct _ _ task.name (h.submitted hown) (h.submitted hstarted) hfree
      (List.count_eq_zero.1 htaken)
  have hsame : task = ⟨delivery.1, task.name⟩ := by rw [← he]
  rw [← hsame] at hstored
  dsimp only at honce
  omega

theorem Tracked.insert (h : Tracked s) {task : TaskImpl} {ending : Ending}
    (hp : s.stack p = .insert task ending :: rest) : Tracked (insertResult s p task ending rest) := by
  have hnone := h.no_previous hp
  simp only [insertResult, hnone]
  have hrunning : running (s.stack p) = running rest := by rw [hp]; rfl
  have hended : ended (s.stack p) = (task, ending) :: ended rest := by rw [hp]; rfl
  have hown := h.ends p (task, ending) (hended ▸ List.mem_cons_self)
  have hrun : ∀ q, running (((s.store task ending.result).setStack p (.answer task :: rest)).stack q) =
      running (s.stack q) := setStack_stack running (by exact hrunning.symm)
  refine ⟨h.order, h.distinct, fun q task' ht => ?_, fun q x hx => ?_, fun name d hd => ?_,
    h.takes, h.endings, fun x hx => ?_, fun x hx => ?_⟩
  · rw [hrun] at ht
    exact h.runs q task' ht
  · by_cases hq : q = p
    · subst hq
      rw [setStack_self] at hx
      exact h.ends q x (hended ▸ List.mem_cons_of_mem _ hx)
    · rw [setStack_ne _ hq] at hx
      exact h.ends q x hx
  · by_cases hn : name = task.name
    · subst hn
      simp only [State.store, State.setStack, update_self, Option.some.injEq] at hd
      subst hd
      exact ⟨p, ending, hown.1, hown.2, rfl⟩
    · simp only [State.store, State.setStack, update_of_ne hn] at hd
      exact h.stores name d hd
  · have honce := h.once x hx
    rw [hrun]
    by_cases he : x.2.number = task.number
    · have hx' : x = (p, task) := h.unique hx hown.1 he
      subst hx'
      have hnew : State.stored ((s.store task ending.result).setStack p (.answer task :: rest))
          task = 1 := by
        simp [State.stored, State.store, State.setStack]
      have hold : s.stored task = 0 := by simp [State.stored, hnone]
      rw [hnew, setStack_self]
      rw [hended, hold, List.map_cons, List.count_cons_self] at honce
      change _ + ((ended rest).map Prod.fst).count task + 1 + s.takenNumbers.count task.number = 1
      omega
    · have hne : x.2 ≠ task := fun heq => he (heq ▸ rfl)
      have hst : State.stored ((s.store task ending.result).setStack p (.answer task :: rest)) x.2 =
          s.stored x.2 := by
        by_cases hn : x.2.name = task.name
        · simp [State.stored, State.store, State.setStack, hn, hnone, Ne.symm he]
        · simp only [State.stored, State.store, State.setStack, update_of_ne hn]
      have hcount : ((ended (((s.store task ending.result).setStack p
          (.answer task :: rest)).stack x.1)).map Prod.fst).count x.2 =
              ((ended (s.stack x.1)).map Prod.fst).count x.2 := by
        by_cases hq : x.1 = p
        · rw [hq, setStack_self, hended, List.map_cons, List.count_cons_of_ne (Ne.symm hne)]
          rfl
        · rw [setStack_ne _ hq]
          rfl
      rw [hst, hcount]
      exact honce
  · rw [hrun]
    exact h.ran x hx

end Tasks

end OpenCoroutine
