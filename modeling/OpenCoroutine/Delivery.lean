import OpenCoroutine.Tracking

/-! Every task runs once, in the order of submission, and its result is handed out once: a
run keeps `Tracked` and `Handed`, and with them the assertion of `try_run`. -/

namespace OpenCoroutine

open Function Transition

namespace Tasks

variable {ρ : Type*}

namespace State

inductive Place where
  | queued
  | inProgress
  | stored
  | taken

/-- Where the task submitted as number `i` is, or its result. -/
def Occupies (s : State ρ) (i : Nat) : Place → Prop
  | .queued => ∃ task ∈ s.taskQueue, task.number = i
  | .inProgress => ∃ p, ∃ task, (task ∈ running (s.stack p) ∨
      task ∈ (ended (s.stack p)).map Prod.fst) ∧ task.number = i
  | .stored => ∃ name delivery, s.results name = some delivery ∧ delivery.1 = i
  | .taken => i ∈ s.takenNumbers

/-- The result says how the function of its task ended. -/
def Matches (s : State ρ) (delivery : Delivery) : Prop :=
  (∀ value, delivery.2 = .ok value ↔ (delivery.1, .returned value) ∈ s.endings) ∧
    ∀ message, delivery.2 = .error message ↔
      ∃ payload, (delivery.1, .panicked payload) ∈ s.endings ∧ payload.message = message

end State

open State

variable {s t : State ρ}

/-- Nothing happens to a task or a result. -/
theorem kept_same (h : Tracked s ∧ Handed s) (hst : Same s t) (hreturned : t.returned = s.returned)
    (hcarried : ∀ q, (carried (t.stack q)).Sublist (carried (s.stack q))) :
    Tracked t ∧ Handed t :=
  ⟨h.1.same hst, h.2.same hst.taken hreturned hcarried⟩

theorem notMem_panic {message : String} (h : alreadyThere ∉ s.panics)
    (hne : alreadyThere ≠ message) : alreadyThere ∉ (s.panic message).panics := by
  intro hm
  rcases List.mem_cons.1 hm with he | hm
  · exact hne he
  · exact h hm

variable [DecidableEq ρ] {p : ρ} {stack rest : List Frame}

/-- A removed result is carried by the call that removed it. -/
theorem Handed.carry (h : Handed s) (ht : Tracked s) {delivery : Delivery}
    (htaken : (p, delivery) ∈ s.taken) (hnot : delivery.1 ∉ (carried (s.stack p)).map Prod.fst)
    (hreturned : delivery.1 ∉ s.returned.map Prod.fst)
    (hstack : carried stack = delivery :: carried (s.stack p)) : Handed (s.setStack p stack) := by
  refine ⟨fun q d hd => ?_, h.gives, fun x hx => ?_⟩
  · by_cases hq : q = p
    · subst hq
      rw [setStack_self, hstack] at hd
      rcases List.mem_cons.1 hd with rfl | hd
      · exact htaken
      · exact h.carries q d hd
    · rw [setStack_ne _ hq] at hd
      exact h.carries q d hd
  · have honce := h.once x hx
    by_cases he : x.2.1 = delivery.1
    · have hx' : x = (p, delivery) := ht.taken_unique hx htaken he
      subst hx'
      rw [setStack_self, hstack, List.map_cons, List.count_cons_self,
        List.count_eq_zero_of_not_mem hnot]
      have hz := List.count_eq_zero_of_not_mem hreturned
      change 0 + 1 + (s.returned.map Prod.fst).count delivery.1 ≤ 1
      omega
    · have hcount : ((carried ((s.setStack p stack).stack x.1)).map Prod.fst).count x.2.1 =
          ((carried (s.stack x.1)).map Prod.fst).count x.2.1 := by
        by_cases hq : x.1 = p
        · rw [hq, setStack_self, hstack, List.map_cons, List.count_cons_of_ne (Ne.symm he)]
        · rw [setStack_ne _ hq]
      rw [hcount]
      exact honce

/-- A call returns the result it carries. -/
theorem Handed.hand (h : Handed s) (ht : Tracked s) {delivery : Delivery}
    (hp : carried (s.stack p) = delivery :: carried rest)
    (hrunning : running rest = running (s.stack p)) (hended : ended rest = ended (s.stack p)) :
    Handed ((s.giveBack delivery).setStack p rest) := by
  have hin : (p, delivery) ∈ s.taken := h.carries p delivery (hp ▸ List.mem_cons_self)
  have honce := h.once _ hin
  dsimp only at honce
  rw [hp, List.map_cons, List.count_cons_self] at honce
  have hcarried : delivery.1 ∉ (carried ((s.setStack p rest).stack p)).map Prod.fst := by
    rw [setStack_self, ← List.count_eq_zero]
    omega
  have hreturned : delivery.1 ∉ (s.setStack p rest).returned.map Prod.fst := by
    rw [← List.count_eq_zero]
    change (s.returned.map Prod.fst).count delivery.1 = 0
    omega
  have hdropped : Handed (s.setStack p rest) := by
    refine h.same rfl rfl (setStack_carried s ?_)
    rw [hp]
    exact List.sublist_cons_self _ _
  exact hdropped.giveBack (ht.same (same_setStack s hrunning hended)) hin hreturned hcarried

/-- The top frame of process `p` is replaced by others that run, end and carry the same. -/
theorem kept_setStack (h : Tracked s ∧ Handed s) (hrunning : running stack = running (s.stack p))
    (hended : ended stack = ended (s.stack p))
    (hcarried : (carried stack).Sublist (carried (s.stack p))) :
    Tracked (s.setStack p stack) ∧ Handed (s.setStack p stack) :=
  kept_same h (same_setStack s hrunning hended) rfl (setStack_carried s hcarried)

omit [DecidableEq ρ] in
/-- The other fields say nothing about what is tracked and handed over. -/
theorem kept_rest (h : Tracked s ∧ Handed s) (waits : String → Option Nat) (pending : Nat → Bool)
    (arcs : Nat) (departed : List (TaskImpl × Option Nat)) (panics : List String)
    (finished : ρ → Bool) :
    Tracked { s with waits, pending, arcs, departed, panics, finished } ∧
      Handed { s with waits, pending, arcs, departed, panics, finished } :=
  kept_same h ⟨rfl, rfl, rfl, rfl, rfl, rfl, fun _ => rfl, fun _ => rfl⟩ rfl
    fun _ => List.Sublist.refl _

omit [DecidableEq ρ] in
theorem same_giveBack (s : State ρ) (delivery : Delivery) : Same s (s.giveBack delivery) :=
  ⟨rfl, rfl, rfl, rfl, rfl, rfl, fun _ => rfl, fun _ => rfl⟩

theorem kept_hand (h : Tracked s ∧ Handed s) {delivery : Delivery}
    (hp : carried (s.stack p) = delivery :: carried rest)
    (hrunning : running rest = running (s.stack p)) (hended : ended rest = ended (s.stack p)) :
    Tracked ((s.giveBack delivery).setStack p rest) ∧
      Handed ((s.giveBack delivery).setStack p rest) := by
  refine ⟨?_, h.2.hand h.1 hp hrunning hended⟩
  exact (h.1.same (same_giveBack s delivery)).same (same_setStack _ hrunning hended)

/-- A task that the queue gives is started on top of the stack. -/
theorem kept_pop (h : Tracked s ∧ Handed s) (hrunning : running rest = running (s.stack p))
    (hended : ended rest = ended (s.stack p)) (hcarried : carried rest = carried (s.stack p)) :
    Tracked (s.pop p rest) ∧ Handed (s.pop p rest) := by
  refine ⟨h.1.pop hrunning hended, ?_⟩
  unfold State.pop
  split
  · exact h.2.same rfl rfl (setStack_carried s (by rw [hcarried]))
  · exact h.2.same rfl rfl (setStack_carried s (hcarried ▸ List.Sublist.refl _))

theorem kept_unwindTo (h : Tracked s ∧ Handed s) (hrunning : running rest = running (s.stack p))
    (hended : ended rest = ended (s.stack p))
    (hcarried : (carried rest).Sublist (carried (s.stack p))) :
    Tracked (s.unwindTo p rest) ∧ Handed (s.unwindTo p rest) := by
  obtain ⟨finished, he⟩ := unwindTo_eq s p rest
  have hk : Tracked (s.setStack p (Frame.unwind rest)) ∧
      Handed (s.setStack p (Frame.unwind rest)) :=
    kept_setStack h ((running_unwind rest).trans hrunning) ((ended_unwind rest).trans hended)
      ((carried_unwind rest).trans hcarried)
  rw [he]
  exact kept_rest hk _ _ _ _ _ _

theorem kept_advance (h : Tracked s ∧ Handed s) {name : String} {pc : WaitPc}
    (hp : s.stack p = .wait name pc :: rest) (hs : Advances s p name rest pc t) :
    Tracked t ∧ Handed t := by
  have hrunning : running rest = running (s.stack p) := by rw [hp]; rfl
  have hended : ended rest = ended (s.stack p) := by rw [hp]; rfl
  have hcarried : (carried rest).Sublist (carried (s.stack p)) := by
    rw [hp]
    exact (List.sublist_cons_self _ _).filterMap _
  -- the call goes on at `pc'` and carries nothing there, or is over
  have hgo : ∀ pc', Frame.carries (.wait name pc') = none →
      Tracked (s.setStack p (.wait name pc' :: rest)) ∧
        Handed (s.setStack p (.wait name pc' :: rest)) := by
    intro pc' hnone
    refine kept_setStack h hrunning hended ?_
    have he : carried (.wait name pc' :: rest) = carried rest := List.filterMap_cons_none hnone
    rw [he]
    exact hcarried
  have hout : Tracked (s.setStack p rest) ∧ Handed (s.setStack p rest) :=
    kept_setStack h hrunning hended hcarried
  have hside : ∀ waits pending arcs panics, Tracked { s with waits, pending, arcs, panics } ∧
      Handed { s with waits, pending, arcs, panics } := fun waits pending arcs panics =>
    kept_rest h waits pending arcs s.departed panics s.finished
  have htake : ∀ delivery s', s.take p name = some (delivery, s') → s'.stack p = s.stack p ∧
      Tracked s' ∧ Handed s' ∧ (p, delivery) ∈ s'.taken ∧
        delivery.1 ∉ (carried (s'.stack p)).map Prod.fst ∧
          delivery.1 ∉ s'.returned.map Prod.fst := fun delivery s' ht => by
    obtain ⟨-, rfl⟩ := take_eq ht
    exact ⟨rfl, h.1.take ht, h.2.take h.1 ht⟩
  -- a result is removed and stays with the call
  have hkeep : ∀ pc' delivery s', s.take p name = some (delivery, s') →
      Frame.carries (.wait name pc') = some delivery → carried (s.stack p) = carried rest →
        Tracked (s'.setStack p (.wait name pc' :: rest)) ∧
          Handed (s'.setStack p (.wait name pc' :: rest)) := by
    intro pc' delivery s' ht hsome hnone
    obtain ⟨hstack, ht', hh', hin, hnot, hreturned⟩ := htake delivery s' ht
    have hcons : carried (.wait name pc' :: rest) = delivery :: carried (s'.stack p) := by
      rw [hstack, hnone]
      exact List.filterMap_cons_some hsome
    refine ⟨ht'.same (same_setStack s' ?_ ?_), hh'.carry ht' hin hnot hreturned hcons⟩
    · rw [hstack, ← hrunning]
      rfl
    · rw [hstack, ← hended]
      rfl
  cases hs with
  | takes ht | takesLast ht => exact hkeep _ _ _ ht rfl (by rw [hp]; rfl)
  | misses _ hpc =>
    subst hpc
    exact hgo _ (by split <;> rfl)
  | runsAgain | finds | findsNone | blocks | passes => exact hgo _ rfl
  | timesOut | missesLast => exact hout
  | @forgets delivery | @removes delivery =>
    have hcons : carried (s.stack p) = delivery :: carried rest := by rw [hp]; rfl
    exact kept_hand (hside (update s.waits name none) _ _ _) hcons hrunning hended
  | @takesAgain delivery s' ht =>
    obtain ⟨hstack, ht', hh', hin, hnot, hreturned⟩ := htake delivery s' ht
    have hk : Tracked (s'.giveBack delivery) ∧ Handed (s'.giveBack delivery) :=
      ⟨ht'.same (same_giveBack s' delivery), hh'.giveBack ht' hin hreturned hnot⟩
    have hstack' : (s'.giveBack delivery).stack p = s.stack p := hstack
    rw [← hstack'] at hrunning hended hcarried
    exact kept_setStack hk hrunning hended hcarried
  | inserts => exact kept_rest (hgo (.lock s.arcs) rfl) _ _ _ _ _ _
  | insertPanics | removePanics => exact kept_unwindTo (hside _ _ _ _) hrunning hended hcarried

theorem caller_nil {stack : List Frame} (hcaller : Frame.isCaller stack = true)
    (hok : tasks stack = []) : stack = [] := by
  cases stack with
  | nil => rfl
  | cons frame rest =>
    cases frame with
    | running task => simp [tasks, Frame.task] at hok
    | insert task ending | answer task | wait name pc => simp [Frame.isCaller] at hcaller

theorem kept_finish (h : Tracked s ∧ Handed s) (hp : s.stack p = []) :
    Tracked (s.finish p) ∧ Handed (s.finish p) := by
  have hk : Tracked (s.setStack p []) ∧ Handed (s.setStack p []) :=
    kept_setStack h (by rw [hp]) (by rw [hp]) (List.nil_sublist _)
  exact kept_rest hk _ _ _ _ _ _

theorem kept_step (h : Tracked s ∧ Handed s) {a : Act ρ} (hok : s.Fresh a)
    (hs : step s a = some t) : Tracked t ∧ Handed t := by
  cases a with
  | submit name =>
    refine ⟨h.1.submit hok hs, ?_⟩
    simp only [step, Option.some.injEq] at hs
    subst hs
    exact h.2.same rfl rfl fun _ => List.Sublist.refl _
  | tryRun p =>
    rcases step_tryRun hs with ⟨name, rest, hp, rfl⟩ | ⟨-, rfl⟩
    · exact kept_pop h (by rw [hp]; rfl) (by rw [hp]; rfl) (by rw [hp]; rfl)
    · exact kept_pop h rfl rfl rfl
  | ends p ending =>
    obtain ⟨task, rest, hp, rfl⟩ := step_ends hs
    refine ⟨h.1.end hp, h.2.same rfl rfl (setStack_carried s ?_)⟩
    rw [hp]
    exact List.Sublist.refl _
  | insert p =>
    obtain ⟨task, ending, rest, hp, rfl⟩ := step_insert hs
    refine ⟨h.1.insert hp, ?_⟩
    simp only [insertResult, h.1.no_previous hp]
    refine h.2.same rfl rfl (setStack_carried s ?_)
    rw [hp]
    exact List.Sublist.refl _
  | answer p =>
    obtain ⟨task, rest, hp, rfl⟩ := step_answer hs
    have hk : Tracked (s.setStack p rest) ∧ Handed (s.setStack p rest) :=
      kept_setStack h (by rw [hp]; rfl) (by rw [hp]; rfl) (by rw [hp]; exact List.Sublist.refl _)
    unfold answer
    split
    · exact kept_rest hk _ _ _ _ _ _
    · exact kept_rest hk _ _ _ _ _ _
  | tryGetResult p name =>
    obtain rfl | ⟨delivery, s', ht, rfl⟩ := step_tryGetResult hs
    · exact h
    · obtain ⟨hh, hin, hnot, hreturned⟩ := h.2.take h.1 ht
      exact ⟨(h.1.take ht).same (same_giveBack s' delivery),
        hh.giveBack (h.1.take ht) hin hreturned hnot⟩
  | waitResult p name =>
    obtain ⟨-, rfl⟩ := step_waitResult hs
    exact kept_setStack h rfl rfl (List.Sublist.refl _)
  | advance p timedOut =>
    obtain ⟨name, pc, rest, hp, hs⟩ := step_advance hs
    exact kept_advance h hp hs
  | wake p =>
    obtain ⟨name, arc, rest, hp, rfl⟩ := step_wake hs
    exact kept_setStack h (by rw [hp]; rfl) (by rw [hp]; rfl) (by rw [hp]; exact List.Sublist.refl _)
  | timeout p =>
    obtain ⟨name, arc, rest, hp, rfl⟩ := step_timeout hs
    exact kept_setStack h (by rw [hp]; rfl) (by rw [hp]; rfl) (by rw [hp]; exact List.Sublist.refl _)
  | trap p =>
    obtain ⟨hcaller, rfl⟩ := step_trap hs
    rw [trap_eq hok]
    exact kept_finish h (caller_nil hcaller hok)
  | finish p =>
    obtain ⟨hnil, rfl⟩ := step_finish hs
    exact kept_finish h hnil

theorem unwindTo_panics (s : State ρ) (p : ρ) (rest : List Frame) :
    (s.unwindTo p rest).panics = s.panics := by
  obtain ⟨finished, he⟩ := unwindTo_eq s p rest
  rw [he]
  rfl

omit [DecidableEq ρ] in
theorem take_panics {name : String} {delivery : Delivery} {s' : State ρ}
    (ht : s.take p name = some (delivery, s')) : s'.panics = s.panics := by
  obtain ⟨-, rfl⟩ := take_eq ht
  rfl

theorem advance_panics {name : String} {pc : WaitPc} (hs : Advances s p name rest pc t)
    (h : alreadyThere ∉ s.panics) : alreadyThere ∉ t.panics := by
  cases hs with
  | takes ht | takesAgain ht | takesLast ht =>
    rw [← take_panics ht] at h
    exact h
  | misses | forgets | timesOut | runsAgain | finds | findsNone | inserts | blocks | passes
  | missesLast | removes => exact h
  | insertPanics | removePanics =>
    rw [unwindTo_panics]
    exact notMem_panic h (by decide)

theorem pop_panics (s : State ρ) (p : ρ) (rest : List Frame) : (s.pop p rest).panics = s.panics := by
  unfold State.pop
  split <;> rfl

theorem panics_step (hk : Tracked s) (h : alreadyThere ∉ s.panics) {a : Act ρ} (hok : s.Fresh a)
    (hs : step s a = some t) : alreadyThere ∉ t.panics := by
  cases a with
  | submit name =>
    simp only [step, Option.some.injEq] at hs
    subst hs
    exact h
  | tryRun p =>
    rcases step_tryRun hs with ⟨name, rest, -, rfl⟩ | ⟨-, rfl⟩
    · rw [pop_panics]
      exact h
    · rw [pop_panics]
      exact h
  | ends p ending =>
    obtain ⟨task, rest, -, rfl⟩ := step_ends hs
    exact h
  | insert p =>
    obtain ⟨task, ending, rest, hp, rfl⟩ := step_insert hs
    simp only [insertResult, hk.no_previous hp]
    exact h
  | answer p =>
    obtain ⟨task, rest, -, rfl⟩ := step_answer hs
    unfold answer
    split <;> exact h
  | tryGetResult p name =>
    obtain rfl | ⟨delivery, s', ht, rfl⟩ := step_tryGetResult hs
    · exact h
    · rw [← take_panics ht] at h
      exact h
  | waitResult p name =>
    obtain ⟨-, rfl⟩ := step_waitResult hs
    exact h
  | advance p timedOut =>
    obtain ⟨name, pc, rest, -, hs⟩ := step_advance hs
    exact advance_panics hs h
  | wake p =>
    obtain ⟨name, arc, rest, -, rfl⟩ := step_wake hs
    exact h
  | timeout p =>
    obtain ⟨name, arc, rest, -, rfl⟩ := step_timeout hs
    exact h
  | trap p =>
    obtain ⟨-, rfl⟩ := step_trap hs
    rw [trap_eq hok]
    exact h
  | finish p =>
    obtain ⟨-, rfl⟩ := step_finish hs
    exact h

omit [DecidableEq ρ]

theorem Tracked.occupies (h : Tracked s) {i : Nat} (hi : i < s.submitted.length) :
    ∃! place, s.Occupies i place := by
  have hmem : i ∈ List.range s.submitted.length := List.mem_range.2 hi
  rw [← h.numbers, List.mem_append, List.mem_reverse, List.mem_map, List.mem_map] at hmem
  -- a task that is in one of the last three places has been started
  have hown : ∀ p task, task ∈ running (s.stack p) ∨ task ∈ (ended (s.stack p)).map Prod.fst →
      (p, task) ∈ s.started := by
    rintro p task (ht | ht)
    · exact h.runs p task ht
    · obtain ⟨x, hx, rfl⟩ := List.mem_map.1 ht
      exact (h.ends p x hx).1
  rcases hmem with ⟨x, hx, rfl⟩ | hqueued
  · have hqueue : ¬ s.Occupies x.2.number .queued := by
      rintro ⟨task, ht, he⟩
      exact h.nodup.2 x hx task ht he.symm
    have hprogress : s.Occupies x.2.number .inProgress ↔ 0 < (running (s.stack x.1)).count x.2 +
        ((ended (s.stack x.1)).map Prod.fst).count x.2 := by
      rw [Nat.add_pos_iff_pos_or_pos, List.count_pos_iff, List.count_pos_iff]
      constructor
      · rintro ⟨p, task, ht, he⟩
        have hx' : (p, task) = x := h.unique (hown p task ht) hx he
        subst hx'
        exact ht
      · exact fun ht => ⟨x.1, x.2, ht, rfl⟩
    have hstored : s.Occupies x.2.number .stored ↔ 0 < s.stored x.2 := by
      constructor
      · rintro ⟨name, delivery, hd, he⟩
        obtain ⟨q, hq, hone, -⟩ := h.stored_once hd
        have hx' : (q, ⟨delivery.1, name⟩) = x := h.unique hq hx he
        subst hx'
        exact hone ▸ Nat.one_pos
      · intro hpos
        obtain ⟨delivery, hd, he⟩ := stored_ne_zero (Nat.ne_of_gt hpos)
        exact ⟨_, delivery, hd, he⟩
    have htaken : s.Occupies x.2.number .taken ↔ 0 < s.takenNumbers.count x.2.number :=
      List.count_pos_iff.symm
    have honce := h.once x hx
    by_cases hp : s.Occupies x.2.number .inProgress
    · refine ⟨.inProgress, hp, fun place hplace => ?_⟩
      have hpos := hprogress.1 hp
      cases place with
      | queued => exact absurd hplace hqueue
      | inProgress => rfl
      | stored =>
        have hpos' := hstored.1 hplace
        omega
      | taken =>
        have hpos' := htaken.1 hplace
        omega
    · have hzero := Nat.eq_zero_of_not_pos fun hpos => hp (hprogress.2 hpos)
      by_cases hst : s.Occupies x.2.number .stored
      · refine ⟨.stored, hst, fun place hplace => ?_⟩
        have hpos := hstored.1 hst
        cases place with
        | queued => exact absurd hplace hqueue
        | inProgress => exact absurd hplace hp
        | stored => rfl
        | taken =>
          have hpos' := htaken.1 hplace
          omega
      · have hzero' := Nat.eq_zero_of_not_pos fun hpos => hst (hstored.2 hpos)
        refine ⟨.taken, htaken.2 (by omega), fun place hplace => ?_⟩
        cases place with
        | queued => exact absurd hplace hqueue
        | inProgress => exact absurd hplace hp
        | stored => exact absurd hplace hst
        | taken => rfl
  · obtain ⟨task, ht, rfl⟩ := hqueued
    have hnot : ∀ x ∈ s.started, x.2.number ≠ task.number := fun x hx => h.nodup.2 x hx task ht
    refine ⟨.queued, ⟨task, ht, rfl⟩, fun place hplace => ?_⟩
    cases place with
    | queued => rfl
    | inProgress =>
      obtain ⟨p, task', ht', he⟩ := hplace
      exact absurd he (hnot _ (hown p task' ht'))
    | stored =>
      obtain ⟨name, delivery, hd, he⟩ := hplace
      obtain ⟨q, hq, -⟩ := h.stored_once hd
      exact absurd he (hnot _ hq)
    | taken =>
      obtain ⟨x, hx, he⟩ := List.mem_map.1 hplace
      obtain ⟨q, task', -, hq, hnumber, -⟩ := h.takes x hx
      exact absurd (hnumber.trans he) (hnot _ hq)

theorem Tracked.ending_unique (h : Tracked s) {i : Nat} {e e' : Ending} (he : (i, e) ∈ s.endings)
    (he' : (i, e') ∈ s.endings) : e = e' := by
  have hnodup : (s.endings.map Prod.fst).Nodup := by
    refine List.nodup_iff_count_le_one.2 fun j => ?_
    by_cases hj : j ∈ s.endings.map Prod.fst
    · obtain ⟨x, hx, rfl⟩ := List.mem_map.1 hj
      obtain ⟨y, hy, hnumber⟩ := h.endings x hx
      have hran := h.ran y hy
      rw [hnumber] at hran
      omega
    · rw [List.count_eq_zero_of_not_mem hj]
      omega
  exact congrArg Prod.snd (List.inj_on_of_nodup_map hnodup he he' rfl)

theorem Tracked.matches (h : Tracked s) {delivery : Delivery} {ending : Ending}
    (he : (delivery.1, ending) ∈ s.endings) (hd : delivery.2 = ending.result) :
    s.Matches delivery := by
  refine ⟨fun value => ⟨fun hv => ?_, fun hv => ?_⟩, fun message => ⟨fun hm => ?_, ?_⟩⟩
  · cases ending with
    | returned value' =>
      rw [hd, Ending.result, Except.ok.injEq] at hv
      exact hv ▸ he
    | panicked payload =>
      rw [hd] at hv
      cases hv
  · rw [hd, h.ending_unique he hv]
    rfl
  · cases ending with
    | returned value' =>
      rw [hd] at hm
      cases hm
    | panicked payload =>
      rw [hd, Ending.result, Except.error.injEq] at hm
      exact ⟨payload, he, hm⟩
  · rintro ⟨payload, hp, rfl⟩
    rw [hd, h.ending_unique he hp]
    rfl

theorem Handed.returned_nodup (h : Handed s) :
    (s.returned.map Prod.fst).Nodup := by
  refine List.nodup_iff_count_le_one.2 fun i => ?_
  by_cases hi : i ∈ s.returned.map Prod.fst
  · obtain ⟨delivery, hd, rfl⟩ := List.mem_map.1 hi
    obtain ⟨p, hp⟩ := h.gives delivery hd
    have honce := h.once _ hp
    dsimp only at honce
    omega
  · rw [List.count_eq_zero_of_not_mem hi]
    omega

/-- In every run the tasks are started in the order of submission, each is queued, in
progress, stored or taken, the results say how the functions ended and each is returned at
most once, and the assertion of `try_run` holds. -/
theorem tasks_delivered [DecidableEq ρ] {kind : ρ → Kind}
    (h : Reaches step State.Fresh (.new kind) s) :
    (s.started.map Prod.snd).reverse ++ s.taskQueue = s.submitted.mapIdx TaskImpl.mk ∧
      (∀ i < s.submitted.length, ∃! place, s.Occupies i place) ∧
      (∀ name delivery, s.results name = some delivery →
        s.submitted[delivery.1]? = some name ∧ s.Matches delivery) ∧
      (s.returned.map Prod.fst).Nodup ∧ (∀ delivery ∈ s.returned, s.Matches delivery) ∧
      alreadyThere ∉ s.panics := by
  have hk : (Tracked s ∧ Handed s) ∧ alreadyThere ∉ s.panics :=
    h.invariant (p := fun s => (Tracked s ∧ Handed s) ∧ alreadyThere ∉ s.panics)
      ⟨⟨new_tracked kind, new_handed kind⟩, List.not_mem_nil⟩ fun _ _ _ hi hok hs =>
      ⟨kept_step hi.1 hok hs, panics_step hi.1.1 hi.2 hok hs⟩
  obtain ⟨⟨ht, hh⟩, hpanics⟩ := hk
  refine ⟨ht.order, fun i hi => ht.occupies hi, fun name delivery hd => ?_,
    hh.returned_nodup, fun delivery hd => ?_, hpanics⟩
  · obtain ⟨q, ending, hq, he, hr⟩ := ht.stores name delivery hd
    exact ⟨ht.submitted hq, ht.matches he hr⟩
  · obtain ⟨p, hp⟩ := hh.gives delivery hd
    obtain ⟨-, -, ending, -, -, he, hr⟩ := ht.takes _ hp
    exact ht.matches he hr

/-- A worker and a coroutine that waits for the second of two tasks of one name, the first
of which has panicked, and runs it itself. -/
def reused {ρ : Type*} (p q : ρ) : List (Act ρ) :=
  [.submit "a", .tryRun p, .ends p (.panicked .other), .insert p, .answer p, .tryGetResult q "a",
    .submit "a", .waitResult q "a", .advance q false, .tryRun q, .ends q (.returned (some 2)),
    .insert q, .answer q, .advance q false]

theorem tasks_delivered_reused :
    ∃ s : State (Fin 2), s.returned = [(1, .ok (some 2)), (0, .error "task failed without message")]
      ∧ (s.returned.map Prod.fst).Nodup ∧ alreadyThere ∉ s.panics := by
  obtain ⟨s, h, hr⟩ : ∃ s : State (Fin 2),
      Reaches step State.Fresh (.new fun p => if p = 0 then .worker else .coroutine) s ∧
        s.returned = [(1, .ok (some 2)), (0, .error "task failed without message")] :=
    ⟨_, Reaches.of_runGuarded (reused 0 1) rfl, rfl⟩
  obtain ⟨-, -, -, hnodup, -, hpanics⟩ := tasks_delivered h
  exact ⟨s, hr, hnodup, hpanics⟩

end Tasks

end OpenCoroutine
