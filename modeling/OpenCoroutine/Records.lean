import OpenCoroutine.Delivery

/-! What one operation on a pool adds to the record of a run, and that a call of `wait_result`
or `try_get_result` returns the result of a task submitted under the name it was called with. -/

namespace OpenCoroutine

open Function Transition

namespace Tasks

variable {ρ : Type*}

/-- The name that the call looks up, and what it has removed under it. -/
def Frame.labels : Frame → Option (String × Delivery)
  | wait name (.forget delivery) | wait name (.removeWaits delivery) => some (name, delivery)
  | _ => none

def labelled (stack : List Frame) : List (String × Delivery) := stack.filterMap Frame.labels

namespace State

def submits : Act ρ → List String
  | .submit name => [name]
  | _ => []

def starts (s : State ρ) : Act ρ → List (ρ × TaskImpl)
  | .tryRun p => s.taskQueue.head?.toList.map fun task => (p, task)
  | _ => []

def endings? (s : State ρ) : Act ρ → List (Nat × Ending)
  | .ends p ending =>
    match s.stack p with
    | .running task :: _ => [(task.number, ending)]
    | _ => []
  | _ => []

/-- What the call of `wait_result` at `pc` returns next. -/
def waitAnswers (s : State ρ) (name : String) : WaitPc → Option Delivery
  | .forget delivery => some delivery
  | .tryGetResultAgain => s.results name
  | .removeWaits delivery => (s.waits name).map fun _ => delivery
  | _ => none

/-- What the operation gives to the caller of `wait_result` or `try_get_result`, under the name
that was asked for. -/
def answers (s : State ρ) : Act ρ → Option (String × Delivery)
  | .tryGetResult _ name => (s.results name).map fun delivery => (name, delivery)
  | .advance p _ =>
    match s.stack p with
    | .wait name pc :: _ => (s.waitAnswers name pc).map fun delivery => (name, delivery)
    | _ => none
  | _ => none

/-- The record of the run grows by this, and a call removes what the map has under its name. -/
structure Adds (s : State ρ) (names : List String) (starts : List (ρ × TaskImpl))
    (endings : List (Nat × Ending)) (gives : List Delivery) (t : State ρ) : Prop where
  submitted : t.submitted = s.submitted ++ names
  started : t.started = starts ++ s.started
  endings : t.endings = endings ++ s.endings
  returned : t.returned = gives ++ s.returned
  labelled : ∀ q, ∀ x ∈ labelled (t.stack q), x ∈ labelled (s.stack q) ∨ s.results x.1 = some x.2

/-- A call has removed the result of a task submitted under its name. -/
def Labelled (s : State ρ) : Prop :=
  ∀ p, ∀ x ∈ labelled (s.stack p), s.submitted[x.2.1]? = some x.1

end State

open State

variable [DecidableEq ρ] {s s' t : State ρ} {p : ρ} {rest stack : List Frame}

omit [DecidableEq ρ] in
theorem labelled_cons_none {frame : Frame} (h : frame.labels = none) :
    labelled (frame :: rest) = labelled rest :=
  List.filterMap_cons_none h

omit [DecidableEq ρ] in
theorem labelled_tail (frame : Frame) : labelled rest ⊆ labelled (frame :: rest) :=
  ((List.sublist_cons_self frame rest).filterMap Frame.labels).subset

omit [DecidableEq ρ] in
theorem labelled_unwind (stack : List Frame) : labelled (Frame.unwind stack) ⊆ labelled stack :=
  ((unwind_suffix stack).sublist.filterMap Frame.labels).subset

/-- The stack of process `p` is replaced by one whose calls hold nothing new, or what the map
has under their name. -/
theorem labelled_setStack (hstack : s'.stack = s.stack)
    (h : ∀ x ∈ labelled stack, x ∈ labelled (s.stack p) ∨ s.results x.1 = some x.2) (q : ρ)
    (x : String × Delivery) (hx : x ∈ labelled ((s'.setStack p stack).stack q)) :
    x ∈ labelled (s.stack q) ∨ s.results x.1 = some x.2 := by
  by_cases hq : q = p
  · subst hq
    rw [setStack_self] at hx
    exact h x hx
  · rw [setStack_ne s' hq, hstack] at hx
    exact .inl hx

theorem adds_setStack {names : List String} {starts : List (ρ × TaskImpl)}
    {endings : List (Nat × Ending)} {gives : List Delivery} (hs : Adds s names starts endings gives s')
    (hstack : s'.stack = s.stack) (h : labelled stack ⊆ labelled (s.stack p)) :
    Adds s names starts endings gives (s'.setStack p stack) :=
  ⟨hs.submitted, hs.started, hs.endings, hs.returned,
    labelled_setStack hstack fun _ hx => .inl (h hx)⟩

omit [DecidableEq ρ] in
theorem adds_nothing (s : State ρ) : Adds s [] [] [] [] s :=
  ⟨(List.append_nil _).symm, rfl, rfl, rfl, fun _ _ hx => .inl hx⟩

omit [DecidableEq ρ] in
/-- The other fields say nothing about what is recorded. -/
theorem adds_rest {names : List String} {starts : List (ρ × TaskImpl)}
    {endings : List (Nat × Ending)} {gives : List Delivery} (h : Adds s names starts endings gives t)
    (waits : String → Option Nat) (pending : Nat → Bool) (arcs : Nat)
    (departed : List (TaskImpl × Option Nat)) (panics : List String) (finished : ρ → Bool) :
    Adds s names starts endings gives { t with waits, pending, arcs, departed, panics, finished } :=
  ⟨h.submitted, h.started, h.endings, h.returned, h.labelled⟩

theorem adds_unwindTo (s : State ρ) (rest : List Frame)
    (h : labelled rest ⊆ labelled (s.stack p)) : Adds s [] [] [] [] (s.unwindTo p rest) := by
  obtain ⟨finished, he⟩ := unwindTo_eq s p rest
  rw [he]
  have hs : Adds s [] [] [] [] (s.setStack p (Frame.unwind rest)) :=
    adds_setStack (adds_nothing s) rfl (List.Subset.trans (labelled_unwind rest) h)
  exact adds_rest hs _ _ _ _ _ _

theorem adds_pop (s : State ρ) (p : ρ) {rest : List Frame}
    (h : labelled rest ⊆ labelled (s.stack p)) :
    Adds s [] (s.taskQueue.head?.toList.map fun task => (p, task)) [] [] (s.pop p rest) := by
  unfold State.pop
  split
  · rename_i hq
    rw [hq]
    exact adds_setStack (adds_nothing s) rfl h
  · rename_i task taskQueue hq
    rw [hq]
    exact ⟨(List.append_nil _).symm, rfl, rfl, rfl, labelled_setStack rfl fun x hx => .inl (h hx)⟩

/-- The call removes what the map has under its name, and holds it or returns it. -/
theorem adds_take {name : String} {delivery : Delivery} (ht : s.take p name = some (delivery, s'))
    (hrest : labelled rest ⊆ labelled (s.stack p)) (pc : WaitPc) :
    (Frame.labels (.wait name pc) = some (name, delivery) →
      Adds s [] [] [] [] (s'.setStack p (.wait name pc :: rest))) ∧
    Adds s [] [] [] [delivery] ((s'.giveBack delivery).setStack p rest) := by
  obtain ⟨hd, rfl⟩ := take_eq ht
  refine ⟨fun hpc => ⟨(List.append_nil _).symm, rfl, rfl, rfl, labelled_setStack rfl fun x hx => ?_⟩,
    (List.append_nil _).symm, rfl, rfl, rfl, labelled_setStack rfl fun x hx => .inl (hrest hx)⟩
  rw [labelled, List.filterMap_cons_some hpc] at hx
  rcases List.mem_cons.1 hx with rfl | hx
  · exact .inr hd
  · exact .inl (hrest hx)

theorem adds_advance {name : String} {pc : WaitPc} (timedOut : Bool)
    (hp : s.stack p = .wait name pc :: rest) (hs : Advances s p name rest pc t) :
    Adds s [] [] [] ((s.answers (.advance p timedOut)).toList.map Prod.snd) t := by
  have hrest : labelled rest ⊆ labelled (s.stack p) := by
    rw [hp]
    exact labelled_tail _
  have hgo : ∀ pc', Frame.labels (.wait name pc') = none →
      Adds s [] [] [] [] (s.setStack p (.wait name pc' :: rest)) := by
    intro pc' hnone
    refine adds_setStack (adds_nothing s) rfl ?_
    rw [labelled_cons_none hnone]
    exact hrest
  have hout : Adds s [] [] [] [] (s.setStack p rest) := adds_setStack (adds_nothing s) rfl hrest
  have hgive : ∀ delivery waits,
      Adds s [] [] [] [delivery] (({ s with waits }.giveBack delivery).setStack p rest) := by
    intro delivery waits
    exact ⟨(List.append_nil _).symm, rfl, rfl, rfl, labelled_setStack rfl fun _ hx => .inl (hrest hx)⟩
  have hmiss : s.take p name = none → s.results name = none := fun h => by
    simpa [State.take] using h
  simp only [State.answers, hp]
  cases hs with
  | takes ht | takesLast ht => exact (adds_take ht hrest _).1 rfl
  | misses _ hpc =>
    subst hpc
    exact hgo _ (by split <;> rfl)
  | forgets => exact hgive _ _
  | takesAgain ht =>
    obtain ⟨hd, -⟩ := take_eq ht
    rw [State.waitAnswers, hd]
    exact (adds_take ht hrest .tryRun).2
  | timesOut ht =>
    rw [State.waitAnswers, hmiss ht]
    exact hout
  | runsAgain ht =>
    rw [State.waitAnswers, hmiss ht]
    exact hgo _ rfl
  | finds | findsNone | blocks | passes => exact hgo _ rfl
  | inserts => exact adds_rest (hgo (.lock s.arcs) rfl) _ _ _ _ _ _
  | missesLast => exact hout
  | removes hw =>
    rw [State.waitAnswers, hw]
    exact hgive _ _
  | insertPanics =>
    have h := adds_unwindTo (p := p) ({ s with
      waits := update s.waits name (some s.arcs)
      pending := update s.pending s.arcs true
      arcs := s.arcs + 1 }.panic
        "assertion failed: self.waits.insert(key, arc.clone()).is_none()") rest hrest
    exact ⟨h.submitted, h.started, h.endings, h.returned, h.labelled⟩
  | removePanics hw =>
    rw [State.waitAnswers, hw]
    have h := adds_unwindTo (p := p)
      (s.panic "assertion failed: self.waits.remove(key).is_some()") rest hrest
    exact ⟨h.submitted, h.started, h.endings, h.returned, h.labelled⟩

theorem adds_step {a : Act ρ} (hok : s.Fresh a) (hs : step s a = some t) :
    Adds s (submits a) (s.starts a) (s.endings? a) ((s.answers a).toList.map Prod.snd) t := by
  cases a with
  | submit name =>
    simp only [step, Option.some.injEq] at hs
    subst hs
    exact ⟨rfl, rfl, rfl, rfl, fun _ _ hx => .inl hx⟩
  | tryRun p =>
    rcases step_tryRun hs with ⟨name, rest, hp, rfl⟩ | ⟨-, rfl⟩
    · exact adds_pop s p (by rw [hp]; exact List.Subset.refl _)
    · exact adds_pop s p (List.Subset.refl _)
  | ends p ending =>
    obtain ⟨task, rest, hp, rfl⟩ := step_ends hs
    simp only [State.endings?, hp]
    refine ⟨(List.append_nil _).symm, rfl, rfl, rfl, labelled_setStack rfl fun x hx => .inl ?_⟩
    rw [hp]
    exact hx
  | insert p =>
    obtain ⟨task, ending, rest, hp, rfl⟩ := step_insert hs
    unfold insertResult
    split
    · exact ⟨(List.append_nil _).symm, rfl, rfl, rfl, labelled_setStack rfl fun x hx => .inl
        (by rw [hp]; exact hx)⟩
    · have h := adds_unwindTo (p := p)
        (((s.store task ending.result).depart task).panic alreadyThere) rest
        (by change labelled rest ⊆ labelled (s.stack p); rw [hp]; exact labelled_tail _)
      refine ⟨h.submitted, h.started, h.endings, h.returned, fun q x hx => ?_⟩
      obtain ⟨finished, he⟩ := unwindTo_eq
        (((s.store task ending.result).depart task).panic alreadyThere) p rest
      rw [he] at hx
      refine labelled_setStack (s := s) rfl (fun y hy => .inl ?_) q x hx
      rw [hp]
      exact labelled_tail _ (labelled_unwind rest hy)
  | answer p =>
    obtain ⟨task, rest, hp, rfl⟩ := step_answer hs
    have hout : Adds s [] [] [] [] (s.setStack p rest) :=
      adds_setStack (adds_nothing s) rfl (by rw [hp]; exact labelled_tail _)
    unfold answer
    split
    · exact adds_rest hout _ _ _ _ _ _
    · exact adds_rest hout _ _ _ _ _ _
  | tryGetResult p name =>
    simp only [step, Option.ite_none_right_eq_some] at hs
    obtain ⟨-, hs⟩ := hs
    simp only [State.answers, State.take] at hs ⊢
    cases hd : s.results name with
    | none =>
      rw [hd] at hs
      cases hs
      exact adds_nothing s
    | some delivery =>
      rw [hd] at hs
      cases hs
      exact ⟨(List.append_nil _).symm, rfl, rfl, rfl, fun _ _ hx => .inl hx⟩
  | waitResult p name =>
    obtain ⟨-, rfl⟩ := step_waitResult hs
    exact adds_setStack (adds_nothing s) rfl (List.Subset.refl _)
  | advance p timedOut =>
    obtain ⟨name, pc, rest, hp, hs⟩ := step_advance hs
    exact adds_advance timedOut hp hs
  | wake p =>
    obtain ⟨name, arc, rest, hp, rfl⟩ := step_wake hs
    exact adds_setStack (adds_nothing s) rfl (by rw [hp]; exact List.Subset.refl _)
  | timeout p =>
    obtain ⟨name, arc, rest, hp, rfl⟩ := step_timeout hs
    exact adds_setStack (adds_nothing s) rfl (by rw [hp]; exact List.Subset.refl _)
  | trap p =>
    obtain ⟨-, rfl⟩ := step_trap hs
    rw [trap_eq hok]
    exact adds_rest (adds_setStack (adds_nothing s) rfl (List.nil_subset _)) _ _ _ _ _ _
  | finish p =>
    obtain ⟨-, rfl⟩ := step_finish hs
    exact adds_rest (adds_setStack (adds_nothing s) rfl (List.nil_subset _)) _ _ _ _ _ _

omit [DecidableEq ρ] in
theorem Tracked.results_named (h : Tracked s) {name : String} {delivery : Delivery}
    (hd : s.results name = some delivery) : s.submitted[delivery.1]? = some name := by
  obtain ⟨q, ending, hq, -⟩ := h.stores name delivery hd
  exact h.submitted hq

omit [DecidableEq ρ] in
theorem State.Labelled.answers (hl : s.Labelled) (h : Tracked s) {a : Act ρ} {x : String × Delivery}
    (ha : s.answers a = some x) : s.submitted[x.2.1]? = some x.1 := by
  cases a with
  | tryGetResult p name =>
    obtain ⟨delivery, hd, rfl⟩ := Option.map_eq_some_iff.1 ha
    exact h.results_named hd
  | advance p timedOut =>
    simp only [State.answers] at ha
    split at ha
    · rename_i name pc rest hp
      obtain ⟨delivery, hd, rfl⟩ := Option.map_eq_some_iff.1 ha
      have hheld : Frame.labels (.wait name pc) = some (name, delivery) →
          s.submitted[delivery.1]? = some name := fun hpc =>
        hl p (name, delivery) (by rw [hp, labelled, List.filterMap_cons_some hpc]; exact List.mem_cons_self)
      cases pc with
      | forget =>
        cases hd
        exact hheld rfl
      | tryGetResultAgain => exact h.results_named hd
      | removeWaits =>
        obtain ⟨arc, -, rfl⟩ := Option.map_eq_some_iff.1 hd
        exact hheld rfl
      | tryGetResult | tryRun | getWaits | insertWaits | lock | blocked | tryGetResultLast => cases hd
    · cases ha
  | submit | tryRun | ends | insert | answer | waitResult | wake | timeout | trap | finish =>
    cases ha

theorem State.Labelled.step (hl : s.Labelled) (h : Tracked s) {a : Act ρ} (hok : s.Fresh a)
    (hs : step s a = some t) : t.Labelled := by
  have hadds := adds_step hok hs
  intro q x hx
  have hx' : s.submitted[x.2.1]? = some x.1 := by
    rcases hadds.labelled q x hx with hx | hx
    · exact hl q x hx
    · exact h.results_named hx
  rw [hadds.submitted]
  exact List.getElem?_append_left (List.getElem?_eq_some_iff.1 hx').1 ▸ hx'

omit [DecidableEq ρ] in
theorem new_labelled (kind : ρ → Kind) : (State.new kind).Labelled := by
  intro p x hx
  simp [State.new, labelled] at hx

end Tasks

end OpenCoroutine
