import Mathlib.Data.List.ReduceOption
import OpenCoroutine.Transition
import OpenCoroutine.WaitResult

/-! Any number of threads that wait for one task, each of them any number of times. The task
runs once. What it comes to is in one place at a time: not published, in `results`, with
the caller that took it out, or answered.

The callers get into each other's way only where two of them find no entry in `waits`
before either has inserted its own. -/

namespace OpenCoroutine

open Transition

namespace WaitResult

variable {ι R : Type*}

/-- The answers of the calls that were over before the result was published, and of the
others. `none` is `TimedOut`. -/
structure Watch (ι R : Type*) where
  state : State ι R
  ran : Option R
  early : List (Option R)
  late : List (Option R)

namespace Waiter

def answer : Waiter R → Option (Option R)
  | returned r => some (some r)
  | timedOut => some none
  | _ => none

/-- The result that the caller has taken out of `results`. -/
def holds : Waiter R → Option R
  | forget r | removeWaits r => some r
  | _ => none

/-- The caller has found or made an entry of `waits` and not yet looked at the result. -/
def entered : Waiter R → Bool
  | lock _ | blocked _ | tryGetResultAgain => true
  | _ => false

end Waiter

namespace Watch

/-- The result, from when `try_run` has inserted it. -/
def published (w : Watch ι R) : Option R :=
  match w.state.worker with
  | .insertResult _ => none
  | _ => w.ran

def withState (w : Watch ι R) (s : State ι R) : Watch ι R := { w with state := s }

def record (w : Watch ι R) (answer : Option (Option R)) : Watch ι R :=
  if w.published.isSome then { w with late := answer.toList ++ w.late }
  else { w with early := answer.toList ++ w.early }

def step [DecidableEq ι] [Fintype ι] (w : Watch ι R) (a : Act ι R) : Option (Watch ι R) :=
  match a with
  | .run r =>
    if w.ran.isNone then
      (WaitResult.step w.state a).map fun s => { w.withState s with ran := some r }
    else none
  | .advance i =>
    (WaitResult.step w.state a).map fun s => (w.withState s).record (s.waiter i).answer
  | _ => (WaitResult.step w.state a).map w.withState

/-- Nothing has happened yet, apart from entries of `waits` that were left over. -/
structure Fresh (w : Watch ι R) : Prop where
  results : w.state.results = none
  waiter : ∀ i, w.state.waiter i = .idle
  worker : w.state.worker = .idle
  ran : w.ran = none
  early : w.early = []
  late : w.late = []

/-- No assertion of `wait_result` has failed. The calls that are over by the publication
have timed out, and of those after it one has the result, once they are all over. -/
structure Delivers (w : Watch ι R) : Prop where
  asserts : ∀ i, w.state.waiter i ≠ .panicked
  early : ∀ answer ∈ w.early, answer = none
  once : w.late.reduceOption = [] ∨ w.late.reduceOption = w.published.toList
  exactly : (∀ i, (w.state.waiter i).outside = true) → w.late ≠ [] →
    ∃ r, w.published = some r ∧ w.late.reduceOption = [r]

/-- No caller finds `waits` empty while another one is about to insert its entry. -/
def Alone (w : Watch ι R) : Act ι R → Prop
  | .advance i => w.state.waiter i = .getWaits → w.state.waits = none →
      ∀ j, w.state.waiter j ≠ .insertWaits
  | _ => True

instance [DecidableEq R] [Fintype ι] (w : Watch ι R) : (a : Act ι R) → Decidable (w.Alone a)
  | .advance i => inferInstanceAs (Decidable (w.state.waiter i = .getWaits →
      w.state.waits = none → ∀ j, w.state.waiter j ≠ .insertWaits))
  | .call _ | .wake _ | .timeout _ | .run _ | .work _ => isTrue trivial

end Watch

/-! The callers. -/

structure State.Ordered (s : State ι R) : Prop where
  asserts : ∀ i, s.waiter i ≠ .panicked
  inserting : ∀ i, s.waiter i = .insertWaits → s.waits = none
  alone : ∀ i j, s.waiter i = .insertWaits → s.waiter j = .insertWaits → i = j
  removing : ∀ i r, s.waiter i = .removeWaits r → s.waits ≠ none

namespace State.Ordered

theorem of_eq {s t : State ι R} (h : s.Ordered) (hwaiter : t.waiter = s.waiter)
    (hwaits : t.waits = s.waits) : t.Ordered where
  asserts i := by
    rw [hwaiter]
    exact h.asserts i
  inserting i hi := by
    rw [hwaiter] at hi
    exact hwaits.trans (h.inserting i hi)
  alone i j hi hj := by
    rw [hwaiter] at hi hj
    exact h.alone i j hi hj
  removing i r hi := by
    rw [hwaiter] at hi
    rw [hwaits]
    exact h.removing i r hi

variable [DecidableEq ι]

theorem goto {s : State ι R} (h : s.Ordered) (i : ι) {x : Waiter R} (hx : x ≠ .panicked)
    (hinsert : x = .insertWaits → s.waits = none ∧ ∀ j, s.waiter j ≠ .insertWaits)
    (hremove : ∀ r, x = .removeWaits r → s.waits ≠ none) : (s.goto i x).Ordered where
  asserts j := by
    rw [goto_waiter, Function.update_apply]
    split
    · exact hx
    · exact h.asserts j
  inserting j hj := by
    rw [goto_waiter, Function.update_apply] at hj
    split at hj
    · exact (hinsert hj).1
    · exact h.inserting j hj
  alone j k hj hk := by
    rw [goto_waiter, Function.update_apply] at hj hk
    split at hj <;> split at hk
    · rename_i hji hki
      exact hji.trans hki.symm
    · exact absurd hk ((hinsert hj).2 k)
    · exact absurd hj ((hinsert hk).2 j)
    · exact h.alone j k hj hk
  removing j r hj := by
    rw [goto_waiter, Function.update_apply] at hj
    split at hj
    · exact hremove r hj
    · exact h.removing j r hj

/-- The caller goes on with a step that is not among those the assertions are about. -/
theorem passes {s : State ι R} (h : s.Ordered) (i : ι) {x : Waiter R} (hx : x ≠ .panicked)
    (hinsert : x ≠ .insertWaits) (hremove : ∀ r, x ≠ .removeWaits r) : (s.goto i x).Ordered :=
  h.goto i hx (fun he => absurd he hinsert) fun r he => absurd he (hremove r)

theorem inserts {s t : State ι R} (h : s.Ordered) {i : ι} (hi : s.waiter i = .insertWaits)
    {arc : Nat} (hwaits : t.waits = some arc)
    (hwaiter : t.waiter = Function.update s.waiter i (.lock arc)) : t.Ordered := by
  have hnone : ∀ j, t.waiter j ≠ .insertWaits := by
    intro j hj
    rw [hwaiter, Function.update_apply] at hj
    split at hj
    · cases hj
    · rename_i hne
      exact hne (h.alone j i hj hi)
  refine ⟨fun j => ?_, fun j hj => absurd hj (hnone j), fun j _ hj => absurd hj (hnone j), ?_⟩
  · rw [hwaiter, Function.update_apply]
    split
    · simp
    · exact h.asserts j
  · simp [hwaits]

theorem forgets {s : State ι R} (h : s.Ordered) {i : ι}
    (hothers : ∀ j r, j ≠ i → s.waiter j ≠ .removeWaits r) (r : R) :
    ({ s with waits := none }.goto i (.returned r)).Ordered where
  asserts := (h.passes i (x := .returned r) (by simp) (by simp) (by simp)).asserts
  inserting _ _ := rfl
  alone := (h.passes i (x := .returned r) (by simp) (by simp) (by simp)).alone
  removing j r' hj := by
    rw [goto_waiter, Function.update_apply] at hj
    split at hj
    · cases hj
    · rename_i hne
      exact absurd hj (hothers j r' hne)

end State.Ordered

/-! The result. -/

/-- Where the result is. -/
inductive Place (ι R : Type*) where
  | unpublished
  | inResults (r : R)
  | held (i : ι) (r : R)
  | answered (r : R)

namespace Place

def published : Place ι R → Option R
  | unpublished => none
  | inResults r | held _ r | answered r => some r

def results : Place ι R → Option R
  | inResults r => some r
  | unpublished | held _ _ | answered _ => none

def holds [DecidableEq ι] : Place ι R → ι → Option R
  | held i r, j => if j = i then some r else none
  | unpublished, _ | inResults _, _ | answered _, _ => none

def answers : Place ι R → List R
  | answered r => [r]
  | unpublished | inResults _ | held _ _ => []

def untaken : Place ι R → Bool
  | unpublished | inResults _ => true
  | held _ _ | answered _ => false

end Place

namespace Watch

theorem record_none (w : Watch ι R) : w.record none = w := by
  unfold record
  split <;> rfl

theorem record_state (w : Watch ι R) (answer : Option (Option R)) :
    (w.record answer).state = w.state := by
  unfold record
  split <;> rfl

theorem record_early {w : Watch ι R} (h : w.published = none) (answer : Option R) :
    w.record (some answer) = { w with early := answer :: w.early } := by
  simp [record, h]

theorem record_late {w : Watch ι R} {r : R} (h : w.published = some r) (answer : Option R) :
    w.record (some answer) = { w with late := answer :: w.late } := by
  simp [record, h]

theorem withState_published (w : Watch ι R) {s : State ι R} (h : s.worker = w.state.worker) :
    (w.withState s).published = w.published := by
  simp only [withState, published, h]

variable [DecidableEq ι]

structure At (w : Watch ι R) (place : Place ι R) : Prop where
  published : w.published = place.published
  results : w.state.results = place.results
  holds : ∀ i, (w.state.waiter i).holds = place.holds i
  answers : w.late.reduceOption = place.answers
  untimed : place.untaken = true → w.late = []
  entered : place.untaken = true → ∀ i, (w.state.waiter i).entered = true → w.state.waits ≠ none

namespace At

variable {w : Watch ι R} {place : Place ι R}

theorem holder (h : w.At place) {i : ι} {r : R} (hi : (w.state.waiter i).holds = some r) :
    place = .held i r := by
  have hholds := h.holds i
  rw [hi] at hholds
  cases place with
  | held j r' =>
    simp only [Place.holds, Option.some_eq_ite_none_right, Option.some.injEq] at hholds
    rw [hholds.1, hholds.2]
  | unpublished | inResults _ | answered _ => cases hholds

theorem present (h : w.At place) {r : R} (hr : w.state.results = some r) :
    place = .inResults r := by
  have hresults := h.results
  rw [hr] at hresults
  cases place with
  | inResults r' => rw [Option.some.inj hresults]
  | unpublished | held _ _ | answered _ => cases hresults

theorem of_eq (h : w.At place) {w' : Watch ι R} (hpublished : w'.published = w.published)
    (hresults : w'.state.results = w.state.results) (hwaiter : w'.state.waiter = w.state.waiter)
    (hwaits : w'.state.waits = w.state.waits) (hlate : w'.late = w.late) : w'.At place where
  published := hpublished.trans h.published
  results := hresults.trans h.results
  holds i := by
    rw [hwaiter]
    exact h.holds i
  answers := by
    rw [hlate]
    exact h.answers
  untimed hu := hlate.trans (h.untimed hu)
  entered hu i hi := by
    rw [hwaiter] at hi
    rw [hwaits]
    exact h.entered hu i hi

/-- A move of a caller that neither takes the result nor ends the call. -/
theorem moves (h : w.At place) {s : State ι R} {i : ι} {x : Waiter R}
    (hpublished : (w.withState s).published = w.published)
    (hresults : s.results = w.state.results)
    (hwaiter : s.waiter = Function.update w.state.waiter i x)
    (hholds : x.holds = (w.state.waiter i).holds)
    (hwaits : w.state.waits ≠ none → s.waits ≠ none)
    (hentered : x.entered = true → (w.state.waiter i).entered = true ∨ s.waits ≠ none) :
    (w.withState s).At place where
  published := hpublished.trans h.published
  results := hresults.trans h.results
  holds j := by
    show (s.waiter j).holds = place.holds j
    rw [hwaiter, Function.update_apply]
    split
    · rename_i hj
      rw [hj, hholds]
      exact h.holds i
    · exact h.holds j
  answers := h.answers
  untimed := h.untimed
  entered hu j hj := by
    change (s.waiter j).entered = true at hj
    rw [hwaiter, Function.update_apply] at hj
    split at hj
    · rcases hentered hj with hi | hs
      · exact hwaits (h.entered hu i hi)
      · exact hs
    · exact hwaits (h.entered hu j hj)

/-- A caller takes the result out of `results`. -/
theorem takes (h : w.At place) {r : R} (hr : w.state.results = some r) {s : State ι R} {i : ι}
    {x : Waiter R} (hworker : s.worker = w.state.worker) (hresults : s.results = none)
    (hwaiter : s.waiter = Function.update w.state.waiter i x) (hx : x.holds = some r) :
    (w.withState s).At (.held i r) := by
  obtain rfl := h.present hr
  have hpublished := (withState_published w hworker).trans h.published
  refine ⟨hpublished, hresults, fun j => ?_, h.answers, by simp [Place.untaken],
    by simp [Place.untaken]⟩
  show (s.waiter j).holds = _
  rw [hwaiter, Function.update_apply, Place.holds]
  split
  · exact hx
  · exact h.holds j

/-- The caller that holds the result returns it. -/
theorem gives (h : w.At place) {i : ι} {r : R} (hi : (w.state.waiter i).holds = some r)
    {s : State ι R} (hworker : s.worker = w.state.worker)
    (hresults : s.results = w.state.results)
    (hwaiter : s.waiter = Function.update w.state.waiter i (.returned r)) :
    ((w.withState s).record (some (some r))).At (.answered r) := by
  obtain rfl := h.holder hi
  have hpublished := (withState_published w hworker).trans h.published
  rw [record_late hpublished]
  refine ⟨hpublished, hresults.trans h.results, fun j => ?_, ?_, by simp [Place.untaken],
    by simp [Place.untaken]⟩
  · show (s.waiter j).holds = _
    rw [hwaiter, Function.update_apply]
    split
    · rfl
    · rename_i hne
      exact (h.holds j).trans (if_neg hne)
  · have hnil : (w.withState s).late.reduceOption = [] := h.answers
    simp [hnil, Place.answers]

/-- A call ends without the result. -/
theorem timesOut (h : w.At place) {i : ι} (hi : (w.state.waiter i).holds = none)
    (hr : w.state.results = none) :
    ((w.withState (w.state.goto i .timedOut)).record (some none)).At place := by
  have hmoves : (w.withState (w.state.goto i .timedOut)).At place :=
    h.moves rfl rfl rfl hi.symm id (by simp [Waiter.entered])
  have hpublished := hmoves.published
  cases place with
  | unpublished =>
    rw [record_early hpublished]
    exact ⟨hpublished, hmoves.results, hmoves.holds, hmoves.answers, hmoves.untimed,
      hmoves.entered⟩
  | inResults r => rw [h.results] at hr; cases hr
  | held j r | answered r =>
    rw [record_late hpublished]
    refine ⟨hpublished, hmoves.results, hmoves.holds, ?_, by simp [Place.untaken],
      by simp [Place.untaken]⟩
    simpa using hmoves.answers

end At

structure Sound (w : Watch ι R) : Prop where
  ordered : w.state.Ordered
  early : ∀ answer ∈ w.early, answer = none
  unrun : w.ran = none → w.state.worker = .idle
  running : ∀ r, w.state.worker = .insertResult r → w.ran = some r
  place : ∃ place, w.At place

namespace Sound

variable {w : Watch ι R}

theorem moves_to (h : w.Sound) {s : State ι R} (hordered : s.Ordered)
    (hworker : s.worker = w.state.worker) {place : Place ι R}
    (hplace : (w.withState s).At place) :
    (w.withState s).Sound where
  ordered := hordered
  early := h.early
  unrun hr := hworker.trans (h.unrun hr)
  running r hk := h.running r (hworker.symm.trans hk)
  place := ⟨place, hplace⟩

/-- The caller goes on without an answer. -/
theorem passes (h : w.Sound) {s : State ι R} {i : ι} {x : Waiter R} (hx : x.answer = none)
    (hordered : (s.goto i x).Ordered) (hworker : s.worker = w.state.worker) {place : Place ι R}
    (hplace : (w.withState (s.goto i x)).At place) :
    ((w.withState (s.goto i x)).record
      ((s.goto i x).waiter i).answer).Sound := by
  rw [State.goto_self, hx, record_none]
  exact h.moves_to hordered hworker hplace

/-- The caller that holds the result returns it and leaves no entry. -/
theorem returns (h : w.Sound) {i : ι} {r : R} (hi : (w.state.waiter i).holds = some r) :
    ((w.withState ({ w.state with waits := none }.goto i (.returned r))).record
        (({ w.state with waits := none }.goto i (.returned r)).waiter i).answer).Sound := by
  obtain ⟨place, hp⟩ := h.place
  have hanswered := hp.gives hi (s := { w.state with waits := none }.goto i (.returned r))
    rfl rfl rfl
  have hpublished : w.published = some r := by
    rw [hp.published, hp.holder hi]
    rfl
  have hpublished' := (withState_published w
    (s := { w.state with waits := none }.goto i (.returned r)) rfl).trans hpublished
  rw [State.goto_self, Waiter.answer]
  rw [record_late hpublished'] at hanswered ⊢
  refine ⟨h.ordered.forgets (fun j r' hne hj => ?_) r, h.early, h.unrun, h.running, _, hanswered⟩
  have hheld := hp.holder (i := j) (r := r') (by rw [hj]; rfl)
  rw [hp.holder hi, Place.held.injEq] at hheld
  exact hne hheld.1.symm

/-- A call ends without the result. -/
theorem timesOut (h : w.Sound) {i : ι} (hi : (w.state.waiter i).holds = none)
    (hr : w.state.results = none) :
    ((w.withState (w.state.goto i .timedOut)).record
      ((w.state.goto i .timedOut).waiter i).answer).Sound := by
  obtain ⟨place, hp⟩ := h.place
  have hplace := hp.timesOut hi hr
  have hordered := h.ordered.passes i (x := .timedOut) (by simp) (by simp) (by simp)
  rw [State.goto_self, Waiter.answer]
  cases hpub : (w.withState (w.state.goto i .timedOut)).published with
  | none =>
    rw [record_early hpub] at hplace ⊢
    refine ⟨hordered, fun a ha => ?_, h.unrun, h.running, place, hplace⟩
    rcases List.mem_cons.1 ha with rfl | ha
    · rfl
    · exact h.early a ha
  | some r =>
    rw [record_late hpub] at hplace ⊢
    exact ⟨hordered, h.early, h.unrun, h.running, place, hplace⟩

theorem advance (h : w.Sound) {t : State ι R} {i : ι} (hok : w.Alone (.advance i))
    (hs : Advances w.state i t) :
    ((w.withState t).record (t.waiter i).answer).Sound := by
  obtain ⟨place, hp⟩ := h.place
  cases hs with
  | @takes r hi hr =>
    have hordered := h.ordered.passes i (x := .forget r) (by simp) (by simp) (by simp)
    exact h.passes rfl (hordered.of_eq rfl rfl) rfl (hp.takes hr rfl rfl rfl rfl)
  | misses hi hr =>
    have hordered := h.ordered.passes i (x := .getWaits) (by simp) (by simp) (by simp)
    exact h.passes rfl hordered rfl
      (hp.moves rfl rfl rfl (by rw [hi]; rfl) id (by simp [Waiter.entered]))
  | forgets hi => exact h.returns (by rw [hi]; rfl)
  | @finds arc hi hw =>
    have hordered := h.ordered.passes i (x := .lock arc) (by simp) (by simp) (by simp)
    exact h.passes rfl hordered rfl
      (hp.moves rfl rfl rfl (by rw [hi]; rfl) id fun _ => .inr (by simp [State.goto, hw]))
  | findsNone hi hw =>
    have hordered := h.ordered.goto i (x := .insertWaits) (by simp) (fun _ => ⟨hw, hok hi hw⟩)
      (by simp)
    exact h.passes rfl hordered rfl
      (hp.moves rfl rfl rfl (by rw [hi]; rfl) id (by simp [Waiter.entered]))
  | inserts hi =>
    have hw := h.ordered.inserting i hi
    simp only [hw, Option.isNone_none, if_true]
    exact h.passes rfl (h.ordered.inserts hi rfl rfl) rfl
      (hp.moves rfl rfl rfl (by rw [hi]; rfl) (by simp [State.goto])
        fun _ => .inr (by simp [State.goto]))
  | @locks arc hi =>
    have hentered : (w.state.waiter i).entered = true := by rw [hi]; rfl
    split
    · have hordered := h.ordered.passes i (x := .blocked arc) (by simp) (by simp) (by simp)
      exact h.passes rfl hordered rfl
        (hp.moves rfl rfl rfl (by rw [hi]; rfl) id fun _ => .inl hentered)
    · have hordered := h.ordered.passes i (x := .tryGetResultAgain) (by simp) (by simp) (by simp)
      exact h.passes rfl hordered rfl
        (hp.moves rfl rfl rfl (by rw [hi]; rfl) id fun _ => .inl hentered)
  | @takesAgain r hi hr =>
    have huntaken : place.untaken = true := by rw [hp.present hr]; rfl
    have hwaits := hp.entered huntaken i (by rw [hi]; rfl)
    have hordered := h.ordered.goto i (x := .removeWaits r) (by simp) (by simp)
      fun _ _ => hwaits
    exact h.passes rfl (hordered.of_eq rfl rfl) rfl (hp.takes hr rfl rfl rfl rfl)
  | timesOut hi hr => exact h.timesOut (by rw [hi]; rfl) hr
  | removes hi =>
    have hwaits := Option.isSome_iff_ne_none.2 (h.ordered.removing i _ hi)
    simp only [hwaits, if_true]
    exact h.returns (by rw [hi]; rfl)

/-- The caller moves between operations that neither take nor look for anything. -/
theorem steps_to (h : w.Sound) {i : ι} {x : Waiter R}
    (hordered : (w.state.goto i x).Ordered) (hholds : x.holds = (w.state.waiter i).holds)
    (hentered : x.entered = true → (w.state.waiter i).entered = true) :
    (w.withState (w.state.goto i x)).Sound := by
  obtain ⟨place, hp⟩ := h.place
  exact h.moves_to hordered rfl (hp.moves rfl rfl rfl hholds id fun hx => .inl (hentered hx))

/-- `try_run` goes on, with the result in `results`. -/
theorem works_on (h : w.Sound) (hk : w.state.worker ≠ .idle) {s : State ι R}
    (hs : ∀ r, s.worker ≠ .insertResult r) (hordered : s.Ordered) {place : Place ι R}
    (hplace : (w.withState s).At place) : (w.withState s).Sound where
  ordered := hordered
  early := h.early
  unrun hr := absurd (h.unrun hr) hk
  running r hr := absurd hr (hs r)
  place := ⟨place, hplace⟩

theorem inserts (h : w.Sound) {r : R} (hk : w.state.worker = .insertResult r) :
    (w.withState { w.state with
      results := some r,
      worker := if w.state.results.isNone then .getWaits else .panicked }).Sound := by
  obtain ⟨place, hp⟩ := h.place
  have hran := h.running r hk
  have hnone : place.published = none := by rw [← hp.published, published, hk]
  cases place with
  | inResults r | held i r | answered r => cases hnone
  | unpublished =>
    have hresults : w.state.results = none := hp.results
    simp only [hresults, Option.isNone_none, if_true]
    have hplace : (w.withState { w.state with
        results := some r, worker := .getWaits }).At (.inResults r) :=
      ⟨hran, rfl, hp.holds, hp.answers, hp.untimed, hp.entered⟩
    exact h.works_on (by simp [hk]) (by simp) (h.ordered.of_eq rfl rfl) hplace

theorem work (h : w.Sound) {t : State ι R} (hs : Works w.state t) : (w.withState t).Sound := by
  obtain ⟨place, hp⟩ := h.place
  cases hs with
  | inserts hk => exact h.inserts hk
  | finds hk hw | findsNone hk hw | wakesNone hk hi =>
    refine h.works_on (by simp [hk]) (by simp) (h.ordered.of_eq rfl rfl)
      (hp.of_eq ?_ rfl rfl rfl rfl)
    simp [published, withState, hk]
  | @wakes arc i hk hi =>
    have hordered := h.ordered.passes i (x := .lock arc) (by simp) (by simp) (by simp)
    refine h.works_on (by simp [hk]) (by simp [State.goto]) (hordered.of_eq rfl rfl)
      (hp.moves ?_ rfl rfl (by rw [hi]; rfl) id fun _ => .inl (by rw [hi]; rfl))
    simp [published, withState, State.goto, hk]

theorem step [Fintype ι] (h : w.Sound) {a : Act ι R} {t : Watch ι R} (hok : w.Alone a)
    (hs : w.step a = some t) : t.Sound := by
  obtain ⟨place, hp⟩ := h.place
  cases a with
  | advance i =>
    simp only [Watch.step, Option.map_eq_some_iff] at hs
    obtain ⟨s, hs, rfl⟩ := hs
    exact h.advance hok (advances hs)
  | work woken =>
    simp only [Watch.step, Option.map_eq_some_iff] at hs
    obtain ⟨s, hs, rfl⟩ := hs
    exact h.work (works hs)
  | call i =>
    simp only [Watch.step, Option.map_eq_some_iff] at hs
    obtain ⟨s, hs, rfl⟩ := hs
    obtain ⟨hi, rfl⟩ := step_call hs
    refine h.steps_to (h.ordered.passes i (by simp) (by simp) (by simp)) ?_
      (by simp [Waiter.entered])
    revert hi
    cases w.state.waiter i <;> simp [Waiter.outside, Waiter.holds]
  | wake i =>
    simp only [Watch.step, Option.map_eq_some_iff] at hs
    obtain ⟨s, hs, rfl⟩ := hs
    obtain ⟨arc, hi, rfl⟩ := step_wake hs
    exact h.steps_to (h.ordered.passes i (by simp) (by simp) (by simp)) (by rw [hi]; rfl)
      fun _ => by rw [hi]; rfl
  | timeout i =>
    simp only [Watch.step, Option.map_eq_some_iff] at hs
    obtain ⟨s, hs, rfl⟩ := hs
    obtain ⟨arc, hi, rfl⟩ := step_timeout hs
    exact h.steps_to (h.ordered.passes i (by simp) (by simp) (by simp)) (by rw [hi]; rfl)
      fun _ => by rw [hi]; rfl
  | run r =>
    simp only [Watch.step, Option.ite_none_right_eq_some, Option.map_eq_some_iff] at hs
    obtain ⟨hran, s, hs, rfl⟩ := hs
    obtain ⟨hk, rfl⟩ := step_run hs
    have hnone : w.published = none := by simpa [published, hk] using hran
    refine ⟨h.ordered.of_eq rfl rfl, h.early, (fun hr => by cases hr), fun r' hr => ?_, place,
      hp.of_eq hnone.symm rfl rfl rfl rfl⟩
    exact congrArg some (Worker.insertResult.inj hr)

end Sound

theorem Fresh.sound {w : Watch ι R} (h : w.Fresh) : w.Sound where
  ordered := ⟨fun i => by simp [h.waiter i], fun i hi => by simp [h.waiter i] at hi,
    fun i j hi => by simp [h.waiter i] at hi, fun i r hi => by simp [h.waiter i] at hi⟩
  early := by simp [h.early]
  unrun _ := h.worker
  running r hr := by simp [h.worker] at hr
  place := by
    refine ⟨.unpublished, ?_, h.results, fun i => ?_, ?_, fun _ => h.late, fun _ i hi => ?_⟩
    · simp [published, h.worker, h.ran, Place.published]
    · rw [h.waiter i]
      rfl
    · rw [h.late]
      rfl
    · simp [h.waiter i, Waiter.entered] at hi

theorem Sound.delivers {w : Watch ι R} (h : w.Sound) : w.Delivers where
  asserts := h.ordered.asserts
  early := h.early
  once := by
    obtain ⟨place, hp⟩ := h.place
    rw [hp.answers, hp.published]
    cases place with
    | unpublished | inResults r | held i r => exact .inl rfl
    | answered r => exact .inr rfl
  exactly hover hlate := by
    obtain ⟨place, hp⟩ := h.place
    rw [hp.answers, hp.published]
    cases place with
    | unpublished | inResults r => exact absurd (hp.untimed rfl) hlate
    | held i r =>
      have hholds : (w.state.waiter i).holds = some r := (hp.holds i).trans (if_pos rfl)
      have houtside := hover i
      revert hholds houtside
      cases w.state.waiter i <;> simp [Waiter.outside, Waiter.holds]
    | answered r => exact ⟨r, rfl, rfl⟩

variable [Fintype ι]

theorem step_inserts {w : Watch ι R} {i : ι} (hi : w.state.waiter i = .insertWaits) :
    ∃ t, w.step (.advance i) = some t ∧ t.state.waits = some w.state.arcs ∧
      t.state.waiter = Function.update w.state.waiter i
        (if w.state.waits.isNone then .lock w.state.arcs else .panicked) := by
  have hs : w.step (.advance i) = (WaitResult.advance w.state i).map fun s =>
    (w.withState s).record (s.waiter i).answer := rfl
  simp only [WaitResult.advance, hi, Option.map_some] at hs
  refine ⟨_, hs, ?_⟩
  rw [record_state]
  exact ⟨rfl, rfl⟩

/-- Of two callers that are about to insert an entry, the second one fails its assertion. -/
theorem panics_of_two {w : Watch ι R} {i j : ι} (hne : i ≠ j)
    (hi : w.state.waiter i = .insertWaits) (hj : w.state.waiter j = .insertWaits) :
    ∃ u, Reaches step Free w u ∧ u.state.waiter i = .panicked := by
  obtain ⟨t, ht, hwaits, hwaiter⟩ := step_inserts hj
  have hi' : t.state.waiter i = .insertWaits := by
    rw [hwaiter, Function.update_of_ne hne]
    exact hi
  obtain ⟨u, hu, -, hpanicked⟩ := step_inserts hi'
  refine ⟨u, (Reaches.single trivial ht).next trivial hu, ?_⟩
  rw [hpanicked, hwaits]
  simp

/-- The calls of all threads share one result while no caller finds `waits` empty that
another one is about to insert its entry into. Where one does, an assertion may fail. -/
theorem delivers_while_alone {w₀ : Watch ι R} (h₀ : w₀.Fresh) :
    (∀ w, Reaches step Alone w₀ w → w.Delivers) ∧
      ∀ (w : Watch ι R) a t, ¬ w.Alone a → w.step a = some t →
        ∃ u i, Reaches step Free t u ∧ u.state.waiter i = .panicked := by
  refine ⟨fun w h => ?_, fun w a t hnot hs => ?_⟩
  · exact (h.invariant h₀.sound fun _ _ _ hi hok hs => hi.step hok hs).delivers
  · cases a with
    | advance i =>
      simp only [Alone, Classical.not_imp, not_forall, not_not] at hnot
      obtain ⟨hi, hw, j, hj⟩ := hnot
      have hne : i ≠ j := by
        rintro rfl
        rw [hi] at hj
        cases hj
      simp only [step, WaitResult.step, WaitResult.advance, hi, hw, Option.map_some,
        Option.some.injEq] at hs
      have hanswer : (Waiter.insertWaits : Waiter R).answer = none := rfl
      rw [State.goto_self, hanswer, record_none] at hs
      subst hs
      obtain ⟨u, hu, hpanicked⟩ := panics_of_two hne
        (w := w.withState (w.state.goto i .insertWaits)) (by simp [withState])
        (by simpa [withState, Function.update_of_ne hne.symm] using hj)
      exact ⟨u, i, hu, hpanicked⟩
    | call i | wake i | timeout i | run r | work woken => exact absurd trivial hnot

def untouched : Watch Bool Nat :=
  ⟨⟨none, none, fun _ => false, 0, fun _ => .idle, .idle⟩, none, [], []⟩

theorem delivers_while_alone_two :
    ∃ w : Watch Bool Nat, w.late = [none, some 7] ∧ w.Delivers := by
  obtain ⟨w, h, hlate⟩ : ∃ w : Watch Bool Nat, Reaches step Alone untouched w ∧
      w.late = [none, some 7] :=
    ⟨_, Reaches.of_runGuarded [.call false, .call true, .advance false, .advance false,
      .advance false, .advance true, .advance true, .advance false, .advance true, .run 7,
      .work none, .work none, .work (some false), .advance false, .advance false,
      .advance false, .timeout true, .advance true] rfl, rfl⟩
  have hfresh : untouched.Fresh := ⟨rfl, fun _ => rfl, rfl, rfl, rfl, rfl⟩
  exact ⟨w, hlate, (delivers_while_alone hfresh).1 w h⟩

/-- Two callers look for an entry before either inserts one. -/
theorem waiter_panics :
    ∃ w : Watch Bool Nat, Reaches step Free untouched w ∧ w.state.waiter true = .panicked ∧
      ¬ w.Delivers := by
  obtain ⟨w, h, hpanicked⟩ : ∃ w : Watch Bool Nat, Reaches step Free untouched w ∧
      w.state.waiter true = .panicked :=
    ⟨_, Reaches.of_run [.call false, .call true, .advance false, .advance true, .advance false,
      .advance true, .advance false, .advance true] rfl (guarded_free _), rfl⟩
  exact ⟨w, h, hpanicked, fun hdelivers => hdelivers.asserts true hpanicked⟩

end Watch

end WaitResult

end OpenCoroutine
