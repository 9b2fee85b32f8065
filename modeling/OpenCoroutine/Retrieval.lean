import Mathlib.Data.Fintype.Basic
import OpenCoroutine.Transition

/-! The results of one pool over a whole history: tasks are submitted and run, and their results
fetched by `wait_result` and `try_get_result`, under names that come back. A `Caller` or `Worker`
position names the next operation on a map or a lock, and each such operation is one step.

The `Arc`s of the entries that `waits` has had under a name are numbered in the order they are
made, and `pending` is the flag in their mutexes. A caller that blocks keeps the clock at which
`wait_timeout_while` has begun. A coroutine in `wait_result` runs tasks, as a worker, and looks
for its result by turns. -/

namespace OpenCoroutine

open Function Transition

namespace Retrieval

inductive Caller (R : Type*) where
  | idle
  | tryGetResult (name : String) (waitTime : Nat) (coroutine : Bool)
  | forget (name : String) (r : R)
  | getWaits (name : String) (waitTime : Nat)
  | insertWaits (name : String) (waitTime : Nat)
  | lock (name : String) (waitTime arc : Nat) (start : Option Nat)
  | blocked (name : String) (waitTime arc start : Nat)
  | tryGetResultAgain (name : String) (waitTime start : Nat)
  | removeWaits (name : String) (r : R)
  | spins (name : String)
  | returned (r : R)
  | timedOut
  | panicked
  deriving DecidableEq, Repr

inductive Worker (R : Type*) where
  | idle
  | insertResult (name : String) (r : R)
  | getWaits (name : String)
  | notify (name : String) (arc : Nat)
  | panicked
  deriving DecidableEq, Repr

namespace Caller

variable {R : Type*}

def outside : Caller R → Bool
  | idle | returned _ | timedOut => true
  | tryGetResult _ _ _ | forget _ _ | getWaits _ _ | insertWaits _ _ | lock _ _ _ _
  | blocked _ _ _ _ | tryGetResultAgain _ _ _ | removeWaits _ _ | spins _ | panicked => false

/-- The task that a call in progress is about. -/
def name? : Caller R → Option String
  | tryGetResult name _ _ | forget name _ | getWaits name _ | insertWaits name _ | lock name _ _ _
  | blocked name _ _ _ | tryGetResultAgain name _ _ | removeWaits name _ | spins name => some name
  | idle | returned _ | timedOut | panicked => none

/-- The task whose result the caller has taken out and whose entry it has yet to remove. -/
def holds? : Caller R → Option String
  | forget name _ | removeWaits name _ => some name
  | idle | tryGetResult _ _ _ | getWaits _ _ | insertWaits _ _ | lock _ _ _ _ | blocked _ _ _ _
  | tryGetResultAgain _ _ _ | spins _ | returned _ | timedOut | panicked => none

/-- The task whose result the caller looks for in its next step. -/
def looks? : Caller R → Option String
  | tryGetResult name _ _ | tryGetResultAgain name _ _ | spins name => some name
  | idle | forget _ _ | getWaits _ _ | insertWaits _ _ | lock _ _ _ _ | blocked _ _ _ _
  | removeWaits _ _ | returned _ | timedOut | panicked => none

def isSpinning : Caller R → Bool
  | spins _ => true
  | idle | tryGetResult _ _ _ | forget _ _ | getWaits _ _ | insertWaits _ _ | lock _ _ _ _
  | blocked _ _ _ _ | tryGetResultAgain _ _ _ | removeWaits _ _ | returned _ | timedOut
  | panicked => false

def blockedOn : Caller R → String → Nat → Bool
  | blocked name _ arc _, name', arc' => name = name' && arc = arc'
  | idle, _, _ | tryGetResult _ _ _, _, _ | forget _ _, _, _ | getWaits _ _, _, _
  | insertWaits _ _, _, _ | lock _ _ _ _, _, _ | tryGetResultAgain _ _ _, _, _
  | removeWaits _ _, _, _ | spins _, _, _ | returned _, _, _ | timedOut, _, _
  | panicked, _, _ => false

theorem name?_of_holds? {c : Caller R} {name : String} (h : c.holds? = some name) :
    c.name? = some name := by
  cases c with
  | forget name' r | removeWaits name' r => exact h
  | idle | tryGetResult _ _ _ | getWaits _ _ | insertWaits _ _ | lock _ _ _ _ | blocked _ _ _ _
  | tryGetResultAgain _ _ _ | spins _ | returned _ | timedOut | panicked => cases h

theorem holds?_eq_none {c : Caller R} (h : c.name? = none) : c.holds? = none := by
  cases hc : c.holds? with
  | none => rfl
  | some name =>
    rw [name?_of_holds? hc] at h
    cases h

theorem of_looks? {c : Caller R} {name : String} (h : c.looks? = some name) :
    c.name? = some name ∧ c.holds? = none := by
  cases c with
  | tryGetResult _ _ _ | tryGetResultAgain _ _ _ | spins _ => exact ⟨h, rfl⟩
  | idle | forget _ _ | getWaits _ _ | insertWaits _ _ | lock _ _ _ _ | blocked _ _ _ _
  | removeWaits _ _ | returned _ | timedOut | panicked => cases h

theorem name?_of_outside {c : Caller R} (h : c.outside = true) : c.name? = none := by
  cases c with
  | idle | returned _ | timedOut => rfl
  | tryGetResult _ _ _ | forget _ _ | getWaits _ _ | insertWaits _ _ | lock _ _ _ _
  | blocked _ _ _ _ | tryGetResultAgain _ _ _ | removeWaits _ _ | spins _ | panicked => cases h

end Caller

/-- The task that a worker is publishing, from when its result is there. -/
def Worker.publishes? {R : Type*} : Worker R → Option String
  | getWaits name | notify name _ => some name
  | idle | insertResult _ _ | panicked => none

structure State (ι κ R : Type*) where
  tasks : List String
  results : String → Option R
  waits : String → Option Nat
  pending : String → Nat → Bool
  arcs : String → Nat
  caller : ι → Caller R
  worker : κ → Worker R
  clock : Nat

inductive Act (ι κ R : Type*) where
  | call (i : ι) (name : String) (waitTime : Nat) (coroutine : Bool)
  | advance (i : ι)
  | wake (i : ι)
  | timeout (i : ι)
  | submit (name : String)
  | run (k : κ) (name : String) (r : R)
  | work (k : κ) (woken : Option ι)
  | tryGetResult (name : String)
  | elapse (time : Nat)

namespace State

variable {ι κ R : Type*} [DecidableEq ι]

def goto (s : State ι κ R) (i : ι) (c : Caller R) : State ι κ R :=
  { s with caller := update s.caller i c }

def setWorker [DecidableEq κ] (s : State ι κ R) (k : κ) (w : Worker R) : State ι κ R :=
  { s with worker := update s.worker k w }

def setResult (s : State ι κ R) (name : String) (r : Option R) : State ι κ R :=
  { s with results := update s.results name r }

def setWaits (s : State ι κ R) (name : String) (arc : Option Nat) : State ι κ R :=
  { s with waits := update s.waits name arc }

def setPending (s : State ι κ R) (name : String) (arc : Nat) (pending : Bool) : State ι κ R :=
  { s with pending := update s.pending name (update (s.pending name) arc pending) }

def advance (s : State ι κ R) (i : ι) : Option (State ι κ R) :=
  match s.caller i with
  | .tryGetResult name waitTime coroutine =>
    match s.results name with
    | some r => some ((s.setResult name none).goto i (.forget name r))
    | none => some (s.goto i (if coroutine then .spins name else .getWaits name waitTime))
  | .forget name r => some ((s.setWaits name none).goto i (.returned r))
  | .getWaits name waitTime =>
    match s.waits name with
    | some arc => some (s.goto i (.lock name waitTime arc none))
    | none => some (s.goto i (.insertWaits name waitTime))
  | .insertWaits name waitTime =>
    let s' := { (s.setWaits name (some (s.arcs name))).setPending name (s.arcs name) true with
      arcs := update s.arcs name (s.arcs name + 1) }
    some (s'.goto i
      (if (s.waits name).isNone then .lock name waitTime (s.arcs name) none else .panicked))
  | .lock name waitTime arc start =>
    some (s.goto i
      (if s.pending name arc then .blocked name waitTime arc (start.getD s.clock)
      else .tryGetResultAgain name waitTime (start.getD s.clock)))
  | .tryGetResultAgain name _ _ =>
    match s.results name with
    | some r => some ((s.setResult name none).goto i (.removeWaits name r))
    | none => some (s.goto i .timedOut)
  | .removeWaits name r =>
    some ((s.setWaits name none).goto i (if (s.waits name).isSome then .returned r else .panicked))
  | .spins name =>
    match s.results name with
    | some r => some ((s.setResult name none).goto i (.returned r))
    | none => some s
  | .idle | .blocked _ _ _ _ | .returned _ | .timedOut | .panicked => none

/-- The next operation of `try_run`. `woken` is the thread that `notify_one` wakes. -/
def work [Fintype ι] [DecidableEq κ] (s : State ι κ R) (k : κ) (woken : Option ι) : Option (State ι κ R) :=
  match s.worker k with
  | .insertResult name r =>
    some ((s.setResult name (some r)).setWorker k
      (if (s.results name).isNone then .getWaits name else .panicked))
  | .getWaits name =>
    match s.waits name with
    | some arc => some (s.setWorker k (.notify name arc))
    | none => some (s.setWorker k .idle)
  | .notify name arc =>
    let s' := (s.setPending name arc false).setWorker k .idle
    match woken with
    | some i =>
      match s.caller i with
      | .blocked name' waitTime arc' start =>
        if name' = name ∧ arc' = arc then some (s'.goto i (.lock name waitTime arc (some start)))
        else none
      | _ => none
    | none => if ∀ i, (s.caller i).blockedOn name arc = false then some s' else none
  | .idle | .panicked => none

def step [Fintype ι] [DecidableEq κ] (s : State ι κ R) : Act ι κ R → Option (State ι κ R)
  | .call i name waitTime coroutine =>
    if (s.caller i).outside then some (s.goto i (.tryGetResult name waitTime coroutine)) else none
  | .advance i => s.advance i
  | .wake i =>
    match s.caller i with
    | .blocked name waitTime arc start => some (s.goto i (.lock name waitTime arc (some start)))
    | _ => none
  | .timeout i =>
    match s.caller i with
    | .blocked name waitTime _ start =>
      if start + waitTime ≤ s.clock then some (s.goto i (.tryGetResultAgain name waitTime start))
      else none
    | .spins _ => some (s.goto i .timedOut)
    | _ => none
  | .submit name => some { s with tasks := s.tasks ++ [name] }
  | .run k name r =>
    match s.worker k with
    | .idle =>
      if name ∈ s.tasks then
        some ({ s with tasks := s.tasks.erase name }.setWorker k (.insertResult name r))
      else none
    | _ => none
  | .work k woken => s.work k woken
  | .tryGetResult name => some (s.setResult name none)
  | .elapse time => some { s with clock := s.clock + time }

/-- A result is taken out when the run that has published it is over and no other call for it is
in progress; by `try_get_result`, or a coroutine that spins, only if no entry stays behind. No
call is made for it while the one that has taken it out is still to remove the entry. -/
def Orderly (s : State ι κ R) : Act ι κ R → Prop
  | .call _ name _ _ => ∀ j, (s.caller j).holds? ≠ some name
  | .advance i => ∀ name ∈ (s.caller i).looks?, (s.results name).isSome = true →
      (∀ j, j ≠ i → (s.caller j).name? ≠ some name) ∧
        (∀ k, (s.worker k).publishes? ≠ some name) ∧
        ((s.caller i).isSpinning = true → s.waits name = none)
  | .tryGetResult name => (s.results name).isSome = true →
      (∀ j, (s.caller j).name? ≠ some name) ∧ (∀ k, (s.worker k).publishes? ≠ some name) ∧
        s.waits name = none
  | .wake _ | .timeout _ | .submit _ | .run _ _ _ | .work _ _ | .elapse _ => True

instance [Fintype ι] [Fintype κ] (s : State ι κ R) : (a : Act ι κ R) → Decidable (s.Orderly a)
  | .call _ name _ _ => inferInstanceAs (Decidable (∀ j, (s.caller j).holds? ≠ some name))
  | .advance i => inferInstanceAs (Decidable (∀ name ∈ (s.caller i).looks?,
      (s.results name).isSome = true → (∀ j, j ≠ i → (s.caller j).name? ≠ some name) ∧
        (∀ k, (s.worker k).publishes? ≠ some name) ∧
        ((s.caller i).isSpinning = true → s.waits name = none)))
  | .tryGetResult name => inferInstanceAs (Decidable ((s.results name).isSome = true →
      (∀ j, (s.caller j).name? ≠ some name) ∧ (∀ k, (s.worker k).publishes? ≠ some name) ∧
        s.waits name = none))
  | .wake _ | .timeout _ | .submit _ | .run _ _ _ | .work _ _ | .elapse _ => isTrue trivial

/-- A thread whose call times out has been in `wait_timeout_while` for its time. -/
def OnTime [Fintype ι] [DecidableEq κ] (s : State ι κ R) (a : Act ι κ R) : Prop :=
  ∀ s' i name waitTime start, s.step a = some s' →
    s.caller i = .tryGetResultAgain name waitTime start → s'.caller i = .timedOut →
    start + waitTime ≤ s.clock

structure Initial (s : State ι κ R) : Prop where
  results : ∀ name, s.results name = none
  waits : ∀ name, s.waits name = none
  caller : ∀ i, s.caller i = .idle
  worker : ∀ k, s.worker k = .idle

/-! What ties a lowered flag to a result. -/

/-- A caller that has come to a lowered flag will find the result. -/
def Fits (s : State ι κ R) : Caller R → Prop
  | .lock name _ arc _ | .blocked name _ arc _ =>
    s.pending name arc = false → (s.results name).isSome = true
  | .tryGetResultAgain name waitTime start =>
    (s.results name).isSome = true ∨ start + waitTime ≤ s.clock
  | .idle | .tryGetResult _ _ _ | .forget _ _ | .getWaits _ _ | .insertWaits _ _
  | .removeWaits _ _ | .spins _ | .returned _ | .timedOut | .panicked => True

structure Sound (s : State ι κ R) : Prop where
  entry : ∀ name arc, s.waits name = some arc → s.pending name arc = false →
    (s.results name).isSome = true ∨ ∃ j, (s.caller j).holds? = some name
  caller : ∀ i, s.Fits (s.caller i)
  worker : ∀ k name, (s.worker k).publishes? = some name → (s.results name).isSome = true
  alone : ∀ j name, (s.caller j).holds? = some name → ∀ i, i ≠ j → (s.caller i).name? ≠ some name

omit [DecidableEq ι] in
theorem Initial.sound {s : State ι κ R} (h : s.Initial) : s.Sound where
  entry name arc hw := by
    rw [h.waits name] at hw
    cases hw
  caller i := by
    rw [h.caller i]
    trivial
  worker k name hk := by
    rw [h.worker k] at hk
    cases hk
  alone j name hj := by
    rw [h.caller j] at hj
    cases hj

variable {s s' : State ι κ R}

omit [DecidableEq ι] in
theorem fits_of_name? {c : Caller R} (h : c.name? = c.holds?) : s.Fits c := by
  cases c with
  | forget _ _ | removeWaits _ _ | idle | returned _ | timedOut | panicked => trivial
  | tryGetResult _ _ _ | getWaits _ _ | insertWaits _ _ | lock _ _ _ _ | blocked _ _ _ _
  | tryGetResultAgain _ _ _ | spins _ => cases h

omit [DecidableEq ι] in
theorem Fits.grows {c : Caller R} (h : s.Fits c) (hclock : s.clock ≤ s'.clock)
    (hresults : ∀ name, (s.results name).isSome = true → (s'.results name).isSome = true)
    (hpending : ∀ name arc, s'.pending name arc = false →
      s.pending name arc = false ∨ (s'.results name).isSome = true) : s'.Fits c := by
  cases c with
  | lock name _ arc _ | blocked name _ arc _ =>
    intro hlow
    rcases hpending name arc hlow with hlow | hsome
    · exact hresults name (h hlow)
    · exact hsome
  | tryGetResultAgain name waitTime start =>
    exact h.imp (hresults name) fun hlate => hlate.trans hclock
  | idle | tryGetResult _ _ _ | forget _ _ | getWaits _ _ | insertWaits _ _ | removeWaits _ _
  | spins _ | returned _ | timedOut | panicked => trivial

omit [DecidableEq ι] in
/-- Flags are raised, or lowered over a result, and entries made with their flag up. -/
theorem Sound.grows (h : s.Sound) (hcaller : s'.caller = s.caller) (hworker : s'.worker = s.worker)
    (hclock : s.clock ≤ s'.clock)
    (hresults : ∀ name, (s.results name).isSome = true → (s'.results name).isSome = true)
    (hpending : ∀ name arc, s'.pending name arc = false →
      s.pending name arc = false ∨ (s'.results name).isSome = true)
    (hwaits : ∀ name arc, s'.waits name = some arc →
      s.waits name = some arc ∨ s'.pending name arc = true) : s'.Sound where
  entry name arc hw hlow := by
    rcases hwaits name arc hw with hw | hup
    · rcases hpending name arc hlow with hlow | hsome
      · rw [hcaller]
        exact (h.entry name arc hw hlow).imp_left (hresults name)
      · exact .inl hsome
    · rw [hup] at hlow
      cases hlow
  caller i := by
    rw [hcaller]
    exact (h.caller i).grows hclock hresults hpending
  worker k name hk := by
    rw [hworker] at hk
    exact hresults name (h.worker k name hk)
  alone := by
    rw [hcaller]
    exact h.alone

theorem Sound.goto (h : s.Sound) (i : ι) {c : Caller R} (hfits : s.Fits c)
    (hname : ∀ name, c.name? = some name →
      (s.caller i).name? = some name ∨ ∀ j, (s.caller j).holds? ≠ some name)
    (hholds : ∀ name, c.holds? = some name →
      (s.caller i).holds? = some name ∨ ∀ j, j ≠ i → (s.caller j).name? ≠ some name)
    (hleaves : ∀ name, (s.caller i).holds? = some name →
      c.holds? = some name ∨ s.waits name = none) : (s.goto i c).Sound where
  entry name arc hw hlow := by
    refine (h.entry name arc hw hlow).imp_right ?_
    rintro ⟨j, hj⟩
    by_cases hji : j = i
    · subst j
      rcases hleaves name hj with hc | hnone
      · exact ⟨i, by simp only [State.goto, update_self, hc]⟩
      · rw [show s.waits name = some arc from hw] at hnone
        cases hnone
    · exact ⟨j, by simp only [State.goto, update_of_ne hji, hj]⟩
  caller j := by
    show s.Fits (update s.caller i c j)
    by_cases hji : j = i
    · rw [hji, update_self]
      exact hfits
    · rw [update_of_ne hji]
      exact h.caller j
  worker := h.worker
  alone j name hj k hkj hk := by
    simp only [State.goto, update_apply] at hj hk
    split at hj
    · rename_i hji
      rw [if_neg fun hki => hkj (hki.trans hji.symm)] at hk
      rcases hholds name hj with hi | hothers
      · exact h.alone i name hi k (fun hki => hkj (hki.trans hji.symm)) hk
      · exact hothers k (fun hki => hkj (hki.trans hji.symm)) hk
    · split at hk
      · rename_i hji hki
        rcases hname name hk with hi | hnone
        · exact h.alone j name hj i (fun hij => hji hij.symm) hi
        · exact hnone j hj
      · exact h.alone j name hj k hkj hk

omit [DecidableEq ι] in
/-- A result is taken out of which nobody else knows. -/
theorem Sound.takes (h : s.Sound) {name : String}
    (hcallers : ∀ j, (s.caller j).name? = some name → (s.caller j).holds? = some name)
    (hworkers : ∀ k, (s.worker k).publishes? ≠ some name)
    (hentry : s.waits name = none ∨ ∃ j, (s.caller j).holds? = some name) :
    (s.setResult name none).Sound where
  entry name' arc hw hlow := by
    by_cases hn : name' = name
    · subst name'
      rcases hentry with hnone | hj
      · rw [show s.waits name = some arc from hw] at hnone
        cases hnone
      · exact .inr hj
    · simp only [setResult, update_of_ne hn]
      exact h.entry name' arc hw hlow
  caller i := by
    have hi := h.caller i
    have hquiet := hcallers i
    show (s.setResult name none).Fits (s.caller i)
    cases hc : s.caller i with
    | lock name' _ arc _ | blocked name' _ arc _ | tryGetResultAgain name' _ _ =>
      rw [hc] at hi hquiet
      have hn : name' ≠ name := by
        rintro rfl
        cases hquiet rfl
      simp only [Fits, setResult, update_of_ne hn]
      exact hi
    | idle | tryGetResult _ _ _ | forget _ _ | getWaits _ _ | insertWaits _ _ | removeWaits _ _
    | spins _ | returned _ | timedOut | panicked => trivial
  worker k name' hk := by
    have hn : name' ≠ name := by
      rintro rfl
      exact hworkers k hk
    simp only [setResult, update_of_ne hn]
    exact h.worker k name' hk
  alone := h.alone

/-- A caller takes the result out, on its way to the entry or with no entry there. -/
theorem Sound.retrieves (h : s.Sound) {i : ι} {name : String} {r : R} {c c' : Caller R}
    (hi : s.caller i = c') (hlooks : c'.looks? = some name) (hr : s.results name = some r)
    (hok : s.Orderly (.advance i))
    (hc : c.holds? = some name ∨ c'.isSpinning = true ∧ c.name? = none) :
    ((s.setResult name none).goto i c).Sound := by
  subst hi
  obtain ⟨hothers, hworkers, hentry⟩ := hok name hlooks (by rw [hr]; rfl)
  obtain ⟨hiname, hnone⟩ := Caller.of_looks? hlooks
  have hsame : c.name? = c.holds? := by
    rcases hc with hc | ⟨-, hc⟩
    · rw [hc, Caller.name?_of_holds? hc]
    · rw [hc, Caller.holds?_eq_none hc]
  have hgoto : (s.goto i c).Sound := by
    refine h.goto i (fits_of_name? hsame) (fun name' hn => .inl ?_) (fun name' hn => .inr ?_)
      fun name' hn => ?_
    · rcases hc with hc | ⟨-, hc⟩
      · rw [Caller.name?_of_holds? hc, Option.some.injEq] at hn
        rw [hiname, hn]
      · rw [hc] at hn
        cases hn
    · rcases hc with hc | ⟨-, hc⟩
      · rw [hc, Option.some.injEq] at hn
        exact hn ▸ hothers
      · rw [Caller.holds?_eq_none hc] at hn
        cases hn
    · rw [hnone] at hn
      cases hn
  refine hgoto.takes (fun j hj => ?_) hworkers ?_
  · simp only [State.goto, update_apply] at hj ⊢
    split at hj
    · rename_i hji
      rw [if_pos hji]
      rcases hc with hc | ⟨-, hc⟩
      · exact hc
      · rw [hc] at hj
        cases hj
    · rename_i hji
      exact absurd hj (hothers j hji)
  · rcases hc with hc | ⟨hspins, -⟩
    · exact .inr ⟨i, by simp only [State.goto, update_self, hc]⟩
    · exact .inl (hentry hspins)

theorem Sound.leaves (h : s.Sound) (i : ι) (name : String) {c : Caller R}
    (hi : ∀ name', (s.caller i).holds? = some name' → name' = name) (hc : c.name? = none) :
    ((s.setWaits name none).goto i c).Sound := by
  have hremoved : (s.setWaits name none).Sound := by
    refine h.grows rfl rfl le_rfl (fun _ hr => hr) (fun _ _ hlow => .inl hlow) fun name' arc hw => ?_
    by_cases hn : name' = name
    · simp [setWaits, hn] at hw
    · simp only [setWaits, update_of_ne hn] at hw
      exact .inl hw
  have hholds := Caller.holds?_eq_none hc
  refine hremoved.goto i (fits_of_name? (hc.trans hholds.symm)) (fun name' hn => ?_)
    (fun name' hn => ?_) fun name' hn => .inr ?_
  · rw [hc] at hn
    cases hn
  · rw [hholds] at hn
    cases hn
  · rw [hi name' hn]
    simp [setWaits]

/-- A caller that holds nothing goes on with its call. -/
theorem Sound.passes (h : s.Sound) {i : ι} {c c' : Caller R} (hi : s.caller i = c)
    (hfits : s.Fits c') (hname : c'.name? = c.name? ∨ c'.name? = none) (hc' : c'.holds? = none)
    (hc : c.holds? = none) : (s.goto i c').Sound := by
  refine h.goto i hfits (fun name hn => .inl ?_) (fun name hn => ?_) fun name hn => ?_
  · rcases hname with he | he
    · rw [hi, ← he, hn]
    · rw [he] at hn
      cases hn
  · rw [hc'] at hn
    cases hn
  · rw [hi, hc] at hn
    cases hn

omit [DecidableEq ι] in
theorem Sound.inserts (h : s.Sound) (name : String) (arc count : Nat) :
    ({ (s.setWaits name (some arc)).setPending name arc true with
      arcs := update s.arcs name count } : State ι κ R).Sound := by
  refine h.grows rfl rfl le_rfl (fun _ hr => hr) (fun name' arc' hlow => .inl ?_)
    fun name' arc' hw => ?_
  · by_cases hn : name' = name
    · subst name'
      by_cases ha : arc' = arc
      · simp [setPending, ha] at hlow
      · simpa [setPending, setWaits, update_of_ne ha] using hlow
    · simpa [setPending, setWaits, update_of_ne hn] using hlow
  · by_cases hn : name' = name
    · subst name'
      have harc : arc = arc' := by simpa [setPending, setWaits] using hw
      exact .inr (by simp [setPending, harc])
    · exact .inl (by simpa [setPending, setWaits, update_of_ne hn] using hw)

theorem Sound.advance (h : s.Sound) {i : ι} (hok : s.Orderly (.advance i))
    (hs : s.advance i = some s') : s'.Sound := by
  unfold State.advance at hs
  cases hi : s.caller i with
  | idle | blocked _ _ _ _ | returned _ | timedOut | panicked => simp [hi] at hs
  | tryGetResult name waitTime coroutine =>
    simp only [hi] at hs
    split at hs
    · rename_i r hr
      cases hs
      exact h.retrieves hi rfl hr hok (.inl rfl)
    · cases hs
      cases coroutine <;> exact h.passes hi trivial (.inl rfl) rfl rfl
  | forget name r =>
    simp only [hi, Option.some.injEq] at hs
    subst hs
    exact h.leaves i name (fun name' hn => by rw [hi] at hn; exact (Option.some.inj hn).symm) rfl
  | getWaits name waitTime =>
    simp only [hi] at hs
    split at hs
    · rename_i arc hw
      cases hs
      refine h.passes hi (fun hlow => ?_) (.inl rfl) rfl rfl
      rcases h.entry name arc hw hlow with hsome | ⟨j, hj⟩
      · exact hsome
      · have hij : i ≠ j := by
          rintro rfl
          rw [hi] at hj
          cases hj
        exact absurd (by rw [hi]; rfl) (h.alone j name hj i hij)
    · cases hs
      exact h.passes hi trivial (.inl rfl) rfl rfl
  | insertWaits name waitTime =>
    simp only [hi, Option.some.injEq] at hs
    subst hs
    have hinserted := h.inserts name (s.arcs name) (s.arcs name + 1)
    split
    · refine hinserted.passes hi (fun hlow => ?_) (.inl rfl) rfl rfl
      simp [setPending] at hlow
    · exact hinserted.passes hi trivial (.inr rfl) rfl rfl
  | lock name waitTime arc start =>
    simp only [hi, Option.some.injEq] at hs
    subst hs
    have hfits := h.caller i
    rw [hi] at hfits
    cases hlow : s.pending name arc with
    | true =>
      simp only [if_true]
      refine h.passes hi (fun hup => ?_) (.inl rfl) rfl rfl
      rw [hlow] at hup
      cases hup
    | false =>
      simp only [Bool.false_eq_true, if_false]
      exact h.passes hi (.inl (hfits hlow)) (.inl rfl) rfl rfl
  | tryGetResultAgain name waitTime start =>
    simp only [hi] at hs
    split at hs
    · rename_i r hr
      cases hs
      exact h.retrieves hi rfl hr hok (.inl rfl)
    · cases hs
      exact h.passes hi trivial (.inr rfl) rfl rfl
  | removeWaits name r =>
    simp only [hi, Option.some.injEq] at hs
    subst hs
    refine h.leaves i name (fun name' hn => by rw [hi] at hn; exact (Option.some.inj hn).symm) ?_
    split <;> rfl
  | spins name =>
    simp only [hi] at hs
    split at hs
    · rename_i r hr
      cases hs
      exact h.retrieves hi rfl hr hok (.inr ⟨rfl, rfl⟩)
    · cases hs
      exact h

theorem goto_caller_ne {i j : ι} {c c' c'' : Caller R} (hi : s.caller i = c) (hj : s.caller j = c')
    (hne : c ≠ c') : (s.goto j c'').caller i = s.caller i := by
  refine update_of_ne (fun hij => hne ?_) _ _
  rw [← hi, ← hj, hij]

theorem advance_caller_ne {i j : ι} (hs : s.advance j = some s') (hij : i ≠ j) :
    s'.caller i = s.caller i := by
  unfold State.advance at hs
  split at hs <;> first | (split at hs <;> cases hs) | cases hs
  all_goals
    first
      | rfl
      | exact update_of_ne hij _ _

variable [DecidableEq κ]

omit [DecidableEq ι] in
theorem Sound.setWorker (h : s.Sound) (k : κ) {w : Worker R}
    (hw : ∀ name, w.publishes? = some name → (s.results name).isSome = true) :
    (s.setWorker k w).Sound where
  entry := h.entry
  caller := h.caller
  worker k' name hk := by
    simp only [State.setWorker, update_apply] at hk
    split at hk
    · exact hw name hk
    · exact h.worker k' name hk
  alone := h.alone

theorem Sound.work [Fintype ι] (h : s.Sound) {k : κ} {woken : Option ι}
    (hs : s.work k woken = some s') : s'.Sound := by
  unfold State.work at hs
  cases hk : s.worker k with
  | idle | panicked => simp [hk] at hs
  | insertResult name r =>
    simp only [hk, Option.some.injEq] at hs
    subst hs
    have hpublished : (s.setResult name (some r)).Sound := by
      refine h.grows rfl rfl le_rfl (fun name' hr => ?_) (fun _ _ hlow => .inl hlow)
        fun _ _ hw => .inl hw
      by_cases hn : name' = name
      · simp [setResult, hn]
      · simpa [setResult, update_of_ne hn] using hr
    refine hpublished.setWorker k fun name' hn => ?_
    split at hn
    · cases hn
      simp [setResult]
    · cases hn
  | getWaits name =>
    have hsome := h.worker k name (by rw [hk]; rfl)
    simp only [hk] at hs
    split at hs
    · cases hs
      refine h.setWorker k fun name' hn => ?_
      cases hn
      exact hsome
    · cases hs
      exact h.setWorker k fun name' hn => by cases hn
  | notify name arc =>
    have hsome := h.worker k name (by rw [hk]; rfl)
    have hlowered : ((s.setPending name arc false).setWorker k .idle).Sound := by
      have hset : (s.setPending name arc false).Sound := by
        refine h.grows rfl rfl le_rfl (fun _ hr => hr) (fun name' arc' hlow => ?_)
          fun _ _ hw => .inl hw
        by_cases hn : name' = name
        · exact .inr (hn ▸ hsome)
        · simp only [setPending, update_of_ne hn] at hlow
          exact .inl hlow
      exact hset.setWorker k fun name' hn => by cases hn
    simp only [hk] at hs
    split at hs
    · rename_i i
      split at hs
      · rename_i name' waitTime arc' start hi
        simp only [Option.ite_none_right_eq_some, Option.some.injEq] at hs
        obtain ⟨⟨rfl, rfl⟩, rfl⟩ := hs
        exact hlowered.passes hi (fun _ => hsome) (.inl rfl) rfl rfl
      · cases hs
    · simp only [Option.ite_none_right_eq_some, Option.some.injEq] at hs
      obtain ⟨-, rfl⟩ := hs
      exact hlowered

theorem Sound.step [Fintype ι] (h : s.Sound) {a : Act ι κ R} (hok : s.Orderly a)
    (hs : s.step a = some s') : s'.Sound := by
  cases a with
  | call i name waitTime coroutine =>
    simp only [State.step, Option.ite_none_right_eq_some, Option.some.injEq] at hs
    obtain ⟨hout, rfl⟩ := hs
    refine h.goto i trivial (fun name' hn => ?_) (fun name' hn => by cases hn) fun name' hn => ?_
    · cases hn
      exact .inr hok
    · rw [Caller.holds?_eq_none (Caller.name?_of_outside hout)] at hn
      cases hn
  | advance i => exact h.advance hok hs
  | wake i =>
    simp only [State.step] at hs
    split at hs
    · rename_i name waitTime arc start hi
      cases hs
      have hfits := h.caller i
      rw [hi] at hfits
      exact h.passes hi hfits (.inl rfl) rfl rfl
    · cases hs
  | timeout i =>
    simp only [State.step] at hs
    split at hs
    · rename_i name waitTime arc start hi
      simp only [Option.ite_none_right_eq_some, Option.some.injEq] at hs
      obtain ⟨hlate, rfl⟩ := hs
      exact h.passes hi (.inr hlate) (.inl rfl) rfl rfl
    · rename_i name hi
      cases hs
      exact h.passes hi trivial (.inr rfl) rfl rfl
    · cases hs
  | submit name =>
    cases hs
    exact h.grows rfl rfl le_rfl (fun _ hr => hr) (fun _ _ hlow => .inl hlow) fun _ _ hw => .inl hw
  | run k name r =>
    simp only [State.step] at hs
    split at hs
    · simp only [Option.ite_none_right_eq_some, Option.some.injEq] at hs
      obtain ⟨-, rfl⟩ := hs
      have htaken : ({ s with tasks := s.tasks.erase name } : State ι κ R).Sound :=
        h.grows rfl rfl le_rfl (fun _ hr => hr) (fun _ _ hlow => .inl hlow) fun _ _ hw => .inl hw
      exact htaken.setWorker k fun name' hn => by cases hn
    · cases hs
  | work k woken => exact h.work hs
  | tryGetResult name =>
    cases hs
    cases hr : s.results name with
    | none =>
      have hsame : s.setResult name none = s := by
        rw [setResult, ← hr, update_eq_self]
      rw [hsame]
      exact h
    | some r =>
      obtain ⟨hcallers, hworkers, hwaits⟩ := hok (by rw [hr]; rfl)
      exact h.takes (fun j hj => absurd hj (hcallers j)) hworkers (.inl hwaits)
  | elapse time =>
    cases hs
    exact h.grows rfl rfl (Nat.le_add_right _ _) (fun _ hr => hr) (fun _ _ hlow => .inl hlow)
      fun _ _ hw => .inl hw

theorem work_caller_of_again [Fintype ι] {k : κ} {woken : Option ι} (hs : s.work k woken = some s')
    {i : ι} {name : String} {waitTime start : Nat}
    (hi : s.caller i = .tryGetResultAgain name waitTime start) : s'.caller i = s.caller i := by
  unfold State.work at hs
  split at hs
  · cases hs
    rfl
  · split at hs <;> cases hs <;> rfl
  · dsimp only at hs
    split at hs
    · rename_i j
      split at hs
      · rename_i hj
        simp only [Option.ite_none_right_eq_some, Option.some.injEq] at hs
        obtain ⟨-, rfl⟩ := hs
        exact goto_caller_ne (s := (s.setPending _ _ false).setWorker k .idle) hi hj (by simp)
      · cases hs
    · simp only [Option.ite_none_right_eq_some, Option.some.injEq] at hs
      obtain ⟨-, rfl⟩ := hs
      rfl
  · cases hs
  · cases hs

/-- Only its own step ends a call that looks for its result the second time. -/
theorem step_timedOut [Fintype ι] {a : Act ι κ R} (hs : s.step a = some s') {i : ι} {name : String}
    {waitTime start : Nat} (hi : s.caller i = .tryGetResultAgain name waitTime start)
    (hi' : s'.caller i = .timedOut) : s.results name = none := by
  have hmoves : s'.caller i ≠ s.caller i := by
    rw [hi, hi']
    simp
  cases a with
  | advance j =>
    by_cases hij : i = j
    · subst j
      simp only [State.step, State.advance, hi] at hs
      split at hs
      · cases hs
        simp [State.goto] at hi'
      · rename_i hnone
        exact hnone
    · exact absurd (advance_caller_ne hs hij) hmoves
  | work k woken => exact absurd (work_caller_of_again hs hi) hmoves
  | call j name' waitTime' coroutine =>
    simp only [State.step, Option.ite_none_right_eq_some, Option.some.injEq] at hs
    obtain ⟨hout, rfl⟩ := hs
    refine absurd (goto_caller_ne hi rfl fun hj => ?_) hmoves
    rw [← hj] at hout
    cases hout
  | wake j =>
    simp only [State.step] at hs
    split at hs
    · rename_i hj
      cases hs
      exact absurd (goto_caller_ne hi hj (by simp)) hmoves
    · cases hs
  | timeout j =>
    simp only [State.step] at hs
    split at hs
    · rename_i hj
      simp only [Option.ite_none_right_eq_some, Option.some.injEq] at hs
      obtain ⟨-, rfl⟩ := hs
      exact absurd (goto_caller_ne hi hj (by simp)) hmoves
    · rename_i hj
      cases hs
      exact absurd (goto_caller_ne hi hj (by simp)) hmoves
    · cases hs
  | run k name' r =>
    simp only [State.step] at hs
    split at hs
    · simp only [Option.ite_none_right_eq_some, Option.some.injEq] at hs
      obtain ⟨-, rfl⟩ := hs
      exact absurd rfl hmoves
    · cases hs
  | submit name' | tryGetResult name' | elapse time =>
    cases hs
    exact absurd rfl hmoves

/-- In a run in which results are taken out in order no call times out before its time. -/
theorem timedOut_onTime [Fintype ι] (h : s.Initial) (as : List (Act ι κ R))
    (hg : Guarded step Orderly s as) : Guarded step OnTime s as := by
  refine hg.imp Sound (fun _ _ _ hs hok hstep => hs.step hok hstep) ?_ h.sound
  intro s a hs _ s' i name waitTime start hstep hi hi'
  have hnone := step_timedOut hstep hi hi'
  have hfits := hs.caller i
  rw [hi] at hfits
  rcases hfits with hsome | hlate
  · rw [hnone] at hsome
    cases hsome
  · exact hlate

def fresh : State Unit Unit Nat where
  tasks := []
  results _ := none
  waits _ := none
  pending _ _ := false
  arcs _ := 0
  caller _ := .idle
  worker _ := .idle
  clock := 0

theorem fresh_initial : fresh.Initial where
  results _ := rfl
  waits _ := rfl
  caller _ := rfl
  worker _ := rfl

/-- A call that times out and leaves its entry behind, and the run that lowers its flag. -/
def late : List (Act Unit Unit Nat) :=
  [.submit "a", .call () "a" 5 false, .advance (), .advance (), .advance (), .advance (),
    .elapse 5, .timeout (), .advance (), .run () "a" 1, .work () none, .work () none,
    .work () none]

theorem timedOut_onTime_late :
    Guarded step OnTime fresh (late ++ [.call () "a" 5 false, .advance (), .advance ()]) :=
  timedOut_onTime fresh_initial _ (.of_runGuarded rfl)

/-- The result is fetched by `try_get_result` then, and the task submitted again: the next call
finds the entry with its flag down and times out at once. -/
theorem timedOut_at_once :
    ∃ s s' : State Unit Unit Nat, Reaches step Free fresh s ∧ s.step (.advance ()) = some s' ∧
      s.caller () = .tryGetResultAgain "a" 5 5 ∧ s'.caller () = .timedOut ∧ s.clock = 5 ∧
      s.tasks = ["a"] ∧ ¬ s.OnTime (.advance ()) := by
  obtain ⟨s, s', h, hs, hi, hi', hclock, htasks⟩ : ∃ s s' : State Unit Unit Nat,
      run step fresh (late ++ [.tryGetResult "a", .submit "a", .call () "a" 5 false, .advance (),
        .advance (), .advance ()]) = some s ∧ s.step (.advance ()) = some s' ∧
      s.caller () = .tryGetResultAgain "a" 5 5 ∧ s'.caller () = .timedOut ∧ s.clock = 5 ∧
      s.tasks = ["a"] :=
    ⟨_, _, rfl, rfl, rfl, rfl, rfl, rfl⟩
  refine ⟨s, s', .of_run _ h (guarded_free _), hs, hi, hi', hclock, htasks, fun hok => ?_⟩
  have hlate := hok s' () "a" 5 5 hs hi hi'
  rw [hclock] at hlate
  simp at hlate

end State

end Retrieval

end OpenCoroutine
