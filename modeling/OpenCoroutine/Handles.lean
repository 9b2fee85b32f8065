import OpenCoroutine.Records
import OpenCoroutine.BoxHeap
import OpenCoroutine.Constants

/-! The handles that `co` returns. `co` puts a function and its parameter into a box and submits
a task that knows the address only; what the task returns is the address of another box, which
`join` finds under the name of the task and reads as the type its caller asks for. The loops
share the heap, each has its own pool, and a loop is picked for each `co` in any way. No panic
unwinds out of `co_main`, which is `extern "C"`: if the function of a `co` panics, the process
is aborted. -/

namespace OpenCoroutine

open Function Transition BoxHeap Tasks

namespace Handles

structure Closure (τ : Type*) where
  id : Nat
  param : τ
  result : τ
  deriving DecidableEq

/-- What is in a box: the pair `(F, P)` that `co` makes, or the `R` of `co_main`. -/
inductive Content (τ : Type*) where
  | input (f : Closure τ)
  | result (t : τ)
  deriving DecidableEq

def Content.Value {τ : Type*} (V : τ → Type*) : Content τ → Type _
  | .input f => V f.param
  | .result t => V t

abbrev Box {τ : Type*} (V : τ → Type*) := Sigma (Content.Value V)

/-- A call of `co`: the function and its parameter, and the parameter of the task. -/
structure Job {τ : Type*} (V : τ → Type*) where
  f : Closure τ
  data : V f.param
  param : Option Nat

inductive JoinKind where
  | join
  | timeoutJoin
  deriving DecidableEq, Repr

def JoinKind.error : JoinKind → IoError
  | join => ⟨.other, "join failed"⟩
  | timeoutJoin => ⟨.other, "timeout join failed"⟩

/-- What `coroutine_join` and `coroutine_timeout_join` return. -/
def coroutineJoin : Except IoError TaskResult → Int
  | .ok (.ok (some ptr)) => ptr.toInt64.toInt
  | .ok (.ok none) => 0
  | .ok (.error _) => -1
  | .error _ => -1

variable {τ : Type*} {V : τ → Type*}

abbrev Outcome (V : τ → Type*) := Except Misuse (Except IoError (Option (Box V)))

/-- `JoinHandle::join` and `timeout_join`, for a result of type `t`. -/
def joinHandle [DecidableEq τ] (kind : JoinKind) (heap : Heap (Content.Value V)) (t : τ)
    (ptr : Int) : Outcome V :=
  match compare ptr 0 with
  | .lt => .ok (.error kind.error)
  | .eq => .ok (.ok none)
  | .gt => (heap.deref ptr.toNat (.result t)).map fun x => .ok (some x)

structure Joined (V : τ → Type*) (ι : Type*) where
  handle : ι × Nat
  kind : JoinKind
  asked : τ
  answer : Except IoError Delivery
  outcome : Outcome V

/-- `jobs` has the tasks that `co` has submitted, by loop and number. `given` is what calls of
`wait_result` and `try_get_result` have returned to joins that have not looked at it yet.
`aborted` says that the process is no more. The other lists are a record of the run: the
calls of `co_main` and what each found in its box, the values that functions returned, the
joins, and the faults in `co_main`. -/
structure State (V : τ → Type*) (ι ρ : Type*) where
  heap : Heap (Content.Value V) := { next := 1 }
  pool : ι → Tasks.State ρ
  jobs : ι × Nat → Option (Job V) := fun _ => none
  given : List (ι × String × Delivery) := []
  aborted : Bool := false
  calls : List ((ι × Nat) × Box V) := []
  values : List ((ι × Nat) × Box V) := []
  joins : List (Joined V ι) := []
  faults : List Misuse := []

inductive Act (V : τ → Type*) (ι ρ : Type*) where
  | co (l : ι) (name : String) (f : Closure τ) (data : V f.param)
  | pool (l : ι) (a : Tasks.Act ρ)
  | returns (l : ι) (p : ρ) (x : Box V)
  | join (l : ι) (i : Nat) (kind : JoinKind) (t : τ) (answer : Except IoError Delivery)

variable {ι ρ : Type*}

namespace State

def new (kind : ι → ρ → Kind) : State V ι ρ := { pool := fun l => .new (kind l) }

/-- The call of `co` whose function process `p` of the loop is in. -/
def onTop (s : State V ι ρ) (l : ι) (p : ρ) : Option (Nat × Job V) :=
  match (s.pool l).stack p with
  | .running task :: _ => (s.jobs (l, task.number)).map fun job => (task.number, job)
  | _ => none

/-- The operation is that `co_main` returns. -/
def coReturns (s : State V ι ρ) (l : ι) : Tasks.Act ρ → Bool
  | .ends p (.returned _) => (s.onTop l p).isSome
  | _ => false

/-- The operation is that the function of a call of `co` panics. -/
def coPanics (s : State V ι ρ) (l : ι) : Tasks.Act ρ → Bool
  | .ends p (.panicked _) => (s.onTop l p).isSome
  | _ => false

def setPool [DecidableEq ι] (s : State V ι ρ) (l : ι) (q : Tasks.State ρ) : State V ι ρ :=
  { s with pool := update s.pool l q }

/-- `co_main` is called with the parameter of the task, and takes the function and its
parameter out of the box. -/
def coMain [DecidableEq τ] (s : State V ι ρ) (l : ι) (task : TaskImpl) : State V ι ρ :=
  match s.jobs (l, task.number) with
  | none => s
  | some job =>
    match s.heap.deref (job.param.getD 0) (.input job.f) with
    | .ok x => { s with calls := ((l, task.number), x) :: s.calls }
    | .error fault => { s with faults := fault :: s.faults }

def begin [DecidableEq τ] (s : State V ι ρ) (l : ι) : List (ρ × TaskImpl) → State V ι ρ
  | [] => s
  | started :: _ => s.coMain l started.2

def give (s : State V ι ρ) (l : ι) : Option (String × Delivery) → State V ι ρ
  | none => s
  | some x => { s with given := (l, x) :: s.given }

/-- The tasks whose joins have been given a result. -/
def delivered (s : State V ι ρ) : List (ι × Nat) :=
  s.joins.filterMap fun j =>
    match j.answer with
    | .ok _ => some j.handle
    | .error _ => none

end State

open State

variable [DecidableEq τ] [DecidableEq ι] [DecidableEq ρ]

def co (s : State V ι ρ) (l : ι) (name : String) (f : Closure τ) (data : V f.param) :
    Option (State V ι ρ) :=
  let (ptr, heap) := s.heap.leak ⟨.input f, data⟩
  (Tasks.step (s.pool l) (.submit name)).map fun q =>
    { s.setPool l q with
      heap
      jobs := update s.jobs (l, (s.pool l).submitted.length) (some ⟨f, data, some ptr⟩) }

/-- The function of a call of `co` returns `x`, which `co_main` leaks. -/
def returns (s : State V ι ρ) (l : ι) (p : ρ) (x : Box V) : Option (State V ι ρ) :=
  match s.onTop l p with
  | some (i, job) =>
    if x.1 = .result job.f.result then
      let (ptr, heap) := s.heap.leak x
      (Tasks.step (s.pool l) (.ends p (.returned (some (.ofNat ptr))))).map fun q =>
        { s.setPool l q with heap, values := ((l, i), x) :: s.values }
    else none
  | none => none

/-- A join on the handle of task `i`; `answer` is what the join of the loop comes to. -/
def join (s : State V ι ρ) (l : ι) (i : Nat) (kind : JoinKind) (t : τ)
    (answer : Except IoError Delivery) : Option (State V ι ρ) :=
  let outcome := joinHandle kind s.heap t (coroutineJoin (answer.map Prod.snd))
  match s.jobs (l, i), (s.pool l).submitted[i]?, answer with
  | some _, some _, .error _ =>
    some { s with joins := ⟨(l, i), kind, t, answer, outcome⟩ :: s.joins }
  | some _, some name, .ok delivery =>
    if (l, name, delivery) ∈ s.given then
      some { s with
        given := s.given.erase (l, name, delivery)
        joins := ⟨(l, i), kind, t, answer, outcome⟩ :: s.joins }
    else none
  | _, _, _ => none

def exec (s : State V ι ρ) : Act V ι ρ → Option (State V ι ρ)
  | .co l name f data => co s l name f data
  | .pool l a =>
    if s.coReturns l a then none
    else if s.coPanics l a then some { s with aborted := true }
    else (Tasks.step (s.pool l) a).map fun q =>
      ((s.setPool l q).give l ((s.pool l).answers a)).begin l ((s.pool l).starts a)
  | .returns l p x => returns s l p x
  | .join l i kind t answer => join s l i kind t answer

def step (s : State V ι ρ) (a : Act V ι ρ) : Option (State V ι ρ) :=
  if s.aborted then none else exec s a

/-- The name of a task that `co` submits is new and is not given to another, and the addresses
of the boxes are positive as a `c_long`. -/
def Proper (s : State V ι ρ) : Act V ι ρ → Prop
  | .co l name _ _ => name ∉ (s.pool l).submitted ∧ s.heap.next < 2 ^ 63
  | .pool l a => (s.pool l).Fresh a ∧ ∀ name ∈ submits a, ∀ i < (s.pool l).submitted.length,
    (s.pool l).submitted[i]? = some name → s.jobs (l, i) = none
  | .returns _ _ _ => s.heap.next < 2 ^ 63
  | .join .. => True

instance (s : State V ι ρ) : (a : Act V ι ρ) → Decidable (Proper s a)
  | .co l name _ _ => inferInstanceAs (Decidable (name ∉ (s.pool l).submitted ∧ s.heap.next < 2 ^ 63))
  | .pool l a => inferInstanceAs (Decidable ((s.pool l).Fresh a ∧
      ∀ name ∈ submits a, ∀ i < (s.pool l).submitted.length, _ → s.jobs (l, i) = none))
  | .returns _ _ _ => inferInstanceAs (Decidable (s.heap.next < 2 ^ 63))
  | .join .. => isTrue trivial

namespace State

/-- What the end of the function of `job` has left behind. -/
def Holds (s : State V ι ρ) (k : ι × Nat) (job : Job V) : Ending → Prop
  | .panicked _ | .returned none => False
  | .returned (some ptr) => 0 < ptr.toNat ∧ ptr.toNat < 2 ^ 63 ∧ ∃ x : V job.f.result,
    s.heap.boxes ptr.toNat = some ⟨.result job.f.result, x⟩ ∧
      (k, ⟨.result job.f.result, x⟩) ∈ s.values

/-- A join that is given a result is what the function of its own handle returned, if this
type was asked for; one that is given none fails. -/
def Explained (s : State V ι ρ) (j : Joined V ι) : Prop :=
  ∃ job, s.jobs j.handle = some job ∧
    match j.answer with
    | .error _ => j.outcome = .ok (.error j.kind.error)
    | .ok _ =>
      ∃ x : V job.f.result, (j.handle, ⟨.result job.f.result, x⟩) ∈ s.values ∧
        j.outcome = if j.asked = job.f.result then .ok (.ok (some ⟨.result job.f.result, x⟩))
          else .error .mistyped

def ids (given : List (ι × String × Delivery)) : List (ι × Nat) :=
  given.map fun g => (g.1, g.2.2.1)

structure Sound (s : State V ι ρ) : Prop where
  kept : ∀ l, (Tracked (s.pool l) ∧ Handed (s.pool l)) ∧ (s.pool l).Labelled
  unused : s.heap.Unused
  pos : 0 < s.heap.next
  jobs : ∀ l i job, s.jobs (l, i) = some job → i < (s.pool l).submitted.length ∧
    s.heap.boxes (job.param.getD 0) = some ⟨.input job.f, job.data⟩
  named : ∀ l i j name, s.jobs (l, i) ≠ none → (s.pool l).submitted[i]? = some name →
    (s.pool l).submitted[j]? = some name → j = i
  endings : ∀ l i job ending, s.jobs (l, i) = some job → (i, ending) ∈ (s.pool l).endings →
    s.Holds (l, i) job ending
  values : ∀ v ∈ s.values, ∃ ending, (v.1.2, ending) ∈ (s.pool v.1.1).endings
  valuesOnce : (s.values.map Prod.fst).Nodup
  calls : ∀ c ∈ s.calls, (∃ job, s.jobs c.1 = some job ∧ c.2 = ⟨.input job.f, job.data⟩) ∧
    ∃ y ∈ (s.pool c.1.1).started, y.2.number = c.1.2
  callsOnce : (s.calls.map Prod.fst).Nodup
  given : ∀ g ∈ s.given, g.2.2 ∈ (s.pool g.1).returned ∧
    (s.pool g.1).submitted[g.2.2.1]? = some g.2.1
  once : ∀ k : ι × Nat, (ids s.given).count k + s.delivered.count k ≤
    ((s.pool k.1).returned.map Prod.fst).count k.2
  joins : ∀ j ∈ s.joins, s.Explained j
  faults : s.faults = []

/-- What a run has done stays done. -/
structure Grows (s t : State V ι ρ) : Prop where
  boxes : ∀ ptr x, s.heap.boxes ptr = some x → t.heap.boxes ptr = some x
  submitted : ∀ l, ∀ i : Nat, ∀ name, (s.pool l).submitted[i]? = some name →
    (t.pool l).submitted[i]? = some name
  started : ∀ l, (s.pool l).started ⊆ (t.pool l).started
  endings : ∀ l, (s.pool l).endings ⊆ (t.pool l).endings
  returned : ∀ l, (s.pool l).returned ⊆ (t.pool l).returned
  jobs : ∀ k job, s.jobs k = some job → t.jobs k = some job
  values : s.values ⊆ t.values

variable {s t : State V ι ρ} {l : ι} {p : ρ} {q : Tasks.State ρ}

omit [DecidableEq τ] [DecidableEq ι] [DecidableEq ρ] in
theorem Holds.grows {k : ι × Nat} {job : Job V} {ending : Ending} (hg : Grows s t)
    (h : s.Holds k job ending) : t.Holds k job ending := by
  cases ending with
  | panicked payload => exact h
  | returned value =>
    cases value with
    | none => exact h
    | some ptr =>
      obtain ⟨hpos, hlt, x, hx, hv⟩ := h
      exact ⟨hpos, hlt, x, hg.boxes _ _ hx, hg.values hv⟩

omit [DecidableEq ι] [DecidableEq ρ] in
theorem Explained.grows {j : Joined V ι} (hg : Grows s t) (h : s.Explained j) : t.Explained j := by
  obtain ⟨job, hjob, h⟩ := h
  refine ⟨job, hg.jobs _ _ hjob, ?_⟩
  cases ha : j.answer with
  | error e =>
    rw [ha] at h
    exact h
  | ok delivery =>
    rw [ha] at h
    obtain ⟨x, hx, ho⟩ := h
    exact ⟨x, hg.values hx, ho⟩

theorem toInt_ptr {ptr : UInt64} (h : ptr.toNat < 2 ^ 63) : ptr.toInt64.toInt = ptr.toNat :=
  BitVec.toInt_eq_toNat_of_lt (by change 2 * ptr.toNat < 2 ^ 64; omega)

/-- A join that reads the box of a result. -/
theorem joinHandle_result (kind : JoinKind) {heap : Heap (Content.Value V)} (t : τ) {ptr : UInt64}
    {r : τ} {x : V r} (hpos : 0 < ptr.toNat) (hlt : ptr.toNat < 2 ^ 63)
    (hx : heap.boxes ptr.toNat = some ⟨.result r, x⟩) :
    joinHandle kind heap t (coroutineJoin (.ok (.ok (some ptr)))) =
      if t = r then .ok (.ok (some ⟨.result r, x⟩)) else .error .mistyped := by
  have hgt : compare (ptr.toNat : Int) 0 = .gt := compare_gt_iff_gt.2 (by omega)
  rw [coroutineJoin, toInt_ptr hlt, joinHandle, hgt]
  simp only [Int.toNat_natCast, Heap.deref, hx, Content.result.injEq, eq_comm (a := r)]
  split <;> rfl

omit [DecidableEq τ] in
/-- A pool has taken a step, and what else there was is still there. -/
theorem grows_of_step {a : Tasks.Act ρ} (hok : (s.pool l).Fresh a)
    (hs : Tasks.step (s.pool l) a = some q) (hpool : t.pool = update s.pool l q)
    (hboxes : ∀ ptr x, s.heap.boxes ptr = some x → t.heap.boxes ptr = some x)
    (hjobs : ∀ k job, s.jobs k = some job → t.jobs k = some job) (hvalues : s.values ⊆ t.values) :
    Grows s t := by
  have hadds := adds_step hok hs
  have hof : ∀ {r : Tasks.State ρ → Tasks.State ρ → Prop}, r (s.pool l) q → (∀ u, r u u) →
      ∀ k, r (s.pool k) (t.pool k) := by
    intro r hr hrefl k
    rw [hpool]
    by_cases hk : k = l
    · subst hk
      rw [update_self]
      exact hr
    · rw [update_of_ne hk]
      exact hrefl _
  refine ⟨hboxes, ?_, ?_, ?_, ?_, hjobs, hvalues⟩
  · refine hof (r := fun u v => ∀ i name, u.submitted[i]? = some name →
      v.submitted[i]? = some name) (fun i name hi => ?_) fun _ _ _ hi => hi
    rw [hadds.submitted, List.getElem?_append_left (List.getElem?_eq_some_iff.1 hi).1]
    exact hi
  · refine hof (r := fun u v => u.started ⊆ v.started) ?_ fun _ => List.Subset.refl _
    rw [hadds.started]
    exact List.subset_append_right _ _
  · refine hof (r := fun u v => u.endings ⊆ v.endings) ?_ fun _ => List.Subset.refl _
    rw [hadds.endings]
    exact List.subset_append_right _ _
  · refine hof (r := fun u v => u.returned ⊆ v.returned) ?_ fun _ => List.Subset.refl _
    rw [hadds.returned]
    exact List.subset_append_right _ _

omit [DecidableEq τ] [DecidableEq ρ] in
theorem pool_same {β : Type*} (f : Tasks.State ρ → β) (hpool : t.pool = update s.pool l q)
    (hf : f q = f (s.pool l)) (k : ι) : f (t.pool k) = f (s.pool k) := by
  rw [hpool]
  by_cases hk : k = l
  · subst hk
    rw [update_self, hf]
  · rw [update_of_ne hk]

theorem kept_of_step (h : s.Sound) {a : Tasks.Act ρ} (hok : (s.pool l).Fresh a)
    (hs : Tasks.step (s.pool l) a = some q) (hpool : t.pool = update s.pool l q) (k : ι) :
    (Tracked (t.pool k) ∧ Handed (t.pool k)) ∧ (t.pool k).Labelled := by
  rw [hpool]
  by_cases hk : k = l
  · subst hk
    rw [update_self]
    exact ⟨kept_step (h.kept k).1 hok hs, (h.kept k).2.step (h.kept k).1.1 hok hs⟩
  · rw [update_of_ne hk]
    exact h.kept k

omit [DecidableEq τ] [DecidableEq ι] [DecidableEq ρ] in
theorem Grows.lt (hg : Grows s t) {i : Nat} (hi : i < (s.pool l).submitted.length) :
    i < (t.pool l).submitted.length :=
  (List.getElem?_eq_some_iff.1 (hg.submitted l i _ (List.getElem?_eq_getElem hi))).1

omit [DecidableEq ρ] in
theorem Sound.calls_grow (h : s.Sound) (hg : Grows s t) (c : (ι × Nat) × Box V) (hc : c ∈ s.calls) :
    (∃ job, t.jobs c.1 = some job ∧ c.2 = ⟨.input job.f, job.data⟩) ∧
      ∃ y ∈ (t.pool c.1.1).started, y.2.number = c.1.2 := by
  obtain ⟨⟨job, hjob, hx⟩, y, hy, hn⟩ := h.calls c hc
  exact ⟨⟨job, hg.jobs _ _ hjob, hx⟩, y, hg.started _ hy, hn⟩

omit [DecidableEq ρ] in
theorem Sound.values_grow (h : s.Sound) (hg : Grows s t) (v : (ι × Nat) × Box V)
    (hv : v ∈ s.values) : ∃ ending, (v.1.2, ending) ∈ (t.pool v.1.1).endings := by
  obtain ⟨ending, he⟩ := h.values v hv
  exact ⟨ending, hg.endings _ he⟩

omit [DecidableEq ρ] in
theorem Sound.given_grow (h : s.Sound) (hg : Grows s t) (g : ι × String × Delivery)
    (hm : g ∈ s.given) : g.2.2 ∈ (t.pool g.1).returned ∧
      (t.pool g.1).submitted[g.2.2.1]? = some g.2.1 :=
  ⟨hg.returned _ (h.given g hm).1, hg.submitted _ _ _ (h.given g hm).2⟩

omit [DecidableEq ρ] in
theorem Sound.jobs_grow (h : s.Sound) (hg : Grows s t) {i : Nat} {job : Job V}
    (hjob : s.jobs (l, i) = some job) : i < (t.pool l).submitted.length ∧
      t.heap.boxes (job.param.getD 0) = some ⟨.input job.f, job.data⟩ :=
  ⟨hg.lt (h.jobs l i job hjob).1, hg.boxes _ _ (h.jobs l i job hjob).2⟩

omit [DecidableEq ρ] in
/-- The function of a task that ended had been submitted. -/
theorem Sound.ending_lt (h : s.Sound) {i : Nat} {ending : Ending}
    (he : (i, ending) ∈ (s.pool l).endings) : i < (s.pool l).submitted.length := by
  obtain ⟨y, hy, hn⟩ := (h.kept l).1.1.endings _ he
  have hsub := (h.kept l).1.1.submitted hy
  rw [hn] at hsub
  exact (List.getElem?_eq_some_iff.1 hsub).1

omit [DecidableEq ρ] in
theorem Sound.jobs_next (h : s.Sound) : s.jobs (l, (s.pool l).submitted.length) = none := by
  cases hjob : s.jobs (l, (s.pool l).submitted.length) with
  | none => rfl
  | some job => exact absurd (h.jobs l _ job hjob).1 (lt_irrefl _)

theorem getElem?_concat {names : List String} {name name' : String} {i : Nat}
    (h : (names ++ [name])[i]? = some name') :
    names[i]? = some name' ∨ i = names.length ∧ name' = name := by
  rw [List.getElem?_append] at h
  split at h
  · exact .inl h
  · obtain ⟨hi, hn⟩ := List.getElem?_eq_some_iff.1 h
    simp only [List.length_cons, List.length_nil] at hi
    exact .inr ⟨by omega, by simpa using hn.symm⟩

theorem Sound.co (h : s.Sound) {name : String} {f : Closure τ} {data : V f.param}
    (hok : Proper s (.co l name f data)) (hs : co s l name f data = some t) : t.Sound := by
  obtain ⟨hname, -⟩ := hok
  simp only [Handles.co, Option.map_eq_some_iff] at hs
  obtain ⟨q, hq, hs⟩ := hs
  have hfresh : (s.pool l).Fresh (.submit name) := fun i _ hi =>
    absurd (List.mem_of_getElem? hi) hname
  have hadds := adds_step hfresh hq
  have hsub : q.submitted = (s.pool l).submitted ++ [name] := hadds.submitted
  have hpool : t.pool = update s.pool l q := by
    subst hs
    rfl
  have hjobs : t.jobs = update s.jobs (l, (s.pool l).submitted.length)
      (some ⟨f, data, some s.heap.next⟩) := by
    subst hs
    rfl
  have hold : ∀ k job, s.jobs k = some job → t.jobs k = some job := by
    intro k job hjob
    rw [hjobs, update_of_ne]
    · exact hjob
    · rintro rfl
      rw [h.jobs_next] at hjob
      cases hjob
  have hg : Grows s t := by
    refine grows_of_step hfresh hq hpool (fun ptr x hx => ?_) hold ?_
    · subst hs
      exact h.unused.leak_keeps hx _
    · subst hs
      exact List.Subset.refl _
  have hendings : ∀ k, (t.pool k).endings = (s.pool k).endings :=
    pool_same Tasks.State.endings hpool hadds.endings
  have hreturned : ∀ k, (t.pool k).returned = (s.pool k).returned :=
    pool_same Tasks.State.returned hpool hadds.returned
  refine ⟨kept_of_step h hfresh hq hpool, ?_, ?_, ?_, ?_, ?_, ?_, ?_, ?_, ?_, ?_, ?_, ?_, ?_⟩
  · subst hs
    exact h.unused.leak _
  · subst hs
    exact Nat.succ_pos _
  · intro l' i job hjob
    by_cases hk : (l', i) = (l, (s.pool l).submitted.length)
    · cases hk
      rw [hjobs, update_self, Option.some.injEq] at hjob
      subst hjob
      refine ⟨?_, ?_⟩
      · rw [hpool, update_self, hsub]
        simp
      · subst hs
        exact Heap.leak_self _ _
    · rw [hjobs, update_of_ne hk] at hjob
      exact h.jobs_grow hg hjob
  · intro l' i j name' hjob hi hj
    by_cases hl : l' = l
    · subst hl
      rw [hpool, update_self, hsub] at hi hj
      rcases getElem?_concat hi with hold | ⟨rfl, rfl⟩
      · have hlt := (List.getElem?_eq_some_iff.1 hold).1
        rw [hjobs, update_of_ne (fun hk => hlt.ne (congrArg Prod.snd hk))] at hjob
        rcases getElem?_concat hj with hj' | ⟨-, rfl⟩
        · exact h.named l' i j name' hjob hold hj'
        · exact absurd (List.mem_of_getElem? hold) hname
      · rcases getElem?_concat hj with hj' | ⟨hj', -⟩
        · exact absurd (List.mem_of_getElem? hj') hname
        · exact hj'
    · rw [hpool, update_of_ne hl] at hi hj
      rw [hjobs, update_of_ne (fun hk => hl (congrArg Prod.fst hk))] at hjob
      exact h.named l' i j name' hjob hi hj
  · intro l' i job ending hjob he
    rw [hendings] at he
    by_cases hk : (l', i) = (l, (s.pool l).submitted.length)
    · cases hk
      exact absurd (h.ending_lt he) (lt_irrefl _)
    · rw [hjobs, update_of_ne hk] at hjob
      exact Holds.grows hg (h.endings l' i job ending hjob he)
  · subst hs
    exact h.values_grow hg
  · subst hs
    exact h.valuesOnce
  · subst hs
    exact h.calls_grow hg
  · subst hs
    exact h.callsOnce
  · subst hs
    exact h.given_grow hg
  · intro k
    rw [hreturned]
    subst hs
    exact h.once k
  · subst hs
    exact fun j hj => Explained.grows hg (h.joins j hj)
  · subst hs
    exact h.faults

omit [DecidableEq τ] [DecidableEq ι] [DecidableEq ρ] in
/-- While the process lives, `co_main` ends by `returns` only. -/
theorem not_ended {a : Tasks.Act ρ} (hco : s.coReturns l a = false)
    (hpanics : s.coPanics l a = false) {i : Nat} {job : Job V}
    (hjob : s.jobs (l, i) = some job) {ending : Ending} :
    (i, ending) ∉ (s.pool l).endings? a := by
  intro he
  cases a with
  | ends p e =>
    simp only [State.endings?] at he
    split at he
    · rename_i task rest hp
      rw [List.mem_singleton, Prod.mk.injEq] at he
      obtain ⟨rfl, rfl⟩ := he
      cases ending with
      | panicked payload =>
        simp only [coPanics, onTop, hp, hjob, Option.map_some, Option.isSome_some] at hpanics
        cases hpanics
      | returned value =>
        simp only [coReturns, onTop, hp, hjob, Option.map_some, Option.isSome_some] at hco
        cases hco
    · cases he
  | submit | tryRun | insert | answer | tryGetResult | waitResult | advance | wake | timeout | trap
  | finish => cases he

/-- A pool takes a step that is not the end of a `co_main`. -/
theorem Sound.setPool (h : s.Sound) {a : Tasks.Act ρ} (hok : Proper s (.pool l a))
    (hco : s.coReturns l a = false) (hpanics : s.coPanics l a = false)
    (hs : Tasks.step (s.pool l) a = some q) :
    ((s.setPool l q).give l ((s.pool l).answers a)).Sound := by
  obtain ⟨hfresh, hnames⟩ := hok
  have hadds := adds_step hfresh hs
  obtain ⟨given, ht, hgiven⟩ : ∃ given,
      (s.setPool l q).give l ((s.pool l).answers a) = { s.setPool l q with given } ∧
        given = ((s.pool l).answers a).toList.map (fun x => (l, x)) ++ s.given := by
    cases (s.pool l).answers a with
    | none => exact ⟨_, rfl, rfl⟩
    | some x => exact ⟨_, rfl, rfl⟩
  rw [ht]
  have hpool : ({ s.setPool l q with given } : State V ι ρ).pool = update s.pool l q := rfl
  have hg : Grows s { s.setPool l q with given } :=
    grows_of_step hfresh hs hpool (fun _ _ hx => hx) (fun _ _ hjob => hjob) (List.Subset.refl _)
  refine ⟨kept_of_step h hfresh hs hpool, h.unused, h.pos, fun l' i job hjob => h.jobs_grow hg hjob,
    ?_, ?_, h.values_grow hg, h.valuesOnce, h.calls_grow hg, h.callsOnce, ?_, ?_,
    fun j hj => Explained.grows hg (h.joins j hj), h.faults⟩
  · intro l' i j name hjob hi hj
    by_cases hl : l' = l
    · subst hl
      dsimp only at hi hj
      rw [hpool, update_self, hadds.submitted] at hi hj
      have hlt : i < (s.pool l').submitted.length := by
        cases hj' : s.jobs (l', i) with
        | none => exact absurd hj' hjob
        | some job => exact (h.jobs l' i job hj').1
      rw [List.getElem?_append_left hlt] at hi
      by_cases hjlt : j < (s.pool l').submitted.length
      · rw [List.getElem?_append_left hjlt] at hj
        exact h.named l' i j name hjob hi hj
      · rw [List.getElem?_append_right (not_lt.1 hjlt)] at hj
        exact absurd (hnames name (List.mem_of_getElem? hj) i hlt hi) hjob
    · dsimp only at hi hj
      rw [hpool, update_of_ne hl] at hi hj
      exact h.named l' i j name hjob hi hj
  · intro l' i job ending hjob he
    by_cases hl : l' = l
    · subst hl
      dsimp only at he
      rw [hpool, update_self, hadds.endings] at he
      rcases List.mem_append.1 he with he | he
      · exact absurd he (not_ended hco hpanics hjob)
      · exact Holds.grows hg (h.endings l' i job ending hjob he)
    · dsimp only at he
      rw [hpool, update_of_ne hl] at he
      exact Holds.grows hg (h.endings l' i job ending hjob he)
  · intro g hm
    dsimp only at hm
    rw [hgiven] at hm
    rcases List.mem_append.1 hm with hm | hm
    · obtain ⟨x, hx, rfl⟩ := List.mem_map.1 hm
      rw [Option.mem_toList] at hx
      have hname := (h.kept l).2.answers (h.kept l).1.1 hx
      refine ⟨?_, hg.submitted _ _ _ hname⟩
      change x.2 ∈ (update s.pool l q l).returned
      rw [update_self, hadds.returned, hx]
      exact List.mem_cons_self
    · exact h.given_grow hg g hm
  · intro k
    have hk := h.once k
    change (ids given).count k + s.delivered.count k ≤
      ((update s.pool l q k.1).returned.map Prod.fst).count k.2
    obtain ⟨k, i⟩ := k
    rw [hgiven, ids, List.map_append, List.count_append]
    by_cases hl : k = l
    · subst hl
      rw [update_self, hadds.returned, List.map_append, List.count_append]
      cases (s.pool k).answers a with
      | none => simpa [ids] using hk
      | some x =>
        have he : (x.2.1 == i) = ((k, x.2.1) == (k, i)) := by simp
        simp only [Option.toList_some, List.map_cons, List.map_nil, List.count_cons, List.count_nil,
          he]
        change _ + (ids s.given).count (k, i) + _ ≤ _
        dsimp only at hk
        omega
    · rw [update_of_ne hl]
      have hz : ((((s.pool l).answers a).toList.map fun x => (l, x)).map
          fun g : ι × String × Delivery => (g.1, g.2.2.1)).count (k, i) = 0 := by
        refine List.count_eq_zero.2 fun hm => ?_
        simp only [List.map_map, List.mem_map, comp_apply, Prod.mk.injEq] at hm
        obtain ⟨x, -, hlk, -⟩ := hm
        exact hl hlk.symm
      rw [hz, Nat.zero_add]
      exact hk

omit [DecidableEq ρ] in
/-- The call of `co_main` that starts finds what `co` has put into the box. -/
theorem Sound.coMain (h : s.Sound) {task : TaskImpl} (hp : (p, task) ∈ (s.pool l).started)
    (hnot : (l, task.number) ∉ s.calls.map Prod.fst) : (s.coMain l task).Sound := by
  unfold State.coMain
  split
  · exact h
  · rename_i job hjob
    have hbox := (h.jobs l _ job hjob).2
    rw [Heap.deref_of_live hbox rfl]
    refine ⟨h.kept, h.unused, h.pos, h.jobs, h.named, h.endings, h.values, h.valuesOnce, ?_, ?_,
      h.given, h.once, h.joins, h.faults⟩
    · intro c hc
      rcases List.mem_cons.1 hc with rfl | hc
      · exact ⟨⟨job, hjob, rfl⟩, (p, task), hp, rfl⟩
      · exact h.calls c hc
    · exact List.nodup_cons.2 ⟨hnot, h.callsOnce⟩

omit [DecidableEq ρ] in
theorem Sound.abort (h : s.Sound) : Sound { s with aborted := true } :=
  ⟨h.kept, h.unused, h.pos, h.jobs, h.named, h.endings, h.values, h.valuesOnce, h.calls,
    h.callsOnce, h.given, h.once, h.joins, h.faults⟩

theorem Sound.pool (h : s.Sound) {a : Tasks.Act ρ} (hok : Proper s (.pool l a))
    (hs : exec s (.pool l a) = some t) : t.Sound := by
  simp only [exec, Option.ite_none_left_eq_some] at hs
  obtain ⟨hco, hs⟩ := hs
  split at hs
  · exact Option.some.inj hs ▸ h.abort
  rename_i hpanics
  simp only [Option.map_eq_some_iff] at hs
  obtain ⟨q, hq, rfl⟩ := hs
  have hset := h.setPool hok (Bool.eq_false_iff.2 hco) (Bool.eq_false_iff.2 hpanics) hq
  have hadds := adds_step hok.1 hq
  cases hstarts : (s.pool l).starts a with
  | nil => exact hset
  | cons started rest =>
    obtain ⟨p, task⟩ := started
    have hin : (p, task) ∈ q.started := by
      rw [hadds.started, hstarts]
      exact List.mem_cons_self
    have hgive : ∀ x, ((s.setPool l q).give l x).calls = s.calls ∧
        ((s.setPool l q).give l x).pool l = q := fun x => by
      cases x with
      | none => exact ⟨rfl, update_self ..⟩
      | some x => exact ⟨rfl, update_self ..⟩
    obtain ⟨hcalls, hpool⟩ := hgive ((s.pool l).answers a)
    refine hset.coMain (p := p) (by rw [hpool]; exact hin) ?_
    rw [hcalls]
    intro hm
    obtain ⟨c, hc, hk⟩ := List.mem_map.1 hm
    obtain ⟨-, y, hy, hn⟩ := h.calls c hc
    rw [hk] at hy hn
    have hnodup := (kept_step (h.kept l).1 hok.1 hq).1.nodup.1
    rw [hadds.started, hstarts, List.cons_append, List.map_cons, List.nodup_cons] at hnodup
    exact hnodup.1 (List.mem_map.2 ⟨y, List.mem_append_right _ hy, hn⟩)

theorem Sound.returns (h : s.Sound) {x : Box V} (hok : Proper s (.returns l p x))
    (hs : returns s l p x = some t) : t.Sound := by
  have hlt : s.heap.next < 2 ^ 63 := hok
  unfold Handles.returns at hs
  split at hs
  swap
  · cases hs
  rename_i i job htop
  simp only [Option.ite_none_right_eq_some, Option.map_eq_some_iff] at hs
  obtain ⟨hx, q, hq, hs⟩ := hs
  obtain ⟨task, rest, hp, hjob, rfl⟩ : ∃ task rest, (s.pool l).stack p = .running task :: rest ∧
      s.jobs (l, task.number) = some job ∧ task.number = i := by
    unfold onTop at htop
    split at htop
    · rename_i task rest hp
      obtain ⟨job', hjob, he⟩ := Option.map_eq_some_iff.1 htop
      cases he
      exact ⟨task, rest, hp, hjob, rfl⟩
    · cases htop
  obtain ⟨c, x⟩ := x
  dsimp only at hx
  subst hx
  have hfresh : (s.pool l).Fresh (.ends p (.returned (some (.ofNat s.heap.next)))) := trivial
  have hadds := adds_step hfresh hq
  simp only [State.endings?, hp] at hadds
  have hpool : t.pool = update s.pool l q := by
    subst hs
    rfl
  have hg : Grows s t := by
    refine grows_of_step hfresh hq hpool (fun ptr y hy => ?_) ?_ ?_
    · subst hs
      exact h.unused.leak_keeps hy _
    · subst hs
      exact fun _ _ hjob => hjob
    · subst hs
      exact List.subset_cons_self _ _
  have hin : (p, task) ∈ (s.pool l).started :=
    (h.kept l).1.1.runs p task (by rw [hp]; exact List.mem_cons_self)
  have hran := (h.kept l).1.1.ran _ hin
  have hnew : task.number ∉ (s.pool l).endings.map Prod.fst := by
    have hone : (running ((s.pool l).stack p)).count task ≠ 0 := by
      rw [hp]
      exact (List.count_pos_iff.2 List.mem_cons_self).ne'
    rw [← List.count_eq_zero]
    dsimp only at hran
    omega
  have hreturned : ∀ k, (t.pool k).returned = (s.pool k).returned :=
    pool_same Tasks.State.returned hpool hadds.returned
  have hsub : ∀ k, (t.pool k).submitted = (s.pool k).submitted :=
    pool_same Tasks.State.submitted hpool (hadds.submitted.trans (List.append_nil _))
  refine ⟨kept_of_step h hfresh hq hpool, ?_, ?_, ?_, ?_, ?_, ?_, ?_, ?_, ?_, ?_, ?_, ?_, ?_⟩
  · subst hs
    exact h.unused.leak _
  · subst hs
    exact Nat.succ_pos _
  · intro l' i job' hjob'
    subst hs
    exact h.jobs_grow hg hjob'
  · intro l' i j name
    rw [hsub]
    subst hs
    exact h.named l' i j name
  · intro l' i job' ending hjob' he
    have hjob'' : s.jobs (l', i) = some job' := by
      subst hs
      exact hjob'
    by_cases hk : (i, ending) ∈ (s.pool l').endings
    · exact Holds.grows hg (h.endings l' i job' ending hjob'' hk)
    have hl : l' = l := by
      by_contra hl
      rw [hpool, update_of_ne hl] at he
      exact hk he
    subst hl
    rw [hpool, update_self, hadds.endings] at he
    rcases List.mem_append.1 he with he | he
    · rw [List.mem_singleton] at he
      cases he
      rw [hjob] at hjob''
      cases hjob''
      have hptr : (UInt64.ofNat s.heap.next).toNat = s.heap.next :=
        UInt64.toNat_ofNat_of_lt' (by change _ < 2 ^ 64; omega)
      refine ⟨by rw [hptr]; exact h.pos, by rw [hptr]; exact hlt, x, ?_, ?_⟩
      · rw [hptr]
        subst hs
        exact Heap.leak_self _ _
      · subst hs
        exact List.mem_cons_self
    · exact absurd he hk
  · intro v hv
    have hv' : v = ((l, task.number), ⟨.result job.f.result, x⟩) ∨ v ∈ s.values := by
      subst hs
      exact List.mem_cons.1 hv
    rcases hv' with rfl | hv'
    · refine ⟨.returned (some (.ofNat s.heap.next)), ?_⟩
      rw [hpool, update_self, hadds.endings]
      exact List.mem_cons_self
    · exact h.values_grow hg v hv'
  · have hnot : (l, task.number) ∉ s.values.map Prod.fst := by
      intro hm
      obtain ⟨v, hv, hk⟩ := List.mem_map.1 hm
      obtain ⟨ending, he⟩ := h.values v hv
      rw [hk] at he
      exact hnew (List.mem_map.2 ⟨_, he, rfl⟩)
    subst hs
    exact List.nodup_cons.2 ⟨hnot, h.valuesOnce⟩
  · subst hs
    exact h.calls_grow hg
  · subst hs
    exact h.callsOnce
  · subst hs
    exact h.given_grow hg
  · intro k
    rw [hreturned]
    subst hs
    exact h.once k
  · subst hs
    exact fun j hj => Explained.grows hg (h.joins j hj)
  · subst hs
    exact h.faults

omit [DecidableEq ρ] in
/-- What a join is given is the end of the function of its own handle. -/
theorem Sound.explains (h : s.Sound) {i : Nat} {name : String} {delivery : Delivery} {job : Job V}
    (kind : JoinKind) (asked : τ) (hjob : s.jobs (l, i) = some job)
    (hname : (s.pool l).submitted[i]? = some name) (hm : (l, name, delivery) ∈ s.given) :
    delivery.1 = i ∧ s.Explained ⟨(l, i), kind, asked, .ok delivery,
      joinHandle kind s.heap asked (coroutineJoin (.ok delivery.2))⟩ := by
  obtain ⟨hreturned, hsub⟩ := h.given _ hm
  have hi : delivery.1 = i := h.named l i delivery.1 name (by rw [hjob]; simp) hname hsub
  refine ⟨hi, job, hjob, ?_⟩
  obtain ⟨p, hp⟩ := (h.kept l).1.2.gives _ hreturned
  obtain ⟨-, -, ending, -, -, hending, hresult⟩ := (h.kept l).1.1.takes _ hp
  dsimp only at hending hresult ⊢
  rw [hi] at hending
  have hholds := h.endings l i job ending hjob hending
  rw [hresult]
  cases ending with
  | panicked payload => exact hholds.elim
  | returned value =>
    cases value with
    | none => exact hholds.elim
    | some ptr =>
      obtain ⟨hpos, hlt, x, hx, hv⟩ := hholds
      exact ⟨x, hv, joinHandle_result kind asked hpos hlt hx⟩

omit [DecidableEq ρ] in
theorem Sound.join (h : s.Sound) {i : Nat} {kind : JoinKind} {asked : τ}
    {answer : Except IoError Delivery} (hs : join s l i kind asked answer = some t) : t.Sound := by
  unfold Handles.join at hs
  split at hs
  · rename_i job name e hjob hname
    cases hs
    refine ⟨h.kept, h.unused, h.pos, h.jobs, h.named, h.endings, h.values, h.valuesOnce, h.calls,
      h.callsOnce, h.given, h.once, fun j hj => ?_, h.faults⟩
    rcases List.mem_cons.1 hj with rfl | hj
    · exact ⟨job, hjob, rfl⟩
    · exact h.joins j hj
  · rename_i job name delivery hjob hname
    simp only [Option.ite_none_right_eq_some, Option.some.injEq] at hs
    obtain ⟨hm, rfl⟩ := hs
    obtain ⟨hi, hexplained⟩ := h.explains kind asked hjob hname hm
    refine ⟨h.kept, h.unused, h.pos, h.jobs, h.named, h.endings, h.values, h.valuesOnce, h.calls,
      h.callsOnce, fun g hg => h.given g (List.mem_of_mem_erase hg), fun k => ?_, fun j hj => ?_,
      h.faults⟩
    · have honce := h.once k
      have hperm : (ids s.given).count k =
          ((l, i) :: ids (s.given.erase (l, name, delivery))).count k := by
        have hp := ((List.perm_cons_erase hm).map fun g => (g.1, g.2.2.1)).count_eq k
        rw [List.map_cons, hi] at hp
        exact hp
      rw [hperm, List.count_cons] at honce
      change (ids (s.given.erase (l, name, delivery))).count k +
        ((l, i) :: s.delivered).count k ≤ ((s.pool k.1).returned.map Prod.fst).count k.2
      rw [List.count_cons]
      omega
    · rcases List.mem_cons.1 hj with rfl | hj
      · exact hexplained
      · exact h.joins j hj
  · cases hs

omit [DecidableEq ρ] in
theorem new_sound (kind : ι → ρ → Kind) : (State.new kind : State V ι ρ).Sound where
  kept l := ⟨⟨new_tracked _, new_handed _⟩, new_labelled _⟩
  unused _ _ := rfl
  pos := Nat.one_pos
  jobs l i job hjob := by cases hjob
  named l i j name hjob := absurd rfl hjob
  endings l i job ending hjob := by cases hjob
  values v hv := by cases hv
  valuesOnce := List.nodup_nil
  calls c hc := by cases hc
  callsOnce := List.nodup_nil
  given g hg := by cases hg
  once k := Nat.zero_le _
  joins j hj := by cases hj
  faults := rfl

theorem Sound.step (h : s.Sound) {a : Act V ι ρ} (hok : Proper s a) (hs : step s a = some t) :
    t.Sound := by
  simp only [Handles.step, Option.ite_none_left_eq_some] at hs
  obtain ⟨-, hs⟩ := hs
  cases a with
  | co l name f data => exact h.co hok hs
  | pool l a => exact h.pool hok hs
  | returns l p x => exact h.returns hok hs
  | join l i kind asked answer => exact h.join hs

omit [DecidableEq ρ] in
/-- No task is given to two joins. -/
theorem Sound.delivered_nodup (h : s.Sound) : s.delivered.Nodup := by
  refine List.nodup_iff_count_le_one.2 fun k => ?_
  have honce := h.once k
  have hle := List.nodup_iff_count_le_one.1 (h.kept k.1).1.2.returned_nodup k.2
  omega

end State

/-- In every run `co_main` finds its function and parameter, and uses each once. A join that is
given a result is the only one for its handle that is, and it is what the function returned
once, read as the type that was asked for. -/
theorem joins_exact {kind : ι → ρ → Kind} {s : State V ι ρ}
    (h : Reaches step Proper (.new kind) s) :
    s.faults = [] ∧ (s.calls.map Prod.fst).Nodup ∧
      (∀ c ∈ s.calls, ∃ job, s.jobs c.1 = some job ∧ c.2 = ⟨.input job.f, job.data⟩) ∧
      (s.values.map Prod.fst).Nodup ∧ s.delivered.Nodup ∧ ∀ j ∈ s.joins, s.Explained j := by
  have hs : s.Sound :=
    h.invariant (p := State.Sound) (new_sound kind) fun _ _ _ hi hok hs => hi.step hok hs
  exact ⟨hs.faults, hs.callsOnce, fun c hc => (hs.calls c hc).1, hs.valuesOnce, hs.delivered_nodup,
    hs.joins⟩

/-- A worker runs a closure from numbers to numbers, and a thread joins it. -/
def joined {ρ : Type*} (worker thread : ρ) : List (Act (fun _ : Unit => Nat) Unit ρ) :=
  [.co () "a" ⟨0, (), ()⟩ (5 : Nat), .pool () (.tryRun worker),
    .returns () worker ⟨.result (), (7 : Nat)⟩, .pool () (.insert worker),
    .pool () (.answer worker), .pool () (.waitResult thread "a"),
    .pool () (.advance thread false), .pool () (.advance thread false),
    .join () 0 .join () (.ok (0, .ok (some 2)))]

theorem joins_exact_joined : ∃ s : State (fun _ : Unit => Nat) Unit (Fin 2),
    (s.calls.map fun c => (c.1, c.2.1)) = [(((), 0), .input ⟨0, (), ()⟩)] ∧
      s.delivered = [((), 0)] ∧ s.delivered.Nodup ∧ ∀ j ∈ s.joins, s.Explained j := by
  obtain ⟨s, h, hc, hd⟩ : ∃ s : State (fun _ : Unit => Nat) Unit (Fin 2),
      Reaches step Proper (.new fun _ p => if p = 0 then .worker else .thread) s ∧
        (s.calls.map fun c => (c.1, c.2.1)) = [(((), 0), .input ⟨0, (), ()⟩)] ∧
          s.delivered = [((), 0)] :=
    ⟨_, Reaches.of_runGuarded (joined 0 1) rfl, rfl, rfl⟩
  obtain ⟨-, -, -, -, hnodup, hjoins⟩ := joins_exact h
  exact ⟨s, hc, hd, hnodup, hjoins⟩

end Handles

end OpenCoroutine
