import OpenCoroutine.Conformance
import OpenCoroutine.Nesting
import OpenCoroutine.Threads

/-! The stacks `COROUTINE` and `SUSPENDER` of a thread around its calls of `resume_with`. A
call is entered and left by steps of the threads; what it has found of the thread-locals is
kept beside it until it is left. -/

namespace OpenCoroutine

open Function Nesting Transition

structure Calls (θ κ Y R : Type*) where
  threads : Threads θ κ Y R
  calls : θ → List (κ × Locals κ)

namespace Leave

variable {Y R : Type*}

def yields : Leave Y R → Bool
  | suspendWith _ | untilWith _ _ => true
  | returns _ | panics _ | traps => false

/-- Whether `resume_with` can take over what a body in this state gives control back with. -/
def accepted (o : Leave Y R) : CoroutineState Y R → Bool
  | .running => true
  | .systemCall _ _ _ => o.yields
  | .created | .ready | .suspend _ _ | .complete _ | .error _ => false

theorem not_terminal_of_accepted {o : Leave Y R} {st : CoroutineState Y R}
    (h : o.accepted st = true) : ¬ st.IsTerminal := by
  cases st with
  | complete r | error message => cases h
  | created | ready | running | suspend _ _ | systemCall _ _ _ => exact id

end Leave

namespace CoroutineImpl

variable {Y R κ : Type*} [ToString Y] [ToString R]

/-- The arms of `resume_with` that fail return before the `clean_current`. -/
theorem leave_coroutine (c : CoroutineImpl Y R) (l : Locals κ) (o : Leave Y R) :
    (c.leave l o).2.2.coroutine =
      if o.accepted c.state then l.coroutine.tail else l.coroutine := by
  cases hc : c.state <;> cases o <;>
    simp [leave, Leave.onBody, resumeExit, suspend, complete, error, hc, Leave.accepted,
      Leave.yields, Locals.cleanCoroutine, Locals.cleanSuspender, Locals.popTimestamp,
      Locals.pushTimestamp]

theorem leave_suspender (c : CoroutineImpl Y R) (l : Locals κ) (o : Leave Y R) :
    (c.leave l o).2.2.suspender = (o.onBody l).2.suspender := by
  unfold leave
  cases (o.onBody l).1 with
  | yield y =>
    simp only [resumeExit]
    split
    · split <;> rfl
    · rfl
    · rfl
  | «return» result =>
    cases result with
    | ok val =>
      simp only [resumeExit]
      split <;> rfl
    | error message =>
      simp only [resumeExit]
      split <;> rfl

theorem leave_done {c : CoroutineImpl Y R} {l : Locals κ} {o : Leave Y R}
    (ho : o.accepted c.state = true) (hdone : (c.leave l o).2.1.done = true) :
    c.done = true ∨ (c.leave l o).2.1.state.IsTerminal := by
  cases hc : c.state <;> cases o <;>
    simp [leave, Leave.onBody, resumeExit, suspend, complete, error, hc, Leave.accepted,
      Leave.yields, CoroutineState.IsTerminal] at ho hdone ⊢
  all_goals exact hdone

theorem running_terminal {c c' : CoroutineImpl Y R} {now : Nat} (h : c.state.IsTerminal) :
    c.running now ≠ (.ok (), c') := by
  cases hc : c.state with
  | complete r => simp [running, hc]
  | error message => simp [running, hc]
  | created | ready | running | suspend _ _ | systemCall _ _ _ =>
    rw [hc] at h
    cases h

theorem call_terminal {c : CoroutineImpl Y R} (h : c.state.IsTerminal) (k : Call Y R) :
    (c.call k).2.state = c.state := by
  rcases c.call_edge k with he | he
  · exact he
  · exact absurd h he.not_terminal

theorem resumeEnter_returned {c c' : CoroutineImpl Y R} {p : κ} {l l' : Locals κ} {now : Nat}
    {result : Except IoError (CoroutineState Y R)}
    (h : c.resumeEnter p l now = (some result, c', l')) : c' = c ∧ l' = l := by
  unfold resumeEnter at h
  split at h
  · cases h
    exact ⟨rfl, rfl⟩
  · split at h
    · rename_i e c'' hr
      have hsame := call_failed (k := .running now) (congrArg Prod.fst hr)
      rw [call, hr] at hsame
      cases h
      exact ⟨hsame, rfl⟩
    · cases h

theorem resumeEnter_entered {c c' : CoroutineImpl Y R} {p : κ} {l l' : Locals κ} {now : Nat}
    (h : c.resumeEnter p l now = (none, c', l')) :
    l' = (l.initCoroutine p).initSuspender p ∧ c.running now = (.ok (), c') := by
  unfold resumeEnter at h
  split at h
  · cases h
  · split at h
    · cases h
    · rename_i hr
      cases h
      exact ⟨rfl, hr⟩

end CoroutineImpl

namespace Calls

variable {θ κ Y R : Type*} [DecidableEq θ] [DecidableEq κ] [ToString Y] [ToString R]

def step (s : Calls θ κ Y R) : Threads.Act θ κ Y R → Option (Calls θ κ Y R)
  | .resume t p now =>
    (s.threads.resume t p now).map fun threads =>
      { threads
        calls :=
          if threads.busy p then update s.calls t ((p, s.threads.locals t) :: s.calls t)
          else s.calls }
  | .call t k => (s.threads.call t k).map fun threads => { s with threads }
  | .leave t o =>
    (s.threads.leave t o).map fun (_, threads) =>
      { threads, calls := update s.calls t (s.calls t).tail }

/-- The thread on which a step ends a call of `resume_with`, and what the call has found. -/
def ends (s : Calls θ κ Y R) : Threads.Act θ κ Y R → Option (θ × Locals κ)
  | .resume t p now =>
    if ((s.threads.co p).resumeEnter p (s.threads.locals t) now).1.isSome then
      some (t, s.threads.locals t)
    else none
  | .call _ _ => none
  | .leave t _ => (s.calls t).head?.map fun call => (t, call.2)

/-- `current()` on thread `t`, by the stack of one of the thread-locals. -/
def current (s : Calls θ κ Y R) (stack : Locals κ → List κ) (t : θ) : Option κ :=
  (stack (s.threads.locals t)).head?

/-- A call that ends leaves the stack as it has found it, and the body that runs on a thread
is its current one. -/
def Balanced (stack : Locals κ → List κ) (s : Calls θ κ Y R) (a : Threads.Act θ κ Y R) : Prop :=
  ∀ s', s.step a = some s' →
    (∀ t found, s.ends a = some (t, found) → stack (s'.threads.locals t) = stack found) ∧
      ∀ t, s'.current stack t = (s'.threads.active t).head?

/-- Nothing runs yet, and the bodies that have returned have ended. -/
structure Initial (s : Calls θ κ Y R) : Prop where
  active : ∀ t, s.threads.active t = []
  calls : ∀ t, s.calls t = []
  coroutine : ∀ t, (s.threads.locals t).coroutine = []
  suspender : ∀ t, (s.threads.locals t).suspender = []
  done : ∀ p, (s.threads.co p).done = true → (s.threads.co p).state.IsTerminal

/-! What a step can do. -/

inductive Steps (s : Calls θ κ Y R) : Threads.Act θ κ Y R → Calls θ κ Y R → Prop where
  | returns {t : θ} {p : κ} {now : Nat} : Steps s (.resume t p now) s
  | panics {t : θ} {p : κ} {now : Nat} {c : CoroutineImpl Y R}
      (hr : (s.threads.co p).running now = (.ok (), c)) (hdone : (s.threads.co p).done = true)
      (hends : s.ends (.resume t p now) = none) :
      Steps s (.resume t p now)
        ⟨{ s.threads with
          locals := update s.threads.locals t ((s.threads.locals t).initCoroutine p) }, s.calls⟩
  | enters {t : θ} {p : κ} {now : Nat} {c : CoroutineImpl Y R}
      (hr : (s.threads.co p).running now = (.ok (), c)) (hdone : (s.threads.co p).done = false)
      (hends : s.ends (.resume t p now) = none) :
      Steps s (.resume t p now)
        ⟨{ co := update s.threads.co p c
           locals := update s.threads.locals t
             (((s.threads.locals t).initCoroutine p).initSuspender p)
           active := update s.threads.active t (p :: s.threads.active t)
           busy := update s.threads.busy p true },
          update s.calls t ((p, s.threads.locals t) :: s.calls t)⟩
  | calls {t : θ} {k : CoroutineImpl.Call Y R} {p : κ} :
      Steps s (.call t k)
        ⟨{ s.threads with co := update s.threads.co p ((s.threads.co p).call k).2 }, s.calls⟩
  | leaves {t : θ} {o : Leave Y R} {p : κ} {rest : List κ} (ha : s.threads.active t = p :: rest) :
      Steps s (.leave t o)
        ⟨{ co := update s.threads.co p ((s.threads.co p).leave (s.threads.locals t) o).2.1
           locals := update s.threads.locals t
             ((s.threads.co p).leave (s.threads.locals t) o).2.2
           active := update s.threads.active t rest
           busy := update s.threads.busy p false },
          update s.calls t (s.calls t).tail⟩

variable {s s' : Calls θ κ Y R} {a : Threads.Act θ κ Y R}

theorem steps (hs : s.step a = some s') : s.Steps a s' := by
  cases a with
  | resume t p now =>
    simp only [step, Threads.resume, Option.map_eq_some_iff] at hs
    obtain ⟨threads, hr, rfl⟩ := hs
    split at hr
    · cases hr
    · rename_i hbusy
      have hfree : s.threads.busy p = false := Bool.eq_false_iff.2 hbusy
      split at hr
      · rename_i result c l he
        obtain ⟨rfl, rfl⟩ := CoroutineImpl.resumeEnter_returned he
        cases hr
        simp only [hfree, update_eq_self]
        exact .returns
      · rename_i c l he
        obtain ⟨rfl, hrunning⟩ := CoroutineImpl.resumeEnter_entered he
        have hsame := (s.threads.co p).call_done (.running now)
        rw [CoroutineImpl.call, hrunning] at hsame
        split at hr
        · rename_i hdone
          cases hr
          simp only [hfree]
          exact .panics hrunning (hsame ▸ hdone) (by simp [ends, he])
        · rename_i hdone
          cases hr
          simp only [update_self, if_true]
          exact .enters hrunning (hsame ▸ Bool.eq_false_iff.2 hdone) (by simp [ends, he])
  | call t k =>
    simp only [step, Threads.call, Option.map_eq_some_iff] at hs
    obtain ⟨threads, hc, rfl⟩ := hs
    split at hc
    · cases hc
    · cases hc
      exact .calls
  | leave t o =>
    simp only [step, Threads.leave, Option.map_eq_some_iff] at hs
    obtain ⟨⟨result, threads⟩, hl, rfl⟩ := hs
    split at hl
    · cases hl
    · rename_i ha
      cases hl
      exact .leaves ha

/-! The stacks. -/

/-- What the calls in progress have made of the stack. -/
structure Sound (stack : Locals κ → List κ) (s : Calls θ κ Y R) : Prop where
  active : ∀ t, (s.calls t).map Prod.fst = s.threads.active t
  nested : ∀ t, Nested [] (stack (s.threads.locals t))
    ((s.calls t).map fun call => (call.1, stack call.2))

def Settled (s : Calls θ κ Y R) : Prop :=
  ∀ p, (s.threads.co p).done = true → (s.threads.co p).state.IsTerminal

/-- The body that gives control back has its entry taken off the stack. -/
def Cleans (stack : Locals κ → List κ) (s : Calls θ κ Y R) (a : Threads.Act θ κ Y R) : Prop :=
  ∀ t o p, a = .leave t o → (s.threads.active t).head? = some p →
    stack ((s.threads.co p).leave (s.threads.locals t) o).2.2 = (stack (s.threads.locals t)).tail

omit [DecidableEq θ] [DecidableEq κ] [ToString Y] [ToString R] in
theorem Initial.sound {stack : Locals κ → List κ} (h : s.Initial)
    (hstack : ∀ t, stack (s.threads.locals t) = []) : s.Sound stack where
  active t := by rw [h.calls t, h.active t, List.map_nil]
  nested t := by
    rw [h.calls t]
    exact hstack t

omit [DecidableEq θ] [DecidableEq κ] [ToString Y] [ToString R] in
theorem Sound.current {stack : Locals κ → List κ} (h : s.Sound stack) (t : θ) :
    s.current stack t = (s.threads.active t).head? := by
  rw [Calls.current, (h.nested t).head?, ← h.active t, List.map_map]
  rfl

omit [DecidableEq θ] [DecidableEq κ] [ToString Y] [ToString R] in
theorem Sound.innermost {stack : Locals κ → List κ} (h : s.Sound stack) {t : θ} {p : κ}
    {rest : List κ} (ha : s.threads.active t = p :: rest) :
    ∃ found calls, s.calls t = (p, found) :: calls ∧ calls.map Prod.fst = rest ∧
      Nested [] (stack (s.threads.locals t))
        ((p, stack found) :: calls.map fun call => (call.1, stack call.2)) := by
  have hactive := h.active t
  have hnested := h.nested t
  rw [ha, List.map_eq_cons_iff] at hactive
  obtain ⟨⟨_, found⟩, calls, hcalls, rfl, hrest⟩ := hactive
  rw [hcalls] at hnested
  exact ⟨found, calls, hcalls, hrest, hnested⟩

omit [DecidableEq κ] [ToString Y] [ToString R] in
theorem Sound.set {stack : Locals κ → List κ} (h : s.Sound stack) {t : θ} {l : Locals κ}
    {active : List κ} {calls : List (κ × Locals κ)} (hcalls : calls.map Prod.fst = active)
    (hnested : Nested [] (stack l) (calls.map fun call => (call.1, stack call.2)))
    (hs : s'.calls = update s.calls t calls)
    (hactive : s'.threads.active = update s.threads.active t active)
    (hlocals : s'.threads.locals = update s.threads.locals t l) : s'.Sound stack where
  active t' := by
    rw [hs, hactive]
    by_cases ht : t' = t
    · rw [ht, update_self, update_self, hcalls]
    · rw [update_of_ne ht, update_of_ne ht, h.active]
  nested t' := by
    rw [hs, hlocals]
    by_cases ht : t' = t
    · rw [ht, update_self, update_self]
      exact hnested
    · rw [update_of_ne ht, update_of_ne ht]
      exact h.nested t'

section

variable {stack : Locals κ → List κ}
  (hinit : ∀ l p, stack (Locals.initSuspender (Locals.initCoroutine l p) p) = p :: stack l)

include hinit

theorem Sound.step (h : s.Sound stack) (hs : s.step a = some s') (hcleans : s.Cleans stack a)
    (hpanic : s.Settled ∨ ∀ l p, stack (Locals.initCoroutine l p) = stack l) :
    s'.Sound stack := by
  cases steps hs with
  | returns => exact h
  | calls => exact ⟨h.active, h.nested⟩
  | @panics t p now c hr hdone hends =>
    rcases hpanic with hsettled | hstack
    · exact absurd hr (CoroutineImpl.running_terminal (hsettled p hdone))
    · refine h.set (h.active t) ?_ (update_eq_self _ _).symm (update_eq_self _ _).symm rfl
      rw [hstack]
      exact h.nested t
  | @enters t p now c hr hdone hends =>
    refine h.set ?_ ?_ rfl rfl rfl
    · rw [List.map_cons, h.active]
    · rw [hinit]
      exact (h.nested t).enter p
  | @leaves t o p rest ha =>
    have hp : (s.threads.active t).head? = some p := by rw [ha, List.head?_cons]
    obtain ⟨found, calls, hcalls, hrest, hnested⟩ := h.innermost ha
    rw [hcalls, List.tail_cons]
    refine h.set hrest ?_ rfl rfl rfl
    rw [hcleans t o p rfl hp]
    exact hnested.leave.2

/-- A step is balanced exactly where the body that gives control back is taken off. -/
theorem Sound.balanced_iff (h : s.Sound stack)
    (hpanic : s.Settled ∨ ∀ l p, stack (Locals.initCoroutine l p) = stack l) :
    s.Balanced stack a ↔ s.Cleans stack a := by
  constructor
  · rintro hb t o p rfl hp
    obtain ⟨rest, ha⟩ : ∃ rest, s.threads.active t = p :: rest := by
      cases hactive : s.threads.active t with
      | nil => simp [hactive] at hp
      | cons q rest => exact ⟨rest, by simpa [hactive] using hp⟩
    obtain ⟨found, calls, hcalls, -, hnested⟩ := h.innermost ha
    obtain ⟨s', hs⟩ : ∃ s', s.step (.leave t o) = some s' := by simp [Calls.step, Threads.leave, ha]
    have hfound := (hb s' hs).1 t found (by simp [ends, hcalls])
    cases steps hs with
    | @leaves _ _ q _ ha' =>
      obtain ⟨rfl, rfl⟩ : q = p ∧ _ := List.cons.inj (ha'.symm.trans ha)
      simp only [update_self] at hfound
      rw [hfound, hnested.leave.1]
  · intro hcleans s' hs
    refine ⟨fun t found hends => ?_, (h.step hinit hs hcleans hpanic).current⟩
    cases steps hs with
    | returns =>
      simp only [ends, Option.ite_none_right_eq_some, Option.some.injEq, Prod.mk.injEq] at hends
      obtain ⟨-, rfl, rfl⟩ := hends
      rfl
    | calls => cases hends
    | panics hr hdone hnone | enters hr hdone hnone =>
      rw [hnone] at hends
      cases hends
    | @leaves t' o p rest ha =>
      have hp : (s.threads.active t').head? = some p := by rw [ha, List.head?_cons]
      obtain ⟨found, calls, hcalls, -, hnested⟩ := h.innermost ha
      simp only [ends, hcalls, List.head?_cons, Option.map_some, Option.some.injEq,
        Prod.mk.injEq] at hends
      obtain ⟨rfl, rfl⟩ := hends
      dsimp only
      rw [update_self, hcleans t' o p rfl hp, hnested.leave.1]

end

/-! `COROUTINE`. -/

/-- The body that gives control back does so in a state in which `resume_with` can take over. -/
def Accepted (s : Calls θ κ Y R) : Threads.Act θ κ Y R → Prop
  | .leave t o => ∀ p, (s.threads.active t).head? = some p →
      o.accepted (s.threads.co p).state = true
  | .resume _ _ _ | .call _ _ => True

omit [DecidableEq θ] [DecidableEq κ] in
theorem Sound.cleans_coroutine_iff (h : s.Sound Locals.coroutine) :
    s.Cleans Locals.coroutine a ↔ s.Accepted a := by
  cases a with
  | resume t p now => exact iff_of_true (fun _ _ _ he => by cases he) trivial
  | call t k => exact iff_of_true (fun _ _ _ he => by cases he) trivial
  | leave t o =>
    constructor
    · intro hc p hp
      obtain ⟨rest, ha⟩ := List.head?_eq_some_iff.1 hp
      obtain ⟨found, calls, -, -, hnested⟩ := h.innermost ha
      by_contra ho
      have hkeeps := hc t o p rfl hp
      rw [CoroutineImpl.leave_coroutine, if_neg ho, hnested.leave.1] at hkeeps
      exact hnested.ne_found hkeeps
    · rintro hacc _ _ p ⟨⟩ hp
      rw [CoroutineImpl.leave_coroutine, if_pos (hacc p hp)]

theorem Settled.step (h : s.Settled) (hs : s.step a = some s') (hacc : s.Accepted a) :
    s'.Settled := by
  intro q hdone
  cases steps hs with
  | returns => exact h q hdone
  | panics => exact h q hdone
  | @enters t p now c hr hnot hends =>
    by_cases hq : q = p
    · subst q
      have hsame := (s.threads.co p).call_done (.running now)
      rw [CoroutineImpl.call, hr] at hsame
      simp only [update_self] at hdone
      rw [hsame, hnot] at hdone
      cases hdone
    · simp only [update_of_ne hq] at hdone ⊢
      exact h q hdone
  | @calls t k p =>
    by_cases hq : q = p
    · subst q
      simp only [update_self] at hdone ⊢
      rw [CoroutineImpl.call_done] at hdone
      rw [CoroutineImpl.call_terminal (h p hdone)]
      exact h p hdone
    · simp only [update_of_ne hq] at hdone ⊢
      exact h q hdone
  | @leaves t o p rest ha =>
    have ho := hacc p (by rw [ha, List.head?_cons])
    by_cases hq : q = p
    · subst q
      simp only [update_self] at hdone ⊢
      rcases CoroutineImpl.leave_done ho hdone with hbefore | hterminal
      · exact absurd (h p hbefore) (Leave.not_terminal_of_accepted ho)
      · exact hterminal
    · simp only [update_of_ne hq] at hdone ⊢
      exact h q hdone

/-- The calls of `resume_with` on a thread leave `COROUTINE` as they have found it if and only
if each body gives control back in a state in which `resume_with` can take over. -/
theorem coroutine_balanced_iff (h : s.Initial) (as : List (Threads.Act θ κ Y R)) :
    Guarded step (Balanced Locals.coroutine) s as ↔ Guarded step Accepted s as := by
  have hinit : ∀ (l : Locals κ) (p : κ),
      ((l.initCoroutine p).initSuspender p).coroutine = p :: l.coroutine := fun _ _ => rfl
  have hiff : ∀ (s : Calls θ κ Y R) (a : Threads.Act θ κ Y R),
      s.Sound Locals.coroutine ∧ s.Settled → (s.Balanced Locals.coroutine a ↔ s.Accepted a) :=
    fun s a hinv => (hinv.1.balanced_iff hinit (.inl hinv.2)).trans hinv.1.cleans_coroutine_iff
  refine guarded_iff (fun s => s.Sound Locals.coroutine ∧ s.Settled) ?_ hiff
    ⟨h.sound h.coroutine, h.done⟩ as
  intro s a s' hinv hb hs
  have hacc := (hiff s a hinv).1 hb
  exact ⟨hinv.1.step hinit hs (hinv.1.cleans_coroutine_iff.2 hacc) (.inl hinv.2),
    hinv.2.step hs hacc⟩

def fresh (name : κ → String) : Calls θ κ Y R where
  threads := .fresh name
  calls _ := []

omit [DecidableEq θ] [DecidableEq κ] [ToString Y] [ToString R] in
theorem fresh_initial (name : κ → String) : (fresh name : Calls θ κ Y R).Initial where
  active _ := rfl
  calls _ := rfl
  coroutine _ := rfl
  suspender _ := rfl
  done _ h := by cases h

/-- A coroutine delays itself, resumes another one when it comes back, and both return. -/
def nested : List (Threads.Act Unit Nat Unit Unit) :=
  [.resume () 0 0, .leave () (.untilWith () 5), .resume () 0 5, .resume () 1 5,
    .leave () (.returns ()), .leave () (.returns ())]

theorem coroutine_balanced_nested :
    Guarded step (Balanced Locals.coroutine) (fresh toString) nested ↔
      Guarded step Accepted (fresh toString) nested :=
  coroutine_balanced_iff (fresh_initial toString) nested

/-- The body returns while its coroutine is in a system call: the call fails, and its
coroutine stays the current one of a thread on which nothing runs. -/
theorem coroutine_left_current :
    ∃ s s' : Calls Unit Nat Unit Unit, Reaches step Free (fresh toString) s ∧
      s.step (.leave () (.returns ())) = some s' ∧
      s.ends (.leave () (.returns ())) = some ((), {}) ∧
      s'.threads.active () = [] ∧ s'.current Locals.coroutine () = some 0 ∧
      ¬ s.Balanced Locals.coroutine (.leave () (.returns ())) := by
  obtain ⟨s, s', h, hs, hends, hactive, hcurrent⟩ : ∃ s s' : Calls Unit Nat Unit Unit,
      run step (fresh toString) [.resume () 0 0, .call () (.syscall () .nanosleep .computing)] =
        some s ∧
      s.step (.leave () (.returns ())) = some s' ∧
      s.ends (.leave () (.returns ())) = some ((), {}) ∧
      s'.threads.active () = [] ∧ s'.current Locals.coroutine () = some 0 :=
    ⟨_, _, rfl, rfl, rfl, rfl, rfl⟩
  refine ⟨s, s', .of_run _ h (guarded_free _), hs, hends, hactive, hcurrent, fun hb => ?_⟩
  have hnone := (hb s' hs).2 ()
  rw [hcurrent, hactive] at hnone
  cases hnone

/-! `SUSPENDER`. -/

def Untrapped (s : Calls θ κ Y R) (a : Threads.Act θ κ Y R) : Prop :=
  ∀ t, a = .leave t .traps → s.threads.active t = []

omit [DecidableEq θ] [DecidableEq κ] in
theorem Sound.cleans_suspender_iff (h : s.Sound Locals.suspender) :
    s.Cleans Locals.suspender a ↔ s.Untrapped a := by
  constructor
  · rintro hc t rfl
    by_contra hne
    obtain ⟨p, rest, ha⟩ := List.exists_cons_of_ne_nil hne
    obtain ⟨found, calls, -, -, hnested⟩ := h.innermost ha
    have hkeeps := hc t .traps p rfl (by rw [ha, List.head?_cons])
    rw [CoroutineImpl.leave_suspender, hnested.leave.1] at hkeeps
    exact hnested.ne_found hkeeps
  · rintro hu t o p rfl hp
    rw [CoroutineImpl.leave_suspender]
    cases o with
    | suspendWith arg | untilWith arg timestamp | returns val | panics message => rfl
    | traps =>
      rw [hu t rfl] at hp
      cases hp

/-- The calls of `resume_with` on a thread leave `SUSPENDER` as they have found it, and each
body that runs has its own suspender there, if and only if no body ends by a trap. -/
theorem suspender_balanced_iff (h : s.Initial) (as : List (Threads.Act θ κ Y R)) :
    Guarded step (Balanced Locals.suspender) s as ↔ Guarded step Untrapped s as := by
  have hinit : ∀ (l : Locals κ) (p : κ),
      ((l.initCoroutine p).initSuspender p).suspender = p :: l.suspender := fun _ _ => rfl
  have hpanic : ∀ (l : Locals κ) (p : κ), (l.initCoroutine p).suspender = l.suspender :=
    fun _ _ => rfl
  have hiff : ∀ (s : Calls θ κ Y R) (a : Threads.Act θ κ Y R),
      s.Sound Locals.suspender → (s.Balanced Locals.suspender a ↔ s.Untrapped a) :=
    fun s a hinv => (hinv.balanced_iff hinit (.inr hpanic)).trans hinv.cleans_suspender_iff
  refine guarded_iff (fun s => s.Sound Locals.suspender) ?_ hiff (h.sound h.suspender) as
  intro s a s' hinv hb hs
  exact hinv.step hinit hs (hinv.cleans_suspender_iff.2 ((hiff s a hinv).1 hb)) (.inr hpanic)

theorem suspender_balanced_nested :
    Guarded step (Balanced Locals.suspender) (fresh toString) nested ↔
      Guarded step Untrapped (fresh toString) nested :=
  suspender_balanced_iff (fresh_initial toString) nested

/-- A coroutine resumes another one, which ends by a trap. The call returns, and the suspender
of the dead body is the current one while the other body runs. -/
theorem suspender_of_dead_body :
    ∃ s s' : Calls Unit Nat Unit Unit, Reaches step Free (fresh toString) s ∧
      s.step (.leave () .traps) = some s' ∧ s'.threads.active () = [0] ∧
      s'.current Locals.suspender () = some 1 ∧
      (s'.threads.co 1).state = .error "invalid memory reference" ∧
      ¬ s.Balanced Locals.suspender (.leave () .traps) := by
  obtain ⟨s, s', h, hs, hactive, hcurrent, hstate⟩ : ∃ s s' : Calls Unit Nat Unit Unit,
      run step (fresh toString) [.resume () 0 0, .resume () 1 0] = some s ∧
      s.step (.leave () .traps) = some s' ∧ s'.threads.active () = [0] ∧
      s'.current Locals.suspender () = some 1 ∧
      (s'.threads.co 1).state = .error "invalid memory reference" :=
    ⟨_, _, rfl, rfl, rfl, rfl, rfl⟩
  refine ⟨s, s', .of_run _ h (guarded_free _), hs, hactive, hcurrent, hstate, fun hb => ?_⟩
  have hown := (hb s' hs).2 ()
  rw [hcurrent, hactive] at hown
  cases hown

end Calls

end OpenCoroutine
