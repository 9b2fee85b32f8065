import OpenCoroutine.Nesting
import OpenCoroutine.Threads

/-! `Syscall::current` under `change_state!`. The macro puts the syscall on the `SYSCALL` of
its thread, changes the state of the thread's current coroutine, makes the inner call, changes
the state twice more and takes the top of `SYSCALL` off again. A call is cut at the inner call,
which may run other bodies, give the thread back or panic.

`entered` holds the calls that a body is in, innermost first: `Sum.inl` is the code of a thread
itself and `Sum.inr` the body of a coroutine. An `expect` that fails leaves the call and not
`SYSCALL`. -/

namespace OpenCoroutine

open Function Nesting Transition

namespace Syscall

def initCurrent (current : Syscall) (stack : List Syscall) : List Syscall := current :: stack

def current (stack : List Syscall) : Option Syscall := stack.head?

def cleanCurrent (stack : List Syscall) : List Syscall := stack.tail

end Syscall

namespace Threads

variable {θ κ Y R : Type*} [DecidableEq θ] [DecidableEq κ] [ToString Y] [ToString R]
  {m m' : Threads θ κ Y R}

theorem resume_active {t : θ} {p : κ} {now : Nat} (h : m.resume t p now = some m') :
    m'.active = m.active ∧ m'.busy = m.busy ∨
      m.busy p = false ∧ m'.active = update m.active t (p :: m.active t) ∧
        m'.busy = update m.busy p true := by
  rw [resume] at h
  split at h
  · cases h
  · rename_i hbusy
    split at h
    · cases h
      exact .inl ⟨rfl, rfl⟩
    · split at h
      · cases h
        exact .inl ⟨rfl, rfl⟩
      · cases h
        exact .inr ⟨Bool.eq_false_iff.2 hbusy, rfl, rfl⟩

omit [DecidableEq θ] in
theorem call_active {t : θ} {k : CoroutineImpl.Call Y R} (h : m.call t k = some m') :
    m'.active = m.active ∧ m'.busy = m.busy := by
  rw [call] at h
  split at h
  · cases h
  · cases h
    exact ⟨rfl, rfl⟩

theorem leave_active {t : θ} {o : Leave Y R} {r : Except IoError (CoroutineState Y R)}
    (h : m.leave t o = some (r, m')) :
    ∃ p rest, m.active t = p :: rest ∧ m'.active = update m.active t rest ∧
      m'.busy = update m.busy p false := by
  rw [leave] at h
  split at h
  · cases h
  · rename_i p rest ha
    cases h
    exact ⟨p, rest, ha, rfl, rfl⟩

end Threads

/-- A coroutine whose call is `Finished` goes back to `Running`. -/
theorem CoroutineImpl.syscallResume_finished {c : CoroutineImpl Unit Unit} {syscall : Syscall}
    (h : (c.syscall () syscall .finished).1.isOk = true) :
    (c.syscall () syscall .finished).2.syscallResume.1.isOk = true := by
  cases hc : c.state with
  | running => simp [CoroutineImpl.syscall, syscallResume, hc, Except.isOk, Except.toBool]
  | systemCall y original st =>
    by_cases he : original = syscall
    · simp [CoroutineImpl.syscall, syscallResume, hc, he, Except.isOk, Except.toBool]
    · simp [CoroutineImpl.syscall, hc, he, Except.isOk, Except.toBool] at h
  | created | ready | suspend _ _ | complete _ | error _ =>
    simp [CoroutineImpl.syscall, hc, Except.isOk, Except.toBool] at h

structure HookedThreads (θ κ : Type*) where
  threads : Threads θ κ Unit Unit
  syscall : θ → List Syscall := fun _ => []
  entered : θ ⊕ κ → List Syscall := fun _ => []

namespace HookedThreads

inductive Act (θ κ : Type*) where
  | resume (t : θ) (p : κ) (now : Nat)
  | call (t : θ) (k : CoroutineImpl.Call Unit Unit)
  | leave (t : θ) (o : Leave Unit Unit)
  | enter (t : θ) (syscall : Syscall)
  | exit (t : θ)
  | unwind (t : θ)

variable {θ κ : Type*}

/-- What runs on a thread: the bodies of coroutines, each resumed by the next one, and the code
of the thread. -/
def bodies (s : HookedThreads θ κ) (t : θ) : List (θ ⊕ κ) :=
  (s.threads.active t).map .inr ++ [.inl t]

/-- The body that has the thread. -/
def body (s : HookedThreads θ κ) (t : θ) : θ ⊕ κ := (s.threads.active t).head?.elim (.inl t) .inr

variable [DecidableEq θ] [DecidableEq κ]

/-- `if let Some(coroutine) = SchedulableCoroutine::current() { coroutine.k() }`, and whether it
has gone through. -/
def onCurrent (threads : Threads θ κ Unit Unit) (t : θ) (k : CoroutineImpl.Call Unit Unit) :
    Bool × Threads θ κ Unit Unit :=
  match (threads.locals t).coroutine.head? with
  | none => (true, threads)
  | some p =>
    (((threads.co p).call k).1.isOk,
      { threads with co := update threads.co p ((threads.co p).call k).2 })

/-- `change_state!` up to the inner call. -/
def enter (s : HookedThreads θ κ) (t : θ) (syscall : Syscall) : HookedThreads θ κ :=
  let pushed := update s.syscall t (syscall.initCurrent (s.syscall t))
  match onCurrent s.threads t (.syscall () syscall .computing) with
  | (true, threads) =>
    ⟨threads, pushed, update s.entered (s.body t) (syscall :: s.entered (s.body t))⟩
  | (false, threads) => ⟨threads, pushed, s.entered⟩

/-- `change_state!` after the inner call. -/
def exit (s : HookedThreads θ κ) (t : θ) : Option (HookedThreads θ κ) :=
  match s.entered (s.body t) with
  | [] => none
  | syscall :: outer =>
    let entered := update s.entered (s.body t) outer
    match onCurrent s.threads t (.syscall () syscall .finished) with
    | (false, threads) => some ⟨threads, s.syscall, entered⟩
    | (true, threads) =>
      match onCurrent threads t .syscallResume with
      | (false, threads) => some ⟨threads, s.syscall, entered⟩
      | (true, threads) =>
        some ⟨threads, update s.syscall t (Syscall.cleanCurrent (s.syscall t)), entered⟩

/-- A panic goes through the innermost call of the body. -/
def unwind (s : HookedThreads θ κ) (t : θ) : Option (HookedThreads θ κ) :=
  match s.entered (s.body t) with
  | [] => none
  | _ :: outer => some { s with entered := update s.entered (s.body t) outer }

/-- A body that yields stays in its calls, one that returns is in none, and a panic or a trap
takes it out of all of them. -/
def leave (s : HookedThreads θ κ) (t : θ) (o : Leave Unit Unit) : Option (HookedThreads θ κ) :=
  (s.threads.leave t o).bind fun (_, threads) =>
    match o with
    | .suspendWith _ | .untilWith _ _ => some { s with threads }
    | .returns _ => if s.entered (s.body t) = [] then some { s with threads } else none
    | .panics _ | .traps => some { s with threads, entered := update s.entered (s.body t) [] }

def step (s : HookedThreads θ κ) : Act θ κ → Option (HookedThreads θ κ)
  | .resume t p now => (s.threads.resume t p now).map fun threads => { s with threads }
  | .call t k => (s.threads.call t k).map fun threads => { s with threads }
  | .leave t o => s.leave t o
  | .enter t syscall => some (s.enter t syscall)
  | .exit t => s.exit t
  | .unwind t => s.unwind t

/-- `Syscall::current` on thread `t` is the call of the body that has the thread, and `None`
where nothing on the thread is in a call. -/
structure Names (s : HookedThreads θ κ) (t : θ) : Prop where
  own : ∀ syscall, (s.entered (s.body t)).head? = some syscall →
    Syscall.current (s.syscall t) = some syscall
  none : (∀ b ∈ s.bodies t, s.entered b = []) → Syscall.current (s.syscall t) = none

/-- No body gives its thread back inside a call, and no panic leaves one. -/
def StaysInside (s : HookedThreads θ κ) : Act θ κ → Prop
  | .leave t _ => s.entered (s.body t) = []
  | .enter t syscall => (onCurrent s.threads t (.syscall () syscall .computing)).1 = true
  | .exit t => ∀ syscall, (s.entered (s.body t)).head? = some syscall →
      (onCurrent s.threads t (.syscall () syscall .finished)).1 = true
  | .unwind _ => False
  | .resume .. | .call .. => True

/-! The stack is made of the calls in progress on its thread. -/

structure Sound (s : HookedThreads θ κ) : Prop where
  apart : ∀ t t' b, b ∈ s.bodies t → b ∈ s.bodies t' → t = t'
  nodup : ∀ t, (s.bodies t).Nodup
  busy : ∀ t p, .inr p ∈ s.bodies t → s.threads.busy p = true
  idle : ∀ p, s.threads.busy p = false → s.entered (.inr p) = []
  stack : ∀ t, s.syscall t = (s.bodies t).flatMap s.entered

omit [DecidableEq θ] [DecidableEq κ] in
theorem Sound.separate {s : HookedThreads θ κ} (h : s.Sound) : Separate s.bodies :=
  ⟨h.apart, h.nodup⟩

omit [DecidableEq θ] [DecidableEq κ] in
theorem bodies_eq (s : HookedThreads θ κ) (t : θ) :
    s.bodies t = s.body t :: (s.bodies t).tail := by
  rw [bodies, body]
  cases s.threads.active t <;> rfl

omit [DecidableEq θ] [DecidableEq κ] in
theorem Sound.names {s : HookedThreads θ κ} (h : s.Sound) (t : θ) : s.Names t where
  own syscall hcall := by
    obtain ⟨outer, he⟩ := List.head?_eq_some_iff.1 hcall
    rw [h.stack, bodies_eq, List.flatMap_cons, he]
    rfl
  none hnone := by
    rw [h.stack, List.flatMap_eq_nil_iff.2 hnone]
    rfl

omit [DecidableEq θ] in
theorem onCurrent_active (threads : Threads θ κ Unit Unit) (t : θ)
    (k : CoroutineImpl.Call Unit Unit) :
    (onCurrent threads t k).2.active = threads.active ∧
      (onCurrent threads t k).2.busy = threads.busy := by
  rw [onCurrent]
  split <;> exact ⟨rfl, rfl⟩

variable {s s' : HookedThreads θ κ}

/-- The calls of the body that has the thread change, and the stack with them. -/
theorem Sound.setTop (h : s.Sound) {t : θ} {calls : List Syscall}
    (hactive : s'.threads.active = s.threads.active) (hbusy : s'.threads.busy = s.threads.busy)
    (hentered : s'.entered = update s.entered (s.body t) calls)
    (hsyscall : s'.syscall =
      update s.syscall t (calls ++ (s.bodies t).tail.flatMap s.entered)) : s'.Sound := by
  have hbodies : s'.bodies = s.bodies := by
    funext t'
    rw [bodies, bodies, hactive]
  have hmem : s.body t ∈ s.bodies t := by
    rw [bodies_eq]
    exact List.mem_cons_self
  have hsame : ∀ l : List (θ ⊕ κ), s.body t ∉ l → l.flatMap s'.entered = l.flatMap s.entered := by
    intro l hl
    refine List.flatMap_congr fun b hb => ?_
    rw [hentered, update_of_ne]
    rintro rfl
    exact hl hb
  refine ⟨?_, ?_, ?_, ?_, fun t' => ?_⟩
  · rw [hbodies]
    exact h.apart
  · rw [hbodies]
    exact h.nodup
  · rw [hbodies, hbusy]
    exact h.busy
  · intro p hp
    rw [hbusy] at hp
    rw [hentered, update_of_ne, h.idle p hp]
    intro he
    rw [h.busy t p (he ▸ hmem)] at hp
    cases hp
  · rw [hsyscall, hbodies]
    by_cases ht : t' = t
    · subst ht
      have hnodup := h.nodup t'
      rw [bodies_eq, List.nodup_cons] at hnodup
      rw [update_self, s.bodies_eq t', List.flatMap_cons, List.tail_cons, hsame _ hnodup.1,
        hentered, update_self]
    · rw [update_of_ne ht, h.stack, hsame]
      exact fun hb => ht (h.apart t' t _ hb hmem)

omit [DecidableEq κ] in
theorem bodies_update {t : θ} {ps : List κ}
    (hactive : s'.threads.active = update s.threads.active t ps) :
    s'.bodies = update s.bodies t (ps.map .inr ++ [.inl t]) := by
  funext t'
  rw [bodies, hactive]
  by_cases ht : t' = t
  · rw [ht, update_self, update_self]
  · rw [update_of_ne ht, update_of_ne ht]
    rfl

/-- A coroutine that is resumed is in no call. -/
theorem Sound.resume (h : s.Sound) {t : θ} {p : κ} (hidle : s.threads.busy p = false)
    (hactive : s'.threads.active = update s.threads.active t (p :: s.threads.active t))
    (hbusy : s'.threads.busy = update s.threads.busy p true) (hentered : s'.entered = s.entered)
    (hsyscall : s'.syscall = s.syscall) : s'.Sound := by
  have hbodies : s'.bodies = update s.bodies t (.inr p :: s.bodies t) := bodies_update hactive
  have hnew : ∀ t', .inr p ∉ s.bodies t' := by
    intro t' hp
    rw [h.busy t' p hp] at hidle
    cases hidle
  have hseparate : Separate s'.bodies := hbodies ▸ h.separate.push hnew
  refine ⟨hseparate.apart, hseparate.nodup, fun t' q hq => ?_, fun q hq => ?_, fun t' => ?_⟩
  · rw [hbodies] at hq
    rw [hbusy]
    rcases mem_push hq with ⟨he, -⟩ | hbelow
    · cases he
      exact update_self _ _ _
    · have hne : q ≠ p := by
        rintro rfl
        exact hnew t' hbelow
      rw [update_of_ne hne]
      exact h.busy t' q hbelow
  · rw [hentered]
    rw [hbusy] at hq
    by_cases he : q = p
    · rw [he]
      exact h.idle p hidle
    · rw [update_of_ne he] at hq
      exact h.idle q hq
  · rw [hsyscall, hentered, hbodies, h.stack]
    by_cases ht : t' = t
    · subst ht
      rw [update_self, List.flatMap_cons, h.idle p hidle, List.nil_append]
    · rw [update_of_ne ht]

/-- A body outside every call gives its thread back. -/
theorem Sound.leave (h : s.Sound) {t : θ} {p : κ} {rest : List κ}
    (ha : s.threads.active t = p :: rest) (hoff : s.entered (.inr p) = [])
    (hactive : s'.threads.active = update s.threads.active t rest)
    (hbusy : s'.threads.busy = update s.threads.busy p false) (hentered : s'.entered = s.entered)
    (hsyscall : s'.syscall = s.syscall) : s'.Sound := by
  have htop : s.bodies t = .inr p :: (rest.map .inr ++ [.inl t]) := by
    rw [bodies, ha]
    rfl
  have hbodies : s'.bodies = update s.bodies t (rest.map .inr ++ [.inl t]) :=
    bodies_update hactive
  have hseparate : Separate s'.bodies := hbodies ▸ h.separate.pop htop
  refine ⟨hseparate.apart, hseparate.nodup, fun t' q hq => ?_, fun q hq => ?_, fun t' => ?_⟩
  · rw [hbodies] at hq
    have hne : q ≠ p := by
      rintro rfl
      exact h.separate.gone htop t' hq
    rw [hbusy, update_of_ne hne]
    exact h.busy t' q (mem_pop htop hq)
  · rw [hentered]
    rw [hbusy] at hq
    by_cases he : q = p
    · rw [he, hoff]
    · rw [update_of_ne he] at hq
      exact h.idle q hq
  · rw [hsyscall, hentered, hbodies, h.stack]
    by_cases ht : t' = t
    · subst ht
      rw [update_self, htop, List.flatMap_cons, hoff, List.nil_append]
    · rw [update_of_ne ht]

omit [DecidableEq θ] in
theorem onCurrent_syscallResume {threads : Threads θ κ Unit Unit} {t : θ} {syscall : Syscall}
    (h : (onCurrent threads t (.syscall () syscall .finished)).1 = true) :
    (onCurrent (onCurrent threads t (.syscall () syscall .finished)).2 t .syscallResume).1 =
      true := by
  cases hp : (threads.locals t).coroutine.head? with
  | none => simp [onCurrent, hp]
  | some p =>
    simp only [onCurrent, hp] at h ⊢
    rw [update_self]
    exact CoroutineImpl.syscallResume_finished h

omit [DecidableEq θ] [DecidableEq κ] in
theorem Sound.congr (h : s.Sound) (hactive : s'.threads.active = s.threads.active)
    (hbusy : s'.threads.busy = s.threads.busy) (hentered : s'.entered = s.entered)
    (hsyscall : s'.syscall = s.syscall) : s'.Sound := by
  have hbodies : s'.bodies = s.bodies := by
    funext t
    rw [bodies, bodies, hactive]
  refine ⟨?_, ?_, ?_, ?_, ?_⟩
  · rw [hbodies]
    exact h.apart
  · rw [hbodies]
    exact h.nodup
  · rw [hbodies, hbusy]
    exact h.busy
  · rw [hbusy, hentered]
    exact h.idle
  · rw [hbodies, hentered, hsyscall]
    exact h.stack

/-- `SYSCALL` gets the name in any case, and the body is in the call if the state has changed. -/
theorem enter_eq (s : HookedThreads θ κ) (t : θ) (syscall : Syscall) :
    ∃ threads : Threads θ κ Unit Unit, threads.active = s.threads.active ∧
      threads.busy = s.threads.busy ∧ s.enter t syscall =
        ⟨threads, update s.syscall t (syscall :: s.syscall t),
          if (onCurrent s.threads t (.syscall () syscall .computing)).1 then
            update s.entered (s.body t) (syscall :: s.entered (s.body t))
          else s.entered⟩ := by
  have hactive := onCurrent_active s.threads t (.syscall () syscall .computing)
  refine ⟨_, hactive.1, hactive.2, ?_⟩
  rw [HookedThreads.enter]
  cases hc : onCurrent s.threads t (.syscall () syscall .computing) with
  | mk ok threads => cases ok <;> rfl

/-- The body is out of the call in any case, and `SYSCALL` loses its top if the state has
changed. -/
theorem exit_eq {s : HookedThreads θ κ} {t : θ} {syscall : Syscall} {outer : List Syscall}
    (hcalls : s.entered (s.body t) = syscall :: outer) :
    ∃ threads : Threads θ κ Unit Unit, threads.active = s.threads.active ∧
      threads.busy = s.threads.busy ∧ s.exit t = some
        ⟨threads,
          if (onCurrent s.threads t (.syscall () syscall .finished)).1 then
            update s.syscall t (s.syscall t).tail
          else s.syscall,
          update s.entered (s.body t) outer⟩ := by
  have hactive := onCurrent_active s.threads t (.syscall () syscall .finished)
  simp only [HookedThreads.exit, hcalls]
  cases hf : onCurrent s.threads t (.syscall () syscall .finished) with
  | mk ok threads =>
    rw [hf] at hactive
    cases ok with
    | false => exact ⟨threads, hactive.1, hactive.2, rfl⟩
    | true =>
      have hresumed := onCurrent_syscallResume (congrArg Prod.fst hf)
      have hagain := onCurrent_active threads t .syscallResume
      rw [hf] at hresumed
      dsimp only at hresumed
      cases hr : onCurrent threads t .syscallResume with
      | mk ok threads' =>
        rw [hr] at hresumed hagain
        dsimp only at hresumed
        subst hresumed
        simp only [hr]
        exact ⟨threads', hagain.1.trans hactive.1, hagain.2.trans hactive.2, rfl⟩

theorem Sound.enter (h : s.Sound) {t : θ} {syscall : Syscall}
    (hok : (onCurrent s.threads t (.syscall () syscall .computing)).1 = true) :
    (s.enter t syscall).Sound := by
  obtain ⟨threads, hactive, hbusy, he⟩ := s.enter_eq t syscall
  rw [he, if_pos hok]
  refine h.setTop hactive hbusy rfl ?_
  rw [h.stack, bodies_eq, List.flatMap_cons]
  rfl

theorem Sound.exit (h : s.Sound) {t : θ} (hstays : s.StaysInside (.exit t))
    (hs : s.exit t = some s') : s'.Sound := by
  cases hcalls : s.entered (s.body t) with
  | nil =>
    rw [HookedThreads.exit, hcalls] at hs
    cases hs
  | cons syscall outer =>
    obtain ⟨threads, hactive, hbusy, he⟩ := exit_eq hcalls
    rw [he, if_pos (hstays syscall (by rw [hcalls]; rfl))] at hs
    cases hs
    refine h.setTop hactive hbusy rfl ?_
    rw [h.stack, bodies_eq, List.flatMap_cons, hcalls]
    rfl

/-- Giving the thread back leaves `SYSCALL` as it is, and takes the body out of all its calls
or of none. -/
theorem leave_cases {t : θ} {o : Leave Unit Unit} (hs : s.leave t o = some s') :
    ∃ p rest, s.threads.active t = p :: rest ∧
      s'.threads.active = update s.threads.active t rest ∧
      s'.threads.busy = update s.threads.busy p false ∧ s'.syscall = s.syscall ∧
      (s'.entered = s.entered ∨ s'.entered = update s.entered (s.body t) []) := by
  simp only [HookedThreads.leave, Option.bind_eq_some_iff] at hs
  obtain ⟨⟨r, threads⟩, hl, hs⟩ := hs
  obtain ⟨p, rest, ha, hactive, hbusy⟩ := Threads.leave_active hl
  refine ⟨p, rest, ha, ?_⟩
  cases o with
  | suspendWith arg | untilWith arg timestamp =>
    cases hs
    exact ⟨hactive, hbusy, rfl, .inl rfl⟩
  | returns val =>
    dsimp only at hs
    split at hs
    · cases hs
      exact ⟨hactive, hbusy, rfl, .inl rfl⟩
    · cases hs
  | panics message | traps =>
    cases hs
    exact ⟨hactive, hbusy, rfl, .inr rfl⟩

theorem Sound.step (h : s.Sound) {a : Act θ κ} (hstays : s.StaysInside a)
    (hs : s.step a = some s') : s'.Sound := by
  cases a with
  | resume t p now =>
    simp only [HookedThreads.step, Option.map_eq_some_iff] at hs
    obtain ⟨threads, hr, rfl⟩ := hs
    rcases Threads.resume_active hr with ⟨hactive, hbusy⟩ | ⟨hidle, hactive, hbusy⟩
    · exact h.congr hactive hbusy rfl rfl
    · exact h.resume hidle hactive hbusy rfl rfl
  | call t k =>
    simp only [HookedThreads.step, Option.map_eq_some_iff] at hs
    obtain ⟨threads, hc, rfl⟩ := hs
    obtain ⟨hactive, hbusy⟩ := Threads.call_active hc
    exact h.congr hactive hbusy rfl rfl
  | leave t o =>
    obtain ⟨p, rest, ha, hactive, hbusy, hsyscall, hentered⟩ := leave_cases hs
    have hbody : s.body t = .inr p := by
      rw [body, ha]
      rfl
    have hoff : s.entered (.inr p) = [] := hbody ▸ hstays
    have hsame : update s.entered (s.body t) [] = s.entered := by
      rw [hbody, ← hoff, update_eq_self]
    exact h.leave ha hoff hactive hbusy (hentered.elim id fun he => he.trans hsame) hsyscall
  | enter t syscall =>
    cases hs
    exact h.enter hstays
  | exit t => exact h.exit hstays hs
  | unwind t => exact absurd hstays id

/-- Nothing runs yet and no call has been made. -/
structure Initial (s : HookedThreads θ κ) : Prop where
  active : ∀ t, s.threads.active t = []
  busy : ∀ p, s.threads.busy p = false
  entered : ∀ b, s.entered b = []
  syscall : ∀ t, s.syscall t = []

omit [DecidableEq θ] [DecidableEq κ] in
theorem Initial.sound (h : s.Initial) : s.Sound := by
  have hbodies : ∀ t, s.bodies t = [.inl t] := fun t => by
    rw [bodies, h.active]
    rfl
  refine ⟨fun t t' b hb hb' => ?_, fun t => ?_, fun t p hp => ?_, fun p _ => h.entered _,
    fun t => ?_⟩
  · rw [hbodies, List.mem_singleton] at hb hb'
    exact Sum.inl.inj (hb.symm.trans hb')
  · rw [hbodies]
    exact List.nodup_cons.2 ⟨List.not_mem_nil, List.nodup_nil⟩
  · rw [hbodies, List.mem_singleton] at hp
    cases hp
  · rw [hbodies, h.syscall, List.flatMap_singleton, h.entered]

/-! Once it holds more names than there are calls, the calls that end do not use them up. -/

def Overfull (s : HookedThreads θ κ) (t : θ) : Prop :=
  ((s.bodies t).flatMap s.entered).length < (s.syscall t).length

omit [DecidableEq θ] [DecidableEq κ] in
theorem length_flatMap_le {f g : θ ⊕ κ → List Syscall} (h : ∀ b, (f b).length ≤ (g b).length)
    (l : List (θ ⊕ κ)) : (l.flatMap f).length ≤ (l.flatMap g).length := by
  induction l with
  | nil => exact le_rfl
  | cons b l ih =>
    rw [List.flatMap_cons, List.flatMap_cons, List.length_append, List.length_append]
    exact Nat.add_le_add (h b) ih

theorem update_entered_le {t : θ} {calls : List Syscall}
    (hcalls : calls.length ≤ (s.entered (s.body t)).length) (b : θ ⊕ κ) :
    (update s.entered (s.body t) calls b).length ≤ (s.entered b).length := by
  by_cases hb : b = s.body t
  · rw [hb, update_self]
    exact hcalls
  · rw [update_of_ne hb]

/-- One call of the body fewer is one call fewer on its thread. -/
theorem leave_call_lt {t : θ} {syscall : Syscall} {outer : List Syscall}
    (hcalls : s.entered (s.body t) = syscall :: outer) :
    ((s.bodies t).flatMap (update s.entered (s.body t) outer)).length <
      ((s.bodies t).flatMap s.entered).length := by
  have hle : ((s.bodies t).tail.flatMap (update s.entered (s.body t) outer)).length ≤
      ((s.bodies t).tail.flatMap s.entered).length := by
    refine length_flatMap_le (update_entered_le ?_) _
    rw [hcalls]
    exact Nat.le_succ _
  rw [bodies_eq, List.flatMap_cons, List.flatMap_cons, update_self, hcalls, List.length_append,
    List.length_append, List.length_cons]
  omega

/-- The calls of the bodies below are in progress after the thread has been given back. -/
theorem leave_length_le {t : θ} {o : Leave Unit Unit} (hs : s.leave t o = some s') :
    s'.syscall = s.syscall ∧ (s.threads.active t).length = (s'.threads.active t).length + 1 ∧
      ((s'.bodies t).flatMap s'.entered).length ≤
        ((s.bodies t).tail.flatMap s.entered).length := by
  obtain ⟨p, rest, ha, hactive, -, hsyscall, hentered⟩ := leave_cases hs
  have hbelow : s'.bodies t = (s.bodies t).tail := by
    rw [bodies_update hactive, update_self, bodies, ha]
    rfl
  refine ⟨hsyscall, by rw [hactive, update_self, ha, List.length_cons], ?_⟩
  rw [hbelow]
  refine length_flatMap_le (fun b => ?_) _
  rcases hentered with he | he
  · rw [he]
  · rw [he]
    exact update_entered_le (Nat.zero_le _) b

theorem Sound.overfull (h : s.Sound) {a : Act θ κ} (hbreaks : ¬ s.StaysInside a)
    (hs : s.step a = some s') : ∃ t, s'.Overfull t := by
  cases a with
  | resume t p now => exact absurd trivial hbreaks
  | call t k => exact absurd trivial hbreaks
  | leave t o =>
    obtain ⟨hsyscall, -, hle⟩ := leave_length_le hs
    have hinside : 0 < (s.entered (s.body t)).length := List.length_pos_iff.2 hbreaks
    refine ⟨t, ?_⟩
    rw [Overfull, hsyscall, h.stack, s.bodies_eq t, List.flatMap_cons, List.length_append]
    omega
  | enter t syscall =>
    obtain ⟨threads, hactive, -, he⟩ := s.enter_eq t syscall
    rw [StaysInside] at hbreaks
    rw [if_neg hbreaks] at he
    refine ⟨t, ?_⟩
    have hs' := (Option.some.inj hs).symm.trans he
    rw [hs', Overfull, bodies, hactive]
    dsimp only
    rw [update_self, h.stack, List.length_cons]
    exact Nat.lt_succ_self _
  | exit t =>
    simp only [StaysInside, not_forall] at hbreaks
    obtain ⟨syscall, hcall, hfails⟩ := hbreaks
    obtain ⟨outer, hcalls⟩ := List.head?_eq_some_iff.1 hcall
    obtain ⟨threads, hactive, -, he⟩ := exit_eq hcalls
    rw [if_neg hfails] at he
    have hs' := Option.some.inj (hs.symm.trans he)
    refine ⟨t, ?_⟩
    rw [hs', Overfull, bodies, hactive, h.stack]
    exact leave_call_lt hcalls
  | unwind t =>
    cases hcalls : s.entered (s.body t) with
    | nil => simp [HookedThreads.step, HookedThreads.unwind, hcalls] at hs
    | cons syscall outer =>
      simp only [HookedThreads.step, HookedThreads.unwind, hcalls, Option.some.injEq] at hs
      refine ⟨t, ?_⟩
      rw [← hs, Overfull, h.stack]
      exact leave_call_lt hcalls

theorem exit_length {t : θ} {syscall : Syscall} {outer : List Syscall}
    (hcalls : s.entered (s.body t) = syscall :: outer) :
    ∃ s', s.exit t = some s' ∧ s'.threads.active = s.threads.active ∧
      ((s'.bodies t).flatMap s'.entered).length < ((s.bodies t).flatMap s.entered).length ∧
      (s.syscall t).length ≤ (s'.syscall t).length + 1 := by
  obtain ⟨threads, hactive, -, he⟩ := exit_eq hcalls
  refine ⟨_, he, hactive, ?_, ?_⟩
  · rw [bodies, hactive]
    exact leave_call_lt hcalls
  · dsimp only
    split
    · rw [update_self, List.length_tail]
      omega
    · exact Nat.le_succ _

omit [DecidableEq θ] [DecidableEq κ] in
/-- A thread on which nothing is in a call has no name left over. -/
theorem Overfull.not_names {t : θ} (h : s.Overfull t) (hidle : s.threads.active t = [])
    (hcalls : s.entered (s.body t) = []) : ¬ s.Names t := by
  intro hnames
  have hbodies : s.bodies t = [s.body t] := by
    rw [bodies, body, hidle]
    rfl
  have hnone : Syscall.current (s.syscall t) = none := by
    refine hnames.none fun b hb => ?_
    rw [hbodies, List.mem_singleton] at hb
    rw [hb, hcalls]
  rw [Syscall.current, List.head?_eq_none_iff] at hnone
  rw [Overfull, hnone] at h
  exact absurd h (Nat.not_lt_zero _)

/-- All the calls end and all the bodies give the thread back, and a name is left. -/
theorem Overfull.exposed {t : θ} (h : s.Overfull t) :
    ∃ as s', run step s as = some s' ∧ ¬ s'.Names t := by
  induction hn : ((s.bodies t).flatMap s.entered).length + (s.threads.active t).length using
    Nat.strong_induction_on generalizing s with
  | _ n ih =>
    rw [Overfull] at h
    cases hcalls : s.entered (s.body t) with
    | cons syscall outer =>
      obtain ⟨s₁, hs₁, hactive, hless, hpop⟩ := exit_length hcalls
      have hover : s₁.Overfull t := by
        rw [Overfull]
        omega
      obtain ⟨as, s', hrun, hnames⟩ := ih _ (by rw [← hn, hactive]; omega) hover rfl
      refine ⟨.exit t :: as, s', ?_, hnames⟩
      rw [run, show s.step (.exit t) = some s₁ from hs₁]
      exact hrun
    | nil =>
      cases hidle : s.threads.active t with
      | nil => exact ⟨[], s, rfl, Overfull.not_names h hidle hcalls⟩
      | cons p rest =>
        obtain ⟨s₁, hs₁⟩ : ∃ s₁, s.leave t (.suspendWith ()) = some s₁ := by
          simp [HookedThreads.leave, Threads.leave, hidle]
        obtain ⟨hsyscall, hlength, hle⟩ := leave_length_le hs₁
        have hover : s₁.Overfull t := by
          rw [Overfull, hsyscall]
          rw [bodies_eq, List.flatMap_cons, hcalls, List.nil_append] at h
          omega
        obtain ⟨as, s', hrun, hnames⟩ := ih _ (by
          rw [← hn, hlength, s.bodies_eq t, List.flatMap_cons, hcalls, List.nil_append]
          omega) hover rfl
        refine ⟨.leave t (.suspendWith ()) :: as, s', ?_, hnames⟩
        rw [run, show s.step (.leave t (.suspendWith ())) = some s₁ from hs₁]
        exact hrun

/-- As long as no body gives its thread back inside a call and no panic leaves one, `current`
names the running call on every thread. After the first step that breaks this it goes wrong on
some thread, at the latest when the calls there have ended. -/
theorem current_names {s₀ s : HookedThreads θ κ} (h₀ : s₀.Initial)
    (h : Reaches step StaysInside s₀ s) :
    (∀ t, s.Names t) ∧ ∀ a s', ¬ s.StaysInside a → s.step a = some s' →
      ∃ t as s'', run step s' as = some s'' ∧ ¬ s''.Names t := by
  have hsound : s.Sound := h.invariant h₀.sound fun _ _ _ hi hstays hs => hi.step hstays hs
  refine ⟨hsound.names, fun a s' hbreaks hs => ?_⟩
  obtain ⟨t, hover⟩ := hsound.overfull hbreaks hs
  exact ⟨t, hover.exposed⟩

def fresh (name : κ → String) : HookedThreads θ κ := { threads := .fresh name }

omit [DecidableEq θ] [DecidableEq κ] in
theorem fresh_initial (name : κ → String) : (fresh name : HookedThreads θ κ).Initial :=
  ⟨fun _ => rfl, fun _ => rfl, fun _ => rfl, fun _ => rfl⟩

/-- A coroutine sleeps, while the thread is in the inner call of its own `poll`. -/
theorem current_names_inner :
    ∃ s : HookedThreads Unit Nat, s.entered (s.body ()) = [.nanosleep] ∧
      s.entered (.inl ()) = [.poll] ∧ s.Names () := by
  obtain ⟨s, hrun, hinner, houter⟩ : ∃ s : HookedThreads Unit Nat,
      run step (fresh toString) [.enter () .poll, .resume () 0 0, .enter () .nanosleep] = some s ∧
      s.entered (s.body ()) = [.nanosleep] ∧ s.entered (.inl ()) = [.poll] :=
    ⟨_, rfl, rfl, rfl⟩
  have hstays : Guarded step StaysInside (fresh toString : HookedThreads Unit Nat)
      [.enter () .poll, .resume () 0 0, .enter () .nanosleep] := by
    refine ⟨rfl, ?_⟩
    rintro _ ⟨⟩
    refine ⟨trivial, ?_⟩
    rintro _ ⟨⟩
    exact ⟨rfl, fun _ _ => trivial⟩
  exact ⟨s, hinner, houter, (current_names (fresh_initial toString) (.of_run _ hrun hstays)).1 ()⟩

/-- Coroutine 0 sleeps and coroutine 1 waits to receive. Coroutine 0 is back in its sleep. -/
theorem current_names_other :
    ∃ s : HookedThreads Unit Nat, Reaches step Free (fresh toString) s ∧
      s.threads.active () = [0] ∧ s.entered (s.body ()) = [.nanosleep] ∧
      Syscall.current (s.syscall ()) = some .recv ∧ ¬ s.Names () := by
  obtain ⟨s, h, hactive, hentered, hcurrent⟩ : ∃ s : HookedThreads Unit Nat,
      run step (fresh toString) [.resume () 0 0, .enter () .nanosleep, .leave () (.untilWith () 5),
        .resume () 1 0, .enter () .recv, .leave () (.untilWith () 9), .resume () 0 5] = some s ∧
      s.threads.active () = [0] ∧ s.entered (s.body ()) = [.nanosleep] ∧
      Syscall.current (s.syscall ()) = some .recv :=
    ⟨_, rfl, rfl, rfl, rfl⟩
  refine ⟨s, .of_run _ h (guarded_free _), hactive, hentered, hcurrent, fun hnames => ?_⟩
  have hown := hnames.own .nanosleep (by rw [hentered]; rfl)
  rw [hcurrent] at hown
  cases hown

end HookedThreads

end OpenCoroutine
