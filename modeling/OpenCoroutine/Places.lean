import Mathlib.Order.Monotone.Defs
import OpenCoroutine.Conservation
import OpenCoroutine.World

/-! Where the coroutines of a system of schedulers are. Every container holds coroutines
in the states it is made for, and the names found in all of them, in the calls of
`resume_with` in progress and among the finished are those of the coroutines submitted,
each once. Bodies are `Disciplined`: they yield in state `Running` or `SystemCall` and
end in state `Running`, and every submitted coroutine has a name of its own. -/

namespace OpenCoroutine

open Family Transition

def CoroutineState.isSystemCall {Y R : Type*} : CoroutineState Y R → Bool
  | .systemCall _ _ _ => true
  | _ => false

/-- `resume_with` at `time` or later runs the body. -/
structure CoroutineImpl.Resumable (co : Co) (time : Nat) : Prop where
  alive : co.done = false
  state : co.state = .ready ∨ (∃ timestamp, co.state = .suspend () timestamp ∧ timestamp ≤ time) ∨
    co.state.isSystemCall = true

/-- A coroutine as the ready queue holds it, whether or not its time has come. -/
structure CoroutineImpl.Queued (co : Co) : Prop where
  alive : co.done = false
  state : co.state = .ready ∨ (∃ timestamp, co.state = .suspend () timestamp) ∨
    co.state.isSystemCall = true

theorem CoroutineImpl.Resumable.queued {co : Co} {time : Nat} (h : co.Resumable time) :
    co.Queued := by
  refine ⟨h.alive, ?_⟩
  rcases h.state with hr | ⟨timestamp, hs, -⟩ | hc
  · exact .inl hr
  · exact .inr (.inl ⟨timestamp, hs⟩)
  · exact .inr (.inr hc)

theorem CoroutineImpl.Resumable.mono {co : Co} {time time' : Nat} (h : co.Resumable time)
    (hle : time ≤ time') : co.Resumable time' := by
  refine ⟨h.alive, ?_⟩
  rcases h.state with hr | ⟨timestamp, hs, ht⟩ | hc
  · exact .inl hr
  · exact .inr (.inl ⟨timestamp, hs, ht.trans hle⟩)
  · exact .inr (.inr hc)

def names (m : Multiset Co) : Multiset String := m.map fun co => co.name

@[simp] theorem names_add (m m' : Multiset Co) : names (m + m') = names m + names m' :=
  Multiset.map_add _ _ _

@[simp] theorem names_singleton (co : Co) : names {co} = {co.name} := rfl

@[simp] theorem names_zero : names 0 = 0 := rfl

theorem names_cons (co : Co) (l : List Co) : names ↑(co :: l) = {co.name} + names ↑l := by
  rw [← Multiset.cons_coe, ← Multiset.singleton_add, names_add, names_singleton]

def SchedulerImpl.parked {n : Nat} (sched : SchedulerImpl n) : Multiset Co :=
  (sched.suspend.elems.map Prod.snd : Multiset Co) + (sched.syscall.entries.map Sigma.snd :)

namespace View

variable {n : Nat} {now : Nat → Nat}

structure Sound (now : Nat → Nat) (v : View n) : Prop where
  ready : ∀ co ∈ v.queue.contents, co.Resumable (now v.readings)
  suspended : ∀ e ∈ v.sched.suspend.elems, e.2.done = false ∧ e.2.state = .suspend () e.1
  syscall : ∀ e ∈ v.sched.syscall.entries,
    e.2.name = e.1 ∧ e.2.done = false ∧ e.2.state.isSystemCall = true

def held (v : View n) : Multiset Co := v.queue.contents + v.sched.parked

/-- The operation goes through and adds the coroutines named in `x`. -/
structure Adds (now : Nat → Nat) (v : View n) (x : Multiset String) (r : Option Stop × View n) :
    Prop where
  through : r.1 = none
  sound : r.2.Sound now
  names : names r.2.held = x + names v.held
  later : v.readings ≤ r.2.readings

theorem Adds.trans {v v' : View n} {x y : Multiset String} {r : Option Stop × View n}
    (h : Adds now v x (none, v')) (h' : Adds now v' y r) : Adds now v (x + y) r where
  through := h'.through
  sound := h'.sound
  names := by rw [h'.names, h.names, add_left_comm, add_assoc]
  later := h.later.trans h'.later

theorem contents_pushReady (v : View n) (co : Co) :
    (v.pushReady co).queue.contents = {co} + v.queue.contents :=
  (v.sched.ready.pushBack_gets v.queue co).contents

theorem mem_pushReady {v : View n} {co co' : Co} :
    co' ∈ (v.pushReady co).queue.contents ↔ co' = co ∨ co' ∈ v.queue.contents := by
  rw [contents_pushReady, Multiset.mem_add, Multiset.mem_singleton]

theorem names_pushReady (v : View n) (co : Co) :
    names (v.pushReady co).held = {co.name} + names v.held := by
  rw [held, held, names_add, names_add, ← add_assoc]
  congr 1
  rw [contents_pushReady, names_add, names_singleton]

/-- An entry that is taken out of the suspend list. -/
theorem names_popSuspend {v : View n} {time : Nat} {entry : TimerEntry Co}
    {suspend : TimerList Co}
    (hpop : v.sched.suspend.popFront = some ((time, entry), suspend)) :
    names v.held = names entry.inner + names (v.tick.setSuspend suspend).held := by
  have hmap : (entry.inner.map fun t => (time, t)).map Prod.snd = entry.inner := by
    simp [Function.comp_def]
  show names (v.queue.contents + (↑(v.sched.suspend.elems.map Prod.snd) +
    ↑(v.sched.syscall.entries.map Sigma.snd))) = names ↑entry.inner +
    names (v.queue.contents + (↑(suspend.elems.map Prod.snd) +
      ↑(v.sched.syscall.entries.map Sigma.snd)))
  rw [TimerList.elems_popFront hpop, List.map_append, hmap, ← Multiset.coe_add, ← names_add]
  congr 1
  ac_rfl

theorem names_insertSuspend (v : View n) (timestamp : Nat) (co : Co) :
    names (v.setSuspend (v.sched.suspend.insert timestamp co)).held =
      {co.name} + names v.held := by
  have hperm := (TimerList.elems_insert_perm v.sched.suspend timestamp co).map Prod.snd
  show names (v.queue.contents + (↑((TimerList.insert v.sched.suspend timestamp co).elems.map
    Prod.snd) + ↑(v.sched.syscall.entries.map Sigma.snd))) =
    {co.name} + names (v.queue.contents + (↑(v.sched.suspend.elems.map Prod.snd) +
      ↑(v.sched.syscall.entries.map Sigma.snd)))
  rw [Multiset.coe_eq_coe.2 hperm, List.map_cons, ← Multiset.cons_coe,
    ← Multiset.singleton_add, ← names_singleton, ← names_add]
  congr 1
  ac_rfl

/-- A coroutine that is taken out of the syscall table. -/
theorem names_extract {v : View n} {coName : String} {co : Co} {syscall : SyscallTable}
    (he : v.sched.syscall.extract coName = (some co, syscall)) :
    names v.held = {co.name} + names (v.setSyscall syscall).held := by
  have hperm := SyscallTable.entries_extract he
  have hmap : (v.sched.syscall.entries.map Sigma.snd : Multiset Co) =
      {co} + ↑(syscall.entries.map Sigma.snd) := by
    rw [Multiset.coe_eq_coe.2 (hperm.map Sigma.snd), List.map_cons, ← Multiset.cons_coe,
      ← Multiset.singleton_add]
  show names (v.queue.contents + (_ + ↑(v.sched.syscall.entries.map Sigma.snd))) =
    {co.name} + names (v.queue.contents + (_ + ↑(syscall.entries.map Sigma.snd)))
  rw [hmap, ← names_singleton, ← names_add]
  congr 1
  ac_rfl

theorem Sound.pushReady {v : View n} (h : v.Sound now) {co : Co}
    (hco : co.Resumable (now v.readings)) : (v.pushReady co).Sound now where
  ready co' hm := by
    rcases mem_pushReady.1 hm with rfl | hm
    · exact hco
    · exact h.ready co' hm
  suspended := h.suspended
  syscall := h.syscall

theorem Sound.tick (hmono : Monotone now) {v : View n} (h : v.Sound now) : v.tick.Sound now where
  ready co hm := (h.ready co hm).mono (hmono (Nat.le_succ _))
  suspended := h.suspended
  syscall := h.syscall

theorem wakeEntry_adds (hmono : Monotone now) {entry : List Co} {v : View n} (h : v.Sound now)
    (hdue : ∀ co ∈ entry, co.done = false ∧
      ∃ timestamp, co.state = .suspend () timestamp ∧ timestamp ≤ now v.readings) :
    Adds now v (names entry) (wakeEntry now entry v) := by
  induction entry generalizing v with
  | nil => exact ⟨rfl, h, by simp [View.wakeEntry], le_rfl⟩
  | cons co entry ih =>
    obtain ⟨hdone, timestamp, hst, ht⟩ := hdue co List.mem_cons_self
    have hle : now v.readings ≤ now v.tick.readings := hmono (Nat.le_succ _)
    have hco : (⟨co.name, .ready, co.done⟩ : Co).Resumable (now v.tick.readings) :=
      ⟨hdone, .inl rfl⟩
    have hv := (h.tick hmono).pushReady hco
    have hi := ih hv fun co' hm => by
      obtain ⟨hd, ts, hs, hts⟩ := hdue co' (List.mem_cons_of_mem _ hm)
      exact ⟨hd, ts, hs, hts.trans hle⟩
    rw [View.wakeEntry, CoroutineImpl.ready_of_due hst ht]
    refine ⟨hi.through, hi.sound, ?_, (Nat.le_succ _).trans hi.later⟩
    rw [hi.names, names_pushReady, names_cons, add_left_comm, add_assoc]
    rfl

theorem Adds.skip (hmono : Monotone now) {v : View n} (h : v.Sound now) :
    Adds now v 0 (none, v.tick) :=
  ⟨rfl, h.tick hmono, by rw [zero_add]; rfl, Nat.le_succ _⟩

theorem Adds.then {v v' : View n} {x : Multiset String} {r : Option Stop × View n}
    (h : Adds now v 0 (none, v')) (h' : Adds now v' x r) : Adds now v x r := by
  simpa using h.trans h'

theorem Adds.refl {v : View n} (h : v.Sound now) : Adds now v 0 (none, v) :=
  ⟨rfl, h, by rw [zero_add], le_rfl⟩

theorem Adds.loop {v v' : View n} {r : Option Stop × View n}
    (h : v.Sound now → Adds now v 0 (none, v')) (h' : v'.Sound now → Adds now v' 0 r)
    (hv : v.Sound now) : Adds now v 0 r := (h hv).then (h' (h hv).sound)

theorem wakeSuspended_adds (hmono : Monotone now) (count : Nat) {v : View n} (h : v.Sound now) :
    Adds now v 0 (wakeSuspended now count v) := by
  refine wakeSuspended_loop (R := fun v r => v.Sound now → Adds now v 0 r) (fun _ h => .refl h)
    (fun _ h => .skip hmono h) (fun _ _ _ => Adds.loop) ?_ count v h
  intro v time entry suspend hpop htime h
  have helems := TimerList.elems_popFront hpop
  have hs : (v.tick.setSuspend suspend).Sound now := by
    refine ⟨(h.tick hmono).ready, fun e he => ?_, h.syscall⟩
    exact h.suspended e (by rw [helems]; exact List.mem_append_right _ he)
  have hw := wakeEntry_adds hmono hs fun co hco => by
    have hm : (time, co) ∈ v.sched.suspend.elems := by
      rw [helems]
      exact List.mem_append_left _ (List.mem_map_of_mem hco)
    obtain ⟨hd, hst⟩ := h.suspended _ hm
    have hle : now v.readings ≤ now v.tick.readings := hmono (Nat.le_succ _)
    exact ⟨hd, time, hst, htime.trans hle⟩
  refine ⟨hw.through, hw.sound, ?_, (Nat.le_succ _).trans hw.later⟩
  rw [hw.names, names_popSuspend hpop, zero_add]

theorem Sound.setSyscall {v : View n} (h : v.Sound now) {coName : String} {co : Co}
    {syscall : SyscallTable} (he : v.sched.syscall.extract coName = (some co, syscall)) :
    (v.setSyscall syscall).Sound now ∧ co.done = false ∧ co.state.isSystemCall = true ∧
      names v.held = {co.name} + names (v.setSyscall syscall).held := by
  have hperm := SyscallTable.entries_extract he
  obtain ⟨-, hdone, hst⟩ := h.syscall _ (hperm.mem_iff.2 List.mem_cons_self)
  refine ⟨⟨h.ready, h.suspended, fun e hm => ?_⟩, hdone, hst, names_extract he⟩
  exact h.syscall e (hperm.mem_iff.2 (List.mem_cons_of_mem _ hm))

theorem Sound.moveReady {v : View n} (h : v.Sound now) {coName : String} {co co' : Co}
    {syscall : SyscallTable} (he : v.sched.syscall.extract coName = (some co, syscall))
    (hname : co'.name = co.name) (hdone : co'.done = co.done)
    (hst : co'.state.isSystemCall = true) :
    Adds now v 0 (none, (v.setSyscall syscall).pushReady co') := by
  obtain ⟨hs, hd, -, hnames⟩ := h.setSyscall he
  refine ⟨rfl, hs.pushReady ⟨hdone.trans hd, .inr (.inr hst)⟩, ?_, le_rfl⟩
  rw [names_pushReady, hname, zero_add, hnames]

theorem timeOut_eq {co : Co} (h : co.state.isSystemCall = true) :
    ∃ co', timeOut co = .ok co' ∧ co'.name = co.name ∧ co'.done = co.done ∧
      co'.state.isSystemCall = true := by
  cases hst : co.state with
  | systemCall y call state =>
    cases state with
    | suspend timestamp =>
      refine ⟨{ co with state := .systemCall y call .timeout }, ?_, rfl, rfl, rfl⟩
      simp only [timeOut, hst, CoroutineImpl.syscall_of_systemCall hst]
    | computing | calling _ | timeout | finished =>
      exact ⟨co, by simp only [timeOut, hst], rfl, rfl, h⟩
  | created | ready | running | suspend _ _ | complete _ | error _ =>
    rw [hst] at h
    cases h

theorem timeoutEntry_adds (time : Nat) (entry : List String) {v : View n} (h : v.Sound now) :
    Adds now v 0 (timeoutEntry time entry v) := by
  induction entry generalizing v with
  | nil => exact .refl h
  | cons coName entry ih =>
    rw [View.timeoutEntry]
    split
    · exact ih h
    · rename_i co syscall he
      obtain ⟨co', hco', hname, hdone, hst⟩ := timeOut_eq (h.setSyscall he).2.2.1
      have hmove := h.moveReady he hname hdone hst
      have hfire : Adds now v 0 (none, ((v.setSyscall syscall).fire co time).pushReady co') :=
        ⟨rfl, ⟨hmove.sound.ready, hmove.sound.suspended, hmove.sound.syscall⟩, hmove.names, le_rfl⟩
      rw [hco']
      exact hfire.then (ih hfire.sound)

theorem wakeTimedOut_adds (hmono : Monotone now) (count : Nat) {v : View n} (h : v.Sound now) :
    Adds now v 0 (wakeTimedOut now count v) := by
  refine wakeTimedOut_loop (R := fun v r => v.Sound now → Adds now v 0 r) (fun _ h => .refl h)
    (fun _ h => .skip hmono h) (fun _ _ _ => Adds.loop) ?_ count v h
  intro v time entry syscallSuspend _ _ h
  have hs : Adds now v 0 (none, v.tick.setSyscallSuspend syscallSuspend) :=
    ⟨rfl, ⟨(h.tick hmono).ready, h.suspended, h.syscall⟩, by rw [zero_add]; rfl, Nat.le_succ _⟩
  exact hs.then (timeoutEntry_adds (now v.readings) entry.inner hs.sound)

theorem checkReady_adds (hmono : Monotone now) {v : View n} (h : v.Sound now) :
    Adds now v 0 (v.checkReady now) :=
  checkReady_loops (R := fun v r => v.Sound now → Adds now v 0 r) (fun _ _ _ => Adds.loop)
    (fun count _ h => wakeSuspended_adds hmono count h)
    (fun count _ h => wakeTimedOut_adds hmono count h) v h

theorem submit_adds {v : View n} (h : v.Sound now) (uuid : String) :
    Adds now v {v.sched.name ++ "|" ++ uuid} (v.submit now uuid) := by
  have hco : (⟨v.sched.name ++ "|" ++ uuid, .ready, false⟩ : Co).Resumable (now v.readings) :=
    ⟨rfl, .inl rfl⟩
  exact ⟨rfl, h.pushReady hco, names_pushReady _ _, le_rfl⟩

theorem tryResume_adds {v : View n} (h : v.Sound now) (coName : String) :
    Adds now v 0 (v.tryResume coName) := by
  rw [View.tryResume]
  split
  · exact .refl h
  · rename_i co syscall he
    obtain ⟨-, -, hst, -⟩ := h.setSyscall he
    cases hco : co.state with
    | systemCall y call state =>
      simp only [CoroutineImpl.syscall_of_systemCall hco]
      exact h.moveReady he rfl rfl rfl
    | created | ready | running | suspend _ _ | complete _ | error _ =>
      rw [hco] at hst
      cases hst

theorem place_adds (hmono : Monotone now) {v : View n} (h : v.Sound now) {co : Co}
    {result : CoroutineState Unit Unit} (hst : co.state = result) (hdone : co.done = false)
    (hresult : (∃ timestamp, result = .suspend () timestamp) ∨ result.isSystemCall = true)
    (hnew : co.name ∉ v.sched.syscall) : Adds now v {co.name} (v.place now co result) := by
  cases result with
  | suspend y timestamp =>
    rw [View.place]
    split
    · rename_i hdue
      have hco : co.Resumable (now v.tick.readings) :=
        ⟨hdone, .inr (.inl ⟨timestamp, hst, hdue.trans (hmono (Nat.le_succ _))⟩)⟩
      exact ⟨rfl, (h.tick hmono).pushReady hco, names_pushReady _ _, Nat.le_succ _⟩
    · have ht := h.tick hmono
      refine ⟨rfl, ⟨ht.ready, fun e he => ?_, ht.syscall⟩, names_insertSuspend v timestamp co,
        Nat.le_succ _⟩
      rcases TimerList.mem_elems_insert.1 he with rfl | he
      · exact ⟨hdone, hst⟩
      · exact h.suspended e he
  | systemCall y call state =>
    have hinsert : Adds now v {co.name}
        (none, v.setSyscall (v.sched.syscall.insert co.name co)) := by
      have hentries : (v.sched.syscall.insert co.name co).entries =
          ⟨co.name, co⟩ :: v.sched.syscall.entries := AList.entries_insert_of_notMem hnew
      refine ⟨rfl, ⟨h.ready, h.suspended, fun e he => ?_⟩, ?_, le_rfl⟩
      · have he' : e ∈ (v.sched.syscall.insert co.name co).entries := he
        rw [hentries, List.mem_cons] at he'
        rcases he' with rfl | he'
        · exact ⟨rfl, hdone, by rw [hst]; rfl⟩
        · exact h.syscall e he'
      · show names (v.queue.contents + (↑(v.sched.suspend.elems.map Prod.snd) +
          ↑((v.sched.syscall.insert co.name co).entries.map Sigma.snd))) =
          {co.name} + names (v.queue.contents + (↑(v.sched.suspend.elems.map Prod.snd) +
            ↑(v.sched.syscall.entries.map Sigma.snd)))
        rw [hentries, List.map_cons, ← Multiset.cons_coe, ← Multiset.singleton_add,
          ← names_singleton, ← names_add]
        congr 1
        ac_rfl
    cases state with
    | suspend timestamp =>
      exact ⟨rfl, ⟨hinsert.sound.ready, hinsert.sound.suspended, hinsert.sound.syscall⟩,
        hinsert.names, le_rfl⟩
    | computing | calling _ | timeout | finished => exact hinsert
  | created | ready | running | complete _ | error _ =>
    rcases hresult with ⟨timestamp, he⟩ | he
    · cases he
    · cases he

end View

namespace CoroutineImpl

def MayLeave (co : Co) : Leave Unit Unit → Prop
  | .suspendWith _ | .untilWith _ _ => co.state = .running ∨ co.state.isSystemCall = true
  | .returns _ | .panics _ | .traps => co.state = .running

instance (co : Co) : (o : Leave Unit Unit) → Decidable (co.MayLeave o)
  | .suspendWith _ | .untilWith _ _ =>
    inferInstanceAs (Decidable (co.state = .running ∨ co.state.isSystemCall = true))
  | .returns _ | .panics _ | .traps => inferInstanceAs (Decidable (co.state = .running))

/-- A coroutine that `resume_with` has given back with `result`: parked with a body that
goes on, or ended. -/
def Yielded (co : Co) (result : CoroutineState Unit Unit) : Prop :=
  co.state = result ∧
    (co.done = false ∧ ((∃ timestamp, result = .suspend () timestamp) ∨ result.isSystemCall = true) ∨
      result = .complete () ∨ ∃ message, result = .error message)

theorem leave_yielded {co : Co} {l : Locals String} {o : Leave Unit Unit} (hdone : co.done = false)
    (h : co.MayLeave o) :
    ∃ result co' l', co.leave l o = (.ok result, co', l') ∧ co'.name = co.name ∧
      co'.Yielded result := by
  have hyield : ∀ (y : Unit) (l : Locals String),
      co.state = .running ∨ co.state.isSystemCall = true →
      ∃ result co' l', co.resumeExit l (.yield y) = (.ok result, co', l') ∧ co'.name = co.name ∧
        co'.Yielded result := by
    intro y l hst
    cases hs : co.state with
    | running =>
      refine ⟨.suspend y l.popTimestamp.1, { co with state := .suspend y l.popTimestamp.1 },
        l.popTimestamp.2.cleanCoroutine, ?_, rfl, rfl, .inl ⟨hdone, .inl ⟨_, rfl⟩⟩⟩
      simp [resumeExit, hs, CoroutineImpl.suspend]
    | systemCall y' call state =>
      refine ⟨.systemCall y' call state, co, l.cleanCoroutine, ?_, rfl, hs,
        .inl ⟨hdone, .inr rfl⟩⟩
      simp [resumeExit, hs]
    | created | ready | suspend _ _ | complete _ | error _ => simp [hs, CoroutineState.isSystemCall] at hst
  have herror : ∀ (message : String) (l : Locals String), co.state = .running →
      ∃ result co' l', co.resumeExit l (.return (.error message)) = (.ok result, co', l') ∧
        co'.name = co.name ∧ co'.Yielded result := by
    intro message l hs
    refine ⟨.error message, ⟨co.name, .error message, true⟩, l.cleanCoroutine, ?_, rfl, rfl,
      .inr (.inr ⟨message, rfl⟩)⟩
    simp [resumeExit, error, hs]
  cases o with
  | suspendWith arg => exact hyield arg _ h
  | untilWith arg timestamp => exact hyield arg _ h
  | returns val =>
    have hs : co.state = .running := h
    refine ⟨.complete val, ⟨co.name, .complete val, true⟩, l.cleanSuspender.cleanCoroutine, ?_,
      rfl, rfl, .inr (.inl rfl)⟩
    simp [leave, Leave.onBody, resumeExit, complete, hs]
  | panics message => exact herror message _ h
  | traps => exact herror _ _ h

theorem Queued.enter_fails {co co' : Co} {l l' : Locals String} {time : Nat}
    {result : Except IoError (CoroutineState Unit Unit)} (h : co.Queued)
    (he : co.resumeEnter co.name l time = (some result, co', l')) : ∃ e, result = .error e := by
  unfold resumeEnter at he
  split at he
  · rename_i r hst
    have hstate := h.state
    simp [hst, CoroutineState.isSystemCall] at hstate
  · split at he
    · rename_i e co₁ _
      exact ⟨e, (Option.some.inj (Prod.mk.inj he).1).symm⟩
    · cases (Prod.mk.inj he).1

theorem enter_resumable {co : Co} {l : Locals String} {time : Nat} (h : co.Resumable time) :
    ∃ co' l', co.resumeEnter co.name l time = (none, co', l') ∧ co'.name = co.name ∧
      co'.done = false := by
  refine ⟨(co.running time).2, (l.initCoroutine co.name).initSuspender co.name, ?_⟩
  rcases h.state with hs | ⟨timestamp, hs, ht⟩ | hs
  · simp [resumeEnter, CoroutineImpl.running, hs, h.alive]
  · simp [resumeEnter, CoroutineImpl.running, hs, ht, h.alive]
  · cases hst : co.state with
    | systemCall y call state => simp [resumeEnter, CoroutineImpl.running, hst, h.alive]
    | created | ready | running | suspend _ _ | complete _ | error _ =>
      rw [hst] at hs
      cases hs

end CoroutineImpl

end OpenCoroutine
