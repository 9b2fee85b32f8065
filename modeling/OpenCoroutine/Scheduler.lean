import Mathlib.Data.List.AList
import OpenCoroutine.Coroutine
import OpenCoroutine.Timer
import OpenCoroutine.WorkSteal

/-! `SchedulerImpl`: its containers, and the operations that work through them in one
go. The ready queue is a handle on the shared work-stealing queue, the syscall table a
map from names to coroutines. A `View` is what such an operation sees: the shared queue,
the scheduler, the clock and the record of the timers that fired. The clock is a sequence
`now` of readings, of which a view has taken the first `readings`.

`check_ready` gives up with a `Stop` where a method of a coroutine fails or an
`unreachable!` is reached; the coroutine and the rest of the entry are then dropped. -/

namespace OpenCoroutine

abbrev Co := CoroutineImpl Unit Unit

abbrev SyscallTable := AList fun _ : String => Co

/-- A key taken out of the table takes exactly its entry. -/
theorem SyscallTable.entries_extract {table table' : SyscallTable} {coName : String} {co : Co}
    (h : table.extract coName = (some co, table')) :
    table.entries.Perm (⟨coName, co⟩ :: table'.entries) := by
  rw [AList.extract_eq_lookup_erase, Prod.mk.injEq] at h
  obtain ⟨hl, rfl⟩ := h
  have hm : ⟨coName, co⟩ ∈ table.entries := AList.mem_lookup_iff.1 hl
  obtain ⟨co', l, l', hnot, he, hk⟩ := List.exists_of_kerase (List.mem_keys_of_mem hm)
  have hnd := table.nodupKeys
  have hco : co' = co := by
    have hm' : (⟨coName, co'⟩ : Sigma fun _ : String => Co) ∈ table.entries := by
      rw [he]
      simp
    have heq := hnd.eq_of_mk_mem hm' hm
    exact heq
  subst hco
  have herase : (table.erase coName).entries = l ++ l' := hk
  rw [he, herase]
  exact List.perm_middle

structure SchedulerImpl (n : Nat) where
  name : String
  ready : LocalQueue n
  suspend : TimerList Co
  syscall : SyscallTable
  syscallSuspend : TimerList String

def SchedulerImpl.new {n : Nat} (name : String) (ready : LocalQueue n) : SchedulerImpl n where
  name := name
  ready := ready
  suspend := OrderedMap.empty
  syscall := ∅
  syscallSuspend := OrderedMap.empty

inductive Stop where
  | err (e : IoError)
  | unreachable (message : String)
  deriving DecidableEq, Repr

/-- `fired` holds the coroutines a timer entry has taken out of the syscall table, as
they were, with the reading of the clock at which it did. -/
structure View (n : Nat) where
  queue : WorkStealQueue Co n
  sched : SchedulerImpl n
  readings : Nat
  fired : List (Co × Nat)

namespace View

variable {n : Nat}

def tick (v : View n) : View n := { v with readings := v.readings + 1 }

def pushReady (v : View n) (co : Co) : View n :=
  { v with queue := v.sched.ready.pushBack v.queue co }

def setSuspend (v : View n) (suspend : TimerList Co) : View n :=
  { v with sched := { v.sched with suspend } }

def setSyscall (v : View n) (syscall : SyscallTable) : View n :=
  { v with sched := { v.sched with syscall } }

def setSyscallSuspend (v : View n) (syscallSuspend : TimerList String) : View n :=
  { v with sched := { v.sched with syscallSuspend } }

def fire (v : View n) (co : Co) (time : Nat) : View n := { v with fired := (co, time) :: v.fired }

variable (now : Nat → Nat)

def wakeEntry : List Co → View n → Option Stop × View n
  | [], v => (none, v)
  | co :: entry, v =>
    match co.ready (now v.readings) with
    | (.ok (), co) => wakeEntry entry (v.tick.pushReady co)
    | (.error e, _) => (some (.err e), v.tick)

def wakeSuspended : Nat → View n → Option Stop × View n
  | 0, v => (none, v)
  | count + 1, v =>
    match v.sched.suspend.front with
    | none => wakeSuspended count v
    | some (execTime, _) =>
      if now v.readings < execTime then (none, v.tick)
      else
        match v.sched.suspend.popFront with
        | none => wakeSuspended count v.tick
        | some ((_, entry), suspend) =>
          match wakeEntry now entry.inner (v.tick.setSuspend suspend) with
          | (none, v) => wakeSuspended count v
          | (some stop, v) => (some stop, v)

/-- The state in which a timer entry makes a coroutine of the syscall table ready. -/
def timeOut (co : Co) : Except Stop Co :=
  match co.state with
  | .systemCall val syscall (.suspend _) =>
    match co.syscall val syscall .timeout with
    | (.ok (), co) => .ok co
    | (.error e, _) => .error (.err e)
  | .systemCall _ _ _ => .ok co
  | _ => .error (.unreachable "check_ready should never execute to here")

def timeoutEntry (time : Nat) : List String → View n → Option Stop × View n
  | [], v => (none, v)
  | coName :: entry, v =>
    match v.sched.syscall.extract coName with
    | (none, _) => timeoutEntry time entry v
    | (some co, syscall) =>
      match timeOut co with
      | .ok ready => timeoutEntry time entry (((v.setSyscall syscall).fire co time).pushReady ready)
      | .error stop => (some stop, v.setSyscall syscall)

def wakeTimedOut : Nat → View n → Option Stop × View n
  | 0, v => (none, v)
  | count + 1, v =>
    match v.sched.syscallSuspend.front with
    | none => wakeTimedOut count v
    | some (execTime, _) =>
      if now v.readings < execTime then (none, v.tick)
      else
        match v.sched.syscallSuspend.popFront with
        | none => wakeTimedOut count v.tick
        | some ((_, entry), syscallSuspend) =>
          match timeoutEntry (now v.readings) entry.inner
            (v.tick.setSyscallSuspend syscallSuspend) with
          | (none, v) => wakeTimedOut count v
          | (some stop, v) => (some stop, v)

def checkReady (v : View n) : Option Stop × View n :=
  match wakeSuspended now v.sched.suspend.entryLen v with
  | (none, v) => wakeTimedOut now v.sched.syscallSuspend.entryLen v
  | (some stop, v) => (some stop, v)

def submit (v : View n) (uuid : String) : Option Stop × View n :=
  match ({ name := v.sched.name ++ "|" ++ uuid } : Co).ready (now v.readings) with
  | (.ok (), co) => (none, v.pushReady co)
  | (.error e, _) => (some (.err e), v)

def tryResume (v : View n) (coName : String) : Option Stop × View n :=
  match v.sched.syscall.extract coName with
  | (none, _) => (none, v)
  | (some co, syscall) =>
    match co.state with
    | .systemCall val call _ =>
      match co.syscall val call .computing with
      | (.ok (), co) => (none, (v.setSyscall syscall).pushReady co)
      | (.error e, _) => (some (.err e), v.setSyscall syscall)
    | _ => (some (.unreachable "try_resume should never execute to here"), v.setSyscall syscall)

/-- Where `try_timeout_schedule` puts a coroutine that has yielded `result`. -/
def place (v : View n) (co : Co) : CoroutineState Unit Unit → Option Stop × View n
  | .suspend () timestamp =>
    if timestamp ≤ now v.readings then (none, v.tick.pushReady co)
    else (none, v.tick.setSuspend (v.sched.suspend.insert timestamp co))
  | .systemCall () _ state =>
    let v :=
      match state with
      | .suspend timestamp =>
        v.setSyscallSuspend (v.sched.syscallSuspend.insert timestamp co.name)
      | _ => v
    (none, v.setSyscall (v.sched.syscall.insert co.name co))
  | .complete () | .error _ => (none, v)
  | _ => (some (.err ⟨.other, "try_timeout_schedule should never execute to here"⟩), v)

/-! Rules for the loops of `check_ready`. What composes, and holds of each entry that a loop
goes through, holds of the loop. -/

variable {now} {R : View n → Option Stop × View n → Prop}

theorem wakeSuspended_loop (hskip : ∀ v, R v (none, v)) (htick : ∀ v, R v (none, v.tick))
    (htrans : ∀ v v' r, R v (none, v') → R v' r → R v r)
    (hentry : ∀ v time entry suspend,
      v.sched.suspend.popFront = some ((time, entry), suspend) → time ≤ now v.readings →
      R v (wakeEntry now entry.inner (v.tick.setSuspend suspend)))
    (count : Nat) (v : View n) : R v (wakeSuspended now count v) := by
  induction count generalizing v with
  | zero => exact hskip v
  | succ count ih =>
    rw [wakeSuspended]
    split
    · exact ih v
    · rename_i execTime _ hfront
      split
      · exact htick v
      · rename_i hdue
        split
        · exact htrans _ _ _ (htick v) (ih v.tick)
        · rename_i time entry suspend hpop
          have hfirst := OrderedMap.popFirst_of_first? hfront hpop
          have htime : time = execTime := congrArg Prod.fst hfirst
          have hw := hentry v time entry suspend hpop (by omega)
          split
          · rename_i v' he
            rw [he] at hw
            exact htrans _ _ _ hw (ih v')
          · rename_i stop v' he
            rw [he] at hw
            exact hw

theorem wakeTimedOut_loop (hskip : ∀ v, R v (none, v)) (htick : ∀ v, R v (none, v.tick))
    (htrans : ∀ v v' r, R v (none, v') → R v' r → R v r)
    (hentry : ∀ v time entry syscallSuspend,
      v.sched.syscallSuspend.popFront = some ((time, entry), syscallSuspend) →
      time ≤ now v.readings →
      R v (timeoutEntry (now v.readings) entry.inner (v.tick.setSyscallSuspend syscallSuspend)))
    (count : Nat) (v : View n) : R v (wakeTimedOut now count v) := by
  induction count generalizing v with
  | zero => exact hskip v
  | succ count ih =>
    rw [wakeTimedOut]
    split
    · exact ih v
    · rename_i execTime _ hfront
      split
      · exact htick v
      · rename_i hdue
        split
        · exact htrans _ _ _ (htick v) (ih v.tick)
        · rename_i time entry syscallSuspend hpop
          have hfirst := OrderedMap.popFirst_of_first? hfront hpop
          have htime : time = execTime := congrArg Prod.fst hfirst
          have hw := hentry v time entry syscallSuspend hpop (by omega)
          split
          · rename_i v' he
            rw [he] at hw
            exact htrans _ _ _ hw (ih v')
          · rename_i stop v' he
            rw [he] at hw
            exact hw

theorem checkReady_loops (htrans : ∀ v v' r, R v (none, v') → R v' r → R v r)
    (hwake : ∀ count v, R v (wakeSuspended now count v))
    (htimeOut : ∀ count v, R v (wakeTimedOut now count v)) (v : View n) :
    R v (v.checkReady now) := by
  have hw := hwake v.sched.suspend.entryLen v
  rw [checkReady]
  split
  · rename_i v' he
    rw [he] at hw
    exact htrans _ _ _ hw (htimeOut _ v')
  · rename_i stop v' he
    rw [he] at hw
    exact hw

end View

end OpenCoroutine
