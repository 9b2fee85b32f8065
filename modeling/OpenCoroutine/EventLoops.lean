import OpenCoroutine.NoneLost
import OpenCoroutine.Selector

/-! `EventLoops`: `m` loops, each with a poller and a scheduler of its own, that share the
tables of `SelectorImpl` and the round-robin `INDEX`, with the feature
`preemptive-schedule` on. Loop `j` works through the scheduler `pool j`.

A call of `next` reads `INDEX` in one step, and the loop it picked stays in `picks` until
its caller uses it, so other callers come in between. A token is the address of a leaked
copy of the name of the current coroutine, or the id of the thread. An event whose key is
no such address makes `map_name` read memory that nobody wrote; the label of the step says
what it finds there. `pending j` holds the descriptors that calls of `select` on loop `j` have reported
and `wait_just` has still to go through. -/

namespace OpenCoroutine

open Function Transition

def monitorCpu : Nat := 0

structure EventLoops (ι θ : Type*) (m n : Nat) where
  world : World ι θ n
  pollers : Fin m → Poller
  tables : Tables
  index : Nat
  resets : Nat := 0
  picks : List (Fin m) := []
  leaked : Nat → Option String := fun _ => none
  pending : Fin m → List (Fd × Event) := fun _ => []

namespace EventLoops

inductive Act (ι θ : Type*) (m : Nat) where
  | world (a : World.Act ι θ)
  | next (skipMonitor : Bool)
  | reset
  | addEvent (j : Fin m) (t : θ) (d : Direction) (fd : Fd) (fault : Fault) (address threadId : Nat)
  | delInterest (j : Fin m) (d : Direction) (fd : Fd) (fault : Fault)
  | delEvent (j : Fin m) (fd : Fd) (fault : Fault)
  | select (j : Fin m) (ready : List (Fd × Bool × Bool))
  | wake (j : Fin m) (k : Nat) (unwritten : Option String)

variable {ι θ : Type*} {m n : Nat}

def get (m index : Nat) : Option (Fin m) := if h : index < m then some ⟨index, h⟩ else none

/-- The loop that `next` picks at `index`; `none` where its `expect` fails. -/
def pick (m index : Nat) (skipMonitor : Bool) : Option (Fin m) :=
  if skipMonitor && index % m == monitorCpu then get m 1 else get m (index % m)

def selector (s : EventLoops ι θ m n) (j : Fin m) : SelectorImpl := ⟨s.pollers j, s.tables⟩

def setSelector (s : EventLoops ι θ m n) (j : Fin m) (selector : SelectorImpl) :
    EventLoops ι θ m n :=
  { s with pollers := update s.pollers j selector.poller, tables := selector.tables }

def setPending (s : EventLoops ι θ m n) (j : Fin m) (events : List (Fd × Event)) :
    EventLoops ι θ m n :=
  { s with pending := update s.pending j events }

/-- The token of the caller on thread `t`, with the memory it leaks. -/
def token (s : EventLoops ι θ m n) (t : θ) (address threadId : Nat) :
    Option (Nat × EventLoops ι θ m n) :=
  match (s.world.locals t).coroutine.head? with
  | some coName =>
    if '\x00' ∈ coName.toList then none
    else some (address, { s with leaked := update s.leaked address (some coName) })
  | none => some (threadId, s)

def mapName (s : EventLoops ι θ m n) (unwritten : Option String) (key : Nat) : Option String :=
  (s.leaked key).or unwritten

variable [DecidableEq ι] [DecidableEq θ] (now : Nat → Nat) (pool : Fin m → ι)

def step (s : EventLoops ι θ m n) : Act ι θ m → Option (EventLoops ι θ m n)
  | .world a => (s.world.step now a).map fun world => { s with world }
  | .next skipMonitor =>
    some { s with
      index := (s.index + 1) % 2 ^ 64
      resets := s.resets + if skipMonitor && s.index % m == monitorCpu then 1 else 0
      picks := (pick m s.index skipMonitor).toList ++ s.picks }
  | .reset => if s.resets = 0 then none else some { s with index := 1, resets := s.resets - 1 }
  | .addEvent j t d fd fault address threadId =>
    if j ∈ s.picks ∧ s.leaked address = none ∧ address ≠ 0 then
      let s := { s with picks := s.picks.erase j }
      match s.token t address threadId with
      | some (token, s) => some (s.setSelector j ((s.selector j).addEvent d fault fd token).2)
      | none => some s
    else none
  | .delInterest j d fd fault =>
    if j ∈ s.picks then
      some ({ s with picks := s.picks.erase j }.setSelector j
        ((s.selector j).delInterest d fault fd).2)
    else none
  | .delEvent j fd fault =>
    if j ∈ s.picks then
      some ({ s with picks := s.picks.erase j }.setSelector j ((s.selector j).delEvent fault fd).2)
    else none
  | .select j ready =>
    (ready.mapM fun r => (s.pollers j).report r.1 r.2.1 r.2.2).map fun events =>
      (s.setSelector j ((s.selector j).select events)).setPending j
        (s.pending j ++ (ready.map Prod.fst).zip events)
  | .wake j k unwritten =>
    match (s.pending j)[k]? with
    | none => none
    | some (_, event) =>
      let s := s.setPending j ((s.pending j).eraseIdx k)
      match s.mapName unwritten event.key with
      | some coName =>
        (s.world.step now (.tryResume (pool j) coName)).map fun world => { s with world }
      | none => some s

def NewName (s : EventLoops ι θ m n) : Act ι θ m → Prop
  | .world a => s.world.NewName a
  | _ => True

instance (s : EventLoops ι θ m n) : (a : Act ι θ m) → Decidable (s.NewName a)
  | .world a => inferInstanceAs (Decidable (s.world.NewName a))
  | .next _ | .reset | .addEvent .. | .delInterest .. | .delEvent .. | .select .. | .wake .. =>
    isTrue trivial

end EventLoops

end OpenCoroutine
