import Mathlib.Algebra.Group.Nat.Defs
import Mathlib.Logic.Function.Basic
import OpenCoroutine.Rand

/-! The work-stealing queue: a global FIFO with a length counter and `n` local FIFOs of
bounded capacity, each operation taken as one step. The injector and the workers are
the queues their crates document; `steal` moves as many items as asked for, as far as
the destination has room, from the head of one worker to the tail of another, and fails
if that is none. -/

namespace OpenCoroutine

structure Worker (T : Type*) where
  capacity : Nat
  items : List T
  deriving DecidableEq, Repr

/-- `usize::next_power_of_two`. -/
def nextPowerOfTwo (n : Nat) : Nat := if n ≤ 1 then 1 else 2 ^ ((n - 1).log2 + 1)

namespace Worker

variable {T : Type*}

/-- The capacity of a worker is a power of two. -/
def new (minCapacity : Nat) : Worker T := ⟨nextPowerOfTwo minCapacity, []⟩

def spareCapacity (w : Worker T) : Nat := w.capacity - w.items.length

def push (w : Worker T) (item : T) : Except T (Worker T) :=
  if w.items.length < w.capacity then .ok { w with items := w.items ++ [item] } else .error item

def pop (w : Worker T) : Option T × Worker T := (w.items.head?, { w with items := w.items.tail })

def isEmpty (w : Worker T) : Bool := w.items.isEmpty

def Fits (w : Worker T) : Prop := w.items.length ≤ w.capacity

end Worker

structure WorkStealQueue (T : Type*) (n : Nat) where
  sharedQueue : List T
  len : Nat
  localQueues : Fin n → Worker T

structure LocalQueue (n : Nat) where
  tick : UInt32
  stealing : Bool
  queue : Fin n
  rand : FastRand
  deriving DecidableEq, Repr

namespace WorkStealQueue

variable {T : Type*} {n : Nat}

def new (localCapacity : Nat) : WorkStealQueue T n := ⟨[], 0, fun _ => .new localCapacity⟩

example : (new 256 : WorkStealQueue Nat 2).localQueues 0 = ⟨256, []⟩ := rfl

def push (q : WorkStealQueue T n) (item : T) : WorkStealQueue T n :=
  { q with sharedQueue := q.sharedQueue ++ [item], len := q.len + 1 }

def pop (q : WorkStealQueue T n) : Option T × WorkStealQueue T n :=
  if q.len = 0 then (none, q)
  else
    match q.sharedQueue with
    | [] => (none, q)
    | item :: rest => (some item, { q with sharedQueue := rest, len := q.len - 1 })

def setLocal (q : WorkStealQueue T n) (k : Fin n) (w : Worker T) : WorkStealQueue T n :=
  { q with localQueues := Function.update q.localQueues k w }

def popLocal (q : WorkStealQueue T n) (k : Fin n) : Option T × WorkStealQueue T n :=
  ((q.localQueues k).pop.1, q.setLocal k (q.localQueues k).pop.2)

def move (q : WorkStealQueue T n) (source dest : Fin n) (count : Nat) : WorkStealQueue T n :=
  let s := q.localQueues source
  let q := q.setLocal source { s with items := s.items.drop count }
  let d := q.localQueues dest
  q.setLocal dest { d with items := d.items ++ s.items.take count }

def steal (q : WorkStealQueue T n) (source dest : Fin n) (f : Nat → Nat) :
    Option (WorkStealQueue T n) :=
  let count := min (f (q.localQueues source).items.length) (q.localQueues dest).spareCapacity
  if count = 0 then none else some (q.move source dest count)

end WorkStealQueue

namespace LocalQueue

variable {T : Type*} {n : Nat}

def len (l : LocalQueue n) (q : WorkStealQueue T n) : Nat :=
  (q.localQueues l.queue).capacity - (q.localQueues l.queue).spareCapacity

def spill (k : Fin n) : Nat → WorkStealQueue T n → WorkStealQueue T n
  | 0, q => q
  | count + 1, q =>
    match q.popLocal k with
    | (some item, q) => spill k count (q.push item)
    | (none, q) => spill k count q

def pushBack (l : LocalQueue n) (q : WorkStealQueue T n) (item : T) : WorkStealQueue T n :=
  match (q.localQueues l.queue).push item with
  | .ok w => q.setLocal l.queue w
  | .error item => (spill l.queue (l.len q / 2) q).push item

def nextTick (l : LocalQueue n) : UInt32 × LocalQueue n :=
  let val := l.tick
  let l := { l with tick := l.tick + 1 }
  if val = (2 ^ 32 - 1 : Nat).toUInt32 then (0, { l with tick := 0 }) else (val + 1, l)

/-- The closure that `pop_front` passes to `steal`. -/
def stealCount (q : WorkStealQueue T n) (own another : Fin n) (available : Nat) : Nat :=
  min (min available (q.localQueues own).spareCapacity)
    (((q.localQueues another).capacity - (q.localQueues another).spareCapacity + 1) / 2)

/-- One round of the steal loop. The test that should skip the own queue compares the
addresses of two references, which are never equal, so it does not stand here. -/
def tryStealFrom (l : LocalQueue n) (q : WorkStealQueue T n) (another : Fin n) :
    Option (WorkStealQueue T n) :=
  if (q.localQueues another).isEmpty then none
  else if (q.localQueues l.queue).spareCapacity = 0 then none
  else q.steal another l.queue (stealCount q l.queue another)

def stealFromSiblings (l : LocalQueue n) (q : WorkStealQueue T n) (start : Nat) :
    Option (WorkStealQueue T n) :=
  (List.range n).findSome? fun i =>
    l.tryStealFrom q ⟨(start + i) % n, Nat.mod_lt _ l.queue.pos⟩

def popStealing (l : LocalQueue n) (q : WorkStealQueue T n) :
    Option T × LocalQueue n × WorkStealQueue T n :=
  if l.stealing then
    let (val, q) := q.pop
    (val, l, q)
  else
    let l := { l with stealing := true }
    let (start, rand) := l.rand.fastrandN n.toUInt32
    let l := { l with rand := rand }
    match l.stealFromSiblings q start.toNat with
    | some q =>
      let l := { l with stealing := false }
      let (val, q) := q.popLocal l.queue
      (val, l, q)
    | none =>
      let l := { l with stealing := false }
      let (val, q) := q.pop
      (val, l, q)

def popFront (l : LocalQueue n) (q : WorkStealQueue T n) :
    Option T × LocalQueue n × WorkStealQueue T n :=
  let (tick, l) := l.nextTick
  match (if tick % 61 = 0 then q.pop else (none, q)) with
  | (some val, q) => (some val, l, q)
  | (none, q) =>
    match q.popLocal l.queue with
    | (some val, q) => (some val, l, q)
    | (none, q) => l.popStealing q

end LocalQueue

end OpenCoroutine
