import Mathlib.Logic.Function.Basic

/-! `SelectorImpl` with the five process-wide tables that its operations share. The
poller of the `polling` crate is a map from descriptors to the interest they are
registered with: `add` fails on a registered descriptor, `modify` and `delete` fail on
an unregistered one, and `Fault` lets any of the calls of an operation fail as well.
An event reported for a descriptor carries the key of its registration.

The tables and the poller are those of one step at a time, so an operation that fails
halfway or panics returns them as it leaves them. The operations for the read and for
the write interest are one definition for both directions. -/

namespace OpenCoroutine

abbrev Fd := Int

inductive Direction where
  | readable
  | writable
  deriving DecidableEq, Repr

def Direction.other : Direction → Direction
  | readable => writable
  | writable => readable

structure Event where
  key : Nat
  readable : Bool
  writable : Bool
  deriving DecidableEq, Repr

namespace Event

def all (key : Nat) : Event := ⟨key, true, true⟩

def only : Direction → Nat → Event
  | .readable, key => ⟨key, true, false⟩
  | .writable, key => ⟨key, false, true⟩

def holds (event : Event) : Direction → Bool
  | .readable => event.readable
  | .writable => event.writable

end Event

structure Fault where
  add : Bool
  modify : Bool
  delete : Bool
  deriving DecidableEq, Repr

def Fault.none : Fault := ⟨false, false, false⟩

abbrev Poller := Fd → Option Event

namespace Poller

def new : Poller := fun _ => none

def add (p : Poller) (fault : Fault) (fd : Fd) (interests : Event) : Option Poller :=
  if fault.add || (p fd).isSome then none else some (Function.update p fd (some interests))

def modify (p : Poller) (fault : Fault) (fd : Fd) (interests : Event) : Option Poller :=
  if fault.modify || (p fd).isNone then none else some (Function.update p fd (some interests))

def delete (p : Poller) (fault : Fault) (fd : Fd) : Option Poller :=
  if fault.delete || (p fd).isNone then none else some (Function.update p fd none)

def report (p : Poller) (fd : Fd) (readable writable : Bool) : Option Event :=
  (p fd).map fun interests => ⟨interests.key, readable, writable⟩

end Poller

/-- The statics of `selector.rs`: `TOKEN_FD`, and the `READABLE_` and `WRITABLE_` pairs of
`RECORDS` and `TOKEN_RECORDS`. -/
structure Tables where
  tokenFd : Nat → Option Fd
  records : Direction → Fd → Bool
  tokenRecords : Direction → Fd → Option Nat

namespace Tables

def new : Tables where
  tokenFd _ := none
  records _ _ := false
  tokenRecords _ _ := none

def insert (t : Tables) (d : Direction) (fd : Fd) (token : Nat) : Tables :=
  { t with
    records d' fd' := if d' = d ∧ fd' = fd then true else t.records d' fd'
    tokenRecords d' fd' := if d' = d ∧ fd' = fd then some token else t.tokenRecords d' fd' }

def remove (t : Tables) (d : Direction) (fd : Fd) : Tables :=
  { t with
    records d' fd' := if d' = d ∧ fd' = fd then false else t.records d' fd'
    tokenRecords d' fd' := if d' = d ∧ fd' = fd then none else t.tokenRecords d' fd' }

def removeTokens (t : Tables) (fd : Fd) : Tables :=
  { t with tokenRecords d' fd' := if fd' = fd then none else t.tokenRecords d' fd' }

def removeRecords (t : Tables) (fd : Fd) : Tables :=
  { t with records d' fd' := if fd' = fd then false else t.records d' fd' }

/-- The turn of one event in the loop of `select`. -/
def select (t : Tables) (event : Event) : Tables :=
  let fd := (t.tokenFd event.key).getD 0
  { t with
    tokenFd := Function.update t.tokenFd event.key none
    tokenRecords d' fd' :=
      if event.holds d' = true ∧ fd' = fd then none else t.tokenRecords d' fd' }

end Tables

structure SelectorImpl where
  poller : Poller
  tables : Tables

inductive Outcome where
  | ok
  | err
  | panicked
  deriving DecidableEq, Repr

namespace SelectorImpl

def new : SelectorImpl := ⟨.new, .new⟩

/-- After a poller call that went through: the entry it leaves in `TOKEN_FD`. -/
def registered (s : SelectorImpl) (p : Poller) (fd : Fd) (token : Nat) : SelectorImpl where
  poller := p
  tables := { s.tables with tokenFd := Function.update s.tables.tokenFd token (some fd) }

def register (s : SelectorImpl) (fault : Fault) (fd : Fd) (token : Nat) (interests : Event) :
    Bool × SelectorImpl :=
  match s.poller.add fault fd interests with
  | some p => (true, s.registered p fd token)
  | none => (false, s)

def reregister (s : SelectorImpl) (fault : Fault) (fd : Fd) (token : Nat) (interests : Event) :
    Bool × SelectorImpl :=
  match s.poller.modify fault fd interests with
  | some p => (true, s.registered p fd token)
  | none => (false, s)

def deregister (s : SelectorImpl) (fault : Fault) (fd : Fd) (token : Nat) : Bool × SelectorImpl :=
  match s.poller.delete fault fd with
  | some p =>
    (true, ⟨p, { s.tables with tokenFd := Function.update s.tables.tokenFd token none }⟩)
  | none => (false, s)

/-- `self.reregister(..).or(self.register(..))`: both calls are made. -/
def reregisterOrRegister (s : SelectorImpl) (fault : Fault) (fd : Fd) (token : Nat)
    (interests : Event) : Bool × SelectorImpl :=
  let (modified, s) := s.reregister fault fd token interests
  let (added, s) := s.register fault fd token interests
  (modified || added, s)

def select (s : SelectorImpl) (events : List Event) : SelectorImpl :=
  { s with tables := events.foldl Tables.select s.tables }

def addEvent (d : Direction) (s : SelectorImpl) (fault : Fault) (fd : Fd) (token : Nat) :
    Outcome × SelectorImpl :=
  if s.tables.records d fd then (.ok, s)
  else
    let (done, s) :=
      if s.tables.records d.other fd then s.reregisterOrRegister fault fd token (.all token)
      else s.register fault fd token (.only d token)
    if done then (.ok, { s with tables := s.tables.insert d fd token }) else (.err, s)

def addReadEvent := addEvent .readable

def addWriteEvent := addEvent .writable

def delEvent (s : SelectorImpl) (fault : Fault) (fd : Fd) : Outcome × SelectorImpl :=
  if s.tables.records .readable fd || s.tables.records .writable fd then
    let token := ((s.tables.tokenRecords .readable fd).or
      (s.tables.tokenRecords .writable fd)).getD 0
    let (done, s) := { s with tables := s.tables.removeTokens fd }.deregister fault fd token
    if done then (.ok, { s with tables := s.tables.removeRecords fd }) else (.err, s)
  else (.ok, s)

/-- `del_read_event` and `del_write_event`. The record of the direction is there, so only
the second of the two assertions can fail. -/
def delInterest (d : Direction) (s : SelectorImpl) (fault : Fault) (fd : Fd) :
    Outcome × SelectorImpl :=
  if s.tables.records d fd then
    if s.tables.records d.other fd then
      let token := (s.tables.tokenRecords d.other fd).getD 0
      let (done, s) := s.reregister fault fd token (.only d.other token)
      if done then
        (if (s.tables.tokenRecords d fd).isSome then .ok else .panicked,
          { s with tables := s.tables.remove d fd })
      else (.err, s)
    else s.delEvent fault fd
  else (.ok, s)

def delReadEvent := delInterest .readable

def delWriteEvent := delInterest .writable

end SelectorImpl

end OpenCoroutine
