import Mathlib.Data.List.Nodup
import OpenCoroutine.AtomicCalls

/-! A pipe or stream socket between coroutines of one program that use the hooked calls on it.
What the reads leave in their buffers is what the writes found in theirs, and the numbers that
the calls return count it. -/

namespace OpenCoroutine

open Function Transition

namespace Nio

/-- Data of a stream, not peeked at. -/
def IoCall.isStream : IoCall → Bool
  | .read _ _ | .readv _ | .write _ _ | .writev _ => true
  | .recv _ _ flags | .recvfrom _ _ flags _ _ | .recvmsg _ flags | .send _ _ flags
  | .sendto _ _ flags _ _ | .sendmsg _ flags => flags == 0
  | .pread .. | .preadv .. | .pwrite .. | .pwritev .. | .accept .. | .accept4 .. => false

def stores (memory : UInt64 → UInt8) : List UInt64 → List UInt8 → UInt64 → UInt8
  | a :: addresses, b :: data => stores (update memory a b) addresses data
  | _, _ => memory

/-- `written` is what the writes have found in their buffers, and `read` what the reads have left
in theirs. -/
structure Pipe where
  memory : UInt64 → UInt8
  fifo : List UInt8 := []
  written : List UInt8 := []
  read : List UInt8 := []

namespace Pipe

def put (p : Pipe) (addresses : List UInt64) : Pipe :=
  { p with
    fifo := p.fifo ++ addresses.map p.memory
    written := p.written ++ addresses.map p.memory }

def get (p : Pipe) (addresses : List UInt64) : Pipe :=
  let memory := stores p.memory addresses p.fifo
  { p with
    memory
    fifo := p.fifo.drop addresses.length
    read := p.read ++ addresses.map memory }

def effect (p : Pipe) (call : IoCall) (a : Int64 × Int32) : Option Pipe :=
  let n := a.1.toInt.toNat
  if a.1 = -1 then some p
  else if call.isStream = true ∧ n ≤ call.bytes.length then
    if call.isWrite then some (p.put (call.bytes.take n))
    else if n ≤ p.fifo.length then some (p.get (call.bytes.take n))
    else none
  else none

/-- The program stores a byte. -/
def store (p : Pipe) (e : UInt64 × UInt8) : Option Pipe :=
  some { p with memory := update p.memory e.1 e.2 }

end Pipe

theorem IoCall.Rest.kind {call call' : IoCall} (h : call.Rest 0 call') :
    call'.isWrite = call.isWrite ∧ call'.isStream = call.isStream := by
  have hkind : ∀ c : IoCall,
      c.isWrite = (c.beside 0).isWrite ∧ c.isStream = (c.beside 0).isStream := by
    intro c
    cases c <;> exact ⟨rfl, rfl⟩
  rw [(hkind call').1, (hkind call').2, (hkind call).1, (hkind call).2, h.beside]
  exact ⟨rfl, rfl⟩

def pipe : Device Pipe (UInt64 × UInt8) where
  effect := Pipe.effect
  beside := Pipe.store
  again k call errno k' _ h := by
    rw [Pipe.effect, if_pos rfl] at h
    exact (Option.some.inj h).symm
  rest k call call' a h := by
    rw [Pipe.effect, Pipe.effect, h.bytes, h.kind.1, h.kind.2, List.drop_zero]

theorem stores_of_notMem {addresses : List UInt64} {a : UInt64} (h : a ∉ addresses)
    (memory : UInt64 → UInt8) (data : List UInt8) : stores memory addresses data a = memory a := by
  induction addresses generalizing memory data with
  | nil => rfl
  | cons b addresses ih =>
    cases data with
    | nil => rfl
    | cons x data =>
      have hne : a ≠ b := fun he => h (he ▸ List.mem_cons_self)
      rw [stores, ih fun hm => h (List.mem_cons_of_mem _ hm), update_of_ne hne]

/-- Each byte is where it was stored, if no two were stored in one place. -/
theorem map_stores {addresses : List UInt64} (h : addresses.Nodup) (memory : UInt64 → UInt8)
    {data : List UInt8} (hle : addresses.length ≤ data.length) :
    addresses.map (stores memory addresses data) = data.take addresses.length := by
  induction addresses generalizing memory data with
  | nil => rfl
  | cons a addresses ih =>
    cases data with
    | nil => cases hle
    | cons x data =>
      rw [List.nodup_cons] at h
      rw [List.map_cons, List.length_cons, List.take_succ_cons, stores, stores_of_notMem h.1,
        update_self, ih h.2 _ (Nat.le_of_succ_le_succ hle)]

variable {ι ε : Type*}

/-- The bytes that an event has moved in a direction, as the call has reported them. -/
def moved (write : Bool) : ε ⊕ ι × (Int32 × IoCall) × (Int64 × Int32) → Nat
  | .inl _ => 0
  | .inr (_, o, w) => if o.2.isWrite = write then w.1.toInt.toNat else 0

def total (write : Bool) (events : List (ε ⊕ ι × (Int32 × IoCall) × (Int64 × Int32))) : Nat :=
  (events.map (moved write)).sum

/-- The pipe after calls that have reported so much. -/
structure Pipe.Carried (p : Pipe) (wrote got : Nat) : Prop where
  stream : p.written = p.read ++ p.fifo
  wrote : p.written.length = wrote
  got : p.read.length = got

theorem Pipe.Carried.put {p : Pipe} {wrote got : Nat} (h : p.Carried wrote got)
    (addresses : List UInt64) : (p.put addresses).Carried (wrote + addresses.length) got where
  stream := by
    simp only [Pipe.put, h.stream, List.append_assoc]
  wrote := by
    simp only [Pipe.put, List.length_append, List.length_map, h.wrote]
  got := h.got

theorem Pipe.Carried.get {p : Pipe} {wrote got : Nat} (h : p.Carried wrote got)
    {addresses : List UInt64} (hnodup : addresses.Nodup) (hle : addresses.length ≤ p.fifo.length) :
    (p.get addresses).Carried wrote (got + addresses.length) where
  stream := by
    simp only [Pipe.get, map_stores hnodup p.memory hle, h.stream, List.append_assoc,
      List.take_append_drop]
  wrote := h.wrote
  got := by
    simp only [Pipe.get, List.length_append, List.length_map, h.got]

theorem Pipe.Carried.effect {p q : Pipe} {wrote got : Nat} (h : p.Carried wrote got)
    {call : IoCall} {a : Int64 × Int32} (hnodup : call.bytes.Nodup)
    (he : p.effect call a = some q) :
    q.Carried (wrote + if call.isWrite = true then a.1.toInt.toNat else 0)
      (got + if call.isWrite = false then a.1.toInt.toNat else 0) := by
  simp only [Pipe.effect] at he
  split at he
  · rename_i ha
    cases he
    have hzero : a.1.toInt.toNat = 0 := by
      rw [ha]
      decide
    rw [hzero, ite_self, ite_self]
    exact h
  · split at he
    · rename_i hle
      have hlen : (call.bytes.take a.1.toInt.toNat).length = a.1.toInt.toNat :=
        List.length_take_of_le hle.2
      split at he
      · rename_i hw
        cases he
        have hp := h.put (call.bytes.take a.1.toInt.toNat)
        rw [hlen] at hp
        rw [if_pos hw, hw, if_neg (by decide)]
        exact hp
      · rename_i hw
        rw [Bool.not_eq_true] at hw
        split at he
        · rename_i hfifo
          cases he
          have hp := h.get (hnodup.sublist (List.take_sublist a.1.toInt.toNat _))
            (by rw [hlen]; exact hfifo)
          rw [hlen] at hp
          rw [if_pos hw, hw, if_neg (by decide)]
          exact hp
        · cases he
    · cases he

/-- Plain calls one after the other. -/
theorem carried_plain {events : List ((UInt64 × UInt8) ⊕ ι × (Int32 × IoCall) × (Int64 × Int32))}
    (hnodup : ∀ i o w, .inr (i, o, w) ∈ events → o.2.bytes.Nodup) {p q : Pipe} {wrote got : Nat}
    (h : p.Carried wrote got) (hrun : run (Retry.plain pipe.object) p events = some q) :
    q.Carried (wrote + total true events) (got + total false events) := by
  induction events generalizing p wrote got with
  | nil =>
    cases hrun
    exact h
  | cons event events ih =>
    rw [run, Option.bind_eq_some_iff] at hrun
    obtain ⟨r, hr, hrun⟩ := hrun
    have hnodup' : ∀ i o w, .inr (i, o, w) ∈ events → o.2.bytes.Nodup :=
      fun i o w hm => hnodup i o w (List.mem_cons_of_mem _ hm)
    have hnext : r.Carried (wrote + moved true event) (got + moved false event) := by
      cases event with
      | inl e =>
        cases hr
        exact ⟨h.stream, h.wrote, h.got⟩
      | inr event =>
        obtain ⟨i, o, w⟩ := event
        exact h.effect (hnodup i o w List.mem_cons_self) hr
    have hq := ih hnodup' hnext hrun
    rw [Nat.add_assoc, Nat.add_assoc] at hq
    exact hq

theorem total_reverse (write : Bool)
    (events : List (ε ⊕ ι × (Int32 × IoCall) × (Int64 × Int32))) :
    total write events.reverse = total write events := by
  rw [total, List.map_reverse, List.sum_reverse, total]

/-- The buffer of a call does not overlap itself. -/
def Apart (_ : Retry.State ι Pipe (Int32 × IoCall) Working (Int64 × Int32) (UInt64 × UInt8)) :
    Retry.Act ι (Int32 × IoCall) (Int64 × Int32) (Bool × Int32) (UInt64 × UInt8) → Prop
  | .enter _ o => o.2.bytes.Nodup
  | _ => True

instance (s : Retry.State ι Pipe (Int32 × IoCall) Working (Int64 × Int32) (UInt64 × UInt8)) :
    ∀ a, Decidable (Apart s a)
  | .enter _ o => inferInstanceAs (Decidable o.2.bytes.Nodup)
  | .answer .. | .wake .. | .beside _ => isTrue trivial

variable [DecidableEq ι]
  {s : Retry.State ι Pipe (Int32 × IoCall) Working (Int64 × Int32) (UInt64 × UInt8)}

/-- However the calls overlap, what the reads have left in their buffers and what is in the pipe
is what the writes have found in theirs, in that order, and the calls have reported as much. -/
theorem stream_carried {memory : UInt64 → UInt8}
    (h : Reaches (Retry.step program pipe.object) Apart { object := { memory } } s) :
    s.object.written = s.object.read ++ s.object.fifo ∧
      s.object.written.length = total true s.log ∧ s.object.read.length = total false s.log := by
  have hrun := Retry.object_plain (program_retries pipe) h
  have hnodup := Retry.log_ofKind (Q := fun o => o.2.bytes.Nodup) (fun _ _ _ ho => ho) h
  have hstart : ({ memory } : Pipe).Carried 0 0 := ⟨rfl, rfl, rfl⟩
  have hp := carried_plain (fun i o w hm => hnodup i o w (List.mem_reverse.1 hm)) hstart hrun
  rw [total_reverse, total_reverse, Nat.zero_add, Nat.zero_add] at hp
  exact ⟨hp.stream, hp.wrote, hp.got⟩

/-- A read finds nothing and waits, and a write with an empty part comes before it tries again. -/
def passed (reader writer : ι) :
    List (Retry.Act ι (Int32 × IoCall) (Int64 × Int32) (Bool × Int32) (UInt64 × UInt8)) :=
  [.enter reader (0, .read 64 4), .answer reader (-1, EAGAIN),
    .enter writer (0, .writev ⟨[⟨0, 0⟩, ⟨16, 3⟩], by decide⟩), .answer writer (3, 0),
    .wake reader (true, 0), .answer reader (2, 0)]

theorem stream_carried_passed :
    ∃ s : Retry.State Bool Pipe (Int32 × IoCall) Working (Int64 × Int32) (UInt64 × UInt8),
      s.object.written = s.object.read ++ s.object.fifo ∧ s.object.written = [16, 17, 18] ∧
        s.object.read.length = 2 := by
  obtain ⟨s, h, hwritten, htotal⟩ :
      ∃ s : Retry.State Bool Pipe (Int32 × IoCall) Working (Int64 × Int32) (UInt64 × UInt8),
        Reaches (Retry.step program pipe.object) Apart
          { object := { memory := fun a => a.toUInt8 } } s ∧
            s.object.written = [16, 17, 18] ∧ total false s.log = 2 :=
    ⟨_, Reaches.of_runGuarded (passed false true) rfl, rfl, rfl⟩
  obtain ⟨hstream, -, hread⟩ := stream_carried h
  exact ⟨s, hstream, hwritten, hread.trans htotal⟩

end Nio

end OpenCoroutine
