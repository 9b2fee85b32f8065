import Mathlib.Algebra.Ring.Nat
import Mathlib.Data.List.Basic
import Mathlib.Data.Sum.Basic

/-! The hooked calls of `NioLinuxSyscall` that read, write or accept, one call alone on its
descriptor. What the inner calls and the waits answer is a list of rounds, one for each turn
of a loop. A value of `IoCall` is a system call with its arguments, the descriptor and the
function pointer apart: it stands for the hooked call and for the inner calls it makes.

Sizes and addresses are `usize` and wrap, as in a release build. Buffers are ranges of
addresses. The `Vec` that is made of the caller's array of `iovec`s owns that array, and
frees it when it is dropped. Results of type `c_int` are widened. -/

namespace OpenCoroutine

namespace Nio

def EINTR : Int32 := 4

/-- Also `EWOULDBLOCK`. -/
def EAGAIN : Int32 := 11

def O_NONBLOCK : UInt32 := 2048

structure Iovec where
  base : UInt64
  len : UInt64
  deriving DecidableEq, Repr

/-- An array of `iovec`s whose length is a `c_int`. -/
structure Iovecs where
  iov : List Iovec
  bounded : iov.length < 2 ^ 31
  deriving DecidableEq

structure Msghdr where
  name : UInt64
  nameLen : UInt32
  iov : List Iovec
  control : UInt64
  controlLen : UInt64
  flags : Int32
  deriving DecidableEq, Repr

inductive IoCall where
  | recv (buf len : UInt64) (flags : Int32)
  | recvfrom (buf len : UInt64) (flags : Int32) (addr addrlen : UInt64)
  | read (buf count : UInt64)
  | pread (buf count : UInt64) (offset : Int64)
  | readv (iov : Iovecs)
  | preadv (iov : Iovecs) (offset : Int64)
  | recvmsg (msg : Msghdr) (flags : Int32)
  | send (buf len : UInt64) (flags : Int32)
  | sendto (buf len : UInt64) (flags : Int32) (addr : UInt64) (addrlen : UInt32)
  | write (buf count : UInt64)
  | pwrite (buf count : UInt64) (offset : Int64)
  | writev (iov : Iovecs)
  | pwritev (iov : Iovecs) (offset : Int64)
  | sendmsg (msg : Msghdr) (flags : Int32)
  | accept (address addressLen : UInt64)
  | accept4 (addr len : UInt64) (flg : Int32)
  deriving DecidableEq

/-- What one inner call returns and leaves in `errno`, and how a wait that follows it ends. -/
structure Round where
  r : Int64
  errno : Int32
  woken : Bool
  waitErrno : Int32
  deriving DecidableEq, Repr

/-- How far a call has come when its rounds are used up. `exited` has left the body of
`impl_non_blocking!` by a `return` of its own. -/
inductive Ending where
  | returned (r : Int64) (errno : Int32)
  | exited (r : Int64) (errno : Int32)
  | panicked
  | running
  deriving DecidableEq, Repr

structure Run (κ : Type*) where
  calls : List κ
  ending : Ending
  /-- The caller's array of `iovec`s has been freed. -/
  freed : Bool

namespace Run

variable {κ : Type*}

def cons (call : κ) (run : Run κ) : Run κ := ⟨call :: run.calls, run.ending, run.freed⟩

@[simp] theorem cons_calls (call : κ) (run : Run κ) : (run.cons call).calls = call :: run.calls := rfl

@[simp] theorem cons_ending (call : κ) (run : Run κ) : (run.cons call).ending = run.ending := rfl

/-- The end of the block that holds the `Vec` made of the array `iov`, reached by its last
line or by a panic. A `Vec` without capacity frees nothing. -/
def drop (run : Run κ) (iov : List Iovec) : Run κ :=
  match run.ending with
  | .running => run
  | .returned _ _ | .exited _ _ | .panicked => { run with freed := !iov.isEmpty }

@[simp] theorem drop_calls (run : Run κ) (iov : List Iovec) : (run.drop iov).calls = run.calls := by
  unfold drop
  split <;> rfl

@[simp] theorem drop_ending (run : Run κ) (iov : List Iovec) :
    (run.drop iov).ending = run.ending := by
  unfold drop
  split <;> rfl

end Run

/-! `syscall/common.rs`. -/

/-- `flags` is what `F_GETFL` answers, if it does not fail. -/
structure Descriptor where
  flags : Option UInt32
  settable : Bool := true
  deriving DecidableEq, Repr

def isNonBlocking (d : Descriptor) : Bool :=
  match d.flags with
  | none => false
  | some flags => flags &&& O_NONBLOCK != 0

def isBlocking (d : Descriptor) : Bool := !isNonBlocking d

def setNonBlockingFlag (d : Descriptor) (on : Bool) : Bool × Descriptor :=
  match d.flags with
  | none => (false, d)
  | some flags =>
    if d.settable then
      (true, { d with flags := some (if on then flags ||| O_NONBLOCK else flags &&& ~~~O_NONBLOCK) })
    else (false, d)

/-- `set_non_blocking` and `set_blocking`, which panic where the flag cannot be set. -/
def assertSet (d : Descriptor) (on : Bool) : Option Descriptor :=
  match setNonBlockingFlag d on with
  | (true, d) => some d
  | (false, _) => none

def setNonBlocking (d : Descriptor) : Option Descriptor := assertSet d true

def setBlocking (d : Descriptor) : Option Descriptor := assertSet d false

structure Hooked (κ : Type*) where
  calls : List κ
  ending : Ending
  descriptor : Descriptor
  freed : Bool

/-- `impl_non_blocking!`. -/
def implNonBlocking {κ : Type*} (d : Descriptor) (impls : Run κ) : Hooked κ :=
  if isBlocking d then
    match setNonBlocking d with
    | none => ⟨[], .panicked, d, false⟩
    | some d =>
      match impls.ending with
      | .returned r errno =>
        match setBlocking d with
        | some d => ⟨impls.calls, .returned r errno, d, impls.freed⟩
        | none => ⟨impls.calls, .panicked, d, impls.freed⟩
      | .exited r errno => ⟨impls.calls, .returned r errno, d, impls.freed⟩
      | .panicked => ⟨impls.calls, .panicked, d, impls.freed⟩
      | .running => ⟨impls.calls, .running, d, impls.freed⟩
  else
    match impls.ending with
    | .exited r errno => ⟨impls.calls, .returned r errno, d, impls.freed⟩
    | ending => ⟨impls.calls, ending, d, impls.freed⟩

/-- `fcntl` does what `impl_non_blocking!` asks of it. -/
def Descriptor.Controllable (d : Descriptor) : Prop :=
  d.flags ≠ none ∧ (isBlocking d = true → d.settable = true)

instance (d : Descriptor) : Decidable d.Controllable :=
  inferInstanceAs (Decidable (d.flags ≠ none ∧ (isBlocking d = true → d.settable = true)))

namespace Descriptor

def set (d : Descriptor) (on : Bool) : Descriptor :=
  { d with flags := d.flags.map fun flags =>
      if on then flags ||| O_NONBLOCK else flags &&& ~~~O_NONBLOCK }

theorem assertSet_eq {d : Descriptor} (hf : d.flags ≠ none) (hs : d.settable = true) (on : Bool) :
    assertSet d on = some (d.set on) := by
  obtain ⟨flags, hf⟩ := Option.ne_none_iff_exists'.1 hf
  simp only [assertSet, setNonBlockingFlag, hf, hs, if_true, set, Option.map_some]

theorem set_flags_ne_none {d : Descriptor} (hf : d.flags ≠ none) (on : Bool) :
    (d.set on).flags ≠ none := by
  obtain ⟨flags, hf⟩ := Option.ne_none_iff_exists'.1 hf
  simp [set, hf]

theorem or_nonBlock (flags : UInt32) : (flags ||| O_NONBLOCK) &&& O_NONBLOCK = O_NONBLOCK := by
  apply UInt32.toBitVec_inj.1
  simp only [UInt32.toBitVec_and, UInt32.toBitVec_or]
  ext i hi
  simp only [BitVec.getElem_and, BitVec.getElem_or]
  grind

theorem and_not_nonBlock (flags : UInt32) : (flags &&& ~~~O_NONBLOCK) &&& O_NONBLOCK = 0 := by
  rw [UInt32.and_assoc, UInt32.and_comm (~~~O_NONBLOCK), UInt32.and_not_self, UInt32.and_zero]

theorem isNonBlocking_set {d : Descriptor} (hf : d.flags ≠ none) (on : Bool) :
    isNonBlocking (d.set on) = on := by
  obtain ⟨flags, hf⟩ := Option.ne_none_iff_exists'.1 hf
  have hne : O_NONBLOCK ≠ 0 := by decide
  cases on with
  | true => simp [isNonBlocking, set, hf, or_nonBlock, hne]
  | false => simp [isNonBlocking, set, hf, and_not_nonBlock]

end Descriptor

/-- A `return` inside the body of `impl_non_blocking!` returns from the function. -/
def Ending.leave : Ending → Ending
  | exited r errno => returned r errno
  | ending => ending

/-- The descriptor that a call on a blocking one leaves behind. -/
def Ending.restore (d : Descriptor) : Ending → Descriptor
  | returned _ _ => (d.set true).set false
  | exited _ _ | panicked | running => d.set true

/-- What a call does on a descriptor that `fcntl` can control. -/
theorem implNonBlocking_controllable {κ : Type*} {d : Descriptor} (h : d.Controllable)
    (run : Run κ) :
    implNonBlocking d run = ⟨run.calls, run.ending.leave,
      if isBlocking d then run.ending.restore d else d, run.freed⟩ := by
  unfold implNonBlocking
  by_cases hb : isBlocking d = true
  · have hs : d.settable = true := h.2 hb
    have hset : setNonBlocking d = some (d.set true) := Descriptor.assertSet_eq h.1 hs true
    have hclear : setBlocking (d.set true) = some ((d.set true).set false) :=
      Descriptor.assertSet_eq (Descriptor.set_flags_ne_none h.1 true) hs false
    rw [if_pos hb, if_pos hb, hset]
    cases hend : run.ending with
    | returned r errno => simp only [hclear, Ending.leave, Ending.restore]
    | exited r errno | panicked | running => rfl
  · rw [if_neg hb, if_neg hb]
    cases run.ending <;> rfl

/-- Elsewhere it panics before the first inner call. -/
theorem implNonBlocking_uncontrollable {κ : Type*} {d : Descriptor} (h : ¬ d.Controllable)
    (run : Run κ) : implNonBlocking d run = ⟨[], .panicked, d, false⟩ := by
  have hpanics : isBlocking d = true ∧ setNonBlocking d = none := by
    cases hf : d.flags with
    | none => simp [isBlocking, isNonBlocking, setNonBlocking, assertSet, setNonBlockingFlag, hf]
    | some flags =>
      have hns : ¬ (isBlocking d = true → d.settable = true) := fun hs => h ⟨by simp [hf], hs⟩
      rw [Classical.not_imp, Bool.not_eq_true] at hns
      exact ⟨hns.1, by simp [setNonBlocking, assertSet, setNonBlockingFlag, hf, hns.2]⟩
  simp only [implNonBlocking, hpanics.1, hpanics.2, if_true]

/-! The loops of `syscall/nio.rs`. -/

/-- The test of the error kind at the end of a turn: the call returns, or the loop goes on
with this `errno`. -/
def onErrno (round : Round) (errno : Int32) : Ending ⊕ Int32 :=
  if errno = EAGAIN then
    if round.woken then .inr round.waitErrno else .inl (.returned round.r round.waitErrno)
  else if errno = EINTR then .inr errno
  else .inl (.returned round.r errno)

/-- `impl_nio!`. -/
def implNio {κ : Type*} (call : κ) : List Round → Run κ
  | [] => ⟨[call], .running, false⟩
  | round :: rounds =>
    if round.r ≠ -1 then ⟨[call], .returned round.r 0, false⟩
    else
      match onErrno round round.errno with
      | .inl ending => ⟨[call], ending, false⟩
      | .inr _ => (implNio call rounds).cons call

/-- What follows the inner call in a turn of the other loops: the call returns, or the loop
goes on with so much done and this `errno`. -/
def afterCall (condition : Bool) (length done : UInt64) (round : Round) :
    Ending ⊕ (UInt64 × Int32) :=
  if round.r ≠ -1 then
    let done := done + round.r.toUInt64
    if length ≤ done ∨ condition = true ∧ round.r = 0 then .inl (.returned done.toInt64 0)
    else (onErrno round 0).map id fun errno => (done, errno)
  else (onErrno round round.errno).map id fun errno => (done, errno)

/-- The loop of `impl_nio_buf!`, `impl_nio_iovec!` and `impl_nio_msghdr!`. They differ in how
`prepare` makes the next inner call out of what is done so far and the variables of the
loop, and where that panics. -/
def transfer {σ κ : Type*} (condition : Bool) (length : UInt64)
    (prepare : σ → UInt64 → Option (κ × σ)) (rounds : List Round) (s : σ) (done : UInt64)
    (r : Int64) (errno : Int32) : Run κ :=
  if done < length then
    match prepare s done with
    | none => ⟨[], .panicked, false⟩
    | some (call, s) =>
      match rounds with
      | [] => ⟨[call], .running, false⟩
      | round :: rounds =>
        match afterCall condition length done round with
        | .inl ending => ⟨[call], ending, false⟩
        | .inr (done, errno) =>
          (transfer condition length prepare rounds s done round.r errno).cons call
  else ⟨[], .returned r errno, false⟩

def prepareBuf {κ : Type*} (buffer length : UInt64) (syscall : UInt64 → UInt64 → κ) (_ : Unit)
    (done : UInt64) : Option (κ × Unit) :=
  some (syscall (buffer + done) (length - done), ())

/-- `impl_nio_buf!`, for `$syscall` with its last arguments. -/
def implNioBuf {κ : Type*} (condition : Bool) (rounds : List Round) (errno : Int32)
    (buffer length : UInt64) (syscall : UInt64 → UInt64 → κ) : Run κ :=
  transfer condition length (prepareBuf buffer length syscall) rounds () 0 0 errno

def totalLen (iov : List Iovec) : UInt64 := iov.foldl (fun length v => length + v.len) 0

def pices (length : UInt64) : List Iovec → List UInt64
  | [] => []
  | v :: iov => (length + v.len) :: pices (length + v.len) iov

def saturatingSub (a b : UInt64) : UInt64 := if b ≤ a then a - b else 0

/-- The arguments of the next inner call, from the remaining `iovec`s and `pices`. -/
def remaining (s : List Iovec × List UInt64) (done : UInt64) :
    Option (List Iovec × List Iovec × List UInt64) :=
  let fromIndex := (s.2.findIdx? fun v => done < v).getD 0
  let currentOffset :=
    if 0 < fromIndex then s.2[fromIndex - 1]?.map (saturatingSub done) else some done
  match currentOffset, s.1.drop fromIndex with
  | some offset, v :: rest =>
    let vec := ⟨v.base + offset, v.len - offset⟩ :: rest
    some (vec, vec, s.2.drop fromIndex)
  | _, _ => none

def prepareIovec {κ : Type*} (syscall : Iovecs → κ) (s : List Iovec × List UInt64)
    (done : UInt64) : Option (κ × List Iovec × List UInt64) :=
  (remaining s done).bind fun (vec, s) =>
    if h : vec.length < 2 ^ 31 then some (syscall ⟨vec, h⟩, s) else none

/-- `impl_nio_iovec!`. -/
def implNioIovec {κ : Type*} (condition : Bool) (rounds : List Round) (errno : Int32)
    (iov : Iovecs) (syscall : Iovecs → κ) : Run κ :=
  (transfer condition (totalLen iov.iov) (prepareIovec syscall) rounds
    (iov.iov, pices 0 iov.iov) 0 0 errno).drop iov.iov

def prepareMsghdr {κ : Type*} (msg : Msghdr) (syscall : Msghdr → κ)
    (s : List Iovec × List UInt64) (done : UInt64) : Option (κ × List Iovec × List UInt64) :=
  (remaining s done).map fun (vec, s) => (syscall { msg with iov := vec }, s)

/-- `impl_nio_msghdr!`. -/
def implNioMsghdr {κ : Type*} (condition : Bool) (rounds : List Round) (errno : Int32)
    (msg : Msghdr) (syscall : Msghdr → κ) : Run κ :=
  (transfer condition (totalLen msg.iov) (prepareMsghdr msg syscall) rounds
    (msg.iov, pices 0 msg.iov) 0 0 errno).drop msg.iov

/-! The calls, each on a descriptor, its rounds and the `errno` it is called with. -/

section

variable (d : Descriptor) (rounds : List Round) (errno : Int32)

def recv (buf len : UInt64) (flags : Int32) : Hooked IoCall :=
  implNonBlocking d (implNioBuf true rounds errno buf len fun buf len => .recv buf len flags)

def recvfrom (buf len : UInt64) (flags : Int32) (addr addrlen : UInt64) : Hooked IoCall :=
  implNonBlocking d (implNioBuf true rounds errno buf len fun buf len =>
    .recvfrom buf len flags addr addrlen)

def read (buf count : UInt64) : Hooked IoCall :=
  implNonBlocking d (implNioBuf true rounds errno buf count fun buf count => .read buf count)

def pread (buf count : UInt64) (offset : Int64) : Hooked IoCall :=
  implNonBlocking d (implNioBuf true rounds errno buf count fun buf count =>
    .pread buf count offset)

def readv (iov : Iovecs) : Hooked IoCall :=
  implNonBlocking d (implNioIovec true rounds errno iov fun iov => .readv iov)

def preadv (iov : Iovecs) (offset : Int64) : Hooked IoCall :=
  implNonBlocking d (implNioIovec true rounds errno iov fun iov => .preadv iov offset)

def recvmsg (msg : Msghdr) (flags : Int32) : Hooked IoCall :=
  implNonBlocking d (implNioMsghdr true rounds errno msg fun msg => .recvmsg msg flags)

def send (buf len : UInt64) (flags : Int32) : Hooked IoCall :=
  implNonBlocking d (implNioBuf false rounds errno buf len fun buf len => .send buf len flags)

def sendto (buf len : UInt64) (flags : Int32) (addr : UInt64) (addrlen : UInt32) :
    Hooked IoCall :=
  implNonBlocking d (implNioBuf false rounds errno buf len fun buf len =>
    .sendto buf len flags addr addrlen)

def write (buf count : UInt64) : Hooked IoCall :=
  implNonBlocking d (implNioBuf false rounds errno buf count fun buf count => .write buf count)

def pwrite (buf count : UInt64) (offset : Int64) : Hooked IoCall :=
  implNonBlocking d (implNioBuf false rounds errno buf count fun buf count =>
    .pwrite buf count offset)

def writev (iov : Iovecs) : Hooked IoCall :=
  implNonBlocking d (implNioIovec false rounds errno iov fun iov => .writev iov)

def pwritev (iov : Iovecs) (offset : Int64) : Hooked IoCall :=
  implNonBlocking d (implNioIovec false rounds errno iov fun iov => .pwritev iov offset)

def sendmsg (msg : Msghdr) (flags : Int32) : Hooked IoCall :=
  implNonBlocking d (implNioMsghdr false rounds errno msg fun msg => .sendmsg msg flags)

def accept (address addressLen : UInt64) : Hooked IoCall :=
  implNonBlocking d (implNio (.accept address addressLen) rounds)

def accept4 (addr len : UInt64) (flg : Int32) : Hooked IoCall :=
  implNonBlocking d (implNio (.accept4 addr len flg) rounds)

def hooked : IoCall → Hooked IoCall
  | .recv buf len flags => recv d rounds errno buf len flags
  | .recvfrom buf len flags addr addrlen => recvfrom d rounds errno buf len flags addr addrlen
  | .read buf count => read d rounds errno buf count
  | .pread buf count offset => pread d rounds errno buf count offset
  | .readv iov => readv d rounds errno iov
  | .preadv iov offset => preadv d rounds errno iov offset
  | .recvmsg msg flags => recvmsg d rounds errno msg flags
  | .send buf len flags => send d rounds errno buf len flags
  | .sendto buf len flags addr addrlen => sendto d rounds errno buf len flags addr addrlen
  | .write buf count => write d rounds errno buf count
  | .pwrite buf count offset => pwrite d rounds errno buf count offset
  | .writev iov => writev d rounds errno iov
  | .pwritev iov offset => pwritev d rounds errno iov offset
  | .sendmsg msg flags => sendmsg d rounds errno msg flags
  | .accept address addressLen => accept d rounds address addressLen
  | .accept4 addr len flg => accept4 d rounds addr len flg

end

/-! What the calls are about. -/

def Iovec.addresses (v : Iovec) : List UInt64 :=
  (List.range v.len.toNat).map fun i => v.base + i.toUInt64

namespace IoCall

/-- The buffers of a call that transfers bytes. -/
def buffers : IoCall → List Iovec
  | recv buf len _ | recvfrom buf len _ _ _ | send buf len _ | sendto buf len _ _ _ => [⟨buf, len⟩]
  | read buf count | pread buf count _ | write buf count | pwrite buf count _ => [⟨buf, count⟩]
  | readv iov | preadv iov _ | writev iov | pwritev iov _ => iov.iov
  | recvmsg msg _ | sendmsg msg _ => msg.iov
  | accept _ _ | accept4 _ _ _ => []

/-- The array of `iovec`s that the caller passes in by its address. -/
def array : IoCall → List Iovec
  | readv iov | preadv iov _ | writev iov | pwritev iov _ => iov.iov
  | recvmsg msg _ | sendmsg msg _ => msg.iov
  | _ => []

def isTransfer : IoCall → Bool
  | accept _ _ | accept4 _ _ _ => false
  | _ => true

def isWrite : IoCall → Bool
  | send _ _ _ | sendto _ _ _ _ _ | write _ _ | pwrite _ _ _ | writev _ | pwritev _ _
  | sendmsg _ _ => true
  | _ => false

/-- The addresses of the bytes the call asks for, in their order. -/
def bytes (call : IoCall) : List UInt64 := call.buffers.flatMap Iovec.addresses

def noIov : Iovecs := ⟨[], by decide⟩

/-- The call with its offset advanced by `n` and its buffers left out. -/
def beside (n : Nat) : IoCall → IoCall
  | recv _ _ flags => recv 0 0 flags
  | recvfrom _ _ flags addr addrlen => recvfrom 0 0 flags addr addrlen
  | read _ _ => read 0 0
  | pread _ _ offset => pread 0 0 (offset + Int64.ofNat n)
  | readv _ => readv noIov
  | preadv _ offset => preadv noIov (offset + Int64.ofNat n)
  | recvmsg msg flags => recvmsg { msg with iov := [] } flags
  | send _ _ flags => send 0 0 flags
  | sendto _ _ flags addr addrlen => sendto 0 0 flags addr addrlen
  | write _ _ => write 0 0
  | pwrite _ _ offset => pwrite 0 0 (offset + Int64.ofNat n)
  | writev _ => writev noIov
  | pwritev _ offset => pwritev noIov (offset + Int64.ofNat n)
  | sendmsg msg flags => sendmsg { msg with iov := [] } flags
  | accept address addressLen => accept address addressLen
  | accept4 addr len flg => accept4 addr len flg

/-- `call'` is what is left of the call after its first `n` bytes. -/
structure Rest (call : IoCall) (n : Nat) (call' : IoCall) : Prop where
  bytes : call'.bytes = call.bytes.drop n
  beside : call'.beside 0 = call.beside n

end IoCall

end Nio

end OpenCoroutine
