import Mathlib.Data.String.Basic

/-! The states of the runtime and of the system calls it hooks, for the Linux build.
`SyscallState.suspend` waits for its timestamp; `timeout` is the state a coroutine comes
back in at that timestamp, whether or not the call itself is done. `PoolState.stopping`
carries `true` in thread mode. -/

namespace OpenCoroutine

inductive Syscall where
  | sleep | usleep | nanosleep | poll | select | accept4 | epoll_ctl | epoll_wait
  | io_uring_enter | recv | recvfrom | read | pread | readv | preadv | recvmsg | connect
  | listen | accept | shutdown | close | socket | send | sendto | write | pwrite | writev
  | pwritev | sendmsg | fsync | renameat | renameat2 | mkdirat | openat
  deriving DecidableEq, Repr

def Syscall.display : Syscall → String
  | .sleep => "sleep" | .usleep => "usleep" | .nanosleep => "nanosleep" | .poll => "poll"
  | .select => "select" | .accept4 => "accept4" | .epoll_ctl => "epoll_ctl"
  | .epoll_wait => "epoll_wait" | .io_uring_enter => "io_uring_enter" | .recv => "recv"
  | .recvfrom => "recvfrom" | .read => "read" | .pread => "pread" | .readv => "readv"
  | .preadv => "preadv" | .recvmsg => "recvmsg" | .connect => "connect" | .listen => "listen"
  | .accept => "accept" | .shutdown => "shutdown" | .close => "close" | .socket => "socket"
  | .send => "send" | .sendto => "sendto" | .write => "write" | .pwrite => "pwrite"
  | .writev => "writev" | .pwritev => "pwritev" | .sendmsg => "sendmsg" | .fsync => "fsync"
  | .renameat => "renameat" | .renameat2 => "renameat2" | .mkdirat => "mkdirat"
  | .openat => "openat"

inductive SyscallState where
  | computing
  | suspend (timestamp : Nat)
  | calling (syscall : Syscall)
  | timeout
  | finished
  deriving DecidableEq, Repr

def SyscallState.display : SyscallState → String
  | .computing => "Computing"
  | .suspend timestamp => "Suspend(" ++ toString timestamp ++ ")"
  | .calling syscall => "Calling(" ++ syscall.display ++ ")"
  | .timeout => "Timeout"
  | .finished => "Finished"

inductive CoroutineState (Y R : Type*) where
  | created
  | ready
  | running
  | suspend (y : Y) (timestamp : Nat)
  | systemCall (y : Y) (syscall : Syscall) (state : SyscallState)
  | complete (r : R)
  | error (message : String)
  deriving DecidableEq, Repr

/-- A character in the `Debug` of a string. Characters outside of ASCII that are no controls
stand for themselves. -/
def escapeDebug (c : Char) : String :=
  if c = '\x00' then "\\0"
  else if c = '\t' then "\\t"
  else if c = '\r' then "\\r"
  else if c = '\n' then "\\n"
  else if c = '"' then "\\\""
  else if c = '\\' then "\\\\"
  else if c.toNat < 32 || 127 ≤ c.toNat && c.toNat < 160 then
    "\\u\x7b" ++ String.ofList (Nat.toDigits 16 c.toNat) ++ "\x7d"
  else c.toString

def debug (message : String) : String :=
  "\"" ++ String.join (message.toList.map escapeDebug) ++ "\""

namespace CoroutineState

variable {Y R : Type*}

def display [ToString Y] [ToString R] : CoroutineState Y R → String
  | .created => "Created"
  | .ready => "Ready"
  | .running => "Running"
  | .suspend y timestamp => "Suspend(" ++ toString y ++ ", " ++ toString timestamp ++ ")"
  | .systemCall y syscall state =>
    "SystemCall(" ++ toString y ++ ", " ++ syscall.display ++ ", " ++ state.display ++ ")"
  | .complete r => "Complete(" ++ toString r ++ ")"
  | .error message => "Error(" ++ debug message ++ ")"

end CoroutineState

inductive PoolState where
  | created
  | running
  | stopping (thread : Bool)
  | stopped
  deriving DecidableEq, Repr

inductive ErrorKind where
  | other
  | timedOut
  | invalidInput
  deriving DecidableEq, Repr

structure IoError where
  kind : ErrorKind
  message : String
  deriving DecidableEq, Repr

end OpenCoroutine
