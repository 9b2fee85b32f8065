import Mathlib.Data.List.Basic

/-! `RawLinuxSyscall`: the methods of `UnixSyscall` and `LinuxSyscall` with their default
bodies. A function of the C library takes its arguments one by one and changes the state of
the environment, which holds the memory behind the pointers, `errno` and the kernel. A
pointer is an address with the type behind it; constant and mutable pointers are not told
apart, since the compiler turns the one into the other. -/

namespace OpenCoroutine

inductive Pointee where
  | c_void | epoll_event | fd_set | iovec | msghdr | pollfd | sockaddr | socklen_t | timespec
  | timeval
  deriving DecidableEq, Repr

structure Ptr (pointee : Pointee) where
  address : UInt64
  deriving DecidableEq, Repr, Inhabited

inductive CType where
  | c_int | c_uint | nfds_t | off_t | size_t | socklen_t | ssize_t
  | ptr (pointee : Pointee)
  deriving DecidableEq, Repr

/-- The values of the type on Linux for 64 bits. -/
def CType.Value : CType → Type
  | .c_int => Int32
  | .c_uint | .socklen_t => UInt32
  | .nfds_t | .size_t => UInt64
  | .off_t | .ssize_t => Int64
  | .ptr pointee => Ptr pointee

instance : (t : CType) → Inhabited t.Value
  | .c_int => inferInstanceAs (Inhabited Int32)
  | .c_uint | .socklen_t => inferInstanceAs (Inhabited UInt32)
  | .nfds_t | .size_t => inferInstanceAs (Inhabited UInt64)
  | .off_t | .ssize_t => inferInstanceAs (Inhabited Int64)
  | .ptr pointee => inferInstanceAs (Inhabited (Ptr pointee))

/-- The functions that take `params` one by one and return a value of type `ret`. -/
def CFn (σ : Type) (ret : CType) : List CType → Type
  | [] => σ → ret.Value × σ
  | param :: params => param.Value → CFn σ ret params

def CArgs : List CType → Type
  | [] => Unit
  | param :: params => param.Value × CArgs params

namespace CFn

variable {σ : Type} {ret : CType}

def call : {params : List CType} → CFn σ ret params → CArgs params → σ → ret.Value × σ
  | [], f, (), s => f s
  | _ :: _, f, (arg, args), s => call (f arg) args s

/-- The function that does `f` whatever its arguments are. -/
def const (f : σ → ret.Value × σ) : (params : List CType) → CFn σ ret params
  | [] => f
  | _ :: params => fun _ => const f params

end CFn

inductive RawCall where
  | sleep | usleep | nanosleep | poll | select | socket | listen | accept | connect | shutdown
  | close | recv | recvfrom | read | pread | readv | preadv | recvmsg | send | sendto | write
  | pwrite | writev | pwritev | sendmsg | epoll_ctl | accept4
  deriving DecidableEq, Repr

namespace RawCall

def params : RawCall → List CType
  | sleep | usleep => [.c_uint]
  | nanosleep => [.ptr .timespec, .ptr .timespec]
  | poll => [.ptr .pollfd, .nfds_t, .c_int]
  | select => [.c_int, .ptr .fd_set, .ptr .fd_set, .ptr .fd_set, .ptr .timeval]
  | socket => [.c_int, .c_int, .c_int]
  | listen | shutdown => [.c_int, .c_int]
  | accept => [.c_int, .ptr .sockaddr, .ptr .socklen_t]
  | connect => [.c_int, .ptr .sockaddr, .socklen_t]
  | close => [.c_int]
  | recv | send => [.c_int, .ptr .c_void, .size_t, .c_int]
  | recvfrom => [.c_int, .ptr .c_void, .size_t, .c_int, .ptr .sockaddr, .ptr .socklen_t]
  | read | write => [.c_int, .ptr .c_void, .size_t]
  | pread | pwrite => [.c_int, .ptr .c_void, .size_t, .off_t]
  | readv | writev => [.c_int, .ptr .iovec, .c_int]
  | preadv | pwritev => [.c_int, .ptr .iovec, .c_int, .off_t]
  | recvmsg | sendmsg => [.c_int, .ptr .msghdr, .c_int]
  | sendto => [.c_int, .ptr .c_void, .size_t, .c_int, .ptr .sockaddr, .socklen_t]
  | epoll_ctl => [.c_int, .c_int, .c_int, .ptr .epoll_event]
  | accept4 => [.c_int, .ptr .sockaddr, .ptr .socklen_t, .c_int]

def ret : RawCall → CType
  | sleep => .c_uint
  | usleep | nanosleep | poll | select | socket | listen | accept | connect | shutdown | close
  | epoll_ctl | accept4 => .c_int
  | recv | recvfrom | read | pread | readv | preadv | recvmsg | send | sendto | write | pwrite
  | writev | pwritev | sendmsg => .ssize_t

abbrev Fn (σ : Type) (c : RawCall) : Type := CFn σ c.ret c.params

end RawCall

abbrev Libc (σ : Type) : Type := (c : RawCall) → c.Fn σ

namespace RawLinuxSyscall

/-- `if let Some(f) = fn_ptr { (f)(..) } else { libc::..(..) }`. -/
def orElse {F R : Type} (fnPtr : Option F) (call : F → R) (fallback : R) : R :=
  match fnPtr with
  | some f => call f
  | none => fallback

open RawCall (Fn)

variable {σ : Type} (libc : Libc σ)

def sleep (fnPtr : Option (Fn σ .sleep)) : Fn σ .sleep := fun secs =>
  orElse fnPtr (fun f => f secs) (libc .sleep secs)

def usleep (fnPtr : Option (Fn σ .usleep)) : Fn σ .usleep := fun microseconds =>
  orElse fnPtr (fun f => f microseconds) (libc .usleep microseconds)

def nanosleep (fnPtr : Option (Fn σ .nanosleep)) : Fn σ .nanosleep := fun rqtp rmtp =>
  orElse fnPtr (fun f => f rqtp rmtp) (libc .nanosleep rqtp rmtp)

def poll (fnPtr : Option (Fn σ .poll)) : Fn σ .poll := fun fds nfds timeout =>
  orElse fnPtr (fun f => f fds nfds timeout) (libc .poll fds nfds timeout)

def select (fnPtr : Option (Fn σ .select)) : Fn σ .select :=
  fun nfds readfds writefds errorfds timeout =>
    orElse fnPtr (fun f => f nfds readfds writefds errorfds timeout)
      (libc .select nfds readfds writefds errorfds timeout)

def socket (fnPtr : Option (Fn σ .socket)) : Fn σ .socket := fun domain ty protocol =>
  orElse fnPtr (fun f => f domain ty protocol) (libc .socket domain ty protocol)

def listen (fnPtr : Option (Fn σ .listen)) : Fn σ .listen := fun socket backlog =>
  orElse fnPtr (fun f => f socket backlog) (libc .listen socket backlog)

def accept (fnPtr : Option (Fn σ .accept)) : Fn σ .accept := fun socket address address_len =>
  orElse fnPtr (fun f => f socket address address_len) (libc .accept socket address address_len)

def connect (fnPtr : Option (Fn σ .connect)) : Fn σ .connect := fun socket address len =>
  orElse fnPtr (fun f => f socket address len) (libc .connect socket address len)

def shutdown (fnPtr : Option (Fn σ .shutdown)) : Fn σ .shutdown := fun socket how =>
  orElse fnPtr (fun f => f socket how) (libc .shutdown socket how)

def close (fnPtr : Option (Fn σ .close)) : Fn σ .close := fun fd =>
  orElse fnPtr (fun f => f fd) (libc .close fd)

/-- The fallback is `libc::send`. -/
def recv (fnPtr : Option (Fn σ .recv)) : Fn σ .recv := fun socket buf len flags =>
  orElse fnPtr (fun f => f socket buf len flags) (libc .send socket buf len flags)

def recvfrom (fnPtr : Option (Fn σ .recvfrom)) : Fn σ .recvfrom :=
  fun socket buf len flags addr addrlen =>
    orElse fnPtr (fun f => f socket buf len flags addr addrlen)
      (libc .recvfrom socket buf len flags addr addrlen)

def read (fnPtr : Option (Fn σ .read)) : Fn σ .read := fun fd buf count =>
  orElse fnPtr (fun f => f fd buf count) (libc .read fd buf count)

def pread (fnPtr : Option (Fn σ .pread)) : Fn σ .pread := fun fd buf count offset =>
  orElse fnPtr (fun f => f fd buf count offset) (libc .pread fd buf count offset)

def readv (fnPtr : Option (Fn σ .readv)) : Fn σ .readv := fun fd iov iovcnt =>
  orElse fnPtr (fun f => f fd iov iovcnt) (libc .readv fd iov iovcnt)

def preadv (fnPtr : Option (Fn σ .preadv)) : Fn σ .preadv := fun fd iov iovcnt offset =>
  orElse fnPtr (fun f => f fd iov iovcnt offset) (libc .preadv fd iov iovcnt offset)

def recvmsg (fnPtr : Option (Fn σ .recvmsg)) : Fn σ .recvmsg := fun fd msg flags =>
  orElse fnPtr (fun f => f fd msg flags) (libc .recvmsg fd msg flags)

def send (fnPtr : Option (Fn σ .send)) : Fn σ .send := fun socket buf len flags =>
  orElse fnPtr (fun f => f socket buf len flags) (libc .send socket buf len flags)

def sendto (fnPtr : Option (Fn σ .sendto)) : Fn σ .sendto :=
  fun socket buf len flags addr addrlen =>
    orElse fnPtr (fun f => f socket buf len flags addr addrlen)
      (libc .sendto socket buf len flags addr addrlen)

def write (fnPtr : Option (Fn σ .write)) : Fn σ .write := fun fd buf count =>
  orElse fnPtr (fun f => f fd buf count) (libc .write fd buf count)

def pwrite (fnPtr : Option (Fn σ .pwrite)) : Fn σ .pwrite := fun fd buf count offset =>
  orElse fnPtr (fun f => f fd buf count offset) (libc .pwrite fd buf count offset)

def writev (fnPtr : Option (Fn σ .writev)) : Fn σ .writev := fun fd iov iovcnt =>
  orElse fnPtr (fun f => f fd iov iovcnt) (libc .writev fd iov iovcnt)

def pwritev (fnPtr : Option (Fn σ .pwritev)) : Fn σ .pwritev := fun fd iov iovcnt offset =>
  orElse fnPtr (fun f => f fd iov iovcnt offset) (libc .pwritev fd iov iovcnt offset)

def sendmsg (fnPtr : Option (Fn σ .sendmsg)) : Fn σ .sendmsg := fun fd msg flags =>
  orElse fnPtr (fun f => f fd msg flags) (libc .sendmsg fd msg flags)

def epoll_ctl (fnPtr : Option (Fn σ .epoll_ctl)) : Fn σ .epoll_ctl := fun epfd op fd event =>
  orElse fnPtr (fun f => f epfd op fd event) (libc .epoll_ctl epfd op fd event)

def accept4 (fnPtr : Option (Fn σ .accept4)) : Fn σ .accept4 := fun fd addr len flg =>
  orElse fnPtr (fun f => f fd addr len flg) (libc .accept4 fd addr len flg)

def method : (c : RawCall) → Option (c.Fn σ) → c.Fn σ
  | .sleep => sleep libc
  | .usleep => usleep libc
  | .nanosleep => nanosleep libc
  | .poll => poll libc
  | .select => select libc
  | .socket => socket libc
  | .listen => listen libc
  | .accept => accept libc
  | .connect => connect libc
  | .shutdown => shutdown libc
  | .close => close libc
  | .recv => recv libc
  | .recvfrom => recvfrom libc
  | .read => read libc
  | .pread => pread libc
  | .readv => readv libc
  | .preadv => preadv libc
  | .recvmsg => recvmsg libc
  | .send => send libc
  | .sendto => sendto libc
  | .write => write libc
  | .pwrite => pwrite libc
  | .writev => writev libc
  | .pwritev => pwritev libc
  | .sendmsg => sendmsg libc
  | .epoll_ctl => epoll_ctl libc
  | .accept4 => accept4 libc

/-- With the pointer a method is the function behind it. -/
theorem method_some (c : RawCall) (f : c.Fn σ) : method libc c (some f) = f := by
  cases c <;> rfl

/-- The function that a method falls back to. -/
def fallback : (c : RawCall) → c.Fn σ
  | .recv => libc .send
  | c => libc c

theorem method_none (c : RawCall) : method libc c none = fallback libc c := by
  cases c <;> rfl

/-- On these arguments and in this environment the method does the same without the pointer
as with the one to the function of its name. -/
def PathsAgree (c : RawCall) (args : CArgs c.params) (s : σ) : Prop :=
  (method libc c none).call args s = (method libc c (some (libc c))).call args s

/-- In a call of `recv` the `send` of the library does what its `recv` does. -/
def SendActsAsRecv : (c : RawCall) → CArgs c.params → σ → Prop
  | .recv, args, s => (libc .send).call args s = (libc .recv).call args s
  | _, _, _ => True

/-- The two paths agree except in `recv` where `send` and `recv` differ. -/
theorem paths_agree_iff (c : RawCall) (args : CArgs c.params) (s : σ) :
    PathsAgree libc c args s ↔ SendActsAsRecv libc c args s := by
  rw [PathsAgree, method_none, method_some]
  cases c with
  | recv => exact Iff.rfl
  | _ => exact iff_of_true rfl trivial

/-- The functions that write down their names. -/
def recording : Libc (List RawCall) := fun c => .const (fun log => (default, c :: log)) c.params

/-- The one path calls `send`, the other one `recv`. -/
theorem recv_paths_differ :
    ¬ PathsAgree recording .recv
      ((3 : Int32), ⟨4096⟩, (16 : UInt64), (0 : Int32), ()) [] := by
  intro h
  have hlog := congrArg Prod.snd h
  cases hlog

end RawLinuxSyscall

end OpenCoroutine
