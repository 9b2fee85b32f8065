import Mathlib.Data.List.DropRight
import OpenCoroutine.Nio

/-! What the loops do with their rounds. A loop comes back to its inner call only after a
round that transferred nothing, because a success resets `errno` and the test behind it
then leaves the loop. So every inner call is for the whole request, apart from the empty
`iovec`s at its head, and the call returns the first result that is not tried again. -/

namespace OpenCoroutine

namespace Nio

/-- The loop calls again after the round. -/
def Round.retries (round : Round) : Bool :=
  round.r == -1 && (round.errno == EAGAIN && round.woken || round.errno == EINTR)

/-- How the call ends with a round after which it does not call again. -/
def Round.last (round : Round) : Ending :=
  if round.r ≠ -1 then .returned round.r 0
  else if round.errno = EAGAIN then .returned round.r round.waitErrno
  else .returned round.r round.errno

/-- How the rounds end a loop that is entered, and after how many inner calls. -/
def ending : List Round → Ending
  | [] => .running
  | round :: rounds => if round.retries then ending rounds else round.last

def turns : List Round → Nat
  | [] => 1
  | round :: rounds => if round.retries then turns rounds + 1 else 1

theorem onErrno_eq {round : Round} (hr : round.r = -1) :
    if round.retries then ∃ errno, onErrno round round.errno = .inr errno
    else onErrno round round.errno = .inl round.last := by
  unfold onErrno Round.retries Round.last
  by_cases ha : round.errno = EAGAIN
  · have hne : ¬ EAGAIN = EINTR := by decide
    cases hw : round.woken <;> simp [hr, ha, hne]
  · by_cases hi : round.errno = EINTR
    · have hne : ¬ EINTR = EAGAIN := by decide
      simp [hr, hi, hne]
    · simp [hr, ha, hi]

/-- `errno` 0 is neither of the two that go on. -/
theorem onErrno_zero (round : Round) : onErrno round 0 = .inl (.returned round.r 0) := by
  have ha : ¬ (0 : Int32) = EAGAIN := by decide
  have hi : ¬ (0 : Int32) = EINTR := by decide
  simp [onErrno, ha, hi]

theorem afterCall_eq (condition : Bool) (length : UInt64) (round : Round) :
    if round.retries then ∃ errno, afterCall condition length 0 round = .inr (0, errno)
    else afterCall condition length 0 round = .inl round.last := by
  by_cases hr : round.r = -1
  · have ho := onErrno_eq hr
    by_cases ht : round.retries = true
    · rw [if_pos ht] at ho ⊢
      obtain ⟨errno, he⟩ := ho
      exact ⟨errno, by simp [afterCall, hr, he]⟩
    · rw [if_neg ht] at ho ⊢
      simp [afterCall, hr, ho]
  · have ht : round.retries = false := by simp [Round.retries, hr]
    have hl : round.last = .returned round.r 0 := by simp [Round.last, hr]
    rw [ht, hl, if_neg Bool.false_ne_true]
    simp only [afterCall, ne_eq, hr, not_false_eq_true, if_true, onErrno_zero]
    split
    · simp
    · rfl

theorem implNio_eq {κ : Type*} (call : κ) (rounds : List Round) :
    implNio call rounds = ⟨List.replicate (turns rounds) call, ending rounds, false⟩ := by
  induction rounds with
  | nil => rfl
  | cons round rounds ih =>
    by_cases hr : round.r = -1
    · have ho := onErrno_eq hr
      by_cases ht : round.retries = true
      · rw [if_pos ht] at ho
        obtain ⟨errno, he⟩ := ho
        simp [implNio, hr, he, ih, turns, ending, ht, Run.cons, List.replicate_succ]
      · rw [if_neg ht] at ho
        simp [implNio, hr, ho, turns, ending, ht]
    · have ht : round.retries = false := by simp [Round.retries, hr]
      have hl : round.last = .returned round.r 0 := by simp [Round.last, hr]
      simp [implNio, hr, turns, ending, ht, hl]

/-- What a loop that is entered comes to, for the request `call`. -/
structure Looped (call : IoCall) (rounds : List Round) (run : Run IoCall) : Prop where
  ending : run.ending = ending rounds
  turns : run.calls.length = turns rounds
  rest : ∀ call' ∈ run.calls, call.Rest 0 call'

theorem Looped.drop {call : IoCall} {rounds : List Round} {run : Run IoCall}
    (h : Looped call rounds run) (iov : List Iovec) : Looped call rounds (run.drop iov) where
  ending := by rw [Run.drop_ending, h.ending]
  turns := by rw [Run.drop_calls, h.turns]
  rest := by
    rw [Run.drop_calls]
    exact h.rest

theorem IoCall.Rest.refl (call : IoCall) : call.Rest 0 call := ⟨rfl, rfl⟩

/-- `inv` is what the variables of the loop keep while nothing is done. -/
theorem transfer_looped {σ : Type*} {condition : Bool} {length : UInt64}
    {prepare : σ → UInt64 → Option (IoCall × σ)} {call : IoCall} (inv : σ → Prop)
    (hlength : 0 < length)
    (hprepare : ∀ s, inv s → ∃ call' s',
      prepare s 0 = some (call', s') ∧ call.Rest 0 call' ∧ inv s')
    (rounds : List Round) {s : σ} (hs : inv s) (r : Int64) (errno : Int32) :
    Looped call rounds (transfer condition length prepare rounds s 0 r errno) := by
  induction rounds generalizing s r errno with
  | nil =>
    obtain ⟨call', s', hp, hrest, -⟩ := hprepare s hs
    rw [transfer, if_pos hlength, hp]
    exact ⟨rfl, rfl, by simpa using hrest⟩
  | cons round rounds ih =>
    obtain ⟨call', s', hp, hrest, hs'⟩ := hprepare s hs
    have ha := afterCall_eq condition length round
    rw [transfer, if_pos hlength, hp]
    by_cases ht : round.retries = true
    · rw [if_pos ht] at ha
      obtain ⟨errno', he⟩ := ha
      obtain ⟨hend, hturns, hall⟩ := ih hs' round.r errno'
      simp only [he]
      refine ⟨?_, ?_, ?_⟩
      · rw [Run.cons_ending, hend, Nio.ending, if_pos ht]
      · rw [Run.cons_calls, List.length_cons, hturns, Nio.turns, if_pos ht]
      · rw [Run.cons_calls, List.forall_mem_cons]
        exact ⟨hrest, hall⟩
    · rw [if_neg ht] at ha
      simp only [ha]
      refine ⟨?_, ?_, ?_⟩
      · rw [Nio.ending, if_neg ht]
      · rw [Nio.turns, if_neg ht, List.length_singleton]
      · simpa using hrest

/-- The `iovec`s from the first one that is not empty. -/
def strip (iov : List Iovec) : List Iovec := iov.dropWhile fun v => v.len == 0

theorem saturatingSub_zero (p : UInt64) : saturatingSub 0 p = 0 := by
  unfold saturatingSub
  split
  · rename_i h
    have hp : p = 0 := UInt64.le_zero_iff.1 h
    rw [hp]
    rfl
  · rfl

theorem strip_idempotent (iov : List Iovec) : strip (strip iov) = strip iov :=
  List.dropWhile_idempotent _ iov

theorem strip_bytes (iov : List Iovec) :
    (strip iov).flatMap Iovec.addresses = iov.flatMap Iovec.addresses := by
  induction iov with
  | nil => rfl
  | cons v iov ih =>
    by_cases hv : v.len = 0
    · have hempty : v.addresses = [] := by simp [Iovec.addresses, hv]
      simpa [strip, hv, hempty] using ih
    · simp [strip, hv]

/-- Where nothing is done, `from_index` is the place of the first `iovec` that is not empty. -/
theorem findIdx?_pices {iov : List Iovec} (h : strip iov ≠ []) :
    ∃ j, (pices 0 iov).findIdx? (fun v => 0 < v) = some j ∧ j < (pices 0 iov).length ∧
      iov.drop j = strip iov ∧ (pices 0 iov).drop j = pices 0 (strip iov) := by
  induction iov with
  | nil => exact absurd rfl h
  | cons v iov ih =>
    by_cases hv : v.len = 0
    · have hs : strip (v :: iov) = strip iov := by simp [strip, hv]
      rw [hs] at h ⊢
      obtain ⟨j, hj, hlt, hiov, hpices⟩ := ih h
      refine ⟨j + 1, ?_, ?_, hiov, ?_⟩
      · simp [pices, hv, List.findIdx?_cons, hj]
      · simpa [pices, hv] using hlt
      · simpa [pices, hv] using hpices
    · have hs : strip (v :: iov) = v :: iov := by simp [strip, hv]
      rw [hs]
      have hpos : 0 < v.len := UInt64.pos_iff_ne_zero.2 hv
      refine ⟨0, ?_, ?_, rfl, rfl⟩
      · simp [pices, List.findIdx?_cons, hpos]
      · simp [pices]

theorem remaining_zero {iov : List Iovec} (h : strip iov ≠ []) :
    remaining (iov, pices 0 iov) 0 = some (strip iov, strip iov, pices 0 (strip iov)) := by
  obtain ⟨j, hj, hlt, hiov, hpices⟩ := findIdx?_pices h
  have hoffset : (if 0 < j then (pices 0 iov)[j - 1]?.map (saturatingSub 0) else some 0) =
      some 0 := by
    split
    · have hprev : j - 1 < (pices 0 iov).length := by omega
      rw [List.getElem?_eq_getElem hprev, Option.map_some, saturatingSub_zero]
    · rfl
  obtain ⟨v, rest, hs⟩ := List.exists_cons_of_ne_nil h
  simp only [remaining, hj, Option.getD_some, hoffset, hiov, hpices, hs]
  simp

theorem totalLen_eq_zero {iov : List Iovec} (h : strip iov = []) : totalLen iov = 0 := by
  induction iov with
  | nil => rfl
  | cons v iov ih =>
    by_cases hv : v.len = 0
    · have hs : strip (v :: iov) = strip iov := by simp [strip, hv]
      rw [hs] at h
      rw [totalLen, List.foldl_cons, hv]
      exact ih h
    · simp [strip, hv] at h

/-! The loop that each call puts inside `impl_non_blocking!`. -/

def loop (rounds : List Round) (errno : Int32) : IoCall → Run IoCall
  | .recv buf len flags => implNioBuf true rounds errno buf len fun buf len => .recv buf len flags
  | .recvfrom buf len flags addr addrlen =>
    implNioBuf true rounds errno buf len fun buf len => .recvfrom buf len flags addr addrlen
  | .read buf count => implNioBuf true rounds errno buf count fun buf count => .read buf count
  | .pread buf count offset =>
    implNioBuf true rounds errno buf count fun buf count => .pread buf count offset
  | .readv iov => implNioIovec true rounds errno iov fun iov => .readv iov
  | .preadv iov offset => implNioIovec true rounds errno iov fun iov => .preadv iov offset
  | .recvmsg msg flags => implNioMsghdr true rounds errno msg fun msg => .recvmsg msg flags
  | .send buf len flags => implNioBuf false rounds errno buf len fun buf len => .send buf len flags
  | .sendto buf len flags addr addrlen =>
    implNioBuf false rounds errno buf len fun buf len => .sendto buf len flags addr addrlen
  | .write buf count => implNioBuf false rounds errno buf count fun buf count => .write buf count
  | .pwrite buf count offset =>
    implNioBuf false rounds errno buf count fun buf count => .pwrite buf count offset
  | .writev iov => implNioIovec false rounds errno iov fun iov => .writev iov
  | .pwritev iov offset => implNioIovec false rounds errno iov fun iov => .pwritev iov offset
  | .sendmsg msg flags => implNioMsghdr false rounds errno msg fun msg => .sendmsg msg flags
  | .accept address addressLen => implNio (.accept address addressLen) rounds
  | .accept4 addr len flg => implNio (.accept4 addr len flg) rounds

theorem hooked_eq (d : Descriptor) (rounds : List Round) (errno : Int32) (call : IoCall) :
    hooked d rounds errno call = implNonBlocking d (loop rounds errno call) := by
  cases call <;> rfl

/-- The size of the request as the loops add it up. -/
def IoCall.length (call : IoCall) : UInt64 := totalLen call.buffers

theorem implNio_looped (call : IoCall) (rounds : List Round) :
    Looped call rounds (implNio call rounds) := by
  rw [implNio_eq]
  refine ⟨rfl, List.length_replicate, fun call' hc => ?_⟩
  rw [List.eq_of_mem_replicate hc]
  exact .refl call

theorem totalLen_singleton (v : Iovec) : totalLen [v] = v.len := UInt64.zero_add v.len

theorem implNioBuf_looped {condition : Bool} {buffer length : UInt64}
    (syscall : UInt64 → UInt64 → IoCall) (hlength : 0 < totalLen [⟨buffer, length⟩])
    (rounds : List Round) (errno : Int32) :
    Looped (syscall buffer length) rounds
      (implNioBuf condition rounds errno buffer length syscall) := by
  rw [totalLen_singleton] at hlength
  refine transfer_looped (fun _ => True) hlength (fun s _ => ⟨_, (), rfl, ?_, trivial⟩) rounds
    trivial 0 errno
  rw [UInt64.add_zero, UInt64.sub_zero]
  exact .refl _

/-- The variables of the loop while nothing is done: what is left of the `iovec`s differs
from the request in empty ones only. -/
def Unstarted (iov : List Iovec) (s : List Iovec × List UInt64) : Prop :=
  strip s.1 = strip iov ∧ s.1.length ≤ iov.length ∧ s.2 = pices 0 s.1

theorem remaining_unstarted {iov : List Iovec} (hlength : 0 < totalLen iov)
    {s : List Iovec × List UInt64} (hs : Unstarted iov s) :
    remaining s 0 = some (strip iov, strip iov, pices 0 (strip iov)) ∧
      Unstarted iov (strip iov, pices 0 (strip iov)) := by
  obtain ⟨vec, ps⟩ := s
  obtain ⟨hstrip, hle, hps⟩ := hs
  have hps' : ps = pices 0 vec := hps
  have hstrip' : strip vec = strip iov := hstrip
  have hne : strip vec ≠ [] := by
    intro hnil
    rw [hstrip'] at hnil
    rw [totalLen_eq_zero hnil] at hlength
    exact absurd hlength (by decide)
  rw [hps', remaining_zero hne, hstrip']
  exact ⟨rfl, strip_idempotent iov, (List.dropWhile_sublist _).length_le, rfl⟩

/-- An inner call for the request without the empty `iovec`s at its head. -/
theorem IoCall.Rest.of_strip {call call' : IoCall} (hbuffers : call'.buffers = strip call.buffers)
    (hbeside : call'.beside 0 = call.beside 0) : call.Rest 0 call' where
  bytes := by rw [IoCall.bytes, hbuffers, strip_bytes, List.drop_zero, IoCall.bytes]
  beside := hbeside

theorem implNioIovec_looped {condition : Bool} {iov : Iovecs} (syscall : Iovecs → IoCall)
    (hlength : 0 < totalLen iov.iov) (rounds : List Round) (errno : Int32)
    (hsyscall : ∀ iov', iov'.iov = strip iov.iov → (syscall iov).Rest 0 (syscall iov')) :
    Looped (syscall iov) rounds (implNioIovec condition rounds errno iov syscall) := by
  refine (transfer_looped (Unstarted iov.iov) hlength (fun s hs => ?_) rounds
    ⟨rfl, le_rfl, rfl⟩ 0 errno).drop iov.iov
  obtain ⟨hr, hs'⟩ := remaining_unstarted hlength hs
  have hbounded : (strip iov.iov).length < 2 ^ 31 := lt_of_le_of_lt hs'.2.1 iov.bounded
  refine ⟨syscall ⟨strip iov.iov, hbounded⟩, _, ?_, hsyscall _ rfl, hs'⟩
  simp only [prepareIovec, hr, Option.bind_some, dif_pos hbounded]

theorem implNioMsghdr_looped {condition : Bool} {msg : Msghdr} (syscall : Msghdr → IoCall)
    (hlength : 0 < totalLen msg.iov) (rounds : List Round) (errno : Int32)
    (hsyscall : (syscall msg).Rest 0 (syscall { msg with iov := strip msg.iov })) :
    Looped (syscall msg) rounds (implNioMsghdr condition rounds errno msg syscall) := by
  refine (transfer_looped (Unstarted msg.iov) hlength (fun s hs => ?_) rounds
    ⟨rfl, le_rfl, rfl⟩ 0 errno).drop msg.iov
  obtain ⟨hr, hs'⟩ := remaining_unstarted hlength hs
  refine ⟨syscall { msg with iov := strip msg.iov }, _, ?_, hsyscall, hs'⟩
  simp only [prepareMsghdr, hr, Option.map_some]

theorem transfer_idle {σ κ : Type*} {condition : Bool} {length : UInt64}
    {prepare : σ → UInt64 → Option (κ × σ)} (hlength : length = 0) (rounds : List Round) (s : σ)
    (r : Int64) (errno : Int32) :
    transfer condition length prepare rounds s 0 r errno = ⟨[], .returned r errno, false⟩ := by
  rw [transfer, if_neg (by rw [hlength]; decide)]

/-- A transfer whose size adds up to 0 makes no inner call. -/
theorem loop_idle {call : IoCall} (ht : call.isTransfer = true) (hlength : call.length = 0)
    (rounds : List Round) (errno : Int32) :
    loop rounds errno call = ⟨[], .returned 0 errno, !call.array.isEmpty⟩ := by
  cases call with
  | recv buf len _ | recvfrom buf len _ _ _ | read buf len | pread buf len _
  | send buf len _ | sendto buf len _ _ _ | write buf len | pwrite buf len _ =>
    rw [IoCall.length, IoCall.buffers, totalLen_singleton] at hlength
    exact transfer_idle hlength rounds () 0 errno
  | readv iov | preadv iov _ | writev iov | pwritev iov _ =>
    exact congrArg (Run.drop · iov.iov) (transfer_idle hlength rounds _ 0 errno)
  | recvmsg msg _ | sendmsg msg _ =>
    exact congrArg (Run.drop · msg.iov) (transfer_idle hlength rounds _ 0 errno)
  | accept _ _ | accept4 _ _ _ => cases ht

/-- Every other call enters its loop. -/
theorem loop_looped {call : IoCall} (hlength : call.isTransfer = true → 0 < call.length)
    (rounds : List Round) (errno : Int32) : Looped call rounds (loop rounds errno call) := by
  cases call with
  | recv buf len flags =>
    exact implNioBuf_looped (fun buf len => .recv buf len flags) (hlength rfl) rounds errno
  | recvfrom buf len flags addr addrlen =>
    exact implNioBuf_looped (fun buf len => .recvfrom buf len flags addr addrlen) (hlength rfl)
      rounds errno
  | read buf count => exact implNioBuf_looped .read (hlength rfl) rounds errno
  | pread buf count offset =>
    exact implNioBuf_looped (fun buf count => .pread buf count offset) (hlength rfl) rounds errno
  | send buf len flags =>
    exact implNioBuf_looped (fun buf len => .send buf len flags) (hlength rfl) rounds errno
  | sendto buf len flags addr addrlen =>
    exact implNioBuf_looped (fun buf len => .sendto buf len flags addr addrlen) (hlength rfl)
      rounds errno
  | write buf count => exact implNioBuf_looped .write (hlength rfl) rounds errno
  | pwrite buf count offset =>
    exact implNioBuf_looped (fun buf count => .pwrite buf count offset) (hlength rfl) rounds errno
  | readv iov =>
    exact implNioIovec_looped .readv (hlength rfl) rounds errno fun _ h => .of_strip h rfl
  | preadv iov offset =>
    exact implNioIovec_looped (fun iov => .preadv iov offset) (hlength rfl) rounds errno
      fun _ h => .of_strip h rfl
  | writev iov =>
    exact implNioIovec_looped .writev (hlength rfl) rounds errno fun _ h => .of_strip h rfl
  | pwritev iov offset =>
    exact implNioIovec_looped (fun iov => .pwritev iov offset) (hlength rfl) rounds errno
      fun _ h => .of_strip h rfl
  | recvmsg msg flags =>
    exact implNioMsghdr_looped (fun msg => .recvmsg msg flags) (hlength rfl) rounds errno
      (.of_strip rfl rfl)
  | sendmsg msg flags =>
    exact implNioMsghdr_looped (fun msg => .sendmsg msg flags) (hlength rfl) rounds errno
      (.of_strip rfl rfl)
  | accept address addressLen => exact implNio_looped (.accept address addressLen) rounds
  | accept4 addr len flg => exact implNio_looped (.accept4 addr len flg) rounds

/-- The bytes that the inner calls of these rounds have transferred. -/
def transferred (rounds : List Round) : Nat := (rounds.map fun round => round.r.toInt.toNat).sum

theorem transferred_cons (round : Round) (rounds : List Round) :
    transferred (round :: rounds) = round.r.toInt.toNat + transferred rounds := rfl

theorem Round.retries_r {round : Round} (h : round.retries = true) : round.r = -1 := by
  rw [Round.retries, Bool.and_eq_true, beq_iff_eq] at h
  exact h.1

theorem transferred_retry {round : Round} (h : round.retries = true) (rounds : List Round) :
    transferred (round :: rounds) = transferred rounds := by
  have hzero : ((-1 : Int64).toInt).toNat = 0 := by decide
  rw [transferred_cons, round.retries_r h, hzero, Nat.zero_add]

theorem Round.last_returned (round : Round) : ∃ errno, round.last = .returned round.r errno := by
  unfold Round.last
  split
  · exact ⟨0, rfl⟩
  · split
    · exact ⟨round.waitErrno, rfl⟩
    · exact ⟨round.errno, rfl⟩

/-- Every inner call comes before the first byte is transferred. -/
theorem transferred_take {rounds : List Round} {i : Nat} (hi : i < turns rounds) :
    transferred (rounds.take i) = 0 := by
  induction rounds generalizing i with
  | nil => rw [List.take_nil]; rfl
  | cons round rounds ih =>
    cases i with
    | zero => rfl
    | succ i =>
      by_cases ht : round.retries = true
      · rw [turns, if_pos ht] at hi
        rw [List.take_succ_cons, transferred_retry ht]
        exact ih (by omega)
      · rw [turns, if_neg ht] at hi
        omega

theorem transferred_turns {rounds : List Round} {r : Int64} {errno : Int32}
    (hend : ending rounds = .returned r errno) :
    transferred (rounds.take (turns rounds)) = r.toInt.toNat ∧ ∃ round ∈ rounds, round.r = r := by
  induction rounds with
  | nil => cases hend
  | cons round rounds ih =>
    by_cases ht : round.retries = true
    · rw [ending, if_pos ht] at hend
      obtain ⟨htotal, round', hmem, hr⟩ := ih hend
      rw [turns, if_pos ht, List.take_succ_cons, transferred_retry ht]
      exact ⟨htotal, round', List.mem_cons_of_mem _ hmem, hr⟩
    · obtain ⟨errno', hlast⟩ := round.last_returned
      rw [ending, if_neg ht, hlast, Ending.returned.injEq] at hend
      rw [turns, if_neg ht, ← hend.1]
      exact ⟨by simp [transferred], round, List.mem_cons_self, rfl⟩

theorem ending_cases (rounds : List Round) :
    ending rounds = .running ∨ ∃ r errno, ending rounds = .returned r errno := by
  induction rounds with
  | nil => exact .inl rfl
  | cons round rounds ih =>
    rw [ending]
    split
    · exact ih
    · exact .inr ⟨round.r, round.last_returned⟩

/-- A transfer, as its loop ends: idle where its size adds up to 0, and looped elsewhere. -/
theorem loop_cases (call : IoCall) (rounds : List Round) (errno : Int32) :
    (call.isTransfer = true ∧ call.length = 0) ∧
        loop rounds errno call = ⟨[], .returned 0 errno, !call.array.isEmpty⟩ ∨
      (call.isTransfer = true → 0 < call.length) ∧ Looped call rounds (loop rounds errno call) := by
  by_cases h : call.isTransfer = true ∧ call.length = 0
  · exact .inl ⟨h, loop_idle h.1 h.2 rounds errno⟩
  · have hlength : call.isTransfer = true → 0 < call.length :=
      fun ht => UInt64.pos_iff_ne_zero.2 fun hz => h ⟨ht, hz⟩
    exact .inr ⟨hlength, loop_looped hlength rounds errno⟩

/-- The loops leave `impl_non_blocking!` at its end, if they come to one. -/
theorem loop_ending (call : IoCall) (rounds : List Round) (errno : Int32) :
    (loop rounds errno call).ending = .running ∨
      ∃ r errno', (loop rounds errno call).ending = .returned r errno' := by
  rcases loop_cases call rounds errno with ⟨-, hl⟩ | ⟨-, hl⟩
  · exact .inr ⟨0, errno, by rw [hl]⟩
  · rw [hl.ending]
    exact ending_cases rounds

/-- A hooked call ends as its loop, on a descriptor that `fcntl` can control. -/
theorem hooked_cases (d : Descriptor) (rounds : List Round) (errno : Int32) (call : IoCall) :
    d.Controllable ∧ (hooked d rounds errno call).ending = (loop rounds errno call).ending ∧
        (hooked d rounds errno call).calls = (loop rounds errno call).calls ∨
      ¬ d.Controllable ∧ (hooked d rounds errno call).ending = .panicked ∧
        (hooked d rounds errno call).calls = [] := by
  rw [hooked_eq]
  by_cases hd : d.Controllable
  · rw [implNonBlocking_controllable hd]
    refine .inl ⟨hd, ?_, rfl⟩
    rcases loop_ending call rounds errno with he | ⟨r, errno', he⟩ <;> rw [he] <;> rfl
  · rw [implNonBlocking_uncontrollable hd]
    exact .inr ⟨hd, rfl, rfl⟩

theorem transfer_freed {σ κ : Type*} (condition : Bool) (length : UInt64)
    (prepare : σ → UInt64 → Option (κ × σ)) (rounds : List Round) (s : σ) (done : UInt64)
    (r : Int64) (errno : Int32) :
    (transfer condition length prepare rounds s done r errno).freed = false := by
  induction rounds generalizing s done r errno with
  | nil =>
    unfold transfer
    split
    · cases prepare s done <;> rfl
    · rfl
  | cons round rounds ih =>
    unfold transfer
    split
    · cases prepare s done with
      | none => rfl
      | some next =>
        cases ha : afterCall condition length done round with
        | inl ending => simp [ha]
        | inr after => simp [ha, Run.cons, ih]
    · rfl

theorem Run.drop_freed {κ : Type*} {run : Run κ} {r : Int64} {errno : Int32} {iov : List Iovec}
    (h : (run.drop iov).ending = .returned r errno) : (run.drop iov).freed = !iov.isEmpty := by
  rw [Run.drop_ending] at h
  rw [Run.drop, h]

/-- A call that returns has freed the array of `iovec`s of its caller, if it takes one. -/
theorem loop_freed {rounds : List Round} {errno : Int32} {call : IoCall} {r : Int64}
    {errno' : Int32} (h : (loop rounds errno call).ending = .returned r errno') :
    (loop rounds errno call).freed = !call.array.isEmpty := by
  cases call with
  | recv _ _ _ | recvfrom _ _ _ _ _ | read _ _ | pread _ _ _ | send _ _ _ | sendto _ _ _ _ _
  | write _ _ | pwrite _ _ _ => exact transfer_freed _ _ _ rounds () 0 0 errno
  | readv _ | preadv _ _ | writev _ | pwritev _ _ | recvmsg _ _ | sendmsg _ _ =>
    exact Run.drop_freed h
  | accept _ _ | accept4 _ _ _ =>
    rw [loop, implNio_eq]
    rfl

theorem hooked_freed {d : Descriptor} (hd : d.Controllable) (rounds : List Round)
    (errno : Int32) (call : IoCall) :
    (hooked d rounds errno call).freed = (loop rounds errno call).freed := by
  rw [hooked_eq, implNonBlocking_controllable hd]

/-- The bytes that all inner calls of the hooked call have transferred. -/
def Hooked.transferred {κ : Type*} (h : Hooked κ) (rounds : List Round) : Nat :=
  Nio.transferred (rounds.take h.calls.length)

/-- Every inner call is for what the bytes transferred before it have left of the request,
and the call returns the number of all of them if there are any. -/
theorem transfers_accounted (d : Descriptor) (call : IoCall) {rounds : List Round}
    (hrounds : ∀ round ∈ rounds, round.r = -1 ∨ 0 ≤ round.r) (errno : Int32) :
    (loop rounds errno call).ending ≠ .panicked ∧
      (∀ (i : Nat) call', (hooked d rounds errno call).calls[i]? = some call' →
        call.Rest (transferred (rounds.take i)) call') ∧
      ∀ r errno', (hooked d rounds errno call).ending = .returned r errno' →
        (0 < (hooked d rounds errno call).transferred rounds →
          r.toInt = (hooked d rounds errno call).transferred rounds) ∧
        (r = -1 → (hooked d rounds errno call).transferred rounds = 0) := by
  have hcases := hooked_cases d rounds errno call
  refine ⟨?_, ?_⟩
  · rcases loop_ending call rounds errno with he | ⟨r, errno', he⟩ <;> rw [he] <;> nofun
  rcases loop_cases call rounds errno with ⟨-, hl⟩ | ⟨-, hl⟩
  · have hcalls : (hooked d rounds errno call).calls = [] := by
      rcases hcases with ⟨-, -, hc⟩ | ⟨-, -, hc⟩
      · rw [hc, hl]
      · exact hc
    rw [Hooked.transferred, hcalls]
    refine ⟨fun i call' hi => ?_, fun r errno' _ => ⟨fun h => ?_, fun _ => rfl⟩⟩
    · cases hi
    · exact absurd h (Nat.lt_irrefl 0)
  · rcases hcases with ⟨-, he, hc⟩ | ⟨-, he, hc⟩
    · rw [Hooked.transferred, he, hc, hl.ending, hl.turns]
      refine ⟨fun i call' hi => ?_, fun r errno' hr => ?_⟩
      · have hlt : i < turns rounds := by
          rw [← hl.turns]
          exact (List.getElem?_eq_some_iff.1 hi).1
        rw [transferred_take hlt]
        exact hl.rest call' (List.mem_of_getElem? hi)
      · obtain ⟨htotal, round, hmem, rfl⟩ := transferred_turns hr
        rw [htotal]
        rcases hrounds round hmem with hneg | hpos
        · rw [hneg]
          exact ⟨fun h => absurd h (by decide), fun _ => by decide⟩
        · have hnonneg : 0 ≤ round.r.toInt := by simpa using Int64.le_iff_toInt_le.1 hpos
          refine ⟨fun _ => (Int.toNat_of_nonneg hnonneg).symm, fun hneg => ?_⟩
          rw [hneg]
          decide
    · rw [hc, he]
      exact ⟨fun i call' hi => (by cases hi), fun r errno' hr => by cases hr⟩

def scattered : IoCall := .preadv ⟨[⟨0, 0⟩, ⟨16, 4⟩, ⟨64, 8⟩], by decide⟩ 100

def waitedThenShort : List Round := [⟨-1, EAGAIN, true, 0⟩, ⟨6, 0, false, 0⟩]

theorem transfers_accounted_short : (6 : Int64).toInt = transferred waitedThenShort :=
  ((transfers_accounted ⟨some 0, true⟩ scattered
    (show ∀ round ∈ waitedThenShort, round.r = -1 ∨ 0 ≤ round.r by decide) 0).2.2 6 0
      (by decide)).1 (by decide)

end Nio

end OpenCoroutine
