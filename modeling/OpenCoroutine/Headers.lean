import OpenCoroutine.Transfers

/-! The message header of a hooked `recvmsg`. `impl_nio_msghdr!` copies the caller's header,
and makes each inner call on a header of its own, into which the inner call writes what it
reports. A round comes with that report, written where it succeeds. -/

namespace OpenCoroutine

namespace Nio

structure Header where
  msgName : UInt64
  msgNamelen : UInt32
  msgIov : UInt64
  msgIovlen : UInt64
  msgControl : UInt64
  msgControllen : UInt64
  msgFlags : Int32
  deriving DecidableEq, Repr

structure Report where
  msgNamelen : UInt32
  msgControllen : UInt64
  msgFlags : Int32
  deriving DecidableEq, Repr

/-- A header with the `iovec`s it points to. -/
structure Message where
  header : Header
  iov : List Iovec
  len : header.msgIovlen.toNat = iov.length

/-- Where the headers of the call lie: `*msg` is the caller's, `new_msg` the loop's own. -/
inductive Place where
  | msg
  | newMsg
  deriving DecidableEq, Repr

structure Received where
  run : Run IoCall
  mem : Place → Header

namespace Header

def report (h : Header) (report : Report) : Header :=
  { h with
    msgNamelen := report.msgNamelen
    msgControllen := report.msgControllen
    msgFlags := report.msgFlags }

/-- `new_msg`: the queue keeps the array of the `iovec`s it is made from, and its first
element moves up in it. -/
def newMsg (msghdr : Header) (vec : List Iovec) : Header :=
  { msghdr with
    msgIov := msghdr.msgIov + 16 * (msghdr.msgIovlen - UInt64.ofNat vec.length)
    msgIovlen := UInt64.ofNat vec.length }

/-- The header as a call finds it, with the `iovec`s it points to. -/
def view (h : Header) (iov : List Iovec) : Msghdr :=
  ⟨h.msgName, h.msgNamelen, iov, h.msgControl, h.msgControllen, h.msgFlags⟩

end Header

/-- The loop of `impl_nio_msghdr!` for `recvmsg`, with `msghdr` copied from `*msg`. -/
def recvmsgLoop (length : UInt64) (msghdr : Header) (flags : Int32)
    (rounds : List (Round × Report)) (s : List Iovec × List UInt64) (done : UInt64) (r : Int64)
    (errno : Int32) (mem : Place → Header) : Received :=
  if done < length then
    match remaining s done with
    | none => ⟨⟨[], .panicked, false⟩, mem⟩
    | some (vec, s) =>
      let mem := Function.update mem .newMsg (msghdr.newMsg vec)
      let call : IoCall := .recvmsg ((mem .newMsg).view vec) flags
      match rounds with
      | [] => ⟨⟨[call], .running, false⟩, mem⟩
      | (round, report) :: rounds =>
        let mem := if round.r ≠ -1 then Function.update mem .newMsg ((mem .newMsg).report report)
          else mem
        match afterCall true length done round with
        | .inl ending => ⟨⟨[call], ending, false⟩, mem⟩
        | .inr (done, errno) =>
          let received := recvmsgLoop length msghdr flags rounds s done round.r errno mem
          ⟨received.run.cons call, received.mem⟩
  else ⟨⟨[], .returned r errno, false⟩, mem⟩

/-- The body that `recvmsg` gives to `impl_non_blocking!`; `new_msg` is written before it is
read. -/
def recvmsgBody (rounds : List (Round × Report)) (errno : Int32) (msg : Message) (flags : Int32) :
    Received :=
  let received := recvmsgLoop (totalLen msg.iov) msg.header flags rounds
    (msg.iov, pices 0 msg.iov) 0 0 errno fun _ => msg.header
  ⟨received.run.drop msg.iov, received.mem⟩

variable {length : UInt64} {msghdr : Header} {flags : Int32}

/-- The calls and the end of the loop do not depend on what is reported. -/
theorem recvmsgLoop_run (iov : List Iovec) (rounds : List (Round × Report))
    (s : List Iovec × List UInt64) (done : UInt64) (r : Int64) (errno : Int32)
    (mem : Place → Header) :
    (recvmsgLoop length msghdr flags rounds s done r errno mem).run =
      transfer true length
        (prepareMsghdr (msghdr.view iov) fun msg => IoCall.recvmsg msg flags)
        (rounds.map Prod.fst) s done r errno := by
  induction rounds generalizing s done r errno mem with
  | nil =>
    unfold recvmsgLoop transfer
    split
    · rw [prepareMsghdr]
      cases remaining s done with
      | none => rfl
      | some next => simp [Header.view, Header.newMsg]
    · rfl
  | cons x rounds ih =>
    obtain ⟨round, report⟩ := x
    unfold recvmsgLoop transfer
    split
    · rw [prepareMsghdr]
      cases remaining s done with
      | none => rfl
      | some next =>
        cases ha : afterCall true length done round with
        | inl ending => simp [ha, Header.view, Header.newMsg]
        | inr after => simp [ha, ih, Header.view, Header.newMsg]
    · rfl

theorem recvmsgLoop_msg (rounds : List (Round × Report)) (s : List Iovec × List UInt64)
    (done : UInt64) (r : Int64) (errno : Int32) (mem : Place → Header) :
    (recvmsgLoop length msghdr flags rounds s done r errno mem).mem .msg = mem .msg := by
  have hplace : Place.msg ≠ Place.newMsg := by decide
  induction rounds generalizing s done r errno mem with
  | nil =>
    unfold recvmsgLoop
    split
    · cases remaining s done with
      | none => rfl
      | some next => simp [hplace]
    · rfl
  | cons x rounds ih =>
    obtain ⟨round, report⟩ := x
    unfold recvmsgLoop
    split
    · cases remaining s done with
      | none => rfl
      | some next =>
        by_cases hr : round.r = -1
        · cases ha : afterCall true length done round with
          | inl ending => simp [ha, hr, hplace]
          | inr after => simp [ha, hr, hplace, ih]
        · cases ha : afterCall true length done round with
          | inl ending => simp [ha, hr, hplace]
          | inr after => simp [ha, hr, hplace, ih]
    · rfl

theorem recvmsgBody_run (rounds : List (Round × Report)) (errno : Int32) (msg : Message)
    (flags : Int32) :
    (recvmsgBody rounds errno msg flags).run =
      loop (rounds.map Prod.fst) errno (.recvmsg (msg.header.view msg.iov) flags) :=
  congrArg (Run.drop · msg.iov) (recvmsgLoop_run msg.iov rounds _ 0 0 errno _)

/-- What the caller finds in its header when `recvmsg` has returned a length is what the last
inner call reported. -/
def HandsBack (d : Descriptor) (rounds : List (Round × Report)) (errno : Int32) (msg : Message)
    (flags : Int32) : Prop :=
  ∀ r errno' k, (implNonBlocking d (recvmsgBody rounds errno msg flags).run).ending =
      .returned r errno' → 0 ≤ r →
    (implNonBlocking d (recvmsgBody rounds errno msg flags).run).calls.length = k + 1 →
    ∃ round report, rounds[k]? = some (round, report) ∧
      (recvmsgBody rounds errno msg flags).mem .msg = msg.header.report report

def lastRound (rounds : List (Round × Report)) : Option (Round × Report) :=
  rounds.find? fun x => !x.1.retries

/-- Its round is that of the last inner call, whose result the loop returns. -/
theorem lastRound_cases (rounds : List (Round × Report)) :
    lastRound rounds = none ∧ ending (rounds.map Prod.fst) = .running ∨
      ∃ k round report errno, lastRound rounds = some (round, report) ∧
        turns (rounds.map Prod.fst) = k + 1 ∧ rounds[k]? = some (round, report) ∧
        ending (rounds.map Prod.fst) = .returned round.r errno := by
  induction rounds with
  | nil => exact .inl ⟨rfl, rfl⟩
  | cons x rounds ih =>
    obtain ⟨round, report⟩ := x
    rw [List.map_cons, ending, turns, lastRound]
    by_cases ht : round.retries = true
    · rw [if_pos ht, if_pos ht, List.find?_cons_of_neg (by simp [ht])]
      rcases ih with ⟨hnone, hend⟩ | ⟨k, last, report', errno, hlast, hturns, hget, hend⟩
      · exact .inl ⟨hnone, hend⟩
      · exact .inr ⟨k + 1, last, report', errno, hlast, by rw [hturns], hget, hend⟩
    · obtain ⟨errno, hreturned⟩ := round.last_returned
      rw [if_neg ht, if_neg ht, List.find?_cons_of_pos (by simp [ht])]
      exact .inr ⟨0, round, report, errno, rfl, rfl, rfl, hreturned⟩

/-- `recvmsg` hands back what its last inner call reported exactly where that is what the
caller passed in. -/
theorem recvmsg_handsBack_iff (d : Descriptor) (rounds : List (Round × Report)) (errno : Int32)
    (msg : Message) (flags : Int32) :
    HandsBack d rounds errno msg flags ↔
      (d.Controllable → totalLen msg.iov ≠ 0 → ∀ round report,
        lastRound rounds = some (round, report) → 0 ≤ round.r →
        msg.header.report report = msg.header) := by
  have hkept : (recvmsgBody rounds errno msg flags).mem .msg = msg.header :=
    recvmsgLoop_msg rounds _ 0 0 errno _
  unfold HandsBack
  rw [hkept, recvmsgBody_run, ← hooked_eq]
  rcases hooked_cases d (rounds.map Prod.fst) errno (.recvmsg (msg.header.view msg.iov) flags)
    with ⟨hd, hending, hcalls⟩ | ⟨hd, hending, hcalls⟩
  · rw [hending, hcalls]
    rcases loop_cases (.recvmsg (msg.header.view msg.iov) flags) (rounds.map Prod.fst) errno
      with ⟨⟨-, hlength⟩, hl⟩ | ⟨hlength, hl⟩
    · have hzero : totalLen msg.iov = 0 := hlength
      rw [hl]
      exact iff_of_true (fun r errno' k _ _ hk => absurd hk nofun) fun _ hne => absurd hzero hne
    · have hne : totalLen msg.iov ≠ 0 := UInt64.pos_iff_ne_zero.1 (hlength rfl)
      rw [hl.ending, hl.turns]
      rcases lastRound_cases rounds
        with ⟨hnone, hend⟩ | ⟨k, round, report, errno', hlast, hturns, hget, hend⟩
      · rw [hnone, hend]
        exact iff_of_true (fun r errno' k h => absurd h nofun) fun _ _ _ _ h => absurd h nofun
      · rw [hend, hturns]
        constructor
        · intro h _ _ round' report' hlast' hr
          obtain ⟨rfl, rfl⟩ := Prod.mk.inj (Option.some.inj (hlast.symm.trans hlast'))
          obtain ⟨round'', report'', hget', hsame⟩ := h round.r errno' k rfl hr rfl
          obtain ⟨rfl, rfl⟩ := Prod.mk.inj (Option.some.inj (hget.symm.trans hget'))
          exact hsame.symm
        · intro h r errno'' k' hreturned hr hk
          obtain ⟨rfl, -⟩ := Ending.returned.inj hreturned
          obtain rfl : k = k' := Nat.succ.inj hk
          exact ⟨round, report, hget, (h hd hne round report hlast hr).symm⟩
  · rw [hending]
    exact iff_of_true (fun r errno' k h => absurd h nofun) fun h => absurd h hd

/-- The peer's name is 16 bytes long, and the caller still reads the 28 it has room for. -/
theorem recvmsg_length_lost :
    (recvmsgBody [(⟨5, 0, false, 0⟩, ⟨16, 0, 0⟩)] 0
        ⟨⟨4096, 28, 8192, 1, 0, 0, 0⟩, [⟨64, 8⟩], rfl⟩ 0).mem .msg =
        ⟨4096, 28, 8192, 1, 0, 0, 0⟩ ∧
      ¬ HandsBack ⟨some 2, true⟩ [(⟨5, 0, false, 0⟩, ⟨16, 0, 0⟩)] 0
        ⟨⟨4096, 28, 8192, 1, 0, 0, 0⟩, [⟨64, 8⟩], rfl⟩ 0 := by
  have hkept : (recvmsgBody [(⟨5, 0, false, 0⟩, ⟨16, 0, 0⟩)] 0
      ⟨⟨4096, 28, 8192, 1, 0, 0, 0⟩, [⟨64, 8⟩], rfl⟩ 0).mem .msg =
      ⟨4096, 28, 8192, 1, 0, 0, 0⟩ := rfl
  refine ⟨hkept, fun h => ?_⟩
  obtain ⟨round, report, hget, hmem⟩ := h 5 0 0 rfl (by decide) rfl
  obtain ⟨-, rfl⟩ := Prod.mk.inj (Option.some.inj hget)
  rw [hkept] at hmem
  exact absurd hmem (by decide)

end Nio

end OpenCoroutine
