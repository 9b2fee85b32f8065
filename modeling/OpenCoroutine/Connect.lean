import OpenCoroutine.Transfers

/-! `NioLinuxSyscall::connect` and the socket it waits for. The first inner call answers 0 or
fails with an `errno`. What a wait and the two calls after it answer is one `Wakeup`; the
socket gives these answers as its connection comes along. `getsockopt` clears the pending
error and stores as many bytes of it as the caller has room for. -/

namespace OpenCoroutine

namespace Nio

def ENOTCONN : Int32 := 107

def ETIMEDOUT : Int32 := 110

def EINPROGRESS : Int32 := 115

structure Wakeup where
  woken : Bool
  waitErrno : Int32
  optErrno : Option Int32
  pending : Int32
  peerErrno : Option Int32
  deriving DecidableEq, Repr

inductive ConnectCall where
  | connect
  | waitWriteEvent
  | getsockopt (optlen : UInt32)
  | getpeername
  deriving DecidableEq, Repr

/-- The first `optlen` bytes of `new` over those of `old`. -/
def store (optlen : UInt32) (old new : Int32) : Int32 :=
  let mask := (2 ^ (8 * min optlen.toNat 4) - 1 : Nat).toUInt32
  (old.toUInt32 &&& ~~~mask ||| new.toUInt32 &&& mask).toInt32

/-- How `connect` leaves its loop with -1. -/
def failed (errno : Int32) : Ending :=
  .returned (-1) (if errno = ETIMEDOUT then EINPROGRESS else errno)

/-- The loop of `connect` at its test of `errno`. With `EINTR` it goes round for ever. -/
def connectLoop (wakeups : List Wakeup) (errno : Int32) : Run ConnectCall :=
  if errno = EINPROGRESS ∨ errno = ENOTCONN then
    match wakeups with
    | [] => ⟨[.waitWriteEvent], .running, false⟩
    | wakeup :: wakeups =>
      if !wakeup.woken then ⟨[.waitWriteEvent], failed wakeup.waitErrno, false⟩
      else
        let optlen := 0
        match wakeup.optErrno with
        | some errno => ⟨[.waitWriteEvent, .getsockopt optlen], failed errno, false⟩
        | none =>
          let err := store optlen 0 wakeup.pending
          if err ≠ 0 then ⟨[.waitWriteEvent, .getsockopt optlen], failed err, false⟩
          else
            match wakeup.peerErrno with
            | none => ⟨[.waitWriteEvent, .getsockopt optlen, .getpeername], .returned 0 0, false⟩
            | some errno =>
              (((connectLoop wakeups errno).cons .getpeername).cons (.getsockopt optlen)).cons
                .waitWriteEvent
  else if errno ≠ EINTR then ⟨[], failed errno, false⟩
  else ⟨[], .running, false⟩

/-- The body that `connect` gives to `impl_non_blocking!`. -/
def connectBody (first : Option Int32) (wakeups : List Wakeup) : Run ConnectCall :=
  match first with
  | none => ⟨[.connect], .exited 0 0, false⟩
  | some errno => (connectLoop wakeups errno).cons .connect

def connect (d : Descriptor) (first : Option Int32) (wakeups : List Wakeup) :
    Hooked ConnectCall :=
  implNonBlocking d (connectBody first wakeups)

/-! The socket. -/

inductive Progress where
  | none
  | connects
  | fails (e : Int32)
  deriving DecidableEq, Repr

structure Socket where
  connected : Bool := false
  pending : Int32 := 0

def Socket.after (s : Socket) : Progress → Socket
  | .none => s
  | .connects => { s with connected := true }
  | .fails e => ⟨false, e⟩

/-- The answers at the wake-ups before each of which the connection has come along so far. -/
def wakeups (s : Socket) : List Progress → List Wakeup
  | [] => []
  | progress :: rest =>
    let s := s.after progress
    ⟨true, 0, none, s.pending, if s.connected then none else some ENOTCONN⟩ ::
      wakeups { s with pending := 0 } rest

/-- When the outcome of the attempt is there to be seen, in wake-ups, and what it is: the
socket is connected, or the attempt has failed. -/
def settled (first : Option Int32) (progress : List Progress) : Option (Nat × Option Int32) :=
  match first with
  | none => some (0, none)
  | some errno =>
    if errno = EINPROGRESS then comes progress else some (0, some errno)
where
  comes : List Progress → Option (Nat × Option Int32)
    | [] => none
    | .none :: rest => (comes rest).map fun (n, e) => (n + 1, e)
    | .connects :: _ => some (1, none)
    | .fails e :: _ => some (1, some e)

/-- The call returns as soon as the outcome is there, with that outcome. -/
def Reports (outcome : Option (Nat × Option Int32)) (ending : Ending) (waits : Nat) : Prop :=
  match outcome with
  | none => ending = .running
  | some (n, none) => ending = .returned 0 0 ∧ waits = n
  | some (n, some e) => ending = failed e ∧ waits = n

/-- The attempt does not fail before it succeeds. -/
def NoFailure : List Progress → Prop
  | [] => True
  | .none :: rest => NoFailure rest
  | .connects :: _ => True
  | .fails _ :: _ => False

def waits (calls : List ConnectCall) : Nat := calls.count .waitWriteEvent

theorem store_zero (old new : Int32) : store 0 old new = old := by
  have hmask : ((2 ^ (8 * min (0 : UInt32).toNat 4) - 1 : Nat).toUInt32) = 0 := by decide
  simp only [store, hmask, UInt32.and_zero, UInt32.or_zero]
  have hnot : ~~~(0 : UInt32) = -1 := by decide
  rw [hnot, UInt32.and_neg_one, Int32.toInt32_toUInt32]

theorem connectLoop_exhausted {errno : Int32} (h : errno = EINPROGRESS ∨ errno = ENOTCONN) :
    connectLoop [] errno = ⟨[.waitWriteEvent], .running, false⟩ := by
  rw [connectLoop, if_pos h]

/-- `getsockopt` has room for no byte of the error, so a wake-up ends the loop only if the
socket is connected. -/
theorem connectLoop_awake {errno : Int32} (h : errno = EINPROGRESS ∨ errno = ENOTCONN)
    (waitErrno pending : Int32) (peerErrno : Option Int32) (wakeups : List Wakeup) :
    connectLoop (⟨true, waitErrno, none, pending, peerErrno⟩ :: wakeups) errno =
      match peerErrno with
      | none => ⟨[.waitWriteEvent, .getsockopt 0, .getpeername], .returned 0 0, false⟩
      | some errno =>
        (((connectLoop wakeups errno).cons .getpeername).cons (.getsockopt 0)).cons
          .waitWriteEvent := by
  rw [connectLoop, if_pos h]
  simp only [store_zero]
  cases peerErrno <;> rfl

theorem connectLoop_refused {errno : Int32} (hw : ¬ (errno = EINPROGRESS ∨ errno = ENOTCONN))
    (hi : errno ≠ EINTR) (wakeups : List Wakeup) :
    connectLoop wakeups errno = ⟨[], failed errno, false⟩ := by
  cases wakeups with
  | nil | cons wakeup wakeups => rw [connectLoop, if_neg hw, if_pos hi]

/-- Woken by the kernel, the loop ends with success or not at all. -/
theorem connectLoop_wakeups_ending {errno : Int32}
    (h : errno = EINPROGRESS ∨ errno = ENOTCONN) (s : Socket) (progress : List Progress) :
    (connectLoop (wakeups s progress) errno).ending = .running ∨
      (connectLoop (wakeups s progress) errno).ending = .returned 0 0 := by
  induction progress generalizing s errno with
  | nil => exact .inl (by rw [wakeups, connectLoop_exhausted h])
  | cons p progress ih =>
    rw [wakeups, connectLoop_awake h]
    cases (s.after p).connected with
    | true => exact .inr rfl
    | false => exact ih (.inr rfl) _

theorem reports_succ {outcome : Option (Nat × Option Int32)} {ending : Ending} {waits : Nat}
    (h : Reports outcome ending waits) :
    Reports (outcome.map fun (n, e) => (n + 1, e)) ending (waits + 1) := by
  rcases outcome with - | ⟨n, - | e⟩
  · exact h
  · exact ⟨h.1, congrArg (· + 1) h.2⟩
  · exact ⟨h.1, congrArg (· + 1) h.2⟩

theorem waits_turn (optlen : UInt32) (run : Run ConnectCall) :
    waits (((run.cons .getpeername).cons (.getsockopt optlen)).cons .waitWriteEvent).calls =
      waits run.calls + 1 := by
  simp [waits]

theorem connectLoop_reports {errno : Int32} (h : errno = EINPROGRESS ∨ errno = ENOTCONN)
    {progress : List Progress} (hp : NoFailure progress) {s : Socket}
    (hs : s.connected = false) :
    Reports (settled.comes progress) (connectLoop (wakeups s progress) errno).ending
      (waits (connectLoop (wakeups s progress) errno).calls) := by
  induction progress generalizing s errno with
  | nil =>
    rw [wakeups, connectLoop_exhausted h]
    exact rfl
  | cons p progress ih =>
    rw [wakeups, connectLoop_awake h]
    cases p with
    | none =>
      obtain ⟨connected, pending⟩ := s
      obtain rfl : connected = false := hs
      have hih := reports_succ (ih (s := ⟨false, 0⟩) (.inr rfl) hp rfl)
      rw [← waits_turn 0] at hih
      exact hih
    | connects => exact ⟨rfl, rfl⟩
    | fails e => exact hp.elim

theorem comes_of_failure {progress : List Progress} (hp : ¬ NoFailure progress) :
    ∃ n e, settled.comes progress = some (n, some e) := by
  induction progress with
  | nil => exact absurd trivial hp
  | cons p progress ih =>
    cases p with
    | none =>
      obtain ⟨n, e, he⟩ := ih hp
      exact ⟨n + 1, e, by rw [settled.comes, he]; rfl⟩
    | connects => exact absurd trivial hp
    | fails e => exact ⟨1, e, rfl⟩

theorem not_reports_failure {ending : Ending} (h : ending = .running ∨ ending = .returned 0 0)
    (n : Nat) (e : Int32) (waits : Nat) : ¬ Reports (some (n, some e)) ending waits := by
  rintro ⟨he, -⟩
  rcases h with h | h <;> simp [h, failed] at he

theorem not_reports_panic (outcome : Option (Nat × Option Int32)) (waits : Nat) :
    ¬ Reports outcome .panicked waits := by
  intro h
  rcases outcome with - | ⟨n, - | e⟩
  · cases h
  · cases h.1
  · simp [Reports, failed] at h

/-- What `connect` does where its loop waits for the socket. -/
theorem connect_waiting {d : Descriptor} (hd : d.Controllable) {errno : Int32}
    (h : errno = EINPROGRESS ∨ errno = ENOTCONN) (progress : List Progress) :
    (connect d (some errno) (wakeups {} progress)).ending =
        (connectLoop (wakeups {} progress) errno).ending ∧
      waits (connect d (some errno) (wakeups {} progress)).calls =
        waits (connectLoop (wakeups {} progress) errno).calls := by
  rw [connect, implNonBlocking_controllable hd]
  have hwaits : waits (connectBody (some errno) (wakeups {} progress)).calls =
      waits (connectLoop (wakeups {} progress) errno).calls := by simp [connectBody, waits]
  refine ⟨?_, hwaits⟩
  simp only [connectBody, Run.cons_ending]
  rcases connectLoop_wakeups_ending h {} progress with he | he <;> rw [he] <;> rfl

/-- `connect` reports the outcome of the attempt if and only if `fcntl` can control the
descriptor, the kernel does not answer `ENOTCONN`, and an attempt that is in progress does
not fail. -/
theorem connect_reports_iff (d : Descriptor) {first : Option Int32}
    (hfirst : first ≠ some EINTR) (progress : List Progress) :
    Reports (settled first progress) (connect d first (wakeups {} progress)).ending
        (waits (connect d first (wakeups {} progress)).calls) ↔
      d.Controllable ∧ first ≠ some ENOTCONN ∧
        (first = some EINPROGRESS → NoFailure progress) := by
  by_cases hd : d.Controllable
  · cases first with
    | none =>
      have hc : (none : Option Int32) ≠ some ENOTCONN := by simp
      rw [connect, implNonBlocking_controllable hd]
      exact iff_of_true ⟨rfl, rfl⟩ ⟨hd, hc, by simp⟩
    | some errno =>
      by_cases hw : errno = EINPROGRESS ∨ errno = ENOTCONN
      · obtain ⟨hending, hwaits⟩ := connect_waiting hd hw progress
        have hends := connectLoop_wakeups_ending hw {} progress
        rw [hending, hwaits]
        rcases hw with rfl | rfl
        · have hc : some EINPROGRESS ≠ some ENOTCONN := by decide
          rw [settled, if_pos rfl]
          by_cases hp : NoFailure progress
          · exact iff_of_true (connectLoop_reports (.inl rfl) hp rfl) ⟨hd, hc, fun _ => hp⟩
          · obtain ⟨n, e, hcomes⟩ := comes_of_failure hp
            rw [hcomes]
            exact iff_of_false (not_reports_failure hends n e _) fun h => hp (h.2.2 rfl)
        · have hne : ¬ ENOTCONN = EINPROGRESS := by decide
          rw [settled, if_neg hne]
          exact iff_of_false (not_reports_failure hends 0 _ _) fun h => h.2.1 rfl
      · obtain ⟨hp, hc⟩ := not_or.1 hw
        have hi : errno ≠ EINTR := fun he => hfirst (congrArg some he)
        have hloop := connectLoop_refused hw hi (wakeups {} progress)
        rw [connect, implNonBlocking_controllable hd, connectBody, hloop, settled, if_neg hp]
        exact iff_of_true ⟨rfl, rfl⟩ ⟨hd, by simpa using hc,
          fun he => absurd (Option.some.inj he) hp⟩
  · rw [connect, implNonBlocking_uncontrollable hd]
    exact iff_of_false (not_reports_panic _ _) fun h => hd h.1

theorem connect_reports_iff_connects :
    Reports (settled (some EINPROGRESS) [.none, .connects])
      (connect ⟨some 2, true⟩ (some EINPROGRESS) (wakeups {} [.none, .connects])).ending
      (waits (connect ⟨some 2, true⟩ (some EINPROGRESS)
        (wakeups {} [.none, .connects])).calls) :=
  (connect_reports_iff ⟨some 2, true⟩ (show some EINPROGRESS ≠ some EINTR by decide)
    [.none, .connects]).2 ⟨by decide, by decide, fun _ => trivial⟩

/-- The connection is refused, and the call is still waiting ten wake-ups later. -/
theorem refusal_not_reported :
    (connect ⟨some 2, true⟩ (some EINPROGRESS)
        (wakeups {} (.fails 111 :: List.replicate 10 .none))).ending = .running ∧
      ¬ Reports (settled (some EINPROGRESS) (.fails 111 :: List.replicate 10 .none))
        (connect ⟨some 2, true⟩ (some EINPROGRESS)
          (wakeups {} (.fails 111 :: List.replicate 10 .none))).ending
        (waits (connect ⟨some 2, true⟩ (some EINPROGRESS)
          (wakeups {} (.fails 111 :: List.replicate 10 .none))).calls) := by
  have h : (connect ⟨some 2, true⟩ (some EINPROGRESS)
      (wakeups {} (.fails 111 :: List.replicate 10 .none))).ending = .running := by decide
  refine ⟨h, ?_⟩
  rw [h]
  exact not_reports_failure (.inl rfl) 1 111 _

end Nio

end OpenCoroutine
