import OpenCoroutine.Connect

/-! The loop of `connect` turn by turn. A script holds the answers at each wake-up of the
call, which has no last one; a turn that does not wait uses none of them. -/

namespace OpenCoroutine

namespace Nio

/-- The calls of a turn, and how it leaves the loop or the `errno` it leaves to the next. -/
def connectTurn (errno : Int32) (wakeup : Wakeup) : List ConnectCall × (Ending ⊕ Int32) :=
  if errno = EINPROGRESS ∨ errno = ENOTCONN then
    if !wakeup.woken then ([.waitWriteEvent], .inl (failed wakeup.waitErrno))
    else
      let optlen := 0
      match wakeup.optErrno with
      | some errno => ([.waitWriteEvent, .getsockopt optlen], .inl (failed errno))
      | none =>
        let err := store optlen 0 wakeup.pending
        if err ≠ 0 then ([.waitWriteEvent, .getsockopt optlen], .inl (failed err))
        else
          match wakeup.peerErrno with
          | none => ([.waitWriteEvent, .getsockopt optlen, .getpeername], .inl (.returned 0 0))
          | some errno => ([.waitWriteEvent, .getsockopt optlen, .getpeername], .inr errno)
  else if errno ≠ EINTR then ([], .inl (failed errno))
  else ([], .inr errno)

def WaitsAt (errno : Int32) (wakeup : Wakeup) : Prop :=
  ConnectCall.waitWriteEvent ∈ (connectTurn errno wakeup).1

instance (errno : Int32) (wakeup : Wakeup) : Decidable (WaitsAt errno wakeup) :=
  inferInstanceAs (Decidable (_ ∈ _))

/-- The `errno` at the test of the next turn, and the wake-ups before it. -/
def nextTest (script : Nat → Wakeup) (head : Int32 × Nat) : Option (Int32 × Nat) :=
  (connectTurn head.1 (script head.2)).2.elim (fun _ => none) fun errno =>
    some (errno, if WaitsAt head.1 (script head.2) then head.2 + 1 else head.2)

/-- The `errno` at the test of turn `k`, if the loop gets there. -/
def testAt (first : Option Int32) (script : Nat → Wakeup) : Nat → Option (Int32 × Nat)
  | 0 => first.map fun errno => (errno, 0)
  | k + 1 => (testAt first script k).bind (nextTest script)

/-- Each turn leaves the loop or waits, and the loop does not go round for ever without a
wait. -/
structure Progresses (first : Option Int32) (script : Nat → Wakeup) : Prop where
  turn : ∀ k errno n, testAt first script k = some (errno, n) →
    (connectTurn errno (script n)).2.isLeft = true ∨ WaitsAt errno (script n)
  noSpin : ¬ ∃ k, ∀ j, k ≤ j →
    ∃ errno n, testAt first script j = some (errno, n) ∧ ¬ WaitsAt errno (script n)

/-- The wake-up at which the peer is asked for, and is not there yet. -/
def Unsettled (wakeup : Wakeup) : Prop :=
  wakeup.woken = true ∧ wakeup.optErrno = none ∧
    (wakeup.peerErrno = some EINPROGRESS ∨ wakeup.peerErrno = some ENOTCONN)

/-- The loop gets to `getpeername` at wake-up `n`. -/
def AsksPeer (first : Option Int32) (script : Nat → Wakeup) (n : Nat) : Prop :=
  (first = some EINPROGRESS ∨ first = some ENOTCONN) ∧ (∀ m < n, Unsettled (script m)) ∧
    (script n).woken = true ∧ (script n).optErrno = none

theorem connectTurn_interrupted (wakeup : Wakeup) :
    connectTurn EINTR wakeup = ([], .inr EINTR) := by
  have hw : ¬ (EINTR = EINPROGRESS ∨ EINTR = ENOTCONN) := by decide
  have hi : ¬ EINTR ≠ EINTR := fun h => h rfl
  rw [connectTurn, if_neg hw, if_neg hi]

theorem connectTurn_refused {errno : Int32} (hw : ¬ (errno = EINPROGRESS ∨ errno = ENOTCONN))
    (hi : errno ≠ EINTR) (wakeup : Wakeup) :
    connectTurn errno wakeup = ([], .inl (failed errno)) := by
  rw [connectTurn, if_neg hw, if_pos hi]

/-- A turn that waits goes round only where `getpeername` fails. -/
theorem connectTurn_waiting {errno : Int32} (h : errno = EINPROGRESS ∨ errno = ENOTCONN)
    (wakeup : Wakeup) :
    WaitsAt errno wakeup ∧ ∀ e, (connectTurn errno wakeup).2 = .inr e ↔
      wakeup.woken = true ∧ wakeup.optErrno = none ∧ wakeup.peerErrno = some e := by
  obtain ⟨woken, waitErrno, optErrno, pending, peerErrno⟩ := wakeup
  cases woken with
  | false => simp [WaitsAt, connectTurn, h]
  | true =>
    cases optErrno with
    | some e => simp [WaitsAt, connectTurn, h]
    | none => cases peerErrno <;> simp [WaitsAt, connectTurn, h, store_zero]

theorem connectLoop_interrupted (wakeups : List Wakeup) :
    connectLoop wakeups EINTR = ⟨[], .running, false⟩ := by
  have hw : ¬ (EINTR = EINPROGRESS ∨ EINTR = ENOTCONN) := by decide
  have hi : ¬ EINTR ≠ EINTR := fun h => h rfl
  cases wakeups with
  | nil | cons wakeup wakeups => rw [connectLoop, if_neg hw, if_neg hi]

/-- The loop is its turns one after another. -/
theorem connectLoop_cons (errno : Int32) (wakeup : Wakeup) (wakeups : List Wakeup) :
    connectLoop (wakeup :: wakeups) errno =
      (connectTurn errno wakeup).2.elim (fun ending => ⟨(connectTurn errno wakeup).1, ending, false⟩)
        fun errno' => ⟨(connectTurn errno wakeup).1 ++ (connectLoop wakeups errno').calls,
          (connectLoop wakeups errno').ending, (connectLoop wakeups errno').freed⟩ := by
  by_cases hw : errno = EINPROGRESS ∨ errno = ENOTCONN
  · obtain ⟨woken, waitErrno, optErrno, pending, peerErrno⟩ := wakeup
    cases woken with
    | false => simp [connectLoop, connectTurn, hw]
    | true =>
      cases optErrno with
      | some e => simp [connectLoop, connectTurn, hw]
      | none =>
        rw [connectLoop_awake hw]
        cases peerErrno <;> simp [connectTurn, hw, store_zero, Run.cons]
  · by_cases hi : errno = EINTR
    · subst errno
      rw [connectTurn_interrupted, connectLoop_interrupted]
      simp [connectLoop_interrupted]
    · rw [connectLoop_refused hw hi, connectTurn_refused hw hi]
      rfl

variable {first : Option Int32} {script : Nat → Wakeup}

theorem nextTest_waiting {errno : Int32} (h : errno = EINPROGRESS ∨ errno = ENOTCONN) {n : Nat}
    {head : Int32 × Nat} :
    nextTest script (errno, n) = some head ↔ (script n).woken = true ∧
      (script n).optErrno = none ∧ (script n).peerErrno = some head.1 ∧ head.2 = n + 1 := by
  obtain ⟨hwaits, hturn⟩ := connectTurn_waiting h (script n)
  obtain ⟨errno', n'⟩ := head
  rw [nextTest, if_pos hwaits]
  cases hend : (connectTurn errno (script n)).2 with
  | inl ending =>
    rw [hend] at hturn
    have hnot := mt (hturn errno').2 nofun
    simp only [Sum.elim_inl, reduceCtorEq, false_iff]
    exact fun hcond => hnot ⟨hcond.1, hcond.2.1, hcond.2.2.1⟩
  | inr e =>
    rw [hend] at hturn
    have hthis := (hturn errno')
    simp only [Sum.elim_inr, Option.some.injEq, Prod.mk.injEq, Sum.inr.injEq] at hthis ⊢
    rw [hthis, and_assoc, and_assoc, eq_comm (a := n + 1)]

theorem nextTest_refused {errno : Int32} (hw : ¬ (errno = EINPROGRESS ∨ errno = ENOTCONN))
    (hi : errno ≠ EINTR) (n : Nat) : nextTest script (errno, n) = none := by
  rw [nextTest, connectTurn_refused hw hi]
  rfl

theorem testAt_unsettled (hfirst : first = some EINPROGRESS ∨ first = some ENOTCONN) {n : Nat}
    (h : ∀ m < n, Unsettled (script m)) :
    ∃ errno, (errno = EINPROGRESS ∨ errno = ENOTCONN) ∧
      testAt first script n = some (errno, n) := by
  induction n with
  | zero =>
    rcases hfirst with rfl | rfl
    · exact ⟨EINPROGRESS, .inl rfl, rfl⟩
    · exact ⟨ENOTCONN, .inr rfl, rfl⟩
  | succ n ih =>
    obtain ⟨errno, hw, htest⟩ := ih fun m hm => h m (by omega)
    obtain ⟨hwoken, hopt, hpeer⟩ := h n (by omega)
    rcases hpeer with hpeer | hpeer
    · refine ⟨EINPROGRESS, .inl rfl, ?_⟩
      rw [testAt, htest, Option.bind_some]
      exact (nextTest_waiting hw).2 ⟨hwoken, hopt, hpeer, rfl⟩
    · refine ⟨ENOTCONN, .inr rfl, ?_⟩
      rw [testAt, htest, Option.bind_some]
      exact (nextTest_waiting hw).2 ⟨hwoken, hopt, hpeer, rfl⟩

/-- Where nothing the loop asks is interrupted, `EINTR` is never the `errno` at its test. -/
theorem testAt_ne_interrupted (hfirst : first ≠ some EINTR)
    (hpeer : ∀ n, AsksPeer first script n → (script n).peerErrno ≠ some EINTR) {k : Nat}
    {errno : Int32} {n : Nat} (h : testAt first script k = some (errno, n)) :
    errno ≠ EINTR ∧ (errno = EINPROGRESS ∨ errno = ENOTCONN →
      (first = some EINPROGRESS ∨ first = some ENOTCONN) ∧ ∀ m < n, Unsettled (script m)) := by
  induction k generalizing errno n with
  | zero =>
    obtain ⟨e, rfl, he⟩ := Option.map_eq_some_iff.1 h
    obtain ⟨rfl, rfl⟩ := Prod.mk.inj he
    refine ⟨fun he => hfirst (congrArg some he), fun hw => ⟨?_, ?_⟩⟩
    · exact hw.imp (congrArg some) (congrArg some)
    · intro m hm
      omega
  | succ k ih =>
    obtain ⟨⟨e, m⟩, htest, hnext⟩ := Option.bind_eq_some_iff.1 h
    obtain ⟨hne, hbefore⟩ := ih htest
    by_cases hw : e = EINPROGRESS ∨ e = ENOTCONN
    · obtain ⟨hwoken, hopt, hanswer, hn⟩ := (nextTest_waiting hw).1 hnext
      obtain ⟨hstart, hunsettled⟩ := hbefore hw
      have hasks : AsksPeer first script m := ⟨hstart, hunsettled, hwoken, hopt⟩
      refine ⟨fun he => hpeer m hasks (he ▸ hanswer), fun hw' => ⟨hstart, fun j hj => ?_⟩⟩
      by_cases hjm : j < m
      · exact hunsettled j hjm
      · have hj : j = m := by
          simp only at hn
          omega
        subst j
        refine ⟨hwoken, hopt, ?_⟩
        rcases hw' with rfl | rfl
        · exact .inl hanswer
        · exact .inr hanswer
    · rw [nextTest_refused hw hne] at hnext
      exact absurd hnext nofun

theorem turn_of_ne_interrupted {errno : Int32} (h : errno ≠ EINTR) (wakeup : Wakeup) :
    (connectTurn errno wakeup).2.isLeft = true ∨ WaitsAt errno wakeup := by
  by_cases hw : errno = EINPROGRESS ∨ errno = ENOTCONN
  · exact .inr (connectTurn_waiting hw wakeup).1
  · rw [connectTurn_refused hw h]
    exact .inl rfl

theorem not_turn_interrupted (wakeup : Wakeup) :
    ¬ ((connectTurn EINTR wakeup).2.isLeft = true ∨ WaitsAt EINTR wakeup) := by
  rw [WaitsAt, connectTurn_interrupted]
  simp

theorem noSpin_of_turn (h : ∀ k errno n, testAt first script k = some (errno, n) →
    (connectTurn errno (script n)).2.isLeft = true ∨ WaitsAt errno (script n)) :
    ¬ ∃ k, ∀ j, k ≤ j →
      ∃ errno n, testAt first script j = some (errno, n) ∧ ¬ WaitsAt errno (script n) := by
  rintro ⟨k, hspin⟩
  obtain ⟨errno, n, htest, hno⟩ := hspin k (Nat.le_refl k)
  obtain ⟨ending, hleft⟩ := Sum.isLeft_iff.1 ((h k errno n htest).resolve_right hno)
  obtain ⟨errno', n', htest', -⟩ := hspin (k + 1) (by omega)
  rw [testAt, htest, Option.bind_some, nextTest, hleft] at htest'
  exact absurd htest' nofun

/-- `connect` makes progress if and only if neither its inner call fails with `EINTR`, nor
`getpeername` where the loop gets to it. -/
theorem connect_progresses_iff (first : Option Int32) (script : Nat → Wakeup) :
    Progresses first script ↔ first ≠ some EINTR ∧
      ∀ n, AsksPeer first script n → (script n).peerErrno ≠ some EINTR := by
  constructor
  · rintro ⟨hturn, -⟩
    refine ⟨?_, ?_⟩
    · rintro rfl
      exact not_turn_interrupted _ (hturn 0 EINTR 0 rfl)
    · rintro n ⟨hfirst, hunsettled, hwoken, hopt⟩ hpeer
      obtain ⟨errno, hw, htest⟩ := testAt_unsettled hfirst hunsettled
      have hnext : testAt first script (n + 1) = some (EINTR, n + 1) := by
        rw [testAt, htest, Option.bind_some]
        exact (nextTest_waiting hw).2 ⟨hwoken, hopt, hpeer, rfl⟩
      exact not_turn_interrupted _ (hturn (n + 1) EINTR (n + 1) hnext)
  · rintro ⟨hfirst, hpeer⟩
    have hturn : ∀ k errno n, testAt first script k = some (errno, n) →
        (connectTurn errno (script n)).2.isLeft = true ∨ WaitsAt errno (script n) := by
      intro k errno n htest
      exact turn_of_ne_interrupted (testAt_ne_interrupted hfirst hpeer htest).1 _
    exact ⟨hturn, noSpin_of_turn hturn⟩

/-- Interrupted by a signal, `connect` goes round for ever at its test of `errno`. -/
theorem interrupted_spins :
    (∀ k, testAt (some EINTR) (fun _ => ⟨true, 0, none, 0, none⟩) k = some (EINTR, 0)) ∧
      ¬ Progresses (some EINTR) fun _ => ⟨true, 0, none, 0, none⟩ := by
  refine ⟨fun k => ?_, fun h => not_turn_interrupted _ (h.turn 0 EINTR 0 rfl)⟩
  induction k with
  | zero => rfl
  | succ k ih =>
    rw [testAt, ih]
    decide

end Nio

end OpenCoroutine
