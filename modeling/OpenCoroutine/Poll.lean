import Mathlib.Algebra.BigOperators.Ring.List
import Mathlib.Algebra.Ring.Nat
import OpenCoroutine.BackOff

/-! The loop of `NioLinuxSyscall::poll`. A round is what the inner `poll` returns and how long
it took, and how long the wait after it lasts, in nanoseconds: a wait ends with the first
event of its loop or when its coroutine is woken, and may as well end late. -/

namespace OpenCoroutine

namespace Nio

structure PollRound where
  r : Int32
  took : Nat
  waited : Nat
  deriving DecidableEq, Repr

inductive PollCall where
  | poll (fds nfds : UInt64) (timeout : Int32)
  | waitEvent (millis : UInt64)
  deriving DecidableEq, Repr

/-- `result` is what the call returned, unless its rounds are used up before. -/
structure PollRun where
  calls : List PollCall
  result : Option Int32
  elapsed : Nat
  deriving DecidableEq, Repr

section

variable (fds nfds : UInt64)

def pollLoop : List PollRound → Int32 → Int32 → PollRun
  | [], _, _ => ⟨[.poll fds nfds 0], none, 0⟩
  | round :: rounds, t, x =>
    if round.r ≠ 0 ∨ t = 0 then ⟨[.poll fds nfds 0], some round.r, round.took⟩
    else
      let run := pollLoop rounds
        (if t ≠ Int32.maxValue then if x < t then t - x else 0 else t)
        (if x < 16 then x <<< 1 else x)
      ⟨.poll fds nfds 0 :: .waitEvent (min t x).toInt64.toUInt64 :: run.calls, run.result,
        round.took + round.waited + run.elapsed⟩

def poll (timeout : Int32) (rounds : List PollRound) : PollRun :=
  pollLoop fds nfds rounds (if timeout < 0 then Int32.maxValue else timeout) 1

/-- Looking once before each of these waits, of so many milliseconds, and once after them. -/
def lookBetween : List Nat → List PollRound → PollRun
  | _, [] => ⟨[.poll fds nfds 0], none, 0⟩
  | [], round :: _ => ⟨[.poll fds nfds 0], some round.r, round.took⟩
  | millis :: waits, round :: rounds =>
    if round.r ≠ 0 then ⟨[.poll fds nfds 0], some round.r, round.took⟩
    else
      let run := lookBetween waits rounds
      ⟨.poll fds nfds 0 :: .waitEvent (UInt64.ofNat millis) :: run.calls, run.result,
        round.took + round.waited + run.elapsed⟩

end

/-- The call does not give up before the time it was given. -/
def NotEarly (timeout : Int32) (run : PollRun) : Prop :=
  run.result = some 0 → 0 ≤ timeout ∧ timeout.toNatClampNeg * 1000000 ≤ run.elapsed

/-- The first `n` rounds and one more inner call find nothing. -/
def FindNothing (n : Nat) (rounds : List PollRound) : Prop :=
  n < rounds.length ∧ ∀ round ∈ rounds.take (n + 1), round.r = 0

/-- How long the first `n` rounds and one more inner call last. -/
def lasting (n : Nat) (rounds : List PollRound) : Nat :=
  ((rounds.take (n + 1)).map PollRound.took).sum + ((rounds.take n).map PollRound.waited).sum

theorem findNothing_zero_cons (round : PollRound) (rounds : List PollRound) :
    FindNothing 0 (round :: rounds) ↔ round.r = 0 := by
  simp [FindNothing]

theorem findNothing_succ_cons (n : Nat) (round : PollRound) (rounds : List PollRound) :
    FindNothing (n + 1) (round :: rounds) ↔ round.r = 0 ∧ FindNothing n rounds := by
  simp only [FindNothing, List.length_cons, Nat.add_lt_add_iff_right, List.take_succ_cons,
    List.forall_mem_cons]
  tauto

theorem lasting_zero_cons (round : PollRound) (rounds : List PollRound) :
    lasting 0 (round :: rounds) = round.took := by
  simp [lasting]

theorem lasting_succ_cons (n : Nat) (round : PollRound) (rounds : List PollRound) :
    lasting (n + 1) (round :: rounds) = round.took + round.waited + lasting n rounds := by
  simp only [lasting, List.take_succ_cons, List.map_cons, List.sum_cons]
  omega

def Step (x : Int32) : Prop := x = 1 ∨ x = 2 ∨ x = 4 ∨ x = 8 ∨ x = 16

theorem Step.pos {x : Int32} (h : Step x) : 0 < x.toNatClampNeg := by
  rcases h with rfl | rfl | rfl | rfl | rfl <;> decide

theorem Step.double {x : Int32} (h : Step x) :
    Step (if x < 16 then x <<< 1 else x) ∧
      (if x < 16 then x <<< 1 else x).toNatClampNeg = BackOff.double 16 x.toNatClampNeg := by
  rcases h with rfl | rfl | rfl | rfl | rfl <;> exact ⟨by unfold Step; decide, by decide⟩

theorem left_after {t x : Int32} (ht : 0 ≤ t) (hm : t ≠ Int32.maxValue) (hx : 0 ≤ x) :
    0 ≤ (if x < t then t - x else 0) ∧ (if x < t then t - x else 0) ≠ Int32.maxValue ∧
      (if x < t then t - x else 0).toNatClampNeg = t.toNatClampNeg - x.toNatClampNeg := by
  have htn := Int32.cast_toNatClampNeg t ht
  have hxn := Int32.cast_toNatClampNeg x hx
  have hlt := t.toInt_lt
  by_cases h : x < t
  · rw [if_pos h]
    have hxt : x.toInt < t.toInt := Int32.lt_iff_toInt_lt.1 h
    have hsub : (t - x).toInt = t.toInt - x.toInt := by
      rw [Int32.toInt_sub, Int.bmod_eq_of_le] <;> omega
    have hne : t.toInt ≠ Int32.maxValue.toInt := fun he => hm (Int32.toInt_inj.1 he)
    rw [Int32.toInt_maxValue] at hne
    refine ⟨?_, ?_, ?_⟩
    · rw [Int32.le_iff_toInt_le, hsub, Int32.toInt_zero]
      omega
    · intro he
      rw [he, Int32.toInt_maxValue] at hsub
      omega
    · rw [← Int32.toNat_toInt, hsub]
      omega
  · rw [if_neg h]
    have hxt : ¬ x.toInt < t.toInt := fun hlt => h (Int32.lt_iff_toInt_lt.2 hlt)
    refine ⟨by decide, by decide, ?_⟩
    have hz : (0 : Int32).toNatClampNeg = 0 := by decide
    omega

theorem request_eq {t x : Int32} (ht : 0 ≤ t) (hx : 0 ≤ x) :
    (min t x).toInt64.toUInt64 = UInt64.ofNat (min t.toNatClampNeg x.toNatClampNeg) := by
  have hmin : 0 ≤ min t x ∧ (min t x).toNatClampNeg = min t.toNatClampNeg x.toNatClampNeg := by
    have htn := Int32.cast_toNatClampNeg t ht
    have hxn := Int32.cast_toNatClampNeg x hx
    change 0 ≤ (if t ≤ x then t else x) ∧ (if t ≤ x then t else x).toNatClampNeg = _
    by_cases h : t ≤ x
    · rw [if_pos h]
      have hle : t.toInt ≤ x.toInt := Int32.le_iff_toInt_le.1 h
      exact ⟨ht, by omega⟩
    · rw [if_neg h]
      have hle : ¬ t.toInt ≤ x.toInt := fun hle => h (Int32.le_iff_toInt_le.2 hle)
      exact ⟨hx, by omega⟩
  have hwide : 0 ≤ (min t x).toInt64 := by
    rw [Int64.le_iff_toInt_le, Int32.toInt_toInt64, Int64.toInt_zero, ← Int32.toInt_zero]
    exact Int32.le_iff_toInt_le.1 hmin.1
  rw [← hmin.2, ← Int32.toNatClampNeg_toInt64, ← Int64.toNat_toUInt64_of_le hwide,
    UInt64.ofNat_toNat]

variable {fds nfds : UInt64}

/-- The loop looks between the waits of its back-off. -/
theorem pollLoop_eq {t x : Int32} (ht : 0 ≤ t) (hm : t ≠ Int32.maxValue) (hx : Step x)
    (rounds : List PollRound) :
    pollLoop fds nfds rounds t x =
      lookBetween fds nfds (BackOff.waits 16 x.toNatClampNeg t.toNatClampNeg) rounds := by
  induction rounds generalizing t x with
  | nil =>
    rw [pollLoop, lookBetween]
  | cons round rounds ih =>
    by_cases h0 : t = 0
    · subst t
      have hwaits : BackOff.waits 16 x.toNatClampNeg (0 : Int32).toNatClampNeg = [] := rfl
      rw [pollLoop, if_pos (.inr rfl), hwaits, lookBetween]
    · have hpos : 0 < t.toNatClampNeg := by
        have hne : t.toInt ≠ (0 : Int32).toInt := fun he => h0 (Int32.toInt_inj.1 he)
        have htn := Int32.cast_toNatClampNeg t ht
        rw [Int32.toInt_zero] at hne
        omega
      have hx0 : 0 ≤ x := Int32.le_of_lt ((Int32.toNatClampNeg_pos_iff x).1 hx.pos)
      obtain ⟨ht', hm', hleft⟩ := left_after ht hm hx0
      obtain ⟨hx', hdouble⟩ := hx.double
      rw [BackOff.waits_of_pos hx.pos hpos, ← hdouble, ← hleft]
      by_cases hr : round.r = 0
      · have hgo : ¬ (round.r ≠ 0 ∨ t = 0) := by simp [hr, h0]
        have hstay : ¬ round.r ≠ 0 := by simp [hr]
        rw [pollLoop, if_neg hgo, if_pos hm, lookBetween, if_neg hstay, ih ht' hm' hx',
          request_eq ht hx0]
      · rw [pollLoop, if_pos (.inl hr), lookBetween, if_pos hr]

theorem pollLoop_forever (rounds : List PollRound) (x : Int32) :
    (pollLoop fds nfds rounds Int32.maxValue x).result ≠ some 0 := by
  induction rounds generalizing x with
  | nil => simp [pollLoop]
  | cons round rounds ih =>
    have hm : ¬ Int32.maxValue = 0 := by decide
    by_cases hr : round.r = 0
    · simpa [pollLoop, hr, hm] using ih _
    · simp [pollLoop, hr]

/-- It gives up where nothing is found until the waits are used up. -/
theorem lookBetween_result (waits : List Nat) (rounds : List PollRound) :
    (lookBetween fds nfds waits rounds).result = some 0 ↔ FindNothing waits.length rounds := by
  induction rounds generalizing waits with
  | nil => simp [lookBetween, FindNothing]
  | cons round rounds ih =>
    cases waits with
    | nil =>
      rw [lookBetween, List.length_nil, findNothing_zero_cons]
      exact Option.some_inj
    | cons millis waits =>
      rw [List.length_cons, findNothing_succ_cons, ← ih]
      by_cases hr : round.r = 0
      · simp [lookBetween, hr]
      · simp [lookBetween, hr]

theorem lookBetween_elapsed {waits : List Nat} {rounds : List PollRound}
    (h : FindNothing waits.length rounds) :
    (lookBetween fds nfds waits rounds).elapsed = lasting waits.length rounds := by
  induction rounds generalizing waits with
  | nil => exact absurd h.1 (Nat.not_lt_zero _)
  | cons round rounds ih =>
    cases waits with
    | nil => rw [lookBetween, List.length_nil, lasting_zero_cons]
    | cons millis waits =>
      rw [List.length_cons] at h ⊢
      obtain ⟨hr, hrest⟩ := (findNothing_succ_cons _ _ _).1 h
      have hstay : ¬ round.r ≠ 0 := by simp [hr]
      rw [lookBetween, if_neg hstay, lasting_succ_cons, ← ih hrest]

/-- The waits that `poll` asks for until it gives up, in milliseconds. -/
def pollWaits (timeout : Int32) : List Nat := BackOff.waits 16 1 timeout.toNatClampNeg

theorem poll_result_iff (timeout : Int32) (rounds : List PollRound) :
    (poll fds nfds timeout rounds).result = some 0 ↔
      0 ≤ timeout ∧ timeout ≠ Int32.maxValue ∧ FindNothing (pollWaits timeout).length rounds := by
  rw [poll]
  by_cases hneg : timeout < 0
  · rw [if_pos hneg]
    refine iff_of_false (pollLoop_forever rounds 1) fun h => ?_
    exact Int32.not_lt.2 h.1 hneg
  · rw [if_neg hneg]
    by_cases hm : timeout = Int32.maxValue
    · subst timeout
      exact iff_of_false (pollLoop_forever rounds 1) fun h => h.2.1 rfl
    · have h0 : 0 ≤ timeout := Int32.not_lt.1 hneg
      rw [pollLoop_eq h0 hm (.inl rfl), lookBetween_result]
      exact ⟨fun h => ⟨h0, hm, h⟩, fun h => h.2.2⟩

def asked (timeout : Int32) : List Nat := (pollWaits timeout).map (· * 1000000)

theorem length_asked (timeout : Int32) : (asked timeout).length = (pollWaits timeout).length :=
  List.length_map _

theorem sum_asked (timeout : Int32) :
    (asked timeout).sum = timeout.toNatClampNeg * 1000000 := by
  have hone : 0 < 1 := Nat.one_pos
  rw [asked, List.sum_map_mul_right, List.map_id', pollWaits, BackOff.sum_waits hone]

/-- The time by which waits end early is made up by waits that end late and by the inner
calls. -/
def MadeUp (timeout : Int32) (rounds : List PollRound) : Prop :=
  BackOff.early (asked timeout) (rounds.map PollRound.waited) ≤
    BackOff.late (asked timeout) (rounds.map PollRound.waited) +
      ((rounds.take ((pollWaits timeout).length + 1)).map PollRound.took).sum

theorem madeUp_iff {timeout : Int32} {rounds : List PollRound}
    (h : FindNothing (pollWaits timeout).length rounds) :
    MadeUp timeout rounds ↔
      timeout.toNatClampNeg * 1000000 ≤ lasting (pollWaits timeout).length rounds := by
  have hlen : (asked timeout).length ≤ (rounds.map PollRound.waited).length := by
    rw [length_asked, List.length_map]
    exact Nat.le_of_lt h.1
  have hsum := BackOff.sum_add_late hlen
  rw [sum_asked, length_asked, ← List.map_take] at hsum
  simp only [MadeUp, lasting]
  omega

/-- `poll` gives up early exactly where nothing is found until its waits are used up, and the
time by which some of them end early is not made up. -/
theorem poll_notEarly_iff (fds nfds : UInt64) (timeout : Int32) (rounds : List PollRound) :
    NotEarly timeout (poll fds nfds timeout rounds) ↔
      (0 ≤ timeout ∧ timeout ≠ Int32.maxValue ∧ FindNothing (pollWaits timeout).length rounds →
        MadeUp timeout rounds) := by
  unfold NotEarly
  rw [poll_result_iff]
  refine forall_congr' fun ⟨h0, hm, hnothing⟩ => ?_
  have hneg : ¬ timeout < 0 := Int32.not_lt.2 h0
  have helapsed : (poll fds nfds timeout rounds).elapsed =
      lasting (pollWaits timeout).length rounds := by
    rw [poll, if_neg hneg, pollLoop_eq h0 hm (.inl rfl)]
    exact lookBetween_elapsed hnothing
  rw [madeUp_iff hnothing, helapsed]
  exact and_iff_right h0

/-- Events of other descriptors keep ending the waits, and 21 microseconds into a timeout of
100 milliseconds the call gives up. -/
theorem poll_gives_up_early :
    (poll 4096 1 100 (List.replicate 11 ⟨0, 1000, 1000⟩)).result = some 0 ∧
      (poll 4096 1 100 (List.replicate 11 ⟨0, 1000, 1000⟩)).elapsed = 21000 ∧
      ¬ NotEarly 100 (poll 4096 1 100 (List.replicate 11 ⟨0, 1000, 1000⟩)) := by
  have hresult : (poll 4096 1 100 (List.replicate 11 ⟨0, 1000, 1000⟩)).result = some 0 := by
    decide
  have helapsed : (poll 4096 1 100 (List.replicate 11 ⟨0, 1000, 1000⟩)).elapsed = 21000 := by
    decide
  refine ⟨hresult, helapsed, fun h => ?_⟩
  obtain ⟨-, htime⟩ := h hresult
  rw [helapsed] at htime
  exact absurd htime (by decide)

end Nio

end OpenCoroutine
