import Mathlib.Data.List.TakeWhile
import OpenCoroutine.Timer

/-! `sleep`, `usleep` and `nanosleep` of `NioLinuxSyscall`. The readings of the clock stand in
a list, the first for the deadline and then one for each turn of the loop. A wait for events
ends whenever it likes. -/

namespace OpenCoroutine

namespace Nio

def EINVAL : Int32 := 22

structure Timespec where
  tvSec : Int64
  tvNsec : Int64
  deriving DecidableEq, Repr

/-- The times that `wait_event` is asked to wait, in nanoseconds, and the result with its
`errno`, unless the readings are used up before. `rmtp` is what lies behind the pointer of that
name, if it is not null. -/
structure Slept where
  waits : List Nat
  returned : Option (Int32 × Int32)
  rmtp : Option Timespec := none
  deriving DecidableEq, Repr

/-- The waits, and whether the loop has been left. -/
def sleepLoop (timeout : Nat) : List Nat → List Nat × Bool
  | [] => ([], false)
  | now :: readings =>
    let leftTime := timeout - now
    if leftTime = 0 then ([], true)
    else
      let (waits, left) := sleepLoop timeout readings
      (leftTime :: waits, left)

/-- `sleep` and `usleep`, which reset `errno` and return 0. -/
def sleepFor (dur : Nat) : List Nat → Slept
  | [] => { waits := [], returned := none }
  | start :: readings =>
    let (waits, left) := sleepLoop (getTimeoutTime dur start) readings
    { waits, returned := if left then some (0, 0) else none }

def sleep (secs : UInt32) (readings : List Nat) : Slept :=
  sleepFor (secs.toNat * 1000000000) readings

def usleep (microseconds : UInt32) (readings : List Nat) : Slept :=
  sleepFor (microseconds.toNat * 1000) readings

def nanosleep (rqtp rmtp : Option Timespec) (readings : List Nat) : Slept :=
  match rqtp with
  | none => ⟨[], some (-1, EINVAL), rmtp⟩
  | some t =>
    if t.tvSec < 0 ∨ t.tvNsec < 0 ∨ 999999999 < t.tvNsec then ⟨[], some (-1, EINVAL), rmtp⟩
    else if t.tvNsec < 0 ∨ 4294967295 < t.tvNsec then ⟨[], some (-1, EINVAL), rmtp⟩
    else
      match readings with
      | [] => ⟨[], none, rmtp⟩
      | start :: readings =>
        let dur := t.tvSec.toUInt64.toNat * 1000000000 + t.tvNsec.toUInt64.toNat
        let (waits, left) := sleepLoop (getTimeoutTime dur start) readings
        if left then ⟨waits, some (0, 0), rmtp.map fun _ => ⟨0, 0⟩⟩ else ⟨waits, none, rmtp⟩

/-- The loop ends with the first reading at or past the deadline, and every wait before is for
what is left. -/
theorem sleepLoop_eq (timeout : Nat) (readings : List Nat) :
    sleepLoop timeout readings =
      ((readings.takeWhile (· < timeout)).map (timeout - ·), readings.any (timeout ≤ ·)) := by
  induction readings with
  | nil => rfl
  | cons now readings ih =>
    by_cases hdue : timeout ≤ now
    · have hleft : timeout - now = 0 := Nat.sub_eq_zero_of_le hdue
      have hstay : ¬ now < timeout := Nat.not_lt.2 hdue
      simp [sleepLoop, hleft, hstay, hdue]
    · have hleft : timeout - now ≠ 0 := by omega
      have hgo : now < timeout := Nat.lt_of_not_le hdue
      simp [sleepLoop, hleft, hgo, hdue, ih]

inductive SleepCall where
  | sleep (secs : UInt32)
  | usleep (microseconds : UInt32)
  | nanosleep (rqtp rmtp : Option Timespec)

namespace SleepCall

def run : SleepCall → List Nat → Slept
  | sleep secs => Nio.sleep secs
  | usleep microseconds => Nio.usleep microseconds
  | nanosleep rqtp rmtp => Nio.nanosleep rqtp rmtp

/-- The time that the call is meant to take, in nanoseconds, unless it is refused. -/
def nanos : SleepCall → Option Nat
  | sleep secs => some (secs.toNat * 1000000000)
  | usleep microseconds => some (microseconds.toNat * 1000)
  | nanosleep none _ => none
  | nanosleep (some t) _ =>
    if 0 ≤ t.tvSec ∧ 0 ≤ t.tvNsec ∧ t.tvNsec ≤ 999999999 then
      some (t.tvSec.toNatClampNeg * 1000000000 + t.tvNsec.toNatClampNeg)
    else none

def rmtp : SleepCall → Option Timespec
  | nanosleep _ rmtp => rmtp
  | _ => none

end SleepCall

/-- The call sleeps up to the first reading at or past `deadline`. Then it returns 0 with
nothing left to sleep, and not before. -/
structure SleepsUntil (deadline : Nat) (readings : List Nat) (rmtp : Option Timespec)
    (slept : Slept) : Prop where
  waits : slept.waits = (readings.takeWhile (· < deadline)).map (deadline - ·)
  returned : (∃ now ∈ readings, deadline ≤ now) →
    slept.returned = some (0, 0) ∧ slept.rmtp = rmtp.map fun _ => ⟨0, 0⟩
  waiting : (∀ now ∈ readings, now < deadline) → slept.returned = none ∧ slept.rmtp = rmtp

theorem any_eq_false {timeout : Nat} {readings : List Nat} (h : ∀ now ∈ readings, now < timeout) :
    readings.any (timeout ≤ ·) = false := by
  rw [List.any_eq_false]
  intro now hnow
  rw [decide_eq_true_eq]
  exact Nat.not_le.2 (h now hnow)

theorem any_eq_true {timeout : Nat} {readings : List Nat} (h : ∃ now ∈ readings, timeout ≤ now) :
    readings.any (timeout ≤ ·) = true := by
  rw [List.any_eq_true]
  obtain ⟨now, hnow, hdue⟩ := h
  exact ⟨now, hnow, decide_eq_true hdue⟩

theorem sleepFor_until (dur start : Nat) (readings : List Nat) :
    SleepsUntil (getTimeoutTime dur start) readings none (sleepFor dur (start :: readings)) := by
  simp only [sleepFor, sleepLoop_eq]
  refine ⟨rfl, fun h => ?_, fun h => ?_⟩
  · rw [any_eq_true h]
    exact ⟨rfl, rfl⟩
  · rw [any_eq_false h]
    exact ⟨rfl, rfl⟩

theorem nanosleep_refused {t : Timespec} (h : ¬ (0 ≤ t.tvSec ∧ 0 ≤ t.tvNsec ∧ t.tvNsec ≤ 999999999))
    (rmtp : Option Timespec) (readings : List Nat) :
    nanosleep (some t) rmtp readings = ⟨[], some (-1, EINVAL), rmtp⟩ := by
  have hbad : t.tvSec < 0 ∨ t.tvNsec < 0 ∨ 999999999 < t.tvNsec := by
    by_contra hc
    simp only [not_or, Int64.not_lt] at hc
    exact h hc
  simp only [nanosleep, if_pos hbad]

theorem nanosleep_until {t : Timespec} (h : 0 ≤ t.tvSec ∧ 0 ≤ t.tvNsec ∧ t.tvNsec ≤ 999999999)
    (rmtp : Option Timespec) (start : Nat) (readings : List Nat) :
    SleepsUntil (getTimeoutTime (t.tvSec.toNatClampNeg * 1000000000 + t.tvNsec.toNatClampNeg) start)
      readings rmtp (nanosleep (some t) rmtp (start :: readings)) := by
  obtain ⟨hsec, hnsec, hmax⟩ := h
  have hgood : ¬ (t.tvSec < 0 ∨ t.tvNsec < 0 ∨ 999999999 < t.tvNsec) := by
    simp only [not_or, Int64.not_lt]
    exact ⟨hsec, hnsec, hmax⟩
  -- a value that has passed the first check fits into `u32`
  have hfits : ¬ (t.tvNsec < 0 ∨ 4294967295 < t.tvNsec) := by
    simp only [not_or, Int64.not_lt]
    have hu32 : (999999999 : Int64) ≤ 4294967295 := by decide
    exact ⟨hnsec, Int64.le_trans hmax hu32⟩
  simp only [nanosleep, if_neg hgood, if_neg hfits, sleepLoop_eq,
    Int64.toNat_toUInt64_of_le hsec, Int64.toNat_toUInt64_of_le hnsec]
  refine ⟨?_, fun h => ?_, fun h => ?_⟩
  · split <;> rfl
  · rw [any_eq_true h]
    exact ⟨rfl, rfl⟩
  · rw [any_eq_false h]
    exact ⟨rfl, rfl⟩

/-- A sleeping call that is accepted sleeps until its deadline whenever its waits end, and one
that is refused does not wait at all. -/
theorem sleeps_until_deadline (call : SleepCall) (start : Nat) (readings : List Nat) :
    (∀ dur, call.nanos = some dur →
      SleepsUntil (getTimeoutTime dur start) readings call.rmtp (call.run (start :: readings))) ∧
    (call.nanos = none → call.run (start :: readings) = ⟨[], some (-1, EINVAL), call.rmtp⟩) := by
  cases call with
  | sleep secs =>
    refine ⟨fun dur hdur => ?_, nofun⟩
    cases hdur
    exact sleepFor_until _ start readings
  | usleep microseconds =>
    refine ⟨fun dur hdur => ?_, nofun⟩
    cases hdur
    exact sleepFor_until _ start readings
  | nanosleep rqtp rmtp =>
    cases rqtp with
    | none => exact ⟨nofun, fun _ => rfl⟩
    | some t =>
      rw [SleepCall.nanos]
      split
      · rename_i hgood
        refine ⟨fun dur hdur => ?_, nofun⟩
        cases hdur
        exact nanosleep_until hgood rmtp start readings
      · rename_i hbad
        exact ⟨nofun, fun _ => nanosleep_refused hbad rmtp (start :: readings)⟩

end Nio

end OpenCoroutine
