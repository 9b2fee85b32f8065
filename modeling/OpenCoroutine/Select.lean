import Mathlib.Logic.Function.Basic
import OpenCoroutine.BackOff

/-! The loop of `NioLinuxSyscall::select`. The sets lie in memory, each at its address, and two
of the three may be one; nothing else writes them during the call. A round is what the inner
`select` returns and what it leaves in the sets and the `timeval` it is given. The caller's
own `timeval` is only read. -/

namespace OpenCoroutine

namespace Nio

abbrev FdSet := BitVec 1024

abbrev Memory := UInt64 → FdSet

structure Timeval where
  tvSec : Int64
  tvUsec : Int64
  deriving DecidableEq, Repr

/-- The addresses of the three sets, 0 for null. -/
structure FdSets where
  readfds : UInt64
  writefds : UInt64
  errorfds : UInt64
  deriving DecidableEq, Repr

structure SelectRound where
  r : Int32
  sets : Memory
  o : Timeval

inductive SelectCall where
  | select (nfds : Int32) (sets : FdSets) (mem : Memory) (o : Timeval)
  | waitEvent (millis : UInt64)

structure SelectRun where
  calls : List SelectCall
  result : Option Int32
  mem : Memory

namespace FdSets

/-- A set that is passed. -/
def Has (sets : FdSets) (p : UInt64) : Prop :=
  p ≠ 0 ∧ (p = sets.readfds ∨ p = sets.writefds ∨ p = sets.errorfds)

instance (sets : FdSets) (p : UInt64) : Decidable (sets.Has p) :=
  inferInstanceAs (Decidable (_ ∧ _))

/-- What the inner call leaves in memory. -/
def overwrite (sets : FdSets) (new mem : Memory) : Memory :=
  fun p => if sets.Has p then new p else mem p

/-- `if !p.is_null() { s = *p }`. -/
def load (mem : Memory) (p : UInt64) (s : FdSet) : FdSet := if p ≠ 0 then mem p else s

/-- `if !p.is_null() { *p = s }`. -/
def store (mem : Memory) (p : UInt64) (s : FdSet) : Memory :=
  if p ≠ 0 then Function.update mem p s else mem

def save (sets : FdSets) (mem : Memory) : FdSet × FdSet × FdSet :=
  (load mem sets.readfds 0, load mem sets.writefds 0, load mem sets.errorfds 0)

def restore (sets : FdSets) (s : FdSet × FdSet × FdSet) (mem : Memory) : Memory :=
  store (store (store mem sets.readfds s.1) sets.writefds s.2.1) sets.errorfds s.2.2

end FdSets

section

variable (nfds : Int32) (sets : FdSets)

def selectLoop (s : FdSet × FdSet × FdSet) :
    List SelectRound → Memory → Timeval → UInt32 → UInt32 → SelectRun
  | [], mem, o, _, _ => ⟨[.select nfds sets mem o], none, mem⟩
  | round :: rounds, mem, o, t, x =>
    let left := sets.overwrite round.sets mem
    if round.r ≠ 0 ∨ t = 0 then ⟨[.select nfds sets mem o], some round.r, left⟩
    else
      let run := selectLoop s rounds (sets.restore s left) { round.o with tvSec := 0, tvUsec := 0 }
        (if t ≠ 4294967295 then if x < t then t - x else 0 else t)
        (if x < 16 then x <<< 1 else x)
      ⟨.select nfds sets mem o :: .waitEvent (min t x).toUInt64 :: run.calls, run.result, run.mem⟩

/-- The timeout as `c_uint`, of microseconds. -/
def Timeval.toUInt32 (tv : Timeval) : UInt32 :=
  tv.tvSec.toUInt64.toUInt32 * 1000000 + tv.tvUsec.toUInt64.toUInt32

def select (timeout : Option Timeval) (mem : Memory) (rounds : List SelectRound) : SelectRun :=
  selectLoop nfds sets (sets.save mem) rounds mem ⟨0, 0⟩
    (timeout.elim 4294967295 Timeval.toUInt32) 1

end

def SelectCall.isSelect : SelectCall → Bool
  | .select _ _ _ _ => true
  | .waitEvent _ => false

namespace FdSets

theorem store_apply (mem : Memory) (p q : UInt64) (s : FdSet) :
    store mem p s q = if p ≠ 0 ∧ q = p then s else mem q := by
  by_cases hp : p = 0
  · simp [store, hp]
  · simp [store, hp, Function.update_apply]

/-- What is saved before the loop undoes what an inner call does to the sets. -/
theorem restore_overwrite (sets : FdSets) (new mem : Memory) :
    sets.restore (sets.save mem) (sets.overwrite new mem) = mem := by
  funext q
  simp only [restore, save, load, store_apply, overwrite]
  by_cases he : sets.errorfds ≠ 0 ∧ q = sets.errorfds
  · rw [if_pos he, if_pos he.1, he.2]
  · rw [if_neg he]
    by_cases hw : sets.writefds ≠ 0 ∧ q = sets.writefds
    · rw [if_pos hw, if_pos hw.1, hw.2]
    · rw [if_neg hw]
      by_cases hr : sets.readfds ≠ 0 ∧ q = sets.readfds
      · rw [if_pos hr, if_pos hr.1, hr.2]
      · have hout : ¬ sets.Has q := by
          rintro ⟨hq, rfl | rfl | rfl⟩
          · exact hr ⟨hq, rfl⟩
          · exact hw ⟨hq, rfl⟩
          · exact he ⟨hq, rfl⟩
        rw [if_neg hr, if_neg hout]

theorem overwrite_of_has {sets : FdSets} {p : UInt64} (h : sets.Has p) (new mem : Memory) :
    sets.overwrite new mem p = new p := if_pos h

theorem overwrite_of_not_has {sets : FdSets} {p : UInt64} (h : ¬ sets.Has p)
    (new mem : Memory) : sets.overwrite new mem p = mem p := if_neg h

end FdSets

/-- The `k + 1` inner calls of a run all see this memory and a zero `timeval`, and what the
last of them leaves is what the caller finds. -/
structure Asks (nfds : Int32) (sets : FdSets) (mem : Memory) (rounds : List SelectRound)
    (run : SelectRun) (k : Nat) : Prop where
  calls : run.calls.filter SelectCall.isSelect =
    List.replicate (k + 1) (.select nfds sets mem ⟨0, 0⟩)
  others : ∀ p, ¬ sets.Has p → run.mem p = mem p
  found : ∀ r, run.result = some r → ∃ round, rounds[k]? = some round ∧ round.r = r ∧
    ∀ p, sets.Has p → run.mem p = round.sets p

theorem selectLoop_asks (nfds : Int32) (sets : FdSets) (mem : Memory)
    (rounds : List SelectRound) (t x : UInt32) :
    ∃ k, Asks nfds sets mem rounds
      (selectLoop nfds sets (sets.save mem) rounds mem ⟨0, 0⟩ t x) k := by
  induction rounds generalizing t x with
  | nil => exact ⟨0, rfl, fun _ _ => rfl, nofun⟩
  | cons round rounds ih =>
    by_cases hexit : round.r ≠ 0 ∨ t = 0
    · rw [selectLoop, if_pos hexit]
      refine ⟨0, rfl, fun p hp => FdSets.overwrite_of_not_has hp _ _, ?_⟩
      intro r hr
      exact ⟨round, rfl, Option.some.inj hr, fun p hp => FdSets.overwrite_of_has hp _ _⟩
    · rw [selectLoop, if_neg hexit, FdSets.restore_overwrite]
      obtain ⟨k, hcalls, hothers, hfound⟩ := ih
        (if t ≠ 4294967295 then if x < t then t - x else 0 else t) (if x < 16 then x <<< 1 else x)
      refine ⟨k + 1, ?_, hothers, hfound⟩
      rw [List.replicate_succ, ← hcalls]
      rfl

/-- Each inner call of `select` asks what the caller asked. -/
theorem select_asks (nfds : Int32) (sets : FdSets) (timeout : Option Timeval) (mem : Memory)
    (rounds : List SelectRound) :
    ∃ k, Asks nfds sets mem rounds (select nfds sets timeout mem rounds) k :=
  selectLoop_asks nfds sets mem rounds _ 1

/-! How long `select` waits. -/

def SelectCall.millis : SelectCall → Option Nat
  | .select _ _ _ _ => none
  | .waitEvent millis => some millis.toNat

/-- The waits that a run asks for, in milliseconds. -/
def SelectRun.waits (run : SelectRun) : List Nat := run.calls.filterMap SelectCall.millis

def Timeval.micros (tv : Timeval) : Nat :=
  tv.tvSec.toNatClampNeg * 1000000 + tv.tvUsec.toNatClampNeg

def Timeval.Valid (tv : Timeval) : Prop := 0 ≤ tv.tvSec ∧ 0 ≤ tv.tvUsec ∧ tv.tvUsec < 1000000

/-- Where nothing is ever ready, the call comes back within a millisecond after its timeout,
and without a timeout not at all. -/
def WaitsAsAsked (timeout : Option Timeval) (select : List SelectRound → SelectRun) : Prop :=
  (timeout = none → ∀ rounds, (∀ round ∈ rounds, round.r = 0) →
    (select rounds).result ≠ some 0) ∧
  ∀ tv, timeout = some tv → tv.micros < 2 ^ 32 ∧
    ∃ n, ∀ rounds, (∀ round ∈ rounds, round.r = 0) → n ≤ rounds.length →
      (select rounds).result = some 0 ∧ tv.micros ≤ (select rounds).waits.sum * 1000 ∧
        (select rounds).waits.sum * 1000 < tv.micros + 1000

theorem selectLoop_forever (nfds : Int32) (sets : FdSets) (s : FdSet × FdSet × FdSet)
    (rounds : List SelectRound) (mem : Memory) (o : Timeval) (x : UInt32) :
    (selectLoop nfds sets s rounds mem o 4294967295 x).result ≠ some 0 := by
  induction rounds generalizing mem o x with
  | nil => simp [selectLoop]
  | cons round rounds ih =>
    have hm : ¬ (4294967295 : UInt32) = 0 := by decide
    by_cases hr : round.r = 0
    · simpa [selectLoop, hr, hm] using ih _ _ _
    · simp [selectLoop, hr]

theorem step_toNat (x : UInt32) :
    (if x < 16 then x <<< 1 else x).toNat = BackOff.double 16 x.toNat := by
  have hcap : x < 16 ↔ x.toNat < 16 := UInt32.lt_iff_toNat_lt
  by_cases h : x < 16
  · have hshift : (x <<< 1).toNat = x.toNat <<< 1 % 2 ^ 32 := by
      rw [UInt32.toNat_shiftLeft]
      rfl
    have hlt : x.toNat < 16 := hcap.1 h
    rw [if_pos h, BackOff.double, if_pos hlt, hshift, Nat.shiftLeft_eq]
    omega
  · rw [if_neg h, BackOff.double, if_neg (mt hcap.2 h)]

theorem left_toNat (t x : UInt32) :
    (if x < t then t - x else 0).toNat = t.toNat - x.toNat := by
  have hlt : x < t ↔ x.toNat < t.toNat := UInt32.lt_iff_toNat_lt
  by_cases h : x < t
  · rw [if_pos h, UInt32.toNat_sub_of_le _ _ (UInt32.le_of_lt h)]
  · have hge : ¬ x.toNat < t.toNat := mt hlt.2 h
    have hz : (0 : UInt32).toNat = 0 := rfl
    rw [if_neg h]
    omega

theorem min_toNat (t x : UInt32) : (min t x).toUInt64.toNat = min t.toNat x.toNat := by
  rw [UInt32.toNat_toUInt64]
  change (if t ≤ x then t else x).toNat = min t.toNat x.toNat
  have hle : t ≤ x ↔ t.toNat ≤ x.toNat := UInt32.le_iff_toNat_le
  by_cases h : t ≤ x
  · rw [if_pos h, Nat.min_eq_left (hle.1 h)]
  · rw [if_neg h, Nat.min_eq_right (Nat.le_of_not_le (mt hle.2 h))]

/-- Where nothing is ready, the loop makes the waits of its back-off and returns 0. -/
theorem selectLoop_idle (nfds : Int32) (sets : FdSets) (s : FdSet × FdSet × FdSet)
    {t x : UInt32} (hm : t ≠ 4294967295) (hx : 0 < x.toNat)
    {rounds : List SelectRound} (hidle : ∀ round ∈ rounds, round.r = 0)
    (hlen : t.toNat < rounds.length) (mem : Memory) (o : Timeval) :
    (selectLoop nfds sets s rounds mem o t x).result = some 0 ∧
      (selectLoop nfds sets s rounds mem o t x).waits = BackOff.waits 16 x.toNat t.toNat := by
  induction rounds generalizing mem o t x with
  | nil => exact absurd hlen (Nat.not_lt_zero _)
  | cons round rounds ih =>
    have hr : round.r = 0 := hidle round List.mem_cons_self
    by_cases h0 : t = 0
    · subst t
      rw [selectLoop, if_pos (.inr rfl), hr]
      exact ⟨rfl, rfl⟩
    · have hpos : 0 < t.toNat := by
        have hne : t.toNat ≠ (0 : UInt32).toNat := fun he => h0 (UInt32.toNat_inj.1 he)
        have hz : (0 : UInt32).toNat = 0 := rfl
        omega
      have hgo : ¬ (round.r ≠ 0 ∨ t = 0) := by simp [hr, h0]
      have hleft : (if x < t then t - x else 0) ≠ 4294967295 := by
        intro he
        have hn := left_toNat t x
        have hlt := t.toNat_lt
        rw [he] at hn
        have hmax : (4294967295 : UInt32).toNat = 4294967295 := rfl
        omega
      have hstep := step_toNat x
      obtain ⟨hresult, hwaits⟩ := ih hleft (by rw [hstep]; exact BackOff.double_pos hx)
        (fun round h => hidle round (List.mem_cons_of_mem _ h))
        (by rw [left_toNat]; rw [List.length_cons] at hlen; omega)
        (sets.restore s (sets.overwrite round.sets mem)) { round.o with tvSec := 0, tvUsec := 0 }
      rw [selectLoop, if_neg hgo, if_pos hm]
      refine ⟨hresult, ?_⟩
      rw [BackOff.waits_of_pos hx hpos, ← hstep, ← left_toNat, ← min_toNat, ← hwaits]
      rfl

theorem Timeval.toUInt32_toNat {tv : Timeval} (h : tv.Valid) (hlt : tv.micros < 2 ^ 32) :
    tv.toUInt32.toNat = tv.micros := by
  obtain ⟨hsec, husec, -⟩ := h
  unfold micros at hlt ⊢
  rw [toUInt32, UInt32.toNat_add, UInt32.toNat_mul, UInt64.toNat_toUInt32, UInt64.toNat_toUInt32,
    Int64.toNat_toUInt64_of_le hsec, Int64.toNat_toUInt64_of_le husec]
  have hunit : (1000000 : UInt32).toNat = 1000000 := rfl
  rw [hunit]
  omega

theorem select_idle (nfds : Int32) (sets : FdSets) (mem : Memory) {tv : Timeval} (h : tv.Valid)
    (hlt : tv.micros < 2 ^ 32 - 1)
    {rounds : List SelectRound} (hidle : ∀ round ∈ rounds, round.r = 0)
    (hlen : tv.micros < rounds.length) :
    (select nfds sets (some tv) mem rounds).result = some 0 ∧
      (select nfds sets (some tv) mem rounds).waits.sum = tv.micros := by
  have hone : 0 < (1 : UInt32).toNat := Nat.one_pos
  have hn := Timeval.toUInt32_toNat h (by omega)
  have hm : tv.toUInt32 ≠ 4294967295 := by
    intro he
    have hmax : (4294967295 : UInt32).toNat = 4294967295 := rfl
    rw [he] at hn
    omega
  rw [← hn] at hlen
  obtain ⟨hresult, hwaits⟩ :=
    selectLoop_idle nfds sets (sets.save mem) hm hone hidle hlen mem ⟨0, 0⟩
  refine ⟨hresult, ?_⟩
  have hsum := congrArg List.sum hwaits
  rw [BackOff.sum_waits hone, hn] at hsum
  exact hsum

/-- Its microseconds are taken for milliseconds. -/
theorem select_long (nfds : Int32) (sets : FdSets) (mem : Memory) {tv : Timeval} (h : tv.Valid)
    (hlong : 1 < tv.micros) : ¬ WaitsAsAsked (some tv) (select nfds sets (some tv) mem) := by
  rintro ⟨-, hsome⟩
  obtain ⟨hlt, n, hn⟩ := hsome tv rfl
  let idle : List SelectRound := List.replicate (n + tv.micros + 1) ⟨0, fun _ => 0, ⟨0, 0⟩⟩
  have hidle : ∀ round ∈ idle, round.r = 0 := by
    intro round hround
    rw [List.eq_of_mem_replicate hround]
  have hlen : idle.length = n + tv.micros + 1 := List.length_replicate
  obtain ⟨hresult, -, hwaits⟩ := hn idle hidle (by omega)
  by_cases hmax : tv.micros = 2 ^ 32 - 1
  · have hm : tv.toUInt32 = 4294967295 := by
      apply UInt32.toNat_inj.1
      rw [Timeval.toUInt32_toNat h hlt, hmax]
      rfl
    rw [select, Option.elim_some, hm] at hresult
    exact selectLoop_forever _ _ _ idle mem _ 1 hresult
  · obtain ⟨-, hsum⟩ := select_idle nfds sets mem h (by omega) hidle (by omega)
    rw [hsum] at hwaits
    omega

/-- `select` waits as it was asked exactly without a timeout and with one of at most a
microsecond. -/
theorem select_waits_iff (nfds : Int32) (sets : FdSets) (timeout : Option Timeval) (mem : Memory)
    (hvalid : ∀ tv, timeout = some tv → tv.Valid) :
    WaitsAsAsked timeout (select nfds sets timeout mem) ↔
      ∀ tv, timeout = some tv → tv.micros ≤ 1 := by
  constructor
  · rintro hasked tv rfl
    by_contra hlong
    exact select_long nfds sets mem (hvalid tv rfl) (by omega) hasked
  · intro hshort
    refine ⟨?_, ?_⟩
    · rintro rfl rounds -
      exact selectLoop_forever _ _ _ rounds mem _ 1
    · rintro tv rfl
      have hle := hshort tv rfl
      refine ⟨by omega, tv.micros + 1, fun rounds hidle hlen => ?_⟩
      obtain ⟨hresult, hsum⟩ := select_idle nfds sets mem (hvalid tv rfl)
        (by omega) hidle (by omega)
      rw [hsum]
      exact ⟨hresult, by omega, by omega⟩

theorem select_waits_iff_microsecond :
    WaitsAsAsked (some ⟨0, 1⟩) (select 4 ⟨4096, 0, 0⟩ (some ⟨0, 1⟩) fun _ => 0) := by
  have hvalid : Timeval.Valid ⟨0, 1⟩ := ⟨by decide, by decide, by decide⟩
  refine (select_waits_iff 4 ⟨4096, 0, 0⟩ (some ⟨0, 1⟩) (fun _ => 0) ?_).2 ?_
  · intro tv h
    rwa [← Option.some.inj h]
  · intro tv h
    rw [← Option.some.inj h]
    decide

/-- With a timeout of one second it waits for a thousand of them. -/
theorem select_second_too_long :
    (∀ rounds : List SelectRound, (∀ round ∈ rounds, round.r = 0) → 1000000 < rounds.length →
      (select 4 ⟨4096, 0, 0⟩ (some ⟨1, 0⟩) (fun _ => 0) rounds).waits.sum = 1000000) ∧
      ¬ WaitsAsAsked (some ⟨1, 0⟩) (select 4 ⟨4096, 0, 0⟩ (some ⟨1, 0⟩) fun _ => 0) := by
  have hvalid : Timeval.Valid ⟨1, 0⟩ := ⟨by decide, by decide, by decide⟩
  have hmicros : Timeval.micros ⟨1, 0⟩ = 1000000 := by decide
  have hlong : 1 < Timeval.micros ⟨1, 0⟩ := by decide
  have hfits : Timeval.micros ⟨1, 0⟩ < 2 ^ 32 - 1 := by decide
  refine ⟨fun rounds hidle hlen => ?_, select_long 4 ⟨4096, 0, 0⟩ _ hvalid hlong⟩
  rw [← hmicros] at hlen ⊢
  exact (select_idle 4 ⟨4096, 0, 0⟩ _ hvalid hfits hidle hlen).2

end Nio

end OpenCoroutine
