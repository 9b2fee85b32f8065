import OpenCoroutine.EventLoops

/-! `EventLoops::stop` over `m` loops: it asks `next(true)` for a loop `m` times and stops the
loop it gets. An access to `INDEX` is one step, and so is the call of a loop's `stop`; other
threads come in between with calls of `next` of their own. `resets` counts those that have yet
to store 1. -/

namespace OpenCoroutine

open Transition

inductive ShutdownPc (m : Nat) where
  | next
  | storing (j : Fin m)
  | stopping (j : Fin m)
  deriving DecidableEq

structure Shutdown (m : Nat) where
  index : Nat
  resets : Nat := 0
  iteration : Nat := 0
  pc : ShutdownPc m := .next
  stopped : List (Fin m) := []

namespace Shutdown

inductive Act where
  | advance
  | next (skipMonitor : Bool)
  | reset

variable {m : Nat}

def step (s : Shutdown m) : Act → Option (Shutdown m)
  | .advance =>
    match s.pc with
    | .next =>
      if s.iteration < m then
        (EventLoops.pick m s.index true).map fun j =>
          { s with
            index := (s.index + 1) % 2 ^ 64
            pc := if s.index % m = monitorCpu then .storing j else .stopping j }
      else none
    | .storing j => some { s with index := 1, pc := .stopping j }
    | .stopping j =>
      some { s with iteration := s.iteration + 1, pc := .next, stopped := j :: s.stopped }
  | .next skipMonitor =>
    some { s with
      index := (s.index + 1) % 2 ^ 64
      resets := s.resets + if skipMonitor && s.index % m == monitorCpu then 1 else 0 }
  | .reset => if s.resets = 0 then none else some { s with index := 1, resets := s.resets - 1 }

/-- The calls of other threads do to `INDEX` what they do in `EventLoops`. -/
theorem step_next {ι θ : Type*} [DecidableEq ι] [DecidableEq θ] {n : Nat} {now : Nat → Nat}
    {pool : Fin m → ι} {s : Shutdown m} {e e' : EventLoops ι θ m n} {skipMonitor : Bool}
    (he : e.step now pool (.next skipMonitor) = some e') (hindex : s.index = e.index)
    (hresets : s.resets = e.resets) :
    s.step (.next skipMonitor) = some { s with index := e'.index, resets := e'.resets } := by
  cases he
  simp only [step, hindex, hresets]

/-- `stop` has no access to `INDEX` to come. -/
def isPast (s : Shutdown m) : Bool :=
  match s.pc with
  | .next => s.iteration == m
  | .storing _ => false
  | .stopping _ => s.iteration + 1 == m

/-- With more than one loop to stop no other thread comes in between. -/
def Quiet (s : Shutdown m) : Act → Prop
  | .advance => True
  | .next _ | .reset => m = 2 ∨ s.isPast = true

instance (s : Shutdown m) : (a : Act) → Decidable (s.Quiet a)
  | .advance => isTrue trivial
  | .next _ | .reset => inferInstanceAs (Decidable (m = 2 ∨ s.isPast = true))

structure Begins (s : Shutdown m) : Prop where
  index : s.index < 2 ^ 64
  iteration : s.iteration = 0
  pc : s.pc = .next
  stopped : s.stopped = []

/-! What the iterations pick. -/

/-- How far it is from `index` to a multiple of `m`. -/
def toMonitor (m index : Nat) : Nat := (m - index % m) % m

/-- The iteration that comes upon the monitor. -/
def hit (m index : Nat) : Nat := min (toMonitor m index) (2 ^ 64 - index)

def indexAt (m index k : Nat) : Nat :=
  if k ≤ hit m index then (index + k) % 2 ^ 64 else k - hit m index

def picked (m index k : Nat) : Nat :=
  if k < hit m index then (index + k) % m else if k = hit m index then 1 else k - hit m index

theorem add_mod_of_lt {index k : Nat} (h : index % m + k < m) :
    (index + k) % m = index % m + k := by
  rw [Nat.add_mod, Nat.mod_eq_of_lt (show k < m by omega), Nat.mod_eq_of_lt h]

theorem toMonitor_eq (hm : 0 < m) (index : Nat) :
    toMonitor m index = if index % m = 0 then 0 else m - index % m := by
  unfold toMonitor
  have hlt := Nat.mod_lt index hm
  split
  · rename_i h
    rw [h, Nat.sub_zero, Nat.mod_self]
  · rw [Nat.mod_eq_of_lt (by omega)]

theorem add_toMonitor_mod (hm : 0 < m) (index : Nat) : (index + toMonitor m index) % m = 0 := by
  have hlt := Nat.mod_lt index hm
  rw [toMonitor_eq hm]
  split
  · assumption
  · rw [Nat.add_mod, Nat.mod_eq_of_lt (show m - index % m < m by omega),
      Nat.add_sub_cancel' hlt.le, Nat.mod_self]

/-- Up to the hit the iterations pick one loop after another. -/
theorem picked_before {index k : Nat} (hm : 0 < m) (hk : k < hit m index) :
    index + k < 2 ^ 64 ∧ (index + k) % m = index % m + k ∧ 0 < index % m := by
  have hlt := Nat.mod_lt index hm
  rw [hit, lt_min_iff, toMonitor_eq hm] at hk
  split at hk
  · omega
  · exact ⟨by omega, add_mod_of_lt (by omega), by omega⟩

theorem indexAt_mod {index k : Nat} (hm : 0 < m) (hindex : index < 2 ^ 64) (hk : k < m) :
    indexAt m index k % m = 0 ↔ k = hit m index := by
  unfold indexAt
  split
  · rename_i hle
    constructor
    · intro h
      by_contra hne
      obtain ⟨hbound, hmod, hpos⟩ := picked_before hm (lt_of_le_of_ne hle hne)
      rw [Nat.mod_eq_of_lt hbound, hmod] at h
      omega
    · rintro rfl
      by_cases hwrap : toMonitor m index < 2 ^ 64 - index
      · have hbound : index + toMonitor m index < 2 ^ 64 := by omega
        rw [hit, min_eq_left hwrap.le, Nat.mod_eq_of_lt hbound, add_toMonitor_mod hm]
      · rw [hit, min_eq_right (by omega), Nat.add_sub_cancel' hindex.le, Nat.mod_self, Nat.zero_mod]
  · rename_i hgt
    rw [Nat.mod_eq_of_lt (by omega)]
    omega

theorem indexAt_succ {index k : Nat} (hm : 0 < m) (hbound : m < 2 ^ 64) (hk : k < m)
    (hne : k ≠ hit m index) : (indexAt m index k + 1) % 2 ^ 64 = indexAt m index (k + 1) := by
  unfold indexAt
  by_cases hle : k ≤ hit m index
  · obtain ⟨hlt, -⟩ := picked_before hm (lt_of_le_of_ne hle hne)
    rw [if_pos hle, if_pos (by omega), Nat.mod_eq_of_lt hlt, Nat.add_assoc]
  · rw [if_neg hle, if_neg (by omega), Nat.mod_eq_of_lt (by omega)]
    omega

theorem pick_eq {index : Nat} {j : Fin m} (h : EventLoops.pick m index true = some j) :
    j.val = if index % m = 0 then 1 else index % m := by
  unfold EventLoops.pick EventLoops.get at h
  simp only [Bool.true_and, beq_iff_eq, monitorCpu] at h
  split at h <;> split at h <;> cases h <;> simp [*]

theorem indexAt_picked {index k : Nat} (hm : 0 < m) (hindex : index < 2 ^ 64) (hk : k < m) :
    (if indexAt m index k % m = 0 then 1 else indexAt m index k % m) = picked m index k := by
  by_cases hhit : k = hit m index
  · rw [if_pos ((indexAt_mod hm hindex hk).2 hhit), picked, if_neg (by omega), if_pos hhit]
  · rw [if_neg fun h => hhit ((indexAt_mod hm hindex hk).1 h), picked, indexAt]
    by_cases hlt : k < hit m index
    · rw [if_pos hlt, if_pos hlt.le, Nat.mod_eq_of_lt (picked_before hm hlt).1]
    · rw [if_neg hlt, if_neg (by omega), if_neg hhit, Nat.mod_eq_of_lt (by omega)]

/-- The iterations pick every loop but the monitor if and only if `INDEX` does not wrap before
its next multiple of `m`. -/
theorem picked_all_iff {index : Nat} (hm : 2 ≤ m) (hindex : index < 2 ^ 64) :
    (∀ j : Fin m, j.val ≠ monitorCpu → ∃ k < m, picked m index k = j.val) ↔
      index + toMonitor m index ≤ 2 ^ 64 := by
  have hlt := Nat.mod_lt index (show 0 < m by omega)
  have hto := toMonitor_eq (m := m) (by omega) index
  constructor
  · intro hall
    by_contra hwrap
    have hhit : hit m index = 2 ^ 64 - index := min_eq_right (by omega)
    obtain ⟨k, hk, hpick⟩ := hall ⟨m - 1, by omega⟩ (by simp only [monitorCpu]; omega)
    rw [picked] at hpick
    dsimp only at hpick
    split at hto
    · omega
    · split at hpick
      · rename_i hbefore
        rw [(picked_before (by omega) hbefore).2.1] at hpick
        omega
      · split at hpick <;> omega
  · intro hfits j hj
    have hhit : hit m index = toMonitor m index := min_eq_left (by omega)
    have hjm := j.isLt
    have hjpos : 0 < j.val := Nat.pos_of_ne_zero hj
    by_cases hge : m - toMonitor m index ≤ j.val
    · refine ⟨j.val - (m - toMonitor m index), by omega, ?_⟩
      have hbefore : j.val - (m - toMonitor m index) < hit m index := by omega
      rw [picked, if_pos hbefore, (picked_before (by omega) hbefore).2.1]
      split at hto <;> omega
    · refine ⟨hit m index + j.val, by omega, ?_⟩
      rw [picked, if_neg (by omega), if_neg (by omega)]
      omega

/-! The runs. -/

variable {s s' : Shutdown m}

/-- Where `stop` is, if it has begun with `index` and nobody has come in between. -/
def Follows (index : Nat) (s : Shutdown m) : Prop :=
  match s.pc with
  | .next => s.iteration < m → s.index = indexAt m index s.iteration
  | .storing j => s.iteration < m ∧ s.iteration = hit m index ∧ j.val = 1
  | .stopping j => s.iteration < m ∧ j.val = picked m index s.iteration ∧
      (s.iteration + 1 < m → s.index = indexAt m index (s.iteration + 1))

structure Counts (index : Nat) (s : Shutdown m) : Prop where
  follows : s.Follows index
  stopped : ∀ j : Fin m, j ∈ s.stopped ↔ ∃ k < s.iteration, picked m index k = j.val

theorem Begins.counts (h : s.Begins) : s.Counts s.index where
  follows := by
    simp only [Follows, h.pc, h.iteration]
    intro _
    rw [indexAt, if_pos (Nat.zero_le _), Nat.add_zero, Nat.mod_eq_of_lt h.index]
  stopped j := by
    rw [h.stopped, h.iteration]
    simp

theorem Counts.advance {index : Nat} (hm : 2 ≤ m) (hbound : m < 2 ^ 64) (hindex : index < 2 ^ 64)
    (h : s.Counts index) (hs : s.step .advance = some s') : s'.Counts index := by
  have hpos : 0 < m := by omega
  obtain ⟨hfollows, hstopped⟩ := h
  cases hpc : s.pc with
  | next =>
    simp only [Follows, hpc] at hfollows
    simp only [step, hpc, Option.ite_none_right_eq_some, Option.map_eq_some_iff] at hs
    obtain ⟨hlt, j, hpick, rfl⟩ := hs
    have hnow := hfollows hlt
    have hj : j.val = picked m index s.iteration := by
      rw [pick_eq hpick, hnow, indexAt_picked hpos hindex hlt]
    refine ⟨?_, hstopped⟩
    by_cases hmod : s.index % m = monitorCpu
    · have hhit : s.iteration = hit m index := by
        rw [hnow] at hmod
        exact (indexAt_mod hpos hindex hlt).1 hmod
      simp only [Follows, if_pos hmod]
      refine ⟨hlt, hhit, ?_⟩
      rw [hj, picked, if_neg (by omega), if_pos hhit]
    · have hne : s.iteration ≠ hit m index := by
        intro hhit
        rw [hnow] at hmod
        exact hmod ((indexAt_mod hpos hindex hlt).2 hhit)
      simp only [Follows, if_neg hmod]
      refine ⟨hlt, hj, fun _ => ?_⟩
      rw [hnow, indexAt_succ hpos hbound hlt hne]
  | storing j =>
    simp only [Follows, hpc] at hfollows
    obtain ⟨hlt, hhit, hone⟩ := hfollows
    simp only [step, hpc, Option.some.injEq] at hs
    subst hs
    refine ⟨⟨hlt, ?_, fun _ => ?_⟩, hstopped⟩
    · show j.val = picked m index s.iteration
      rw [hone, picked, if_neg (by omega), if_pos hhit]
    · show 1 = indexAt m index (s.iteration + 1)
      rw [indexAt, if_neg (by omega)]
      omega
  | stopping j =>
    simp only [Follows, hpc] at hfollows
    obtain ⟨hlt, hj, hnext⟩ := hfollows
    simp only [step, hpc, Option.some.injEq] at hs
    subst hs
    refine ⟨hnext, fun j' => ?_⟩
    rw [List.mem_cons, hstopped j']
    constructor
    · rintro (rfl | ⟨k, hk, hpick⟩)
      · exact ⟨s.iteration, Nat.lt_succ_self _, hj.symm⟩
      · exact ⟨k, hk.trans (Nat.lt_succ_self _), hpick⟩
    · rintro ⟨k, hk, hpick⟩
      rcases Nat.lt_succ_iff_lt_or_eq.1 hk with hk | rfl
      · exact .inr ⟨k, hk, hpick⟩
      · exact .inl (Fin.ext (hpick.symm.trans hj.symm))

/-- What other threads do to `INDEX` after the last access of `stop`. -/
theorem Counts.past {index : Nat} (h : s.Counts index) (hpast : s.isPast = true)
    (hs : s' = { s with index := s'.index, resets := s'.resets }) : s'.Counts index := by
  obtain ⟨hfollows, hstopped⟩ := h
  rw [hs]
  refine ⟨?_, hstopped⟩
  cases hpc : s.pc with
  | next =>
    simp only [isPast, hpc, beq_iff_eq] at hpast
    simp only [Follows]
    intro hlt
    omega
  | storing j => simp [isPast, hpc] at hpast
  | stopping j =>
    simp only [isPast, hpc, beq_iff_eq] at hpast
    simp only [Follows, hpc] at hfollows ⊢
    exact ⟨hfollows.1, hfollows.2.1, fun hlt => by omega⟩

theorem Counts.step {index : Nat} (hm : 2 < m) (hbound : m < 2 ^ 64) (hindex : index < 2 ^ 64)
    (h : s.Counts index) {a : Act} (hok : s.Quiet a) (hs : s.step a = some s') :
    s'.Counts index := by
  cases a with
  | advance => exact h.advance hm.le hbound hindex hs
  | next skipMonitor =>
    cases hs
    exact h.past (hok.resolve_left (by omega)) rfl
  | reset =>
    simp only [Shutdown.step] at hs
    split at hs
    · cases hs
    · cases hs
      exact h.past (hok.resolve_left (by omega)) rfl

/-- Of two loops the one that is not the monitor is all that `stop` ever gets. -/
structure Single (s : Shutdown m) : Prop where
  pc : ∀ j, s.pc = .storing j ∨ s.pc = .stopping j → j.val = 1
  stopped : 0 < s.iteration → ∀ j : Fin m, j.val = 1 → j ∈ s.stopped

theorem Single.step (hm : m = 2) (h : s.Single) {a : Act} (hs : s.step a = some s') :
    s'.Single := by
  cases a with
  | next skipMonitor =>
    cases hs
    exact ⟨h.pc, h.stopped⟩
  | reset =>
    simp only [Shutdown.step] at hs
    split at hs
    · cases hs
    · cases hs
      exact ⟨h.pc, h.stopped⟩
  | advance =>
    cases hpc : s.pc with
    | next =>
      simp only [Shutdown.step, hpc, Option.ite_none_right_eq_some, Option.map_eq_some_iff] at hs
      obtain ⟨-, j, hpick, rfl⟩ := hs
      have hj : j.val = 1 := by
        have hval := pick_eq hpick
        split at hval <;> omega
      refine ⟨fun j' hj' => ?_, h.stopped⟩
      dsimp only at hj'
      split at hj' <;> simp only [ShutdownPc.storing.injEq, ShutdownPc.stopping.injEq, reduceCtorEq,
        or_false, false_or] at hj' <;> rw [← hj', hj]
    | storing j =>
      simp only [Shutdown.step, hpc, Option.some.injEq] at hs
      subst hs
      refine ⟨fun j' hj' => ?_, h.stopped⟩
      simp only [reduceCtorEq, ShutdownPc.stopping.injEq, false_or] at hj'
      rw [← hj']
      exact h.pc j (.inl hpc)
    | stopping j =>
      simp only [Shutdown.step, hpc, Option.some.injEq] at hs
      subst hs
      refine ⟨fun j' hj' => by simp at hj', fun _ j' hj' => ?_⟩
      have hj := h.pc j (.inr hpc)
      exact List.mem_cons.2 (.inl (Fin.ext (hj'.trans hj.symm)))

/-- In a run in which no other thread comes in between, `stop` stops every loop but the monitor
if and only if `INDEX` does not wrap before its next multiple of `m`. -/
theorem stop_covers_iff (hm : 2 ≤ m) (hbound : m < 2 ^ 64) (h₀ : s.Begins)
    (h : Reaches step Quiet s s') (hend : s'.iteration = m) :
    (∀ j : Fin m, j.val ≠ monitorCpu → j ∈ s'.stopped) ↔ s.index + toMonitor m s.index ≤ 2 ^ 64 := by
  rw [← picked_all_iff hm h₀.index]
  by_cases htwo : m = 2
  · have hsingle : s'.Single := by
      refine h.invariant (p := Single) ?_ fun _ _ _ hi _ hs => hi.step htwo hs
      refine ⟨fun j hj => ?_, fun hpos => ?_⟩
      · rw [h₀.pc] at hj
        simp at hj
      · rw [h₀.iteration] at hpos
        cases hpos
    have hindex := h₀.index
    have hto := toMonitor_eq (m := m) (by omega) s.index
    refine iff_of_true (fun j hj => hsingle.stopped (by omega) j ?_) ?_
    · have := j.isLt
      simp only [monitorCpu] at hj
      omega
    · rw [picked_all_iff hm hindex]
      subst htwo
      split at hto <;> omega
  · have hcounts : s'.Counts s.index := h.invariant (p := Counts s.index) h₀.counts
      fun _ _ _ hi hok hs => hi.step (by omega) hbound h₀.index hok hs
    refine forall_congr' fun j => imp_congr_right fun _ => ?_
    rw [hcounts.stopped j, hend]

def begun (m index : Nat) : Shutdown m := { index }

theorem begun_begins {index : Nat} (h : index < 2 ^ 64) : (begun m index).Begins := ⟨h, rfl, rfl, rfl⟩

theorem stop_covers_three :
    ∃ s : Shutdown 3, Reaches step Quiet (begun 3 5) s ∧
      ∀ j : Fin 3, j.val ≠ monitorCpu → j ∈ s.stopped := by
  obtain ⟨s, h, hend⟩ : ∃ s : Shutdown 3, Reaches step Quiet (begun 3 5) s ∧ s.iteration = 3 :=
    ⟨_, Reaches.of_runGuarded [.advance, .advance, .advance, .advance, .advance, .advance,
      .advance] rfl, rfl⟩
  exact ⟨s, h, (stop_covers_iff (by decide) (by decide) (begun_begins (by decide)) h hend).2
    (by decide)⟩

/-- Another thread's `next(false)` takes the index that would have picked the second loop. -/
theorem stop_misses_loop :
    ∃ s : Shutdown 3, Reaches step Free (begun 3 1) s ∧ s.iteration = 3 ∧
      ¬ ∀ j : Fin 3, j.val ≠ monitorCpu → j ∈ s.stopped := by
  obtain ⟨s, h, hend, hstopped⟩ : ∃ s : Shutdown 3,
      run step (begun 3 1) [.advance, .advance, .next false, .advance, .advance, .advance, .advance,
        .advance] = some s ∧ s.iteration = 3 ∧ s.stopped = [1, 1, 1] :=
    ⟨_, rfl, rfl, rfl⟩
  refine ⟨s, .of_run _ h (guarded_free _), hend, fun hall => ?_⟩
  have htwo := hall 2 (by decide)
  rw [hstopped] at htwo
  revert htwo
  decide

end Shutdown

end OpenCoroutine
