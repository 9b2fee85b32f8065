import OpenCoroutine.Drained
import OpenCoroutine.Latch
import OpenCoroutine.Shutdown

/-! The end of the program: `EventLoops::stop` with the monitor's loop and `m` loops that have a
thread of their own. After it has called the loops' `stop` it waits until the threads have left
their loops, by a counter in `EVENT_LOOP_STOP`. What a thread reads of its pool is given. -/

namespace OpenCoroutine

open Function Latch Transition

structure Reads where
  state : PoolState
  size : Nat
  running : Nat
  deriving DecidableEq, Repr

/-- The loop thread's next step where it finds `r`. -/
def LoopPc.next (r : Reads) : LoopPc → Option LoopPc
  | .getState => some (if .running = r.state then .waitEvent else .isEmpty)
  | .isEmpty => some (if r.size = 0 then .getRunningSize else .waitEvent)
  | .getRunningSize => some (if 0 < r.running then .waitEvent else .notify)
  | .waitEvent => some .waiting
  | .waiting => some .getState
  | .notify => some .notifyShared
  | .notifyShared | .absent | .exited => none

/-- What the thread has read last, when it reads again. -/
def LoopPc.record (found r : Reads) : LoopPc → Reads
  | .getState => { found with state := r.state }
  | .isEmpty => { found with size := r.size }
  | .getRunningSize => { found with running := r.running }
  | .absent | .waitEvent | .waiting | .notify | .notifyShared | .exited => found

/-- `report` says whether the program has exited successfully. -/
structure Exit (m : Nat) where
  shutdown : Shutdown (m + 1)
  latch : Latch.State (Fin m) := {}
  loop : Fin m → LoopPc := fun _ => .getState
  found : Fin m → Reads := fun _ => ⟨.running, 0, 0⟩
  monitorRuns : Bool := true
  report : Option Bool := none

namespace Exit

inductive Act (m : Nat) where
  | shutdown (a : Shutdown.Act)
  | loop (k : Fin m) (r : Reads)
  | latch (a : Latch.Act (Fin m))
  | report

variable {m : Nat}

/-- A loop thread gets to the counter where it has left its loop, and `stop` waits once it has
called `stop` on the loops. -/
def isNext (s : Exit m) : Latch.Act (Fin m) → Bool
  | .arrive k => s.loop k = .notifyShared
  | .wait => s.shutdown.isPast && s.shutdown.pc == .next && s.latch.outcomes.isEmpty
  | .add _ | .notify _ | .leave _ | .check _ | .wake | .relock => true

def exits (s : Exit m) : Latch.Act (Fin m) → Exit m
  | .leave k => { s with loop := update s.loop k .exited }
  | .arrive _ | .wait | .add _ | .notify _ | .check _ | .wake | .relock => s

def step (s : Exit m) : Act m → Option (Exit m)
  | .shutdown a => (s.shutdown.step a).map fun shutdown => { s with shutdown }
  | .loop k r =>
    ((s.loop k).next r).map fun pc =>
      { s with
        loop := update s.loop k pc
        found := update s.found k ((s.loop k).record (s.found k) r) }
  | .latch a =>
    if s.isNext a then (s.latch.step m a).map fun latch => { s.exits a with latch } else none
  | .report =>
    match s.latch.outcomes with
    | [] => none
    | (timedOut, _) :: _ => some { s with monitorRuns := false, report := some !timedOut }

/-- What the thread has found on its way out. -/
def Finds (found : Reads) : LoopPc → Prop
  | .isEmpty => found.state ≠ .running
  | .getRunningSize => found.state ≠ .running ∧ found.size = 0
  | .notify | .notifyShared | .exited =>
    found.state ≠ .running ∧ found.size = 0 ∧ found.running = 0
  | .absent | .getState | .waitEvent | .waiting => True

structure Sound (s : Exit m) : Prop where
  latch : Latch.Sound m s.latch
  finds : ∀ k, Finds (s.found k) (s.loop k)
  arrived : ∀ k, s.latch.party k ≠ .working → s.loop k = .notifyShared ∨ s.loop k = .exited
  exited : ∀ k, s.loop k = .exited → s.latch.party k = .done
  report : ∀ success, s.report = some success → ∃ count, (!success, count) ∈ s.latch.outcomes

theorem finds_next {found r : Reads} {pc pc' : LoopPc} (h : Finds found pc)
    (hn : pc.next r = some pc') : Finds (pc.record found r) pc' := by
  cases pc with
  | absent | exited | notifyShared => cases hn
  | waitEvent | waiting =>
    cases hn
    trivial
  | notify =>
    cases hn
    exact h
  | getState =>
    simp only [LoopPc.next, Option.some.injEq] at hn
    subst hn
    split
    · trivial
    · rename_i hne
      exact fun he => hne he.symm
  | isEmpty =>
    simp only [LoopPc.next, Option.some.injEq] at hn
    subst hn
    split
    · rename_i hz
      exact ⟨h, hz⟩
    · trivial
  | getRunningSize =>
    simp only [LoopPc.next, Option.some.injEq] at hn
    subst hn
    split
    · trivial
    · rename_i hz
      exact ⟨h.1, h.2, Nat.eq_zero_of_not_pos hz⟩

variable {s t : Exit m}

theorem next_none {r : Reads} {pc pc' : LoopPc} (hn : pc.next r = some pc') :
    pc ≠ .notifyShared ∧ pc ≠ .exited ∧ pc' ≠ .exited := by
  cases pc with
  | notifyShared | exited | absent => cases hn
  | getState | isEmpty | getRunningSize =>
    simp only [LoopPc.next, Option.some.injEq] at hn
    subst hn
    split <;> exact ⟨nofun, nofun, nofun⟩
  | waitEvent | waiting | notify =>
    cases hn
    exact ⟨nofun, nofun, nofun⟩

/-- An operation on the counter other than a party's first and last leaves the loops. -/
theorem Sound.setLatch (h : s.Sound) {latch : Latch.State (Fin m)} {a : Latch.Act (Fin m)}
    (hs : s.latch.step m a = some latch) (hparty : ∀ k, latch.party k ≠ .working →
      s.latch.party k ≠ .working) (hdone : ∀ k, s.latch.party k = .done → latch.party k = .done)
    (houtcomes : s.latch.outcomes ⊆ latch.outcomes) : Sound { s with latch } where
  latch := h.latch.step hs
  finds := h.finds
  arrived k hk := h.arrived k (hparty k hk)
  exited k hk := hdone k (h.exited k hk)
  report success hr := by
    obtain ⟨count, hc⟩ := h.report success hr
    exact ⟨count, houtcomes hc⟩

theorem Sound.stepLatch (h : s.Sound) {latch : Latch.State (Fin m)} {a : Latch.Act (Fin m)}
    (hnext : s.isNext a = true) (hs : s.latch.step m a = some latch) :
    Sound { s.exits a with latch } := by
  have hsame : ∀ {latch' : Latch.State (Fin m)}, s.latch.step m a = some latch' →
      s.exits a = s → latch'.party = s.latch.party → s.latch.outcomes ⊆ latch'.outcomes →
        Sound { s.exits a with latch := latch' } := by
    intro latch' hs he hparty houtcomes
    rw [he]
    exact h.setLatch hs (fun k hk => by rw [← hparty]; exact hk)
      (fun k hk => by rw [hparty]; exact hk) houtcomes
  have hon : ∀ {latch' : Latch.State (Fin m)} {k p} (p'), s.latch.step m a = some latch' →
      s.exits a = s → s.latch.party k = p → p ≠ .working → p ≠ .done →
        latch'.party = update s.latch.party k p' → latch'.outcomes = s.latch.outcomes →
          Sound { s.exits a with latch := latch' } := by
    intro latch' k p p' hs he hk hw hd hparty houtcomes
    rw [he]
    refine h.setLatch hs (fun j hj => ?_) (fun j hj => ?_) (by rw [houtcomes]; exact fun _ ho => ho)
    · by_cases hjk : j = k
      · rw [hjk, hk]
        exact hw
      · rw [hparty, update_of_ne hjk] at hj
        exact hj
    · have hjk : j ≠ k := by
        rintro rfl
        exact hd (hk.symm.trans hj)
      rw [hparty, update_of_ne hjk]
      exact hj
  have hs' := hs
  cases a with
  | arrive k =>
    have hk : s.loop k = .notifyShared := of_decide_eq_true hnext
    simp only [State.step, Option.ite_none_right_eq_some, Option.some.injEq] at hs'
    obtain ⟨⟨hw, -⟩, rfl⟩ := hs'
    refine ⟨h.latch.step hs, h.finds, fun j hj => ?_, fun j hj => ?_, h.report⟩
    · by_cases hjk : j = k
      · rw [hjk]
        exact .inl hk
      · exact h.arrived j (by simpa [State.setParty, update_of_ne hjk] using hj)
    · have hjk : j ≠ k := by
        rintro rfl
        cases hk.symm.trans hj
      simpa [State.setParty, update_of_ne hjk] using h.exited j hj
  | add k =>
    simp only [State.step, Option.ite_none_right_eq_some, Option.some.injEq] at hs'
    obtain ⟨hk, rfl⟩ := hs'
    exact hon .counted hs rfl hk (by decide) (by decide) rfl rfl
  | notify k =>
    simp only [State.step, Option.ite_none_right_eq_some, Option.some.injEq] at hs'
    obtain ⟨hk, rfl⟩ := hs'
    refine hon .notified hs rfl hk (by decide) (by decide) ?_ ?_
    · unfold State.notifyOne
      split <;> rfl
    · unfold State.notifyOne
      split <;> rfl
  | leave k =>
    simp only [State.step, Option.ite_none_right_eq_some, Option.some.injEq] at hs'
    obtain ⟨hk, rfl⟩ := hs'
    have hout : s.loop k = .notifyShared := by
      rcases h.arrived k (by rw [hk]; decide) with ho | ho
      · exact ho
      · have hdone := h.exited k ho
        rw [hk] at hdone
        cases hdone
    refine ⟨h.latch.step hs, fun j => ?_, fun j hj => ?_, fun j hj => ?_, h.report⟩
    · by_cases hjk : j = k
      · subst hjk
        have hf := h.finds j
        rw [hout] at hf
        simpa [exits, Finds] using hf
      · simpa [exits, update_of_ne hjk] using h.finds j
    · by_cases hjk : j = k
      · subst hjk
        exact .inr (update_self ..)
      · simp only [exits, State.setParty, update_of_ne hjk] at hj ⊢
        exact h.arrived j hj
    · by_cases hjk : j = k
      · subst hjk
        exact update_self ..
      · simp only [exits, State.setParty, update_of_ne hjk] at hj ⊢
        exact h.exited j hj
  | wait | wake | relock =>
    simp only [State.step, Option.ite_none_right_eq_some, Option.some.injEq] at hs'
    obtain ⟨-, rfl⟩ := hs'
    exact hsame hs rfl rfl fun _ ho => ho
  | check late =>
    simp only [State.step, Option.ite_none_right_eq_some, Option.some.injEq] at hs'
    obtain ⟨-, rfl⟩ := hs'
    refine hsame hs rfl ?_ ?_
    · unfold State.check
      split
      · rfl
      · split <;> rfl
    · unfold State.check
      split
      · exact List.subset_cons_self _ _
      · split
        · exact List.subset_cons_self _ _
        · exact fun _ ho => ho

theorem Sound.step (h : s.Sound) {a : Act m} (hs : s.step a = some t) : t.Sound := by
  cases a with
  | shutdown a =>
    obtain ⟨shutdown, -, rfl⟩ := Option.map_eq_some_iff.1 hs
    exact ⟨h.latch, h.finds, h.arrived, h.exited, h.report⟩
  | loop k r =>
    obtain ⟨pc, hpc, rfl⟩ := Option.map_eq_some_iff.1 hs
    obtain ⟨hshared, hexited, hpc'⟩ := next_none hpc
    refine ⟨h.latch, fun j => ?_, fun j hj => ?_, fun j hj => ?_, h.report⟩
    · by_cases hjk : j = k
      · subst hjk
        simp only [update_self]
        exact finds_next (h.finds j) hpc
      · simp only [update_of_ne hjk]
        exact h.finds j
    · have hjk : j ≠ k := by
        rintro rfl
        rcases h.arrived j hj with ho | ho
        · exact hshared ho
        · exact hexited ho
      simp only [update_of_ne hjk]
      exact h.arrived j hj
    · have hjk : j ≠ k := by
        rintro rfl
        simp only [update_self] at hj
        exact hpc' hj
      simp only [update_of_ne hjk] at hj
      exact h.exited j hj
  | latch a =>
    simp only [Exit.step, Option.ite_none_right_eq_some, Option.map_eq_some_iff] at hs
    obtain ⟨hnext, latch, hlatch, rfl⟩ := hs
    exact h.stepLatch hnext hlatch
  | report =>
    simp only [Exit.step] at hs
    split at hs
    · cases hs
    · rename_i timedOut count rest ho
      cases hs
      refine ⟨h.latch, h.finds, h.arrived, h.exited, fun success hr => ⟨count, ?_⟩⟩
      cases hr
      rw [Bool.not_not, ho]
      exact List.mem_cons_self

theorem start_sound (shutdown : Shutdown (m + 1)) : Sound { shutdown } where
  latch := initial_sound
  finds _ := trivial
  arrived _ hk := absurd rfl hk
  exited _ hk := by cases hk
  report _ hr := by cases hr

/-- The program says that it has exited successfully only if each loop thread has left its loop,
after it found its pool stopping, without tasks and without workers; and it says that it has not
only if a thread had yet to add to the counter. Once the threads have exited, `stop` does not
sleep any more and its next look ends the wait in time. -/
theorem exit_reported {shutdown : Shutdown (m + 1)}
    (h : Reaches Exit.step Free { shutdown } s) :
    (s.report = some true → ∀ k, (s.loop k).hasLeft = true ∧ (s.found k).state ≠ .running ∧
      (s.found k).size = 0 ∧ (s.found k).running = 0) ∧
    (s.report = some false → ∃ count < m, (true, count) ∈ s.latch.outcomes) ∧
    ((∀ k, s.loop k = .exited) → s.latch.waiter ≠ .blocked ∧
      ∀ late t, s.latch.step m (.check late) = some t → t = s.latch.finish false) := by
  have hs : s.Sound := h.invariant (start_sound _) fun _ _ _ hi _ hstep => hi.step hstep
  refine ⟨fun hr k => ?_, fun hr => ?_, fun hexited => ?_⟩
  · obtain ⟨count, hc⟩ := hs.report true hr
    have harrived := hs.latch.all_arrived (Fintype.card_fin m).symm hc k
    have hfinds := hs.finds k
    rcases hs.arrived k (fun hw => by rw [hw] at harrived; cases harrived) with ho | ho
    · rw [ho] at hfinds ⊢
      exact ⟨rfl, hfinds⟩
    · rw [ho] at hfinds ⊢
      exact ⟨rfl, hfinds⟩
  · obtain ⟨count, hc⟩ := hs.report false hr
    exact ⟨count, (hs.latch.outcomes _ hc).2.1 rfl, hc⟩
  · obtain ⟨hb, -, hcheck⟩ := hs.latch.none_left (Fintype.card_fin m).symm.le
      fun k => hs.exited k (hexited k)
    refine ⟨hb, fun late t ht => ?_⟩
    simp only [State.step, Option.ite_none_right_eq_some, Option.some.injEq] at ht
    rw [← ht.2, hcheck late]

/-- One loop with a thread, which is stopped with nothing to do. -/
def stopping (k : Fin m) : List (Act m) :=
  [.shutdown .advance, .shutdown .advance, .shutdown .advance, .shutdown .advance,
    .shutdown .advance, .latch .wait, .latch (.check false), .loop k ⟨.stopping true, 0, 0⟩,
    .loop k ⟨.stopping true, 0, 0⟩, .loop k ⟨.stopping true, 0, 0⟩, .loop k ⟨.stopping true, 0, 0⟩,
    .latch (.arrive k), .latch (.add k), .latch (.notify k), .latch (.leave k), .latch .relock,
    .latch (.check true), .report]

theorem exit_reported_stopping :
    ∃ s : Exit 1, s.report = some true ∧ (s.loop 0).hasLeft = true ∧ (s.found 0).size = 0 := by
  obtain ⟨s, h, hr⟩ : ∃ s : Exit 1, Reaches Exit.step Free { shutdown := { index := 1 } } s ∧
      s.report = some true :=
    ⟨_, Reaches.of_run (stopping 0) rfl (guarded_free _), rfl⟩
  obtain ⟨hleft, -, hsize, -⟩ := (exit_reported h).1 hr 0
  exact ⟨s, hr, hleft, hsize⟩

end Exit

/-- The reads of the thread in `LoopLifecycle` are those of its pool. -/
theorem LoopLifecycle.iterate_next {ι θ : Type*} {n : Nat} [DecidableEq ι] [DecidableEq θ] {p : ι}
    {loopThread : θ} {s t : LoopLifecycle ι θ n} (hs : s.iterate p loopThread = some t)
    (hread : s.loop = .getState ∨ s.loop = .isEmpty ∨ s.loop = .getRunningSize) :
    s.loop.next ⟨s.pool.state p, (s.pool.pools.pool p).taskQueue.length, s.pool.runningSize p⟩ =
      some t.loop := by
  rcases hread with hl | hl | hl
  · simp only [LoopLifecycle.iterate, hl, Option.some.injEq] at hs
    rw [← hs, hl]
    rfl
  · simp only [LoopLifecycle.iterate, hl, Option.some.injEq] at hs
    rw [← hs, hl]
    simp only [LoopPc.next, Lifecycle.isEmpty, List.isEmpty_iff, List.length_eq_zero_iff]
  · simp only [LoopLifecycle.iterate, hl, Option.some.injEq] at hs
    rw [← hs, hl]
    rfl

end OpenCoroutine
