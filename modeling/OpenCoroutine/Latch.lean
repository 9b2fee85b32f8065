import Mathlib.Data.Fintype.Card
import Mathlib.Logic.Function.Basic
import OpenCoroutine.Transition

/-! A counter behind a mutex that parties add to, each once, with a notification of one waiter
while they hold the lock, and a waiter that waits on the condition variable of the mutex until the
counter has come up to a target or the time is up. A waiter may wake up without a notification.
It looks at the counter before it looks at the clock. -/

namespace Latch

open Function Transition

inductive Party where
  | working
  | locked
  | counted
  | notified
  | done
  deriving DecidableEq, Repr

def Party.holds : Party → Bool
  | locked | counted | notified => true
  | working | done => false

def Party.arrived : Party → Bool
  | counted | notified | done => true
  | working | locked => false

inductive Waiter where
  | outside
  | checking
  | blocked
  | woken
  deriving DecidableEq, Repr

inductive Holder (κ : Type*) where
  | nobody
  | party (k : κ)
  | waiter
  deriving DecidableEq, Repr

/-- `outcomes` has for each wait that is over whether the time was up, and the counter. -/
structure State (κ : Type*) where
  count : Nat := 0
  holder : Holder κ := .nobody
  party : κ → Party := fun _ => .working
  waiter : Waiter := .outside
  outcomes : List (Bool × Nat) := []

inductive Act (κ : Type*) where
  | arrive (k : κ)
  | add (k : κ)
  | notify (k : κ)
  | leave (k : κ)
  | wait
  | check (late : Bool)
  | wake
  | relock

namespace State

variable {κ : Type*} [DecidableEq κ]

def setParty (s : State κ) (k : κ) (p : Party) : State κ :=
  { s with party := update s.party k p }

def finish (s : State κ) (timedOut : Bool) : State κ :=
  { s with holder := .nobody, waiter := .outside, outcomes := (timedOut, s.count) :: s.outcomes }

def check (target : Nat) (s : State κ) (late : Bool) : State κ :=
  if target ≤ s.count then s.finish false
  else if late then s.finish true
  else { s with holder := .nobody, waiter := .blocked }

/-- `notify_one`. -/
def notifyOne (s : State κ) : State κ :=
  if s.waiter = .blocked then { s with waiter := .woken } else s

def step (target : Nat) (s : State κ) : Act κ → Option (State κ)
  | .arrive k =>
    if s.party k = .working ∧ s.holder = .nobody then
      some { s.setParty k .locked with holder := .party k }
    else none
  | .add k =>
    if s.party k = .locked then some { s.setParty k .counted with count := s.count + 1 } else none
  | .notify k => if s.party k = .counted then some (s.setParty k .notified).notifyOne else none
  | .leave k =>
    if s.party k = .notified then some { s.setParty k .done with holder := .nobody } else none
  | .wait =>
    if s.waiter = .outside ∧ s.holder = .nobody then
      some { s with waiter := .checking, holder := .waiter }
    else none
  | .check late => if s.waiter = .checking then some (s.check target late) else none
  | .wake => if s.waiter = .blocked then some { s with waiter := .woken } else none
  | .relock =>
    if s.waiter = .woken ∧ s.holder = .nobody then
      some { s with waiter := .checking, holder := .waiter }
    else none

end State

open State

variable {κ : Type*} [DecidableEq κ] {target : Nat} {s t : State κ} {k : κ}

variable [Fintype κ] {party : κ → Party} {p : Party}

def arrivals (party : κ → Party) : Finset κ := Finset.univ.filter fun k => (party k).arrived = true

omit [DecidableEq κ] in
theorem mem_arrivals : k ∈ arrivals party ↔ (party k).arrived = true := by
  simp [arrivals]

/-- A waiter that sleeps although the counter has come up to the target is about to be notified. -/
structure Sound (target : Nat) (s : State κ) : Prop where
  count : s.count = (arrivals s.party).card
  party : ∀ k, s.holder = .party k ↔ (s.party k).holds = true
  waiter : s.holder = .waiter ↔ s.waiter = .checking
  blocked : s.waiter = .blocked → s.count < target ∨ ∃ k, s.party k = .counted
  outcomes : ∀ o ∈ s.outcomes, o.2 ≤ s.count ∧ (o.1 = true ↔ o.2 < target)

omit [DecidableEq κ] in
theorem initial_sound : Sound target ({} : State κ) where
  count := by simp [arrivals, Party.arrived]
  party k := by simp [Party.holds]
  waiter := by simp
  blocked h := by cases h
  outcomes o ho := by cases ho

/-- A party goes on, and the number of arrivals stays. -/
theorem arrivals_update (h : p.arrived = (party k).arrived) :
    arrivals (update party k p) = arrivals party := by
  ext j
  rw [mem_arrivals, mem_arrivals]
  by_cases hj : j = k
  · subst hj
    rw [update_self, h]
  · rw [update_of_ne hj]

theorem arrivals_add (h : (party k).arrived = false) :
    (arrivals (update party k .counted)).card = (arrivals party).card + 1 := by
  have hnot : k ∉ arrivals party := by
    rw [mem_arrivals, h]
    exact Bool.false_ne_true
  have he : arrivals (update party k .counted) = insert k (arrivals party) := by
    ext j
    rw [Finset.mem_insert, mem_arrivals, mem_arrivals]
    by_cases hj : j = k
    · subst hj
      simp [Party.arrived]
    · simp [hj]
  rw [he, Finset.card_insert_of_notMem hnot]

omit [DecidableEq κ] in
/-- Nobody else has the lock while a party does. -/
theorem Sound.alone (h : Sound target s) (hk : (s.party k).holds = true) {j : κ} (hj : j ≠ k) :
    (s.party j).holds = false := by
  rw [Bool.eq_false_iff]
  intro hholds
  have h₁ := (h.party k).2 hk
  have h₂ := (h.party j).2 hholds
  rw [h₁, Holder.party.injEq] at h₂
  exact hj h₂.symm

/-- A party that has the lock goes on with it. -/
theorem Sound.goes_on (h : Sound target s) (hk : (s.party k).holds = true) {p : Party}
    (hp : p.holds = true) (j : κ) :
    s.holder = .party j ↔ (update s.party k p j).holds = true := by
  rw [h.party j]
  by_cases hj : j = k
  · subst hj
    rw [update_self, hk, hp]
  · rw [update_of_ne hj]

theorem Sound.step (h : Sound target s) {a : Act κ} (hs : s.step target a = some t) :
    Sound target t := by
  cases a with
  | arrive k =>
    simp only [State.step, Option.ite_none_right_eq_some, Option.some.injEq] at hs
    obtain ⟨⟨hk, hfree⟩, rfl⟩ := hs
    refine ⟨?_, fun j => ?_, ?_, fun hb => ?_, h.outcomes⟩
    · exact h.count.trans (congrArg Finset.card (arrivals_update (by rw [hk]; rfl)).symm)
    · by_cases hj : j = k
      · subst hj
        simp [setParty, Party.holds]
      · have hnone : (s.party j).holds = false := by
          rw [Bool.eq_false_iff]
          intro hholds
          have hheld := (h.party j).2 hholds
          rw [hfree] at hheld
          cases hheld
        simp [setParty, update_of_ne hj, hnone, Ne.symm hj]
    · have hw := h.waiter
      rw [hfree] at hw
      refine iff_of_false nofun fun hc => ?_
      exact absurd (hw.2 hc) nofun
    · refine (h.blocked hb).imp_right fun ⟨j, hj⟩ => ⟨j, ?_⟩
      have hne : j ≠ k := by
        rintro rfl
        rw [hk] at hj
        cases hj
      exact (update_of_ne hne ..).trans hj
  | add k =>
    simp only [State.step, Option.ite_none_right_eq_some, Option.some.injEq] at hs
    obtain ⟨hk, rfl⟩ := hs
    refine ⟨?_, h.goes_on (by rw [hk]; rfl) rfl, h.waiter, fun _ => .inr ⟨k, update_self ..⟩,
      fun o ho => ?_⟩
    · change s.count + 1 = (arrivals (update s.party k .counted)).card
      rw [arrivals_add (by rw [hk]; rfl), h.count]
    · exact ⟨Nat.le_succ_of_le (h.outcomes o ho).1, (h.outcomes o ho).2⟩
  | notify k =>
    simp only [State.step, Option.ite_none_right_eq_some, Option.some.injEq] at hs
    obtain ⟨hk, rfl⟩ := hs
    have hcount : s.count = (arrivals (update s.party k .notified)).card :=
      h.count.trans (congrArg Finset.card (arrivals_update (by rw [hk]; rfl)).symm)
    have hparty := h.goes_on (p := .notified) (by rw [hk]; rfl) rfl
    have hheld : s.holder = .party k := (h.party k).2 (by rw [hk]; rfl)
    unfold notifyOne
    split
    · refine ⟨hcount, hparty, iff_of_false ?_ nofun, nofun, h.outcomes⟩
      change s.holder ≠ .waiter
      rw [hheld]
      exact nofun
    · rename_i hb
      exact ⟨hcount, hparty, h.waiter, fun hb' => absurd hb' hb, h.outcomes⟩
  | leave k =>
    simp only [State.step, Option.ite_none_right_eq_some, Option.some.injEq] at hs
    obtain ⟨hk, rfl⟩ := hs
    have hheld : s.holder = .party k := (h.party k).2 (by rw [hk]; rfl)
    refine ⟨?_, fun j => ?_, ?_, fun hb => ?_, h.outcomes⟩
    · exact h.count.trans (congrArg Finset.card (arrivals_update (by rw [hk]; rfl)).symm)
    · refine iff_of_false nofun ?_
      by_cases hj : j = k
      · subst hj
        simp [setParty, Party.holds]
      · simp [setParty, update_of_ne hj, h.alone (by rw [hk]; rfl) hj]
    · have hw := h.waiter
      rw [hheld] at hw
      refine iff_of_false nofun fun hc => ?_
      exact absurd (hw.2 hc) nofun
    · refine (h.blocked hb).imp_right fun ⟨j, hj⟩ => ⟨j, ?_⟩
      have hne : j ≠ k := by
        rintro rfl
        rw [hk] at hj
        cases hj
      exact (update_of_ne hne ..).trans hj
  | wait | relock =>
    simp only [State.step, Option.ite_none_right_eq_some, Option.some.injEq] at hs
    obtain ⟨⟨-, hfree⟩, rfl⟩ := hs
    refine ⟨h.count, fun j => ?_, iff_of_true rfl rfl, nofun, h.outcomes⟩
    have hj := h.party j
    rw [hfree] at hj
    exact iff_of_false nofun fun hholds => absurd (hj.2 hholds) nofun
  | check late =>
    simp only [State.step, Option.ite_none_right_eq_some, Option.some.injEq] at hs
    obtain ⟨hw, rfl⟩ := hs
    have hheld := h.waiter.2 hw
    have hparty : ∀ j, Holder.nobody = .party j ↔ (s.party j).holds = true := fun j => by
      have hj := h.party j
      rw [hheld] at hj
      exact iff_of_false nofun fun hholds => absurd (hj.2 hholds) nofun
    have hfinish : ∀ timedOut, (timedOut = true ↔ s.count < target) →
        Sound target (s.finish timedOut) := fun timedOut ht => by
      refine ⟨h.count, hparty, iff_of_false nofun nofun, nofun, fun o ho => ?_⟩
      rcases List.mem_cons.1 ho with rfl | ho
      · exact ⟨Nat.le_refl _, ht⟩
      · exact h.outcomes o ho
    unfold State.check
    split
    · rename_i hle
      exact hfinish false (iff_of_false Bool.false_ne_true (Nat.not_lt.2 hle))
    · rename_i hlt
      split
      · exact hfinish true (iff_of_true rfl (Nat.lt_of_not_le hlt))
      · exact ⟨h.count, hparty, iff_of_false nofun nofun, fun _ => .inl (Nat.lt_of_not_le hlt),
          h.outcomes⟩
  | wake =>
    simp only [State.step, Option.ite_none_right_eq_some, Option.some.injEq] at hs
    obtain ⟨hb, rfl⟩ := hs
    refine ⟨h.count, h.party, h.waiter.trans ?_, nofun, h.outcomes⟩
    rw [hb]
    exact iff_of_false nofun nofun

omit [DecidableEq κ] in
/-- A wait that is over in time ends when all parties have arrived. -/
theorem Sound.all_arrived (h : Sound target s) (htarget : target = Fintype.card κ) {count : Nat}
    (ho : (false, count) ∈ s.outcomes) (k : κ) : (s.party k).arrived = true := by
  obtain ⟨hle, hiff⟩ := h.outcomes _ ho
  have hcount : Fintype.card κ ≤ (arrivals s.party).card := by
    rw [← h.count, ← htarget]
    have hlt : ¬ count < target := fun hlt => Bool.false_ne_true (hiff.2 hlt)
    dsimp only at hle
    omega
  have huniv := (Finset.card_eq_iff_eq_univ _).1 (Nat.le_antisymm (Finset.card_le_univ _) hcount)
  have hk : k ∈ arrivals s.party := by
    rw [huniv]
    exact Finset.mem_univ k
  exact (Finset.mem_filter.1 hk).2

omit [DecidableEq κ] in
/-- When all parties are through no waiter sleeps, and one that looks ends its wait in time. -/
theorem Sound.none_left (h : Sound target s) (htarget : target ≤ Fintype.card κ)
    (hdone : ∀ k, s.party k = .done) :
    s.waiter ≠ .blocked ∧ (∀ k, s.holder ≠ .party k) ∧ ∀ late, s.check target late = s.finish false := by
  have hall : arrivals s.party = Finset.univ := Finset.filter_true_of_mem fun k _ => by rw [hdone k]; rfl
  have hle : target ≤ s.count := by
    rw [h.count, hall, Finset.card_univ]
    exact htarget
  refine ⟨fun hb => ?_, fun k hk => ?_, fun late => if_pos hle⟩
  · rcases h.blocked hb with hlt | ⟨k, hk⟩
    · omega
    · rw [hdone k] at hk
      cases hk
  · have hholds := (h.party k).1 hk
    rw [hdone k] at hholds
    cases hholds

end Latch
