import Mathlib.Logic.Function.Basic
import OpenCoroutine.Transition

/-! A cell that is filled on first use by any number of threads. Each loads the cell and takes
what it finds; where that is 0 it makes a value of its own, stores it and takes it. `make k` is
the value made by the `k`-th thread that has found nothing. -/

namespace LazyInit

open Function Transition

inductive Pc where
  | outside
  | making (value : Nat)
  deriving DecidableEq, Repr

structure State (ι : Type*) where
  cell : Nat := 0
  made : Nat := 0
  pc : ι → Pc := fun _ => .outside
  returned : List Nat := []

inductive Act (ι : Type*) where
  | load (i : ι)
  | store (i : ι)

variable {ι : Type*}

def fresh : State ι := {}

/-- No thread finds the cell empty while another one makes a value. -/
def Undisturbed (s : State ι) : Act ι → Prop
  | .load _ => s.cell = 0 → ∀ j, s.pc j = .outside
  | .store _ => True

variable [DecidableEq ι] (make : Nat → Nat)

def step (s : State ι) : Act ι → Option (State ι)
  | .load i =>
    match s.pc i with
    | .making _ => none
    | .outside =>
      if s.cell = 0 then
        some { s with made := s.made + 1, pc := update s.pc i (.making (make s.made)) }
      else some { s with returned := s.cell :: s.returned }
  | .store i =>
    match s.pc i with
    | .outside => none
    | .making value =>
      some { s with
        cell := value, pc := update s.pc i .outside, returned := value :: s.returned }

inductive Steps (s : State ι) : Act ι → State ι → Prop where
  | makes {i : ι} (hpc : s.pc i = .outside) (hcell : s.cell = 0) :
      Steps s (.load i)
        { s with made := s.made + 1, pc := update s.pc i (.making (make s.made)) }
  | finds {i : ι} (hcell : s.cell ≠ 0) :
      Steps s (.load i) { s with returned := s.cell :: s.returned }
  | stores {i : ι} {value : Nat} (hpc : s.pc i = .making value) :
      Steps s (.store i) { s with
        cell := value, pc := update s.pc i .outside, returned := value :: s.returned }

variable {make} {s t : State ι}

theorem steps {a : Act ι} (hs : step make s a = some t) : Steps make s a t := by
  cases a with
  | load i =>
    cases hpc : s.pc i with
    | making value => simp [step, hpc] at hs
    | outside =>
      by_cases hcell : s.cell = 0
      · simp only [step, hpc, if_pos hcell, Option.some.injEq] at hs
        exact hs ▸ .makes hpc hcell
      · simp only [step, hpc, if_neg hcell, Option.some.injEq] at hs
        exact hs ▸ .finds hcell
  | store i =>
    cases hpc : s.pc i with
    | outside => simp [step, hpc] at hs
    | making value =>
      simp only [step, hpc, Option.some.injEq] at hs
      exact hs ▸ .stores hpc

/-- All values around are among those that have been made, and none of these is lost. -/
structure Sound (make : Nat → Nat) (s : State ι) : Prop where
  cell : s.cell ≠ 0 → ∃ k < s.made, s.cell = make k
  making : ∀ i value, s.pc i = .making value → ∃ k < s.made, value = make k
  returned : ∀ value ∈ s.returned, ∃ k < s.made, value = make k
  kept : ∀ k < s.made, make k ∈ s.returned ∨ ∃ i, s.pc i = .making (make k)

omit [DecidableEq ι] in
theorem fresh_sound (make : Nat → Nat) : Sound make (fresh : State ι) where
  cell h := absurd rfl h
  making := nofun
  returned := nofun
  kept := nofun

theorem Sound.step (h : Sound make s) {a : Act ι} (hs : step make s a = some t) :
    Sound make t := by
  have hlater : ∀ {value : Nat}, (∃ k < s.made, value = make k) →
      ∃ k < s.made + 1, value = make k := fun ⟨k, hk, he⟩ => ⟨k, Nat.lt_succ_of_lt hk, he⟩
  cases steps hs with
  | @makes i hpc hcell =>
    refine ⟨fun hne => absurd hcell hne, fun j value hj => ?_,
      fun value hm => hlater (h.returned value hm), fun k hk => ?_⟩
    · dsimp only at hj
      by_cases hji : j = i
      · subst hji
        rw [update_self] at hj
        exact ⟨s.made, Nat.lt_succ_self _, (Pc.making.inj hj).symm⟩
      · rw [update_of_ne hji] at hj
        exact hlater (h.making j value hj)
    · rcases Nat.lt_succ_iff_lt_or_eq.1 hk with hk | rfl
      · refine (h.kept k hk).imp_right fun ⟨j, hj⟩ => ⟨j, ?_⟩
        have hji : j ≠ i := by
          rintro rfl
          rw [hpc] at hj
          cases hj
        exact (update_of_ne hji _ _).trans hj
      · exact .inr ⟨i, update_self _ _ _⟩
  | finds hcell =>
    refine ⟨h.cell, h.making, fun value hm => ?_, fun k hk => ?_⟩
    · rcases List.mem_cons.1 hm with rfl | hm
      · exact h.cell hcell
      · exact h.returned value hm
    · exact (h.kept k hk).imp_left (List.mem_cons_of_mem _)
  | @stores i value hpc =>
    refine ⟨fun _ => h.making i value hpc, fun j value' hj => ?_, fun value' hm => ?_,
      fun k hk => ?_⟩
    · dsimp only at hj
      by_cases hji : j = i
      · subst hji
        rw [update_self] at hj
        cases hj
      · rw [update_of_ne hji] at hj
        exact h.making j value' hj
    · rcases List.mem_cons.1 hm with rfl | hm
      · exact h.making i value' hpc
      · exact h.returned value' hm
    · rcases h.kept k hk with hm | ⟨j, hj⟩
      · exact .inl (List.mem_cons_of_mem _ hm)
      · by_cases hji : j = i
        · subst hji
          rw [hpc] at hj
          exact .inl (Pc.making.inj hj ▸ List.mem_cons_self)
        · exact .inr ⟨j, (update_of_ne hji _ _).trans hj⟩

theorem Sound.run (h : Sound make s) (as : List (Act ι))
    (hrun : run (LazyInit.step make) s as = some t) : Sound make t :=
  (Reaches.of_run as hrun (guarded_free as)).invariant h fun _ _ _ hi _ hs => hi.step hs

theorem made_le {as : List (Act ι)} (hrun : run (step make) s as = some t) : s.made ≤ t.made := by
  refine (Reaches.of_run as hrun (guarded_free as)).invariant (p := fun t => s.made ≤ t.made) (Nat.le_refl _)
    fun r a t hle _ hs => ?_
  cases steps hs with
  | makes => exact Nat.le_succ_of_le hle
  | finds | stores => exact hle

/-- At most one value has been made, and the cell is empty only as long as one thread is to
store it. -/
def Single (s : State ι) : Prop :=
  s.made ≤ 1 ∧ (s.made = 1 → s.cell = 0 → ∃ i, s.pc i ≠ .outside)

theorem Single.step (hne : ∀ k, make k ≠ 0) (hsound : Sound make s) (h : Single s) {a : Act ι}
    (hok : Undisturbed s a) (hs : step make s a = some t) : Single t := by
  cases steps hs with
  | @makes i hpc hcell =>
    have hnone : s.made ≠ 1 := fun hone => by
      obtain ⟨j, hj⟩ := h.2 hone hcell
      exact hj (hok hcell j)
    have hmade : s.made = 0 := by
      have hle := h.1
      omega
    refine ⟨Nat.succ_le_succ (Nat.le_of_eq hmade), fun _ _ => ⟨i, ?_⟩⟩
    simp
  | finds => exact h
  | @stores i value hpc =>
    obtain ⟨k, -, rfl⟩ := hsound.making i value hpc
    exact ⟨h.1, fun _ hcell => absurd hcell (hne k)⟩

/-- A thread that disturbs another one makes a second value. -/
theorem two_le_made (h : Sound make s) {as : List (Act ι)} (hrun : run (step make) s as = some t)
    (hdisturbed : ¬ Guarded (step make) Undisturbed s as) : 2 ≤ t.made := by
  induction as generalizing s with
  | nil => exact absurd trivial hdisturbed
  | cons a as ih =>
    simp only [Transition.run, Option.bind_eq_some_iff] at hrun
    obtain ⟨r, hs, hrun⟩ := hrun
    by_cases hok : Undisturbed s a
    · refine ih (h.step hs) hrun fun hrest => hdisturbed ⟨hok, fun t ht => ?_⟩
      rw [hs] at ht
      exact Option.some.inj ht ▸ hrest
    · refine Nat.le_trans ?_ (made_le hrun)
      cases steps hs with
      | makes hpc hcell =>
        simp only [Undisturbed, not_forall] at hok
        obtain ⟨-, j, hj⟩ := hok
        cases hpcj : s.pc j with
        | outside => exact absurd hpcj hj
        | making value =>
          obtain ⟨k, hk, -⟩ := h.making j value hpcj
          dsimp only
          omega
      | finds hcell => exact absurd (fun he => absurd he hcell) hok
      | stores => exact absurd trivial hok

/-- Once all threads are through they have all taken one value exactly if no thread has
disturbed another one. -/
theorem agree_iff (hne : ∀ k, make k ≠ 0) (hinj : Injective make) {as : List (Act ι)}
    (hrun : run (step make) fresh as = some s) (hquiet : ∀ i, s.pc i = .outside) :
    (∀ value ∈ s.returned, ∀ value' ∈ s.returned, value = value') ↔
      Guarded (step make) Undisturbed fresh as := by
  have hsound := (fresh_sound make).run as hrun
  have hreturned : ∀ k < s.made, make k ∈ s.returned := fun k hk =>
    (hsound.kept k hk).resolve_right fun ⟨i, hi⟩ => by
      rw [hquiet i] at hi
      cases hi
  constructor
  · intro hagree
    by_contra hdisturbed
    have htwo := two_le_made (fresh_sound make) hrun hdisturbed
    have hsame := hagree _ (hreturned 0 (by omega)) _ (hreturned 1 (by omega))
    exact absurd (hinj hsame) Nat.zero_ne_one
  · intro hguarded
    have hsingle : Sound make s ∧ Single s :=
      (Reaches.of_run as hrun hguarded).invariant
        (p := fun s => Sound make s ∧ Single s)
        ⟨fresh_sound make, Nat.zero_le _, nofun⟩
        fun r a t hi hok hs => ⟨hi.1.step hs, hi.2.step hne hi.1 hok hs⟩
    have hfirst : ∀ value ∈ s.returned, value = make 0 := fun value hm => by
      obtain ⟨k, hk, rfl⟩ := hsound.returned value hm
      have hmade := hsingle.2.1
      rw [show k = 0 by omega]
    exact fun value hm value' hm' => (hfirst value hm).trans (hfirst value' hm').symm

/-- Threads that would all make one value do not disturb each other. -/
theorem returned_const {value : Nat} (hconst : ∀ k, make k = value) {as : List (Act ι)}
    (hrun : run (step make) fresh as = some s) : ∀ value' ∈ s.returned, value' = value := by
  intro value' hm
  obtain ⟨k, -, rfl⟩ := ((fresh_sound make).run as hrun).returned value' hm
  exact hconst k

end LazyInit
