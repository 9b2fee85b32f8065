import Mathlib.Data.Fintype.Basic
import OpenCoroutine.Family
import OpenCoroutine.Transition

/-! The length counter of the global queue when threads push and pop at the same time.
Each injector operation, each load and each store of `len` is one step; a thread's
position in `WorkStealQueue::push` or `pop` is its `Pc`. `push` counts an item after
queueing it and `pop` after taking it, each by a load followed by a store.

The counter loses an update when two threads are between their load and their store,
and a `pop` misreads it when the items still to be counted in are as many as those it
should find. `Undisturbed` excludes the two. -/

namespace OpenCoroutine

open Family Transition

namespace GlobalLen

inductive Pc (T : Type*) where
  | idle
  | pushing (item : T)
  | pushed
  | counting (len : Nat)
  | popping
  | stealing
  | stolen (item : T)
  | uncounting (item : T) (len : Nat)
  deriving DecidableEq, Repr

namespace Pc

variable {T : Type*}

def queued : Pc T → Nat
  | .pushed | .counting _ => 1
  | _ => 0

def taken : Pc T → Nat
  | .stolen _ | .uncounting _ _ => 1
  | _ => 0

def loaded : Pc T → Option Nat
  | .counting len | .uncounting _ len => some len
  | _ => none

end Pc

structure State (ι T : Type*) where
  injector : List T
  len : Nat
  pc : ι → Pc T

inductive Act (ι T : Type*) where
  | push (i : ι) (item : T)
  | pop (i : ι)
  | retry (i : ι)
  | next (i : ι)

variable {ι T : Type*} [DecidableEq ι]

def State.goto (s : State ι T) (i : ι) (pc : Pc T) : State ι T :=
  { s with pc := Function.update s.pc i pc }

/-- `len - 1` on `usize`. -/
def decrement (len : Nat) : Nat := if len = 0 then 2 ^ 64 - 1 else len - 1

def next (s : State ι T) (i : ι) : Option (State ι T) :=
  match s.pc i with
  | .idle => none
  | .pushing item => some ({ s with injector := s.injector ++ [item] }.goto i .pushed)
  | .pushed => some (s.goto i (.counting s.len))
  | .counting len => some ({ s with len := len + 1 }.goto i .idle)
  | .popping => some (s.goto i (if s.len = 0 then .idle else .stealing))
  | .stealing =>
    match s.injector with
    | [] => some (s.goto i .idle)
    | item :: rest => some ({ s with injector := rest }.goto i (.stolen item))
  | .stolen item => some (s.goto i (.uncounting item s.len))
  | .uncounting _ len => some ({ s with len := decrement len }.goto i .idle)

def step (s : State ι T) : Act ι T → Option (State ι T)
  | .push i item =>
    match s.pc i with
    | .idle => some (s.goto i (.pushing item))
    | _ => none
  | .pop i =>
    match s.pc i with
    | .idle => some (s.goto i .popping)
    | _ => none
  | .retry i =>
    match s.pc i with
    | .stealing => some s
    | _ => none
  | .next i => next s i

structure Initial (s : State ι T) : Prop where
  injector : s.injector = []
  len : s.len = 0
  pc : ∀ i, s.pc i = .idle

/-- The next step of `i` makes a `pop` return `None`. -/
def FindsNone (s : State ι T) (i : ι) : Prop :=
  s.pc i = .popping ∧ s.len = 0 ∨ s.pc i = .stealing ∧ s.injector = []

theorem goto_pc_self (s : State ι T) (i : ι) (pc : Pc T) : (s.goto i pc).pc i = pc := by
  simp [State.goto]

theorem goto_pc_of_ne (s : State ι T) {i j : ι} (h : j ≠ i) (pc : Pc T) :
    (s.goto i pc).pc j = s.pc j := by
  simp [State.goto, Function.update_of_ne h]

variable [Fintype ι]

/-- Items pushed whose push has not yet counted them. -/
def State.queued (s : State ι T) : Nat := total (fun _ pc => pc.queued) s.pc

/-- Items taken whose pop has not yet counted them off. -/
def State.taken (s : State ι T) : Nat := total (fun _ pc => pc.taken) s.pc

def Undisturbed (s : State ι T) : Act ι T → Prop
  | .next i =>
    match s.pc i with
    | .pushed => ∀ j, (s.pc j).loaded = none
    | .popping => s.injector ≠ [] → s.queued < s.injector.length + s.taken
    | .stolen _ => (∀ j, (s.pc j).loaded = none) ∧ s.queued < s.injector.length + s.taken
    | _ => True
  | _ => True

instance (s : State ι T) : (a : Act ι T) → Decidable (Undisturbed s a)
  | .next i =>
    match h : s.pc i with
    | .pushed => decidable_of_iff (∀ j, (s.pc j).loaded = none) (by simp only [Undisturbed, h])
    | .popping => decidable_of_iff (s.injector.isEmpty = true ∨
        s.queued < s.injector.length + s.taken) (by
          simp only [Undisturbed, h, List.isEmpty_iff, ne_eq]
          exact or_iff_not_imp_left)
    | .stolen _ => decidable_of_iff ((∀ j, (s.pc j).loaded = none) ∧
        s.queued < s.injector.length + s.taken) (by simp only [Undisturbed, h])
    | .idle | .pushing _ | .counting _ | .stealing | .uncounting _ _ =>
      isTrue (by simp only [Undisturbed, h])
  | .push .. | .pop _ | .retry _ => isTrue trivial

structure Counted (s : State ι T) : Prop where
  balance : s.len + s.queued = s.injector.length + s.taken
  loaded : ∀ i len, (s.pc i).loaded = some len → len = s.len
  alone : ∀ i j, (s.pc i).loaded ≠ none → (s.pc j).loaded ≠ none → i = j
  positive : ∀ i item, s.pc i ≠ .uncounting item 0

theorem goto_queued (s : State ι T) (i : ι) (pc : Pc T) :
    (s.goto i pc).queued + (s.pc i).queued = s.queued + pc.queued :=
  total_update_add _ _ i pc

theorem goto_taken (s : State ι T) (i : ι) (pc : Pc T) :
    (s.goto i pc).taken + (s.pc i).taken = s.taken + pc.taken :=
  total_update_add _ _ i pc

omit [DecidableEq ι] in
theorem Initial.counted {s : State ι T} (h : Initial s) : Counted s where
  balance := by
    have hq : s.queued = 0 := total_zero fun i => by rw [h.pc i]; rfl
    have ht : s.taken = 0 := total_zero fun i => by rw [h.pc i]; rfl
    simp [h.len, h.injector, hq, ht]
  loaded i len hl := by simp [h.pc i, Pc.loaded] at hl
  alone i j hi _ := by simp [h.pc i, Pc.loaded] at hi
  positive i item hp := by simp [h.pc i] at hp

/-- A thread goes on to a position at which it holds no loaded counter, with what it moves
between the queue, the counter and its own position in balance. -/
theorem Counted.goto {s t : State ι T} (h : Counted s) {i : ι} {pc pc' : Pc T} (hi : s.pc i = pc)
    (hpc : t.pc = Function.update s.pc i pc') (hload : pc'.loaded = none)
    (hlen : t.len = s.len ∨ ∀ j, j ≠ i → (s.pc j).loaded = none)
    (hbal : t.len + pc'.queued + (s.injector.length + pc.taken) =
      s.len + pc.queued + (t.injector.length + pc'.taken)) : Counted t := by
  have hbalance : t.len + t.queued = t.injector.length + t.taken := by
    have hq : t.queued + pc.queued = s.queued + pc'.queued := by
      rw [← hi, ← goto_queued s i pc', State.queued, hpc]
      rfl
    have ht : t.taken + pc.taken = s.taken + pc'.taken := by
      rw [← hi, ← goto_taken s i pc', State.taken, hpc]
      rfl
    have hb := h.balance
    omega
  have hself : t.pc i = pc' := by rw [hpc, Function.update_self]
  have hother : ∀ j, j ≠ i → t.pc j = s.pc j := fun j hj => by rw [hpc, Function.update_of_ne hj]
  have hne : ∀ j, (t.pc j).loaded ≠ none → j ≠ i := by
    rintro j hj rfl
    exact hj (by rw [hself, hload])
  refine ⟨hbalance, fun j len hl => ?_, fun j k hj hk => ?_, fun j item hp => ?_⟩
  · have hj := hne j (by simp [hl])
    rw [hother j hj] at hl
    rcases hlen with hlen | hlen
    · rw [hlen]
      exact h.loaded j len hl
    · simp [hlen j hj] at hl
  · have hj' := hne j hj
    have hk' := hne k hk
    rw [hother j hj'] at hj
    rw [hother k hk'] at hk
    exact h.alone j k hj hk
  · have hj := hne j (by simp [hp, Pc.loaded])
    rw [hother j hj] at hp
    exact h.positive j item hp

theorem Counted.load {s : State ι T} (h : Counted s) {i : ι} {pc : Pc T}
    (hnone : ∀ j, (s.pc j).loaded = none) (hload : pc.loaded = some s.len)
    (hpos : ∀ item, pc ≠ .uncounting item 0) (hq : pc.queued = (s.pc i).queued)
    (ht : pc.taken = (s.pc i).taken) : Counted (s.goto i pc) := by
  have hgq := goto_queued s i pc
  have hgt := goto_taken s i pc
  have hb := h.balance
  have heq : ∀ j, ((s.goto i pc).pc j).loaded ≠ none → j = i := by
    intro j hj
    by_contra hne
    rw [goto_pc_of_ne s hne] at hj
    exact hj (hnone j)
  refine ⟨?_, fun j len hl => ?_, fun j k hj hk => (heq j hj).trans (heq k hk).symm,
    fun j item hp => ?_⟩
  · simp only [State.goto] at hgq hgt ⊢
    omega
  · have hj := heq j (by simp [hl])
    rw [hj, goto_pc_self, hload] at hl
    exact (Option.some.inj hl).symm
  · have hj := heq j (by simp [hp, Pc.loaded])
    rw [hj, goto_pc_self] at hp
    exact hpos item hp

theorem Counted.next {s t : State ι T} (h : Counted s) {i : ι} (hok : Undisturbed s (.next i))
    (hs : next s i = some t) : Counted t := by
  have hholder : ∀ j, (s.pc i).loaded ≠ none → j ≠ i → (s.pc j).loaded = none := by
    intro j hi hj
    by_contra hl
    exact hj (h.alone j i hl hi)
  cases hpc : s.pc i with
  | idle => simp [GlobalLen.next, hpc] at hs
  | pushing item =>
    simp only [GlobalLen.next, hpc, Option.some.injEq] at hs
    subst hs
    refine h.goto hpc rfl rfl (.inl rfl) ?_
    simp only [State.goto, Pc.queued, Pc.taken, List.length_append, List.length_singleton]
    omega
  | pushed =>
    simp only [GlobalLen.next, hpc, Option.some.injEq] at hs
    simp only [Undisturbed, hpc] at hok
    subst hs
    exact h.load hok rfl (by simp) (by rw [hpc]; rfl) (by rw [hpc]; rfl)
  | counting len =>
    simp only [GlobalLen.next, hpc, Option.some.injEq] at hs
    have hlen := h.loaded i len (by simp [hpc, Pc.loaded])
    subst hs
    refine h.goto hpc rfl rfl (.inr fun j => hholder j (by simp [hpc, Pc.loaded])) ?_
    simp only [State.goto, Pc.queued, Pc.taken]
    omega
  | popping =>
    simp only [GlobalLen.next, hpc, Option.some.injEq] at hs
    subst hs
    refine h.goto hpc rfl (by split <;> rfl) (.inl rfl) ?_
    split <;> rfl
  | stealing =>
    cases hinj : s.injector with
    | nil =>
      simp only [GlobalLen.next, hpc, hinj, Option.some.injEq] at hs
      subst hs
      exact h.goto hpc rfl rfl (.inl rfl) rfl
    | cons item rest =>
      simp only [GlobalLen.next, hpc, hinj, Option.some.injEq] at hs
      subst hs
      refine h.goto hpc rfl rfl (.inl rfl) ?_
      simp only [State.goto, Pc.queued, Pc.taken, hinj, List.length_cons]
  | stolen item =>
    simp only [GlobalLen.next, hpc, Option.some.injEq] at hs
    simp only [Undisturbed, hpc] at hok
    subst hs
    refine h.load hok.1 rfl ?_ (by rw [hpc]; rfl) (by rw [hpc]; rfl)
    intro item' he
    have hz : s.len = 0 := (Pc.uncounting.inj he).2
    have hb := h.balance
    omega
  | uncounting item len =>
    simp only [GlobalLen.next, hpc, Option.some.injEq] at hs
    have hlen := h.loaded i len (by simp [hpc, Pc.loaded])
    have hpos : len ≠ 0 := by
      rintro rfl
      exact h.positive i item hpc
    subst hs
    refine h.goto hpc rfl rfl (.inr fun j => hholder j (by simp [hpc, Pc.loaded])) ?_
    simp only [State.goto, Pc.queued, Pc.taken, decrement, if_neg hpos]
    omega

theorem Counted.enter {s : State ι T} (h : Counted s) {i : ι} {pc : Pc T} (hi : s.pc i = .idle)
    (hload : pc.loaded = none) (hq : pc.queued = 0) (ht : pc.taken = 0) :
    Counted (s.goto i pc) := by
  refine h.goto hi rfl hload (.inl rfl) ?_
  rw [hq, ht]
  rfl

theorem Counted.step {s t : State ι T} (h : Counted s) {a : Act ι T} (hok : Undisturbed s a)
    (hs : step s a = some t) : Counted t := by
  cases a with
  | push i item =>
    simp only [GlobalLen.step] at hs
    split at hs <;> simp only [Option.some.injEq, reduceCtorEq] at hs
    rename_i hi
    subst hs
    exact h.enter hi rfl rfl rfl
  | pop i =>
    simp only [GlobalLen.step] at hs
    split at hs <;> simp only [Option.some.injEq, reduceCtorEq] at hs
    rename_i hi
    subst hs
    exact h.enter hi rfl rfl rfl
  | retry i =>
    simp only [GlobalLen.step] at hs
    split at hs <;> simp only [Option.some.injEq, reduceCtorEq] at hs
    subst hs
    exact h
  | next i => exact h.next hok hs

omit [DecidableEq ι] in
theorem Counted.of_idle {s : State ι T} (h : Counted s) (hidle : ∀ i, s.pc i = .idle) :
    s.len = s.injector.length := by
  have hq : s.queued = 0 := total_zero fun i => by rw [hidle i]; rfl
  have ht : s.taken = 0 := total_zero fun i => by rw [hidle i]; rfl
  have hb := h.balance
  omega

omit [DecidableEq ι] in
theorem Counted.none_empty {s : State ι T} (h : Counted s) {i : ι} (hok : Undisturbed s (.next i))
    (hnone : FindsNone s i) : s.injector = [] := by
  have hb := h.balance
  rcases hnone with ⟨hpc, hlen⟩ | ⟨-, hinj⟩
  · by_contra hne
    simp only [Undisturbed, hpc] at hok
    have hlt := hok hne
    omega
  · exact hinj

/-- Undisturbed, the counter is exact whenever no operation is in progress, a `pop`
returns `None` only on an empty queue, and no `pop` counts down from 0. -/
theorem len_counts {s₀ s : State ι T} (h₀ : Initial s₀)
    (h : Reaches step Undisturbed s₀ s) :
    ((∀ i, s.pc i = .idle) → s.len = s.injector.length) ∧
      (∀ i, Undisturbed s (.next i) → FindsNone s i → s.injector = []) ∧
      ∀ i item, s.pc i ≠ .uncounting item 0 := by
  have hc : Counted s := h.invariant h₀.counted fun _ _ _ hi hok hs => hi.step hok hs
  exact ⟨hc.of_idle, fun i hok hnone => hc.none_empty hok hnone, hc.positive⟩

def started : State (Fin 2) Nat := ⟨[], 0, fun _ => .idle⟩

theorem started_initial : Initial started := ⟨rfl, rfl, fun _ => rfl⟩

/-- The second thread pops 5 while the first one pushes 6. -/
theorem len_counts_one :
    ∃ s : State (Fin 2) Nat, s.injector = [6] ∧ s.len = s.injector.length := by
  obtain ⟨s, h, hinj, hidle⟩ : ∃ s : State (Fin 2) Nat, Reaches step Undisturbed started s ∧
      s.injector = [6] ∧ ∀ i, s.pc i = .idle :=
    ⟨_, Reaches.of_runGuarded [.push 0 5, .next 0, .next 0, .next 0, .push 0 6, .pop 1, .next 1,
      .next 0, .next 1, .next 0, .next 0, .next 1, .next 1] rfl, rfl, by decide⟩
  exact ⟨s, hinj, (len_counts started_initial h).1 hidle⟩

/-- Both threads load 0 and store 1. -/
theorem push_push_miscounts :
    ∃ s : State (Fin 2) Nat, Reaches step Free started s ∧ (∀ i, s.pc i = .idle) ∧
      s.len = 1 ∧ s.injector.length = 2 :=
  ⟨_, Reaches.of_run [.push 0 5, .push 1 6, .next 0, .next 1, .next 0, .next 1, .next 0, .next 1]
    rfl (guarded_free _), by decide, rfl, rfl⟩

end GlobalLen

end OpenCoroutine
