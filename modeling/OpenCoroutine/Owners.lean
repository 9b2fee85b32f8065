import OpenCoroutine.Transition
import OpenCoroutine.WorkSteal

/-! Who holds which local queue. Every `SchedulerImpl` takes its queue from
`LocalQueue::default()`, that is from `local_queue` of the shared queue, and gives nothing
back when it is dropped. `created` counts the schedulers that have been made, and each
living one keeps its number. -/

namespace OpenCoroutine

open Transition

/-- `WorkStealQueue::local_queue` on the counter `index`. It panics without local queues. -/
def WorkStealQueue.localQueue {n : Nat} (index : UInt64) (rand : FastRand) :
    Option (LocalQueue n × UInt64) :=
  let next := index + 1
  let next := if index = (2 ^ 64 - 1 : Nat).toUInt64 then 0 else next
  if h : 0 < n then some (⟨0, false, ⟨index.toNat % n, Nat.mod_lt _ h⟩, rand⟩, next) else none

structure Owner (n : Nat) where
  ready : LocalQueue n
  number : Nat

structure Owners (ι : Type*) (n : Nat) where
  index : UInt64 := 0
  created : Nat := 0
  owner : ι → Option (Owner n) := fun _ => none

inductive OwnerOp (ι : Type*) where
  | new (i : ι) (rand : FastRand)
  | drop (i : ι)

namespace Owners

variable {ι : Type*} {n : Nat}

def step [DecidableEq ι] (s : Owners ι n) : OwnerOp ι → Option (Owners ι n)
  | .new i rand =>
    match s.owner i with
    | some _ => none
    | none =>
      (WorkStealQueue.localQueue s.index rand).map fun (ready, index) =>
        { index
          created := s.created + 1
          owner := Function.update s.owner i (some ⟨ready, s.created⟩) }
  | .drop i =>
    match s.owner i with
    | some _ => some { s with owner := Function.update s.owner i none }
    | none => none

/-- No two living schedulers hold the same worker. -/
def OneOwner (s : Owners ι n) : Prop :=
  ∀ i j o o', s.owner i = some o → s.owner j = some o' → i ≠ j → o.ready.queue ≠ o'.ready.queue

def Separate [DecidableEq ι] (s : Owners ι n) (a : OwnerOp ι) : Prop :=
  ∀ t, s.step a = some t → t.OneOwner

/-- The worker that the counter gives to the scheduler of this number. -/
def turn (n number : Nat) : Nat := number % 2 ^ 64 % n

/-- No living scheduler was made a multiple of `n` schedulers before the new one. -/
def Spaced (s : Owners ι n) : OwnerOp ι → Prop
  | .new i _ => s.owner i = none → ∀ j o, s.owner j = some o → turn n o.number ≠ turn n s.created
  | .drop _ => True

structure Counted (s : Owners ι n) : Prop where
  index : s.index.toNat = s.created % 2 ^ 64
  queue : ∀ i o, s.owner i = some o → o.ready.queue.val = turn n o.number

theorem new_counted : Counted (ι := ι) (n := n) {} where
  index := rfl
  queue i o h := by cases h

theorem next_toNat (index : UInt64) :
    (if index = (2 ^ 64 - 1 : Nat).toUInt64 then 0 else index + 1 : UInt64).toNat =
      (index.toNat + 1) % 2 ^ 64 := by
  split
  · rename_i h
    rw [h]
    rfl
  · exact UInt64.toNat_add index 1

/-- What `new` does: the handle is on the worker whose turn it is. -/
theorem new_cases [DecidableEq ι] {s t : Owners ι n} (h : s.Counted) {i : ι} {rand : FastRand}
    (hs : s.step (.new i rand) = some t) :
    s.owner i = none ∧ ∃ ready : LocalQueue n, ready.queue.val = turn n s.created ∧
      t.index.toNat = (s.created + 1) % 2 ^ 64 ∧ t.created = s.created + 1 ∧
        t.owner = Function.update s.owner i (some ⟨ready, s.created⟩) := by
  simp only [step] at hs
  split at hs
  · cases hs
  · rename_i hi
    simp only [WorkStealQueue.localQueue] at hs
    split at hs
    · rename_i hn
      simp only [Option.map_some, Option.some.injEq] at hs
      subst hs
      refine ⟨hi, _, ?_, ?_, rfl, rfl⟩
      · show s.index.toNat % n = turn n s.created
        rw [h.index, turn]
      · rw [next_toNat, h.index, Nat.mod_add_mod]
    · cases hs

theorem drop_cases [DecidableEq ι] {s t : Owners ι n} {i : ι} (hs : s.step (.drop i) = some t) :
    t.index = s.index ∧ t.created = s.created ∧ t.owner = Function.update s.owner i none := by
  simp only [step] at hs
  split at hs
  · simp only [Option.some.injEq] at hs
    subst hs
    exact ⟨rfl, rfl, rfl⟩
  · cases hs

theorem Counted.step [DecidableEq ι] {s t : Owners ι n} (h : s.Counted) {a : OwnerOp ι}
    (hs : s.step a = some t) : t.Counted := by
  cases a with
  | new i rand =>
    obtain ⟨-, ready, hqueue, hindex, hcreated, howner⟩ := new_cases h hs
    refine ⟨by rw [hindex, hcreated], fun j o hj => ?_⟩
    rw [howner] at hj
    by_cases hij : j = i
    · rw [hij, Function.update_self, Option.some.injEq] at hj
      rw [← hj]
      exact hqueue
    · rw [Function.update_of_ne hij] at hj
      exact h.queue j o hj
  | drop i =>
    obtain ⟨hindex, hcreated, howner⟩ := drop_cases hs
    refine ⟨by rw [hindex, hcreated]; exact h.index, fun j o hj => ?_⟩
    rw [howner] at hj
    by_cases hij : j = i
    · rw [hij, Function.update_self] at hj
      cases hj
    · rw [Function.update_of_ne hij] at hj
      exact h.queue j o hj

theorem exists_new [DecidableEq ι] {s : Owners ι n} {i : ι} (hi : s.owner i = none)
    (hn : 0 < n) (rand : FastRand) : ∃ t, s.step (.new i rand) = some t := by
  simp only [step, hi, WorkStealQueue.localQueue, dif_pos hn, Option.map_some]
  exact ⟨_, rfl⟩

/-- A new owner is apart from the others if and only if its worker is nobody's. -/
theorem oneOwner_update [DecidableEq ι] {s t : Owners ι n} (hone : s.OneOwner) {i : ι}
    (hi : s.owner i = none) {o : Owner n} (ht : t.owner = Function.update s.owner i (some o)) :
    t.OneOwner ↔ ∀ j o', s.owner j = some o' → o'.ready.queue ≠ o.ready.queue := by
  have hself : t.owner i = some o := by rw [ht, Function.update_self]
  have hother : ∀ j, j ≠ i → t.owner j = s.owner j := fun j hj => by
    rw [ht, Function.update_of_ne hj]
  constructor
  · intro hsep j o' hj
    have hij : j ≠ i := fun he => by
      rw [he, hi] at hj
      cases hj
    exact hsep j i o' o ((hother j hij).trans hj) hself hij
  · intro hfree j k o₁ o₂ hj hk hjk
    by_cases hji : j = i
    · rw [hji, hself, Option.some.injEq] at hj
      have hki : k ≠ i := fun he => hjk (hji.trans he.symm)
      rw [hother k hki] at hk
      rw [← hj]
      exact (hfree k o₂ hk).symm
    · rw [hother j hji] at hj
      by_cases hki : k = i
      · rw [hki, hself, Option.some.injEq] at hk
        rw [← hk]
        exact hfree j o₁ hj
      · rw [hother k hki] at hk
        exact hone j k o₁ o₂ hj hk hjk

theorem OneOwner.drop [DecidableEq ι] {s t : Owners ι n} (hone : s.OneOwner) {i : ι}
    (ht : t.owner = Function.update s.owner i none) : t.OneOwner := by
  have hsub : ∀ j o, t.owner j = some o → s.owner j = some o := by
    intro j o hj
    rw [ht] at hj
    by_cases hji : j = i
    · rw [hji, Function.update_self] at hj
      cases hj
    · rwa [Function.update_of_ne hji] at hj
  exact fun j k o₁ o₂ hj hk hjk => hone j k o₁ o₂ (hsub j o₁ hj) (hsub k o₂ hk) hjk

/-- A step keeps the workers of living schedulers apart exactly if it is spaced. -/
theorem separate_iff [DecidableEq ι] {s : Owners ι n} (h : s.Counted) (hone : s.OneOwner)
    (a : OwnerOp ι) : s.Separate a ↔ s.Spaced a := by
  cases a with
  | drop i => exact iff_of_true (fun t hs => hone.drop (drop_cases hs).2.2) trivial
  | new i rand =>
    constructor
    · intro hsep hi j o hj
      obtain ⟨t, hs⟩ := exists_new hi o.ready.queue.pos rand
      obtain ⟨-, ready, hqueue, -, -, howner⟩ := new_cases h hs
      have hne := (oneOwner_update hone hi howner).1 (hsep t hs) j o hj
      rw [← h.queue j o hj, ← hqueue]
      exact fun he => hne (Fin.ext he)
    · intro hspaced t hs
      obtain ⟨hi, ready, hqueue, -, -, howner⟩ := new_cases h hs
      refine (oneOwner_update hone hi howner).2 fun j o hj he => ?_
      refine hspaced hi j o hj ?_
      rw [← h.queue j o hj, ← hqueue, he]

/-- The living schedulers hold different workers throughout a run if and only if none is
made while one lives that was made a multiple of `n` schedulers before it. -/
theorem one_owner_iff [DecidableEq ι] (ops : List (OwnerOp ι)) :
    Guarded step Separate ({} : Owners ι n) ops ↔ Guarded step Spaced ({} : Owners ι n) ops := by
  have hnew : OneOwner (ι := ι) (n := n) {} := fun i j o o' hi => by cases hi
  refine guarded_iff (fun s => s.Counted ∧ s.OneOwner) ?_ ?_ ⟨new_counted, hnew⟩ ops
  · exact fun s a t hi hok hs => ⟨hi.1.step hs, hok t hs⟩
  · exact fun s a hi => separate_iff hi.1 hi.2 a

/-- Two event loops for two processors, and then the pool of the monitor. -/
theorem worker_shared :
    ¬ Guarded step Separate ({} : Owners String 2)
      [.new "open-coroutine-event-loop-0" ⟨1, 1⟩, .new "open-coroutine-event-loop-1" ⟨2, 1⟩,
        .new "open-coroutine-monitor" ⟨3, 1⟩] := by
  intro h
  have hlast := ((h.2 _ rfl).2 _ rfl).1 _ rfl
  exact hlast "open-coroutine-event-loop-0" "open-coroutine-monitor" _ _ rfl rfl (by decide) rfl

structure Numbered (s : Owners ι n) : Prop where
  counted : s.Counted
  below : ∀ i o, s.owner i = some o → o.number < s.created
  distinct : ∀ i j o o', s.owner i = some o → s.owner j = some o' → i ≠ j → o.number ≠ o'.number

theorem Numbered.step [DecidableEq ι] {s t : Owners ι n} (h : s.Numbered) {a : OwnerOp ι}
    (hs : s.step a = some t) : t.Numbered := by
  have hcounted := h.counted.step hs
  cases a with
  | new i rand =>
    obtain ⟨hi, ready, -, -, hcreated, howner⟩ := new_cases h.counted hs
    have hold : ∀ j o, t.owner j = some o → j ≠ i → s.owner j = some o := fun j o hj hji => by
      rwa [howner, Function.update_of_ne hji] at hj
    have hnew : ∀ o, t.owner i = some o → o.number = s.created := fun o ho => by
      rw [howner, Function.update_self, Option.some.injEq] at ho
      rw [← ho]
    refine ⟨hcounted, fun j o hj => ?_, fun j k o o' hj hk hjk => ?_⟩
    · by_cases hji : j = i
      · have := hnew o (hji ▸ hj)
        omega
      · have := h.below j o (hold j o hj hji)
        omega
    · by_cases hji : j = i
      · have ho := hnew o (hji ▸ hj)
        have ho' := h.below k o' (hold k o' hk fun hki => hjk (hji.trans hki.symm))
        omega
      · have ho := h.below j o (hold j o hj hji)
        by_cases hki : k = i
        · have ho' := hnew o' (hki ▸ hk)
          omega
        · exact h.distinct j k o o' (hold j o hj hji) (hold k o' hk hki) hjk
  | drop i =>
    obtain ⟨-, hcreated, howner⟩ := drop_cases hs
    have hold : ∀ j o, t.owner j = some o → s.owner j = some o := fun j o hj => by
      rw [howner] at hj
      by_cases hji : j = i
      · rw [hji, Function.update_self] at hj
        cases hj
      · rwa [Function.update_of_ne hji] at hj
    refine ⟨hcounted, fun j o hj => ?_, fun j k o o' hj hk => ?_⟩
    · have := h.below j o (hold j o hj)
      omega
    · exact h.distinct j k o o' (hold j o hj) (hold k o' hk)

theorem new_numbered : Numbered (ι := ι) (n := n) {} where
  counted := new_counted
  below i o hi := by cases hi
  distinct i j o o' hi := by cases hi

/-- The comment on `local_queue` is right: it may be called up to `n` times. -/
theorem one_owner_of_created_le [DecidableEq ι] {s : Owners ι n} (h : Reaches step Free {} s)
    (hcreated : s.created ≤ n) (hn : n ≤ 2 ^ 64) : s.OneOwner := by
  have hs : s.Numbered := h.invariant new_numbered fun _ _ _ hi _ hstep => hi.step hstep
  intro i j o o' hi hj hij he
  have hturn : ∀ k, k < s.created → turn n k = k := fun k hk => by
    rw [turn, Nat.mod_eq_of_lt (by omega), Nat.mod_eq_of_lt (by omega)]
  have hqueue : turn n o.number = turn n o'.number := by
    rw [← hs.counted.queue i o hi, ← hs.counted.queue j o' hj, he]
  rw [hturn _ (hs.below i o hi), hturn _ (hs.below j o' hj)] at hqueue
  exact hs.distinct i j o o' hi hj hij hqueue

end Owners

end OpenCoroutine
