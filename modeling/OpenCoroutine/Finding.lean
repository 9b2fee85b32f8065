import Mathlib.Algebra.Order.BigOperators.Group.Finset
import OpenCoroutine.Conservation

/-! `pop_front` finds an item wherever in the system there is one. With the own worker
empty, every turn of the steal loop at a worker that holds items moves at least one of
them, and the loop comes past every worker. -/

namespace OpenCoroutine

open Family Transition

namespace WorkStealQueue

variable {T : Type*} {n : Nat}

/-- The workers have the capacity that `new` gave to all of them. -/
def Alike (q : WorkStealQueue T n) : Prop :=
  ∀ j k, (q.localQueues j).capacity = (q.localQueues k).capacity

def Empty (q : WorkStealQueue T n) : Prop :=
  q.sharedQueue = [] ∧ ∀ k, (q.localQueues k).items = []

theorem empty_iff_contents {q : WorkStealQueue T n} : q.Empty ↔ q.contents = 0 := by
  rw [contents, add_eq_zero, total, Finset.sum_eq_zero_iff]
  simp [Empty]

theorem pop_eq_none_iff {q : WorkStealQueue T n} (h : q.WellFormed) :
    q.pop.1 = none ↔ q.sharedQueue = [] := by
  have hlen := h.counted
  cases hq : q.sharedQueue with
  | nil =>
    rw [hq, List.length_nil] at hlen
    simp [pop, hlen]
  | cons item rest =>
    rw [hq, List.length_cons] at hlen
    have hne : q.len ≠ 0 := by omega
    simp [pop, hq, hne]

theorem pop_of_none {q : WorkStealQueue T n} (h : q.pop.1 = none) : q.pop = (none, q) := by
  unfold pop at h ⊢
  split at h
  · rename_i hlen
    rw [if_pos hlen]
  · rename_i hlen
    rw [if_neg hlen]
    split at h
    · rfl
    · cases h

theorem popLocal_of_empty {q : WorkStealQueue T n} {k : Fin n}
    (h : (q.localQueues k).items = []) : q.popLocal k = (none, q) := by
  have hsame : (q.localQueues k).pop.2 = q.localQueues k := by
    unfold Worker.pop
    rw [h, List.tail_nil, ← h]
  have hnone : (q.localQueues k).pop.1 = none := by
    unfold Worker.pop
    rw [h, List.head?_nil]
  simp only [popLocal, hsame, hnone, setLocal, Function.update_eq_self]

theorem popLocal_eq_none_iff {q : WorkStealQueue T n} {k : Fin n} :
    (q.popLocal k).1 = none ↔ (q.localQueues k).items = [] := by
  simp only [popLocal, Worker.pop, List.head?_eq_none_iff]

theorem move_items_ne_nil {q : WorkStealQueue T n} {source dest : Fin n} {count : Nat}
    (hcount : 0 < count) (hs : (q.localQueues source).items ≠ []) :
    ((q.move source dest count).localQueues dest).items ≠ [] := by
  have htake : (q.localQueues source).items.take count ≠ [] := by
    intro hnil
    rcases List.take_eq_nil_iff.1 hnil with hzero | hnil
    · omega
    · exact hs hnil
  simp only [move, setLocal, Function.update_self]
  intro hnil
  exact htake (List.append_eq_nil_iff.1 hnil).2

end WorkStealQueue

namespace LocalQueue

open WorkStealQueue

variable {T : Type*} {n : Nat}

/-- A rotation of the workers comes past every one of them. -/
theorem exists_rotation (start : Nat) (k : Fin n) : ∃ i < n, (start + i) % n = k := by
  have hn : 0 < n := k.pos
  have hs : start % n < n := Nat.mod_lt _ hn
  have hk := k.isLt
  refine ⟨(k + (n - start % n)) % n, Nat.mod_lt _ hn, ?_⟩
  have hsum : start % n + (k + (n - start % n)) = k + n := by omega
  rw [Nat.add_mod_mod, ← Nat.mod_add_mod, hsum, Nat.add_mod_right, Nat.mod_eq_of_lt hk]

theorem tryStealFrom_none {l : LocalQueue n} {q : WorkStealQueue T n} {another : Fin n}
    (h : (q.localQueues another).items = []) : l.tryStealFrom q another = none := by
  simp only [tryStealFrom, Worker.isEmpty, h, List.isEmpty_nil, if_true]

/-- A worker with items gives at least one of them to a worker with room. -/
theorem tryStealFrom_isSome {l : LocalQueue n} {q : WorkStealQueue T n} {another : Fin n}
    (hfits : (q.localQueues another).Fits) (hs : (q.localQueues another).items ≠ [])
    (hroom : (q.localQueues l.queue).spareCapacity ≠ 0) : (l.tryStealFrom q another).isSome := by
  have hlen := List.length_pos_iff.2 hs
  have hempty : (q.localQueues another).isEmpty = false := by simpa [Worker.isEmpty] using hs
  have hcount : stealCount q l.queue another (q.localQueues another).items.length ≠ 0 := by
    simp only [Worker.Fits] at hfits
    simp only [stealCount, Worker.spareCapacity] at hroom ⊢
    omega
  have hmin : min (stealCount q l.queue another (q.localQueues another).items.length)
      (q.localQueues l.queue).spareCapacity ≠ 0 := by omega
  simp [tryStealFrom, hempty, hroom, steal, hmin]

theorem stealFromSiblings_items_ne_nil {l : LocalQueue n} {q q' : WorkStealQueue T n}
    {start : Nat} (h : l.stealFromSiblings q start = some q') :
    (q'.localQueues l.queue).items ≠ [] := by
  obtain ⟨another, count, hs, hcount, -, rfl⟩ := stealFromSiblings_eq_move h
  exact move_items_ne_nil hcount hs

/-- The steal loop gives up only if no worker holds an item. -/
theorem stealFromSiblings_eq_none_iff {l : LocalQueue n} {q : WorkStealQueue T n} (start : Nat)
    (hwf : q.WellFormed) (halike : q.Alike) (hown : (q.localQueues l.queue).items = []) :
    l.stealFromSiblings q start = none ↔ ∀ k, (q.localQueues k).items = [] := by
  unfold stealFromSiblings
  rw [List.findSome?_eq_none_iff]
  constructor
  · intro h k
    by_contra hk
    obtain ⟨i, hi, hik⟩ := exists_rotation start k
    have hnone := h i (List.mem_range.2 hi)
    have hroom : (q.localQueues l.queue).spareCapacity ≠ 0 := by
      have hpos := List.length_pos_iff.2 hk
      have hfits := hwf.fits k
      have hcap := halike l.queue k
      simp only [Worker.Fits] at hfits
      simp only [Worker.spareCapacity, hown, List.length_nil]
      omega
    have hsome := tryStealFrom_isSome (hwf.fits k) hk hroom
    have hfin : (⟨(start + i) % n, Nat.mod_lt _ l.queue.pos⟩ : Fin n) = k := Fin.ext hik
    rw [hfin] at hnone
    rw [hnone] at hsome
    cases hsome
  · intro h i _
    exact tryStealFrom_none (h _)

theorem popStealing_eq_none_iff {l : LocalQueue n} {q : WorkStealQueue T n} (hwf : q.WellFormed)
    (halike : q.Alike) (hl : l.stealing = false) (hown : (q.localQueues l.queue).items = []) :
    (l.popStealing q).1 = none ↔ q.Empty := by
  unfold popStealing
  rw [if_neg (by simp [hl])]
  dsimp only
  split
  · rename_i q' he
    have hsome : (q'.popLocal l.queue).1 ≠ none := fun hnone =>
      stealFromSiblings_items_ne_nil he (popLocal_eq_none_iff.1 hnone)
    refine iff_of_false hsome fun hempty => ?_
    refine Option.some_ne_none q' (he.symm.trans ?_)
    exact (stealFromSiblings_eq_none_iff _ hwf halike hown).2 hempty.2
  · rename_i he
    have hlocals := (stealFromSiblings_eq_none_iff _ hwf halike hown).1 he
    exact (pop_eq_none_iff hwf).trans ⟨fun hs => ⟨hs, hlocals⟩, And.left⟩

theorem nextTick_queue (l : LocalQueue n) : l.nextTick.2.queue = l.queue := by
  unfold nextTick
  dsimp only
  split <;> rfl

theorem nextTick_stealing (l : LocalQueue n) : l.nextTick.2.stealing = l.stealing := by
  unfold nextTick
  dsimp only
  split <;> rfl

/-- Where `pop_front` takes its item from. -/
theorem popFront_cases (l : LocalQueue n) (q : WorkStealQueue T n) :
    (∃ item, l.nextTick.1 % 61 = 0 ∧ q.pop.1 = some item ∧
      l.popFront q = (some item, l.nextTick.2, q.pop.2)) ∨
    (l.nextTick.1 % 61 = 0 → q.pop.1 = none) ∧
      ((∃ item, (q.popLocal l.queue).1 = some item ∧
        l.popFront q = (some item, l.nextTick.2, (q.popLocal l.queue).2)) ∨
      (q.localQueues l.queue).items = [] ∧ l.popFront q = l.nextTick.2.popStealing q) := by
  by_cases hglobal : l.nextTick.1 % 61 = 0 ∧ q.pop.1 ≠ none
  · obtain ⟨ht, hsome⟩ := hglobal
    obtain ⟨item, hitem⟩ := Option.ne_none_iff_exists'.1 hsome
    refine .inl ⟨item, ht, hitem, ?_⟩
    have he : (if l.nextTick.1 % 61 = 0 then q.pop else (none, q)) = (some item, q.pop.2) := by
      rw [if_pos ht, ← hitem]
    unfold popFront
    dsimp only
    rw [he]
  · have hnone : l.nextTick.1 % 61 = 0 → q.pop.1 = none := fun ht => by
      by_contra hsome
      exact hglobal ⟨ht, hsome⟩
    have he : (if l.nextTick.1 % 61 = 0 then q.pop else (none, q)) = (none, q) := by
      by_cases ht : l.nextTick.1 % 61 = 0
      · rw [if_pos ht, pop_of_none (hnone ht)]
      · rw [if_neg ht]
    refine .inr ⟨hnone, ?_⟩
    unfold popFront
    dsimp only
    rw [he]
    dsimp only
    rw [nextTick_queue]
    cases hitem : (q.popLocal l.queue).1 with
    | some item =>
      have hlocal : q.popLocal l.queue = (some item, (q.popLocal l.queue).2) := by rw [← hitem]
      exact .inl ⟨item, rfl, by rw [hlocal]⟩
    | none =>
      have hnil := popLocal_eq_none_iff.1 hitem
      exact .inr ⟨hnil, by rw [popLocal_of_empty hnil]⟩

/-- The search of `pop_front` beyond the own worker. -/
theorem popStealing_cases (l : LocalQueue n) (q : WorkStealQueue T n) :
    (∃ l', l.popStealing q = (q.pop.1, l', q.pop.2)) ∨
    ∃ (thief l' : LocalQueue n) (q' : WorkStealQueue T n) (start : Nat),
      thief.stealFromSiblings q start = some q' ∧ thief.queue = l.queue ∧
      l.popStealing q = ((q'.popLocal l.queue).1, l', (q'.popLocal l.queue).2) := by
  unfold popStealing
  split
  · exact .inl ⟨l, rfl⟩
  · dsimp only
    split
    · rename_i q' he
      exact .inr ⟨_, _, q', _, he, rfl, rfl⟩
    · exact .inl ⟨_, rfl⟩

theorem popFront_handle (l : LocalQueue n) (q : WorkStealQueue T n) :
    (l.popFront q).2.1.queue = l.queue ∧ (l.popFront q).2.1.tick = l.nextTick.2.tick := by
  rcases l.popFront_cases q with ⟨_, -, -, he⟩ | ⟨-, ⟨_, -, he⟩ | ⟨-, he⟩⟩
  · rw [he]
    exact ⟨l.nextTick_queue, rfl⟩
  · rw [he]
    exact ⟨l.nextTick_queue, rfl⟩
  · rw [he, ← l.nextTick_queue]
    unfold popStealing
    split
    · exact ⟨rfl, rfl⟩
    · dsimp only
      split <;> exact ⟨rfl, rfl⟩

/-- What `pop_front` leaves: an item is taken from the global queue or from the own worker,
after a steal if that was empty. -/
theorem popFront_leaves (l : LocalQueue n) (q : WorkStealQueue T n) :
    (l.popFront q).2.2 = q.pop.2 ∨ (l.popFront q).2.2 = (q.popLocal l.queue).2 ∨
      ∃ another count, another ≠ l.queue ∧ (q.localQueues another).items ≠ [] ∧
        (l.popFront q).2.2 = ((q.move another l.queue count).popLocal l.queue).2 := by
  rcases l.popFront_cases q with ⟨item, -, -, he⟩ | ⟨-, ⟨item, -, he⟩ | ⟨hnil, he⟩⟩
  · exact .inl (by rw [he])
  · exact .inr (.inl (by rw [he]))
  · rw [he]
    rcases l.nextTick.2.popStealing_cases q with ⟨l', he'⟩ | ⟨thief, l', q', start, hsteal, hq, he'⟩
    · exact .inl (by rw [he'])
    · obtain ⟨another, count, hs, -, -, hmove⟩ := stealFromSiblings_eq_move hsteal
      rw [nextTick_queue] at hq he'
      rw [hq] at hmove
      refine .inr (.inr ⟨another, count, ?_, hs, by rw [he', hmove]⟩)
      rintro rfl
      exact hs hnil

theorem popFront_eq_none_iff {l : LocalQueue n} {q : WorkStealQueue T n} (hwf : q.WellFormed)
    (halike : q.Alike) (hl : l.stealing = false) : (l.popFront q).1 = none ↔ q.Empty := by
  rcases l.popFront_cases q with ⟨item, -, hitem, he⟩ | ⟨-, ⟨item, hitem, he⟩ | ⟨hnil, he⟩⟩
  · rw [he]
    refine iff_of_false (Option.some_ne_none item) fun hempty => ?_
    rw [(pop_eq_none_iff hwf).2 hempty.1] at hitem
    cases hitem
  · rw [he]
    refine iff_of_false (Option.some_ne_none item) fun hempty => ?_
    rw [popLocal_eq_none_iff.2 (hempty.2 l.queue)] at hitem
    cases hitem
  · rw [he]
    rw [← nextTick_queue] at hnil
    exact popStealing_eq_none_iff hwf halike (by rw [nextTick_stealing, hl]) hnil

/-- `pop_front` returns nothing only if the whole system is empty, and else it returns an
item and keeps the others. -/
theorem popFront_finds (l : LocalQueue n) {q : WorkStealQueue T n} (hwf : q.WellFormed)
    (halike : q.Alike) (hl : l.stealing = false) :
    ((l.popFront q).1 = none ↔ q.sharedQueue = [] ∧ ∀ k, (q.localQueues k).items = []) ∧
      q.contents = ((l.popFront q).1.toList : Multiset T) + (l.popFront q).2.2.contents :=
  ⟨popFront_eq_none_iff hwf halike hl, (l.popFront_gives q).contents⟩

/-- The one item lies in the sibling that the search comes to last. -/
def lastSibling : WorkStealQueue Nat 3 :=
  WorkStealQueue.setLocal (.new 1) ⟨0, by decide⟩ ⟨1, [7]⟩

theorem popFront_finds_lastSibling :
    (LocalQueue.popFront ⟨4, false, (⟨1, by decide⟩ : Fin 3), ⟨1, 0⟩⟩ lastSibling).1 ≠ none := by
  have hfits : ∀ k, (lastSibling.localQueues k).items.length ≤
      (lastSibling.localQueues k).capacity := by decide
  intro hnone
  have hempty := (popFront_finds _ ⟨by decide, hfits⟩ (by unfold Alike; decide) rfl).1.1 hnone
  exact absurd (hempty.2 ⟨0, by decide⟩) (by decide)

end LocalQueue

/-! Runs. -/

namespace WorkStealQueue

variable {T : Type*} {n : Nat}

def capacities (q : WorkStealQueue T n) (k : Fin n) : Nat := (q.localQueues k).capacity

theorem Alike.of_capacities {q q' : WorkStealQueue T n} (h : q.Alike)
    (hcap : q'.capacities = q.capacities) : q'.Alike := by
  intro j k
  have hj : (q'.localQueues j).capacity = (q.localQueues j).capacity := congrFun hcap j
  have hk : (q'.localQueues k).capacity = (q.localQueues k).capacity := congrFun hcap k
  rw [hj, hk, h j k]

theorem capacities_setLocal {q : WorkStealQueue T n} {k : Fin n} {w : Worker T}
    (h : w.capacity = (q.localQueues k).capacity) : (q.setLocal k w).capacities = q.capacities := by
  funext j
  by_cases hj : j = k
  · subst hj
    simp [capacities, setLocal, h]
  · simp [capacities, setLocal, Function.update_of_ne hj]

theorem pop_localQueues (q : WorkStealQueue T n) : q.pop.2.localQueues = q.localQueues := by
  unfold pop
  split
  · rfl
  · split <;> rfl

theorem capacities_pop (q : WorkStealQueue T n) : q.pop.2.capacities = q.capacities := by
  funext k
  rw [capacities, pop_localQueues, capacities]

theorem capacities_popLocal (q : WorkStealQueue T n) (k : Fin n) :
    (q.popLocal k).2.capacities = q.capacities := capacities_setLocal rfl

theorem capacities_move (q : WorkStealQueue T n) (source dest : Fin n) (count : Nat) :
    (q.move source dest count).capacities = q.capacities := by
  unfold move
  rw [capacities_setLocal, capacities_setLocal]
  · rfl
  · rfl

end WorkStealQueue

namespace LocalQueue

open WorkStealQueue

variable {T : Type*} {n : Nat}

theorem capacities_spill (k : Fin n) (count : Nat) (q : WorkStealQueue T n) :
    (spill k count q).capacities = q.capacities := by
  refine spill_loop (R := fun q q' => q'.capacities = q.capacities) (fun _ => rfl)
    (fun _ _ _ h h' => h'.trans h) ?_ ?_ count q
  · intro q item q' he
    have hp := q.capacities_popLocal k
    rwa [he] at hp
  · intro q q' he
    have hp := q.capacities_popLocal k
    rwa [he] at hp

theorem capacities_pushBack (l : LocalQueue n) (q : WorkStealQueue T n) (item : T) :
    (l.pushBack q item).capacities = q.capacities := by
  unfold pushBack Worker.push
  split
  · rename_i w he
    split at he
    · cases he
      exact capacities_setLocal rfl
    · cases he
  · exact capacities_spill _ _ _

theorem capacities_popFront (l : LocalQueue n) (q : WorkStealQueue T n) :
    (l.popFront q).2.2.capacities = q.capacities := by
  rcases l.popFront_leaves q with he | he | ⟨another, count, -, -, he⟩
  · rw [he]
    exact q.capacities_pop
  · rw [he]
    exact q.capacities_popLocal l.queue
  · rw [he, capacities_popLocal]
    exact q.capacities_move another l.queue count

end LocalQueue

namespace QueueRun

variable {η T : Type*} {n : Nat} [DecidableEq η]

theorem capacities_step {s t : QueueRun η T n} {a : QueueOp η T} (hs : s.step a = some t) :
    t.queue.capacities = s.queue.capacities := by
  cases a with
  | push item => exact Option.some.inj hs ▸ rfl
  | pop => exact Option.some.inj hs ▸ s.queue.capacities_pop
  | pushBack k item => exact Option.some.inj hs ▸ (s.handles k).capacities_pushBack s.queue item
  | popFront k => exact Option.some.inj hs ▸ (s.handles k).capacities_popFront s.queue

/-- Whatever was done before, `pop_front` on any handle finds an item if there is one. -/
theorem run_finds {s₀ s : QueueRun η T n} (h₀ : s₀.Initial) (halike : s₀.queue.Alike)
    (h : Reaches QueueRun.step Free s₀ s) (k : η) :
    ((s.handles k).popFront s.queue).1 = none ↔ s.pushed = s.popped := by
  have hb : s.Balanced := h.invariant h₀.balanced fun _ _ _ hi _ hs => hi.step hs
  have hcap : s.queue.capacities = s₀.queue.capacities :=
    h.invariant (p := fun t => t.queue.capacities = s₀.queue.capacities) rfl
      fun _ _ _ hi _ hs => (capacities_step hs).trans hi
  rw [LocalQueue.popFront_eq_none_iff hb.wf (halike.of_capacities hcap) (hb.unlocked k),
    WorkStealQueue.empty_iff_contents, hb.conserved]
  simp

end QueueRun

end OpenCoroutine
