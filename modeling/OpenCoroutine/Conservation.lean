import Mathlib.Algebra.Order.Group.Multiset
import Mathlib.Data.Fintype.Basic
import OpenCoroutine.Family
import OpenCoroutine.Transition
import OpenCoroutine.WorkSteal

/-! What the work-stealing queue holds. Every operation is described by the items it
adds or takes out and by the fact that it keeps the queue well formed; runs of any
operations on any handles then conserve the items. -/

namespace OpenCoroutine

open Family Transition

namespace WorkStealQueue

variable {T : Type*} {n : Nat}

def contents (q : WorkStealQueue T n) : Multiset T :=
  (q.sharedQueue : Multiset T) + total (fun _ w => (w.items : Multiset T)) q.localQueues

structure WellFormed (q : WorkStealQueue T n) : Prop where
  counted : q.len = q.sharedQueue.length
  fits : ∀ k, (q.localQueues k).Fits

/-- The operation takes `r` out of `q` and leaves `q'`. -/
structure Gives (q : WorkStealQueue T n) (r : Option T) (q' : WorkStealQueue T n) : Prop where
  contents : q.contents = (r.toList : Multiset T) + q'.contents
  wf : q.WellFormed → q'.WellFormed

structure Gets (q : WorkStealQueue T n) (item : T) (q' : WorkStealQueue T n) : Prop where
  contents : q'.contents = {item} + q.contents
  wf : q.WellFormed → q'.WellFormed

theorem Gives.refl (q : WorkStealQueue T n) : q.Gives none q := ⟨by simp, id⟩

theorem Gives.trans {q q' q'' : WorkStealQueue T n} {r : Option T} (h : q.Gives none q')
    (h' : q'.Gives r q'') : q.Gives r q'' :=
  ⟨by simpa [← h'.contents] using h.contents, h'.wf ∘ h.wf⟩

theorem Gives.gets {q q' q'' : WorkStealQueue T n} {item : T} (h : q.Gives none q')
    (h' : q'.Gets item q'') : q.Gets item q'' :=
  ⟨by rw [h'.contents, h.contents]; simp, h'.wf ∘ h.wf⟩

theorem push_gets (q : WorkStealQueue T n) (item : T) : q.Gets item (q.push item) where
  contents := by
    rw [contents, contents, push, ← Multiset.coe_add, add_comm (q.sharedQueue : Multiset T),
      add_assoc]
    rfl
  wf h := ⟨by simp [push, h.counted], h.fits⟩

theorem pop_gives (q : WorkStealQueue T n) : q.Gives q.pop.1 q.pop.2 := by
  unfold pop
  split
  · exact .refl q
  · cases hq : q.sharedQueue with
    | nil => exact .refl q
    | cons item rest =>
      refine ⟨?_, fun h => ⟨?_, h.fits⟩⟩
      · simp only [contents, hq, Option.toList_some, Multiset.coe_singleton, ← add_assoc]
        rfl
      · simp [h.counted, hq]

theorem WellFormed.setLocal {q : WorkStealQueue T n} (h : q.WellFormed) {k : Fin n} {w : Worker T}
    (hw : w.Fits) : (q.setLocal k w).WellFormed := by
  refine ⟨h.counted, fun j => ?_⟩
  by_cases hj : j = k
  · subst hj; simpa [WorkStealQueue.setLocal] using hw
  · simpa [WorkStealQueue.setLocal, Function.update_of_ne hj] using h.fits j

theorem contents_setLocal_take {q : WorkStealQueue T n} {k : Fin n} {w : Worker T} {x : Multiset T}
    (h : ((q.localQueues k).items : Multiset T) = x + w.items) :
    q.contents = x + (q.setLocal k w).contents := by
  have ht := total_take (fun (_ : Fin n) (w : Worker T) => (w.items : Multiset T)) q.localQueues h
  rw [contents, ht, contents, add_left_comm]
  rfl

theorem contents_setLocal_put {q : WorkStealQueue T n} {k : Fin n} {w : Worker T} {x : Multiset T}
    (h : (w.items : Multiset T) = x + (q.localQueues k).items) :
    (q.setLocal k w).contents = x + q.contents := by
  have ht := total_put (fun (_ : Fin n) (w : Worker T) => (w.items : Multiset T)) q.localQueues h
  simp only [contents, setLocal, ht]
  rw [add_left_comm]

theorem popLocal_gives (q : WorkStealQueue T n) (k : Fin n) :
    q.Gives (q.popLocal k).1 (q.popLocal k).2 where
  contents := by
    apply contents_setLocal_take
    cases h : (q.localQueues k).items with
    | nil => simp [popLocal, Worker.pop, h]
    | cons item rest => simp [popLocal, Worker.pop, h]
  wf h := by
    apply h.setLocal
    have hk := h.fits k
    simp only [Worker.Fits, Worker.pop, List.length_tail] at hk ⊢
    omega

theorem contents_move (q : WorkStealQueue T n) (source dest : Fin n) (count : Nat) :
    (q.move source dest count).contents = q.contents := by
  have htake : q.contents = ((q.localQueues source).items.take count : Multiset T) +
      (q.setLocal source { q.localQueues source with
        items := (q.localQueues source).items.drop count }).contents := by
    apply contents_setLocal_take
    rw [Multiset.coe_add, List.take_append_drop]
  rw [htake]
  apply contents_setLocal_put
  rw [← Multiset.coe_add, add_comm]

theorem WellFormed.move {q : WorkStealQueue T n} (h : q.WellFormed) {source dest : Fin n}
    {count : Nat} (hcount : count ≤ (q.localQueues dest).spareCapacity) :
    (q.move source dest count).WellFormed := by
  have hs := h.fits source
  have hd := h.fits dest
  simp only [Worker.Fits, Worker.spareCapacity] at hs hd hcount
  apply WellFormed.setLocal
  · apply h.setLocal
    simp only [Worker.Fits, List.length_drop]
    omega
  · by_cases he : dest = source
    · subst he
      simp only [Worker.Fits, WorkStealQueue.setLocal, Function.update_self, List.length_append,
        List.length_drop, List.length_take]
      omega
    · simp only [Worker.Fits, WorkStealQueue.setLocal, Function.update_of_ne he,
        List.length_append, List.length_take]
      omega

end WorkStealQueue

namespace LocalQueue

open WorkStealQueue

variable {T : Type*} {n : Nat}

/-- What composes, and holds of moving one item to the global queue, holds of a spill. -/
theorem spill_loop {R : WorkStealQueue T n → WorkStealQueue T n → Prop} {k : Fin n}
    (hrefl : ∀ q, R q q) (htrans : ∀ q q' q'', R q q' → R q' q'' → R q q'')
    (hmove : ∀ q item q', q.popLocal k = (some item, q') → R q (q'.push item))
    (hnone : ∀ q q', q.popLocal k = (none, q') → R q q') (count : Nat) (q : WorkStealQueue T n) :
    R q (spill k count q) := by
  induction count generalizing q with
  | zero => exact hrefl q
  | succ count ih =>
    rw [spill]
    split
    · rename_i item q' he
      exact htrans _ _ _ (hmove q item q' he) (ih _)
    · rename_i q' he
      exact htrans _ _ _ (hnone q q' he) (ih _)

theorem spill_gives (k : Fin n) (count : Nat) (q : WorkStealQueue T n) :
    q.Gives none (spill k count q) := by
  refine spill_loop (R := fun q q' => q.Gives none q') .refl (fun _ _ _ h h' => h.trans h') ?_ ?_
    count q
  · intro q item q' he
    have hp := q.popLocal_gives k
    have hg := push_gets q' item
    rw [he] at hp
    refine ⟨?_, hg.wf ∘ hp.wf⟩
    rw [hp.contents, hg.contents]
    simp
  · intro q q' he
    have hp := q.popLocal_gives k
    rwa [he] at hp

theorem pushBack_gets (l : LocalQueue n) (q : WorkStealQueue T n) (item : T) :
    q.Gets item (l.pushBack q item) := by
  unfold pushBack Worker.push
  split
  · rename_i w he
    split at he
    · rename_i hlt
      cases he
      refine ⟨contents_setLocal_put ?_, fun h => h.setLocal ?_⟩
      · rw [← Multiset.coe_add, add_comm]
        rfl
      · simp only [Worker.Fits, List.length_append, List.length_singleton]
        omega
    · cases he
  · rename_i item' he
    split at he
    · cases he
    · cases he
      exact (spill_gives l.queue _ q).gets (push_gets _ item)

/-- A steal moves items of another worker, as many as there is room for at most. -/
theorem stealFromSiblings_eq_move {l : LocalQueue n} {q q' : WorkStealQueue T n} {start : Nat}
    (h : l.stealFromSiblings q start = some q') :
    ∃ another count, (q.localQueues another).items ≠ [] ∧ 0 < count ∧
      count ≤ (q.localQueues l.queue).spareCapacity ∧ q' = q.move another l.queue count := by
  obtain ⟨i, -, hi⟩ := List.exists_of_findSome?_eq_some h
  unfold tryStealFrom at hi
  split at hi
  · cases hi
  · rename_i hempty
    split at hi
    · cases hi
    · unfold steal at hi
      dsimp only at hi
      split at hi
      · cases hi
      · rename_i hcount
        cases hi
        refine ⟨_, _, ?_, Nat.pos_of_ne_zero hcount, Nat.min_le_right _ _, rfl⟩
        simpa [Worker.isEmpty] using hempty

theorem stealFromSiblings_gives {l : LocalQueue n} {q q' : WorkStealQueue T n} {start : Nat}
    (h : l.stealFromSiblings q start = some q') : q.Gives none q' := by
  obtain ⟨another, count, -, -, hroom, rfl⟩ := stealFromSiblings_eq_move h
  exact ⟨by simp [contents_move], fun hw => hw.move hroom⟩

theorem popStealing_gives (l : LocalQueue n) (q : WorkStealQueue T n) :
    q.Gives (l.popStealing q).1 (l.popStealing q).2.2 := by
  unfold popStealing
  split
  · exact q.pop_gives
  · dsimp only
    split
    · rename_i q' he
      exact (stealFromSiblings_gives he).trans (q'.popLocal_gives l.queue)
    · exact q.pop_gives

theorem popFront_gives (l : LocalQueue n) (q : WorkStealQueue T n) :
    q.Gives (l.popFront q).1 (l.popFront q).2.2 := by
  have hshared : q.Gives (if l.nextTick.1 % 61 = 0 then q.pop else (none, q)).1
      (if l.nextTick.1 % 61 = 0 then q.pop else (none, q)).2 := by
    split
    · exact q.pop_gives
    · exact .refl q
  unfold popFront
  dsimp only
  split
  · rename_i val q' he
    simpa [he] using hshared
  · rename_i q' he
    rw [he] at hshared
    have hlocal := q'.popLocal_gives l.nextTick.2.queue
    split
    · rename_i val q'' he'
      rw [he'] at hlocal
      exact hshared.trans hlocal
    · rename_i q'' he'
      rw [he'] at hlocal
      exact (hshared.trans hlocal).trans (popStealing_gives _ _)

theorem popFront_stealing {l : LocalQueue n} (hl : l.stealing = false) (q : WorkStealQueue T n) :
    (l.popFront q).2.1.stealing = false := by
  have hn : l.nextTick.2.stealing = false := by
    unfold nextTick
    dsimp only
    split <;> exact hl
  unfold popFront
  dsimp only
  split
  · exact hn
  · split
    · exact hn
    · unfold popStealing
      dsimp only
      split
      · exact hn
      · split <;> rfl

end LocalQueue

/-! Runs: any operations on any handles, with the items pushed and popped so far. -/

structure QueueRun (η T : Type*) (n : Nat) where
  queue : WorkStealQueue T n
  handles : η → LocalQueue n
  pushed : Multiset T := 0
  popped : Multiset T := 0

inductive QueueOp (η T : Type*) where
  | push (item : T)
  | pop
  | pushBack (h : η) (item : T)
  | popFront (h : η)

namespace QueueRun

variable {η T : Type*} {n : Nat}

def step [DecidableEq η] (s : QueueRun η T n) : QueueOp η T → Option (QueueRun η T n)
  | .push item => some { s with queue := s.queue.push item, pushed := {item} + s.pushed }
  | .pop =>
    let r := s.queue.pop
    some { s with queue := r.2, popped := (r.1.toList : Multiset T) + s.popped }
  | .pushBack h item =>
    some { s with queue := (s.handles h).pushBack s.queue item, pushed := {item} + s.pushed }
  | .popFront h =>
    let r := (s.handles h).popFront s.queue
    some
      { s with
        queue := r.2.2
        handles := Function.update s.handles h r.2.1
        popped := (r.1.toList : Multiset T) + s.popped }

/-- Nothing pushed yet; the capacities, ticks and generators are arbitrary. -/
structure Initial (s : QueueRun η T n) : Prop where
  shared : s.queue.sharedQueue = []
  len : s.queue.len = 0
  locals : ∀ k, (s.queue.localQueues k).items = []
  stealing : ∀ h, (s.handles h).stealing = false
  pushed : s.pushed = 0
  popped : s.popped = 0

structure Balanced (s : QueueRun η T n) : Prop where
  conserved : s.pushed = s.popped + s.queue.contents
  wf : s.queue.WellFormed
  unlocked : ∀ h, (s.handles h).stealing = false

theorem Initial.balanced {s : QueueRun η T n} (h : s.Initial) : s.Balanced where
  conserved := by
    rw [h.pushed, h.popped, WorkStealQueue.contents, h.shared, total_zero]
    · rfl
    · intro k
      rw [h.locals k]
      rfl
  wf := ⟨by rw [h.len, h.shared]; rfl, fun k => by simp [Worker.Fits, h.locals k]⟩
  unlocked := h.stealing

theorem Balanced.step [DecidableEq η] {s t : QueueRun η T n} (h : s.Balanced) {a : QueueOp η T}
    (hs : s.step a = some t) : t.Balanced := by
  cases a with
  | push item =>
    have hg := s.queue.push_gets item
    simp only [QueueRun.step, Option.some.injEq] at hs
    subst hs
    refine ⟨?_, hg.wf h.wf, h.unlocked⟩
    rw [hg.contents, h.conserved, add_left_comm]
  | pop =>
    have hg := s.queue.pop_gives
    simp only [QueueRun.step, Option.some.injEq] at hs
    subst hs
    refine ⟨?_, hg.wf h.wf, h.unlocked⟩
    simp only [h.conserved, hg.contents, add_left_comm, add_assoc]
  | pushBack k item =>
    have hg := (s.handles k).pushBack_gets s.queue item
    simp only [QueueRun.step, Option.some.injEq] at hs
    subst hs
    refine ⟨?_, hg.wf h.wf, h.unlocked⟩
    rw [hg.contents, h.conserved, add_left_comm]
  | popFront k =>
    have hg := (s.handles k).popFront_gives s.queue
    simp only [QueueRun.step, Option.some.injEq] at hs
    subst hs
    refine ⟨?_, hg.wf h.wf, fun j => ?_⟩
    · simp only [h.conserved, hg.contents, add_left_comm, add_assoc]
    · by_cases hj : j = k
      · subst hj
        simpa using LocalQueue.popFront_stealing (h.unlocked j) s.queue
      · simpa [Function.update_of_ne hj] using h.unlocked j

/-- No operation loses or duplicates an item, over-fills a worker, miscounts the global
queue or leaves a handle locked. -/
theorem queue_conserves [DecidableEq η] {s₀ s : QueueRun η T n} (h₀ : s₀.Initial)
    (h : Reaches QueueRun.step Free s₀ s) :
    s.pushed = s.popped + s.queue.contents ∧
      (∀ k, (s.queue.localQueues k).items.length ≤ (s.queue.localQueues k).capacity) ∧
      s.queue.len = s.queue.sharedQueue.length ∧
      ∀ h, (s.handles h).stealing = false := by
  have hb : s.Balanced := h.invariant h₀.balanced fun _ _ _ hi _ hs => hi.step hs
  exact ⟨hb.conserved, hb.wf.fits, hb.wf.counted, hb.unlocked⟩

def spilling : QueueRun (Fin 2) Nat 2 where
  queue := .new 1
  handles k := ⟨0, false, k, ⟨1, 1⟩⟩

def spillOps : List (QueueOp (Fin 2) Nat) :=
  [.pushBack 0 5, .pushBack 0 6, .popFront 1, .push 7, .pop]

def spilled : QueueRun (Fin 2) Nat 2 := (run QueueRun.step spilling spillOps).getD spilling

theorem queue_conserves_spilled : spilled.pushed = spilled.popped + spilled.queue.contents :=
  (queue_conserves (show spilling.Initial from ⟨rfl, rfl, fun _ => rfl, fun _ => rfl, rfl, rfl⟩)
    (Reaches.of_run spillOps rfl (guarded_free _))).1

end QueueRun

end OpenCoroutine
