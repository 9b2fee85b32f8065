import Mathlib.Data.Prod.Lex
import OpenCoroutine.Descent
import OpenCoroutine.Fairness

/-! Nothing starves in the work-stealing queue. An item comes nearer to the front of the worker it
is in, or is stolen to a place nearer to the front of another one, or is moved to the global
queue, where it comes nearer to the front as well and which it does not leave for a worker. -/

namespace OpenCoroutine

open Descent Transition

/-- A position in the global queue, or in a worker. -/
inductive Spot (n : Nat) where
  | shared (i : Nat)
  | own (k : Fin n) (i : Nat)
  deriving DecidableEq, Repr

def Spot.rank {n : Nat} : Spot n → Nat ×ₗ Nat
  | shared i => toLex (0, i)
  | own _ i => toLex (1, i)

theorem Spot.rank_shared {n i j : Nat} (h : i < j) :
    (shared i : Spot n).rank < (shared j : Spot n).rank :=
  Prod.Lex.toLex_lt_toLex.2 (.inr ⟨rfl, h⟩)

theorem Spot.rank_own {n i j : Nat} {k k' : Fin n} (h : i < j) : (own k i).rank < (own k' j).rank :=
  Prod.Lex.toLex_lt_toLex.2 (.inr ⟨rfl, h⟩)

theorem Spot.rank_shared_own {n i j : Nat} {k : Fin n} :
    (shared i : Spot n).rank < (own k j).rank :=
  Prod.Lex.toLex_lt_toLex.2 (.inl Nat.zero_lt_one)

namespace WorkStealQueue

variable {T : Type*} {n : Nat}

def At (q : WorkStealQueue T n) (x : T) : Spot n → Prop
  | .shared i => q.sharedQueue[i]? = some x
  | .own k i => (q.localQueues k).items[i]? = some x

/-- What is not taken out by the operation stays where it is, or moves to a lower rank. -/
def Nears (q : WorkStealQueue T n) (r : Option T) (q' : WorkStealQueue T n) : Prop :=
  ∀ x spot, q.At x spot → r = some x ∨ ∃ spot', q'.At x spot' ∧ (spot' = spot ∨ spot'.rank < spot.rank)

variable {q q' q'' : WorkStealQueue T n} {r : Option T} {x : T} {k : Fin n}

theorem Nears.refl (q : WorkStealQueue T n) (r : Option T) : q.Nears r q :=
  fun _ spot hx => .inr ⟨spot, hx, .inl rfl⟩

theorem Nears.trans (h : q.Nears none q') (h' : q'.Nears r q'') : q.Nears r q'' := by
  intro x spot hx
  rcases h x spot hx with hnone | ⟨spot', hx', hle⟩
  · cases hnone
  rcases h' x spot' hx' with hr | ⟨spot'', hx'', hle'⟩
  · exact .inl hr
  · refine .inr ⟨spot'', hx'', ?_⟩
    rcases hle with rfl | hlt
    · exact hle'
    · rcases hle' with rfl | hlt'
      · exact .inr hlt
      · exact .inr (hlt'.trans hlt)

theorem getElem?_tail {items : List T} {i : Nat} (hx : items[i]? = some x) :
    items.head? = some x ∨ ∃ j, j < i ∧ items.tail[j]? = some x := by
  cases i with
  | zero => exact .inl (by rw [List.head?_eq_getElem?, hx])
  | succ i => exact .inr ⟨i, Nat.lt_succ_self i, by rw [List.getElem?_tail, hx]⟩

theorem At.push {spot : Spot n} (hx : q.At x spot) (item : T) : (q.push item).At x spot := by
  cases spot with
  | own k i => exact hx
  | shared i =>
    change (q.sharedQueue ++ [item])[i]? = some x
    rw [List.getElem?_append_left (List.getElem?_eq_some_iff.1 hx).1]
    exact hx

theorem push_nears (q : WorkStealQueue T n) (item : T) : q.Nears none (q.push item) :=
  fun _ spot hx => .inr ⟨spot, hx.push item, .inl rfl⟩

theorem pop_nears (q : WorkStealQueue T n) : q.Nears q.pop.1 q.pop.2 := by
  unfold pop
  split
  · exact .refl q _
  · split
    · exact .refl q _
    · rename_i item rest hq
      intro x spot hx
      cases spot with
      | own k i => exact .inr ⟨.own k i, hx, .inl rfl⟩
      | shared i =>
        rcases getElem?_tail hx with hhead | ⟨j, hlt, hj⟩
        · left
          rw [hq] at hhead
          exact hhead
        · right
          rw [hq] at hj
          exact ⟨.shared j, hj, .inr (Spot.rank_shared hlt)⟩

/-- The item in its own worker comes nearer to the front, or is taken out. -/
theorem popLocal_own {i : Nat} (hx : q.At x (.own k i)) :
    (q.popLocal k).1 = some x ∨
      ∃ spot, (q.popLocal k).2.At x spot ∧ spot.rank < (Spot.own k i).rank := by
  rcases getElem?_tail hx with hhead | ⟨j, hlt, hj⟩
  · exact .inl hhead
  · refine .inr ⟨.own k j, ?_, Spot.rank_own hlt⟩
    simpa [popLocal, Worker.pop, setLocal, At] using hj

theorem popLocal_other {spot : Spot n} (hx : q.At x spot) (hother : ∀ i, spot ≠ .own k i) :
    (q.popLocal k).2.At x spot := by
  cases spot with
  | shared i => exact hx
  | own j i =>
    have hj : j ≠ k := fun he => hother i (by rw [he])
    simpa [popLocal, setLocal, At, Function.update_of_ne hj] using hx

theorem popLocal_nears (q : WorkStealQueue T n) (k : Fin n) :
    q.Nears (q.popLocal k).1 (q.popLocal k).2 := by
  intro x spot hx
  by_cases hk : ∃ i, spot = .own k i
  · obtain ⟨i, rfl⟩ := hk
    exact (popLocal_own hx).imp_right fun ⟨spot, hspot, hlt⟩ => ⟨spot, hspot, .inr hlt⟩
  · exact .inr ⟨spot, popLocal_other hx fun i he => hk ⟨i, he⟩, .inl rfl⟩

/-- An item that is spilled goes to the end of the global queue. -/
theorem spilled_nears {item : T} (h : q.popLocal k = (some item, q')) :
    q.Nears none (q'.push item) := by
  have hpop := q.popLocal_nears k
  rw [h] at hpop
  intro x spot hx
  by_cases hk : ∃ i, spot = .own k i
  · obtain ⟨i, rfl⟩ := hk
    right
    rcases popLocal_own hx with hr | ⟨spot, hspot, hlt⟩
    · rw [h, Option.some.injEq] at hr
      subst hr
      exact ⟨.shared q'.sharedQueue.length, List.getElem?_concat_length, .inr Spot.rank_shared_own⟩
    · rw [h] at hspot
      exact ⟨spot, hspot.push item, .inr hlt⟩
  · have hsame := popLocal_other hx fun i he => hk ⟨i, he⟩
    rw [h] at hsame
    exact .inr ⟨spot, hsame.push item, .inl rfl⟩

/-- A steal into an empty worker that then takes its front. -/
theorem stolen_nears {another : Fin n} (count : Nat) (hne : another ≠ k)
    (hnil : (q.localQueues k).items = []) :
    q.Nears ((q.move another k count).popLocal k).1 ((q.move another k count).popLocal k).2 := by
  have hdest : ((q.move another k count).localQueues k).items =
      (q.localQueues another).items.take count := by
    simp [move, setLocal, Function.update_of_ne hne.symm, hnil]
  have hsource : ((q.move another k count).localQueues another).items =
      (q.localQueues another).items.drop count := by
    simp [move, setLocal, Function.update_of_ne hne]
  have hother : ∀ j, j ≠ another → j ≠ k →
      (q.move another k count).localQueues j = q.localQueues j := by
    intro j hj hk
    simp [move, setLocal, Function.update_of_ne hj, Function.update_of_ne hk]
  intro x spot hx
  cases spot with
  | shared i =>
    refine .inr ⟨.shared i, popLocal_other (by exact hx) fun i' he => ?_, .inl rfl⟩
    cases he
  | own j i =>
    have hjk : j ≠ k := by
      rintro rfl
      rw [At, hnil] at hx
      cases hx
    by_cases hj : j = another
    · subst hj
      by_cases hi : i < count
      · have hmoved : (q.move j k count).At x (.own k i) := by
          rw [At, hdest, List.getElem?_take_of_lt hi]
          exact hx
        rcases popLocal_own hmoved with hr | ⟨spot, hspot, hlt⟩
        · exact .inl hr
        · exact .inr ⟨spot, hspot, .inr hlt⟩
      · have hmoved : (q.move j k count).At x (.own j (i - count)) := by
          rw [At, hsource, List.getElem?_drop, Nat.add_sub_cancel' (not_lt.1 hi)]
          exact hx
        refine .inr ⟨.own j (i - count), popLocal_other hmoved fun i' he => ?_, ?_⟩
        · cases he
          exact hjk rfl
        · rcases Nat.eq_zero_or_pos count with rfl | hpos
          · exact .inl rfl
          · exact .inr (Spot.rank_own (by omega))
    · refine .inr ⟨.own j i, popLocal_other ?_ fun i' he => ?_, .inl rfl⟩
      · rw [At, hother j hj hjk]
        exact hx
      · cases he
        exact hjk rfl

theorem exists_at (hx : x ∈ q.contents) : ∃ spot, q.At x spot := by
  simp only [contents, Family.total, Multiset.mem_add, Multiset.mem_coe, Multiset.mem_sum,
    Finset.mem_univ, true_and] at hx
  rcases hx with hx | ⟨k, hx⟩
  · obtain ⟨i, hi⟩ := List.mem_iff_getElem?.1 hx
    exact ⟨.shared i, hi⟩
  · obtain ⟨i, hi⟩ := List.mem_iff_getElem?.1 hx
    exact ⟨.own k i, hi⟩

end WorkStealQueue

namespace LocalQueue

open WorkStealQueue

variable {T : Type*} {n : Nat} {l : LocalQueue n} {q : WorkStealQueue T n} {x : T}

theorem spill_nears (k : Fin n) (count : Nat) (q : WorkStealQueue T n) :
    q.Nears none (spill k count q) := by
  refine spill_loop (R := fun q q' => q.Nears none q') (fun q => .refl q _)
    (fun _ _ _ h h' => h.trans h') (fun _ _ _ he => spilled_nears he) (fun q q' he => ?_) count q
  have hp := q.popLocal_nears k
  rw [he] at hp
  exact hp

theorem pushBack_nears (l : LocalQueue n) (q : WorkStealQueue T n) (item : T) :
    q.Nears none (l.pushBack q item) := by
  unfold pushBack Worker.push
  split
  · rename_i w he
    split at he
    · cases he
      refine fun x spot hx => .inr ⟨spot, ?_, .inl rfl⟩
      cases spot with
      | shared i => exact hx
      | own k i =>
        by_cases hk : k = l.queue
        · subst hk
          have hlt := (List.getElem?_eq_some_iff.1 hx).1
          simpa [At, setLocal, List.getElem?_append_left hlt] using hx
        · simpa [At, setLocal, Function.update_of_ne hk] using hx
    · cases he
  · exact (spill_nears _ _ q).trans (push_nears _ _)

theorem popFront_nears (l : LocalQueue n) (q : WorkStealQueue T n) :
    q.Nears (l.popFront q).1 (l.popFront q).2.2 := by
  rcases l.popFront_cases q with ⟨item, -, hitem, he⟩ | ⟨-, ⟨item, hitem, he⟩ | ⟨hnil, he⟩⟩
  · rw [he, ← hitem]
    exact q.pop_nears
  · rw [he, ← hitem]
    exact q.popLocal_nears _
  · rw [he]
    rcases l.nextTick.2.popStealing_cases q with ⟨l', he'⟩ | ⟨thief, l', q', start, hsteal, hq, he'⟩
    · rw [he']
      exact q.pop_nears
    · obtain ⟨another, count, hs, -, -, rfl⟩ := stealFromSiblings_eq_move hsteal
      rw [nextTick_queue] at hq he'
      rw [he', hq]
      refine stolen_nears count ?_ hnil
      rintro rfl
      exact hs hnil

/-- A call that does not look at the global queue first takes the front of its own worker. -/
theorem popFront_own {i : Nat} (ht : l.nextTick.1 % 61 ≠ 0) (hx : q.At x (.own l.queue i)) :
    (l.popFront q).1 = some x ∨
      ∃ spot, (l.popFront q).2.2.At x spot ∧ spot.rank < (Spot.own l.queue i).rank := by
  rcases l.popFront_cases q with ⟨item, hzero, -⟩ | ⟨-, ⟨item, hitem, he⟩ | ⟨hnil, -⟩⟩
  · exact absurd hzero ht
  · rw [he, ← hitem]
    exact popLocal_own hx
  · rw [At, hnil] at hx
    cases hx

/-- A call that looks at the global queue first takes its front. -/
theorem popFront_shared {i : Nat} (hwf : q.WellFormed) (ht : l.nextTick.1 % 61 = 0)
    (hx : q.At x (.shared i)) :
    (l.popFront q).1 = some x ∨
      ∃ spot, (l.popFront q).2.2.At x spot ∧ spot.rank < (Spot.shared i : Spot n).rank := by
  have hne : q.sharedQueue ≠ [] := by
    intro hnil
    rw [At, hnil] at hx
    cases hx
  obtain ⟨front, hfront, hq⟩ := pop_of_ne_nil hwf hne
  rcases l.popFront_cases q with ⟨item, -, hitem, he⟩ | ⟨hnone, -⟩
  · rw [he]
    rw [hitem, Option.some.injEq] at hfront
    subst hfront
    rcases getElem?_tail hx with hhead | ⟨j, hlt, hj⟩
    · left
      rw [hq] at hhead
      exact hhead
    · right
      rw [hq] at hj
      exact ⟨.shared j, hj, Spot.rank_shared hlt⟩
  · rw [hnone ht] at hfront
    cases hfront

theorem nextTick_tick (l : LocalQueue n) :
    l.nextTick.1 = l.tick + 1 ∧ l.nextTick.2.tick = l.tick + 1 := by
  unfold nextTick
  dsimp only
  split
  · rename_i hmax
    have hwrap : (0 : UInt32) = l.tick + 1 := by
      rw [hmax]
      decide
    exact ⟨hwrap, hwrap⟩
  · exact ⟨rfl, rfl⟩

theorem succ_mod_ne_zero {tick : UInt32} (h : tick % 61 = 0) : (tick + 1) % 61 ≠ 0 := by
  have hlt := tick.toNat_lt
  have hmod : tick.toNat % 61 = 0 := by
    rw [← UInt32.toNat_inj, UInt32.toNat_mod] at h
    exact h
  rw [ne_eq, ← UInt32.toNat_inj, UInt32.toNat_mod, UInt32.toNat_add, UInt32.toNat_one]
  change (tick.toNat + 1) % 2 ^ 32 % 61 ≠ 0
  omega

/-- A handle through an infinite run, and when `pop_front` is called on it. -/
structure Called (l : Nat → LocalQueue n) (calls : Nat → Prop) : Prop where
  queue : ∀ i, (l (i + 1)).queue = (l i).queue
  same : ∀ i, ¬ calls i → (l (i + 1)).tick = (l i).tick
  tick : ∀ i, calls i → (l (i + 1)).tick = (l i).nextTick.2.tick

theorem Called.queue_eq {l : Nat → LocalQueue n} {calls : Nat → Prop} (h : Called l calls)
    (i : Nat) : (l i).queue = (l 0).queue := by
  induction i with
  | zero => rfl
  | succ i ih => rw [h.queue, ih]

/-- Calls that recur look at their own worker first again and again. -/
theorem Called.own_recurs {l : Nat → LocalQueue n} {calls : Nat → Prop} (h : Called l calls)
    (hcalls : Recurs calls) : Recurs fun i => calls i ∧ (l i).nextTick.1 % 61 ≠ 0 := by
  refine hcalls.good (fun i => if (l i).nextTick.1 % 61 = 0 then 1 else 0) (fun i hi => ?_)
    fun i hi => ?_
  · rw [(nextTick_tick _).1, (nextTick_tick _).1, h.same i hi]
  · by_cases ht : (l i).nextTick.1 % 61 = 0
    · right
      have hnext : (l (i + 1)).nextTick.1 % 61 ≠ 0 := by
        rw [(nextTick_tick _).1, h.tick i hi, (nextTick_tick _).2]
        rw [(nextTick_tick _).1] at ht
        exact succ_mod_ne_zero ht
      rw [if_pos ht, if_neg hnext]
      exact Nat.zero_lt_one
    · exact .inl ⟨hi, ht⟩

/-- Calls that recur look at the global queue first again and again. -/
theorem Called.shared_recurs {l : Nat → LocalQueue n} {calls : Nat → Prop} (h : Called l calls)
    (hcalls : Recurs calls) : Recurs fun i => calls i ∧ (l i).nextTick.1 % 61 = 0 := by
  refine hcalls.good (fun i => untilGlobal (l i).tick) (fun i hi => ?_) fun i hi => ?_
  · rw [h.same i hi]
  · rcases (l i).nextTick_untilGlobal with ht | hlow
    · exact .inl ⟨hi, ht⟩
    · right
      rw [h.tick i hi]
      omega

end LocalQueue

namespace QueueRun

open LocalQueue WorkStealQueue

variable {η T : Type*} {n : Nat} [DecidableEq η]

/-- What the operation gives to its caller. -/
def gives (s : QueueRun η T n) : QueueOp η T → Option T
  | .pop => s.queue.pop.1
  | .popFront h => ((s.handles h).popFront s.queue).1
  | .push _ | .pushBack _ _ => none

theorem step_nears {s t : QueueRun η T n} {a : QueueOp η T} (hs : s.step a = some t) :
    s.queue.Nears (s.gives a) t.queue := by
  cases a with
  | push item =>
    cases hs
    exact s.queue.push_nears item
  | pop =>
    cases hs
    exact s.queue.pop_nears
  | pushBack h item =>
    cases hs
    exact (s.handles h).pushBack_nears s.queue item
  | popFront h =>
    cases hs
    exact (s.handles h).popFront_nears s.queue

/-- A call of `pop_front` on the handle moves its tick on, and nothing else touches it. -/
theorem step_handle {s t : QueueRun η T n} {a : QueueOp η T} (hs : s.step a = some t) (h : η) :
    (t.handles h).queue = (s.handles h).queue ∧
      (isPopFront h a = false → t.handles h = s.handles h) ∧
      (isPopFront h a = true → (t.handles h).tick = (s.handles h).nextTick.2.tick) := by
  cases a with
  | push item | pop | pushBack j item =>
    cases hs
    exact ⟨rfl, fun _ => rfl, fun he => absurd he Bool.false_ne_true⟩
  | popFront j =>
    cases hs
    by_cases hj : j = h
    · subst hj
      have hk := (s.handles j).popFront_handle s.queue
      simp only [Function.update_self, isPopFront, decide_true]
      exact ⟨hk.1, fun he => absurd he (by decide), fun _ => hk.2⟩
    · have hh : h ≠ j := fun he => hj he.symm
      simp only [Function.update_of_ne hh, isPopFront, hj, decide_false]
      exact ⟨trivial, fun _ => trivial, fun he => absurd he Bool.false_ne_true⟩

/-- The operation takes the item at `spot` out, or brings it nearer to the front. -/
def Advances (s t : QueueRun η T n) (a : QueueOp η T) (x : T) (spot : Spot n) : Prop :=
  s.queue.At x spot → s.gives a = some x ∨ ∃ spot', t.queue.At x spot' ∧ spot'.rank < spot.rank

theorem advances_own {s t : QueueRun η T n} {j : η} (hs : s.step (.popFront j) = some t)
    (ht : (s.handles j).nextTick.1 % 61 ≠ 0) (x : T) (i : Nat) :
    s.Advances t (.popFront j) x (.own (s.handles j).queue i) := by
  intro hx
  cases hs
  exact popFront_own ht hx

theorem advances_shared {s t : QueueRun η T n} {j : η} (hs : s.step (.popFront j) = some t)
    (hwf : s.queue.WellFormed) (ht : (s.handles j).nextTick.1 % 61 = 0) (x : T) (i : Nat) :
    s.Advances t (.popFront j) x (.shared i) := by
  intro hx
  cases hs
  exact popFront_shared hwf ht hx

/-- An infinite run. -/
def Runs (σ : Nat → QueueRun η T n) (act : Nat → QueueOp η T) : Prop :=
  ∀ i, (σ i).step (act i) = some (σ (i + 1))

variable {σ : Nat → QueueRun η T n} {act : Nat → QueueOp η T}

theorem Runs.wf (h : Runs σ act) (hwf : (σ 0).queue.WellFormed) (i : Nat) :
    (σ i).queue.WellFormed := by
  induction i with
  | zero => exact hwf
  | succ i ih => exact wellFormed_step ih (h i)

theorem Runs.called (h : Runs σ act) (j : η) :
    Called (fun i => (σ i).handles j) fun i => isPopFront j (act i) = true where
  queue i := (step_handle (h i) j).1
  same i hi := by rw [(step_handle (h i) j).2.1 (Bool.eq_false_iff.2 hi)]
  tick i hi := (step_handle (h i) j).2.2 hi

theorem isPopFront_eq {j : η} {a : QueueOp η T} (h : isPopFront j a = true) : a = .popFront j := by
  cases a with
  | popFront k => rw [of_decide_eq_true h]
  | push | pop | pushBack => cases h

/-- On an infinite run on which every worker has a handle whose calls of `pop_front` recur, an item
that is in the queue is given out some time. -/
theorem none_starves (hn : 0 < n) (h : Runs σ act) (hwf : (σ 0).queue.WellFormed)
    (hfair : ∀ k, ∃ j, ((σ 0).handles j).queue = k ∧
      Recurs fun i => isPopFront j (act i) = true) {i : Nat} {x : T}
    (hx : x ∈ (σ i).queue.contents) : ∃ i', i ≤ i' ∧ (σ i').gives (act i') = some x := by
  obtain ⟨spot, hspot⟩ := exists_at hx
  refine eventually_done (fun i spot => (σ i).queue.At x spot) Spot.rank
    (fun i => (σ i).gives (act i) = some x) (fun i spot hx => step_nears (h i) x spot hx)
    (fun spot => ?_) hspot
  cases spot with
  | own k m =>
    obtain ⟨j, hk, hj⟩ := hfair k
    intro i
    obtain ⟨i', hle, hpop, ht⟩ := (h.called j).own_recurs hj i
    have ha := isPopFront_eq hpop
    have hadv := advances_own (ha ▸ h i') ht x m
    rw [(h.called j).queue_eq i', hk, ← ha] at hadv
    exact ⟨i', hle, hadv⟩
  | shared m =>
    obtain ⟨j, -, hj⟩ := hfair ⟨0, hn⟩
    intro i
    obtain ⟨i', hle, hpop, ht⟩ := (h.called j).shared_recurs hj i
    have ha := isPopFront_eq hpop
    have hadv := advances_shared (ha ▸ h i') (h.wf hwf i') ht x m
    rw [← ha] at hadv
    exact ⟨i', hle, hadv⟩

/-- Two workers with an item each and one in the global queue, whose handles call in turn. -/
def turns : Nat → QueueRun (Fin 2) Nat 2
  | 0 =>
    { queue := ⟨[7], 1, fun k => ⟨2, [k.val]⟩⟩
      handles := fun k => ⟨0, false, k, ⟨1, 1⟩⟩ }
  | i + 1 => ((turns i).step (.popFront (Fin.ofNat 2 i))).getD (turns i)

theorem none_starves_turns :
    ∃ i, (turns i).gives (.popFront (Fin.ofNat 2 i)) = some 7 := by
  have hruns : Runs turns fun i => .popFront (Fin.ofNat 2 i) := fun i => rfl
  have hfits : ∀ k, ((turns 0).queue.localQueues k).items.length ≤
      ((turns 0).queue.localQueues k).capacity := by decide
  have hrecurs : ∀ j : Fin 2, Recurs fun i => isPopFront j
      (.popFront (Fin.ofNat 2 i) : QueueOp (Fin 2) Nat) = true := fun j i =>
    ⟨2 * i + j, by omega, decide_eq_true (Fin.ext (show (2 * i + j.val) % 2 = j.val by omega))⟩
  obtain ⟨i, -, hi⟩ := none_starves (i := 0) Nat.two_pos hruns ⟨rfl, hfits⟩
    (fun k => ⟨k, rfl, hrecurs k⟩) (Multiset.mem_add.2 (.inl (List.mem_cons_self (a := 7))))
  exact ⟨i, hi⟩

end QueueRun

end OpenCoroutine
