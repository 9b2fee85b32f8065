import OpenCoroutine.Finding

/-! The global queue is served however busy the local queue is. What an operation does to
the global queue is to append to it or to take its front, and of any 61 calls of
`pop_front` on one handle, the wrap of `tick` included, one takes the front. -/

namespace OpenCoroutine

open Transition

namespace WorkStealQueue

variable {T : Type*} {n : Nat}

/-- The operation leaves the global queue, or takes its front. -/
def Takes (q q' : WorkStealQueue T n) : Prop :=
  q'.sharedQueue = q.sharedQueue ∨ ∃ item, q.sharedQueue = item :: q'.sharedQueue

theorem pop_takes (q : WorkStealQueue T n) : q.Takes q.pop.2 := by
  unfold pop
  split
  · exact .inl rfl
  · split
    · exact .inl rfl
    · rename_i item rest hq
      exact .inr ⟨item, hq⟩

/-- With an exact counter the front of the global queue is found. -/
theorem pop_of_ne_nil {q : WorkStealQueue T n} (h : q.WellFormed) (hne : q.sharedQueue ≠ []) :
    ∃ item, q.pop.1 = some item ∧ q.sharedQueue = item :: q.pop.2.sharedQueue := by
  have hlen := h.counted
  have hpos := List.length_pos_iff.2 hne
  cases hq : q.sharedQueue with
  | nil => exact absurd hq hne
  | cons item rest =>
    have hl : q.len ≠ 0 := by omega
    exact ⟨item, by simp [pop, hl, hq], by simp [pop, hl, hq]⟩

end WorkStealQueue

namespace LocalQueue

open WorkStealQueue

variable {T : Type*} {n : Nat}

theorem spill_shared (k : Fin n) (count : Nat) (q : WorkStealQueue T n) :
    ∃ added, (spill k count q).sharedQueue = q.sharedQueue ++ added := by
  refine spill_loop (R := fun q q' => ∃ added, q'.sharedQueue = q.sharedQueue ++ added)
    (fun _ => ⟨[], (List.append_nil _).symm⟩) ?_ ?_ ?_ count q
  · rintro q q' q'' ⟨added, h⟩ ⟨added', h'⟩
    exact ⟨added ++ added', by rw [h', h, List.append_assoc]⟩
  · intro q item q' he
    have hq' : q'.sharedQueue = q.sharedQueue := (congrArg (fun r => r.2.sharedQueue) he).symm
    exact ⟨[item], by rw [WorkStealQueue.push, hq']⟩
  · intro q q' he
    have hq' : q'.sharedQueue = q.sharedQueue := (congrArg (fun r => r.2.sharedQueue) he).symm
    exact ⟨[], by rw [hq', List.append_nil]⟩

theorem pushBack_shared (l : LocalQueue n) (q : WorkStealQueue T n) (item : T) :
    ∃ added, (l.pushBack q item).sharedQueue = q.sharedQueue ++ added := by
  unfold pushBack
  split
  · exact ⟨[], (List.append_nil _).symm⟩
  · rename_i item' _
    obtain ⟨added, ha⟩ := spill_shared l.queue (l.len q / 2) q
    refine ⟨added ++ [item'], ?_⟩
    rw [WorkStealQueue.push, ha, List.append_assoc]

theorem popFront_takes (l : LocalQueue n) (q : WorkStealQueue T n) :
    q.Takes (l.popFront q).2.2 := by
  rcases l.popFront_leaves q with he | he | ⟨another, count, -, -, he⟩
  · rw [he]
    exact q.pop_takes
  · rw [he]
    exact .inl rfl
  · rw [he]
    exact .inl rfl

/-- A call at a tick that is a multiple of 61 takes the front of the global queue. -/
theorem popFront_global {l : LocalQueue n} {q : WorkStealQueue T n} (h : q.WellFormed)
    (ht : l.nextTick.1 % 61 = 0) (hne : q.sharedQueue ≠ []) :
    ∃ item, q.sharedQueue = item :: (l.popFront q).2.2.sharedQueue := by
  obtain ⟨item, hpop, hq⟩ := pop_of_ne_nil h hne
  rcases l.popFront_cases q with ⟨_, -, -, he⟩ | ⟨hnone, -⟩
  · rw [he]
    exact ⟨item, hq⟩
  · rw [hnone ht] at hpop
    cases hpop

/-! The tick. -/

/-- The calls of `pop_front` up to the next one that looks at the global queue first. -/
def untilGlobal (tick : UInt32) : Nat := min (61 - tick.toNat % 61) (2 ^ 32 - tick.toNat)

theorem untilGlobal_pos (tick : UInt32) : 1 ≤ untilGlobal tick := by
  have hlt := tick.toNat_lt
  unfold untilGlobal
  omega

theorem untilGlobal_le (tick : UInt32) : untilGlobal tick ≤ 61 := by
  unfold untilGlobal
  omega

/-- The next call looks at the global queue first, or one call less is left. The wrap only
makes their number smaller. -/
theorem nextTick_untilGlobal (l : LocalQueue n) :
    l.nextTick.1 % 61 = 0 ∨ untilGlobal l.nextTick.2.tick + 1 = untilGlobal l.tick := by
  unfold nextTick
  dsimp only
  split
  · exact .inl (by simp)
  · rename_i hmax
    have hlt := l.tick.toNat_lt
    have hne : l.tick.toNat ≠ 2 ^ 32 - 1 := fun he => hmax (UInt32.toNat_inj.1 he)
    have hsucc : (l.tick + 1).toNat = l.tick.toNat + 1 := by
      rw [UInt32.toNat_add, UInt32.toNat_one]
      omega
    by_cases hmod : (l.tick.toNat + 1) % 61 = 0
    · left
      apply UInt32.toNat_inj.1
      rw [UInt32.toNat_mod, hsucc]
      exact hmod
    · right
      unfold untilGlobal
      rw [hsucc]
      omega

end LocalQueue

namespace QueueRun

open LocalQueue

variable {η T : Type*} {n : Nat} [DecidableEq η]

theorem step_total (s : QueueRun η T n) (a : QueueOp η T) : ∃ t, s.step a = some t := by
  cases a with
  | push item | pop | pushBack j item | popFront j => exact ⟨_, rfl⟩

theorem wellFormed_step {s t : QueueRun η T n} (h : s.queue.WellFormed) {a : QueueOp η T}
    (hs : s.step a = some t) : t.queue.WellFormed := by
  cases a with
  | push item => exact Option.some.inj hs ▸ (s.queue.push_gets item).wf h
  | pop => exact Option.some.inj hs ▸ s.queue.pop_gives.wf h
  | pushBack k item => exact Option.some.inj hs ▸ ((s.handles k).pushBack_gets s.queue item).wf h
  | popFront k => exact Option.some.inj hs ▸ ((s.handles k).popFront_gives s.queue).wf h

theorem step_shared {s t : QueueRun η T n} {a : QueueOp η T} (hs : s.step a = some t) :
    (∃ added, t.queue.sharedQueue = s.queue.sharedQueue ++ added) ∨
      ∃ item, s.queue.sharedQueue = item :: t.queue.sharedQueue := by
  have htakes : s.queue.Takes t.queue →
      (∃ added, t.queue.sharedQueue = s.queue.sharedQueue ++ added) ∨
        ∃ item, s.queue.sharedQueue = item :: t.queue.sharedQueue := by
    rintro (he | he)
    · exact .inl ⟨[], by rw [he, List.append_nil]⟩
    · exact .inr he
  cases a with
  | push item =>
    cases hs
    exact .inl ⟨[item], rfl⟩
  | pop =>
    cases hs
    exact htakes s.queue.pop_takes
  | pushBack k item =>
    cases hs
    exact .inl ((s.handles k).pushBack_shared s.queue item)
  | popFront k =>
    cases hs
    exact htakes ((s.handles k).popFront_takes s.queue)

def isPopFront (k : η) : QueueOp η T → Bool
  | .popFront k' => k' = k
  | _ => false

/-- An operation takes the front of the global queue, or it appends to it and, if it is a
call of `pop_front`, brings the next look at the global queue nearer. -/
theorem step_untilGlobal {s t : QueueRun η T n} (h : s.queue.WellFormed) (k : η)
    {a : QueueOp η T} (hs : s.step a = some t) (hne : s.queue.sharedQueue ≠ []) :
    (∃ item, s.queue.sharedQueue = item :: t.queue.sharedQueue) ∨
      (∃ added, t.queue.sharedQueue = s.queue.sharedQueue ++ added) ∧
        untilGlobal (t.handles k).tick + [a].countP (isPopFront k) =
          untilGlobal (s.handles k).tick := by
  rcases step_shared hs with hadds | htakes
  · refine .inr ⟨hadds, ?_⟩
    obtain ⟨added, hadded⟩ := hadds
    cases a with
    | push item | pop | pushBack j item =>
      cases hs
      simp [isPopFront]
    | popFront j =>
      cases hs
      by_cases hj : j = k
      · subst hj
        have ht := ((s.handles j).popFront_handle s.queue).2
        rcases (s.handles j).nextTick_untilGlobal with hglobal | hnext
        · obtain ⟨item, hitem⟩ := popFront_global h hglobal hne
          have hlen := congrArg List.length hitem
          have hlen' := congrArg List.length hadded
          simp only [List.length_cons, List.length_append] at hlen hlen'
          omega
        · simp only [Function.update_self, ht, isPopFront, List.countP_singleton, decide_true,
            if_true]
          exact hnext
      · have hk : k ≠ j := fun he => hj he.symm
        simp [Function.update_of_ne hk, isPopFront, hj]
  · exact .inl htakes

/-- The item that is at position `k` of the global queue leaves it within so many calls as
bring the first look at the global queue, and 61 for each item before it. -/
theorem serves {s : QueueRun η T n} (h : s.queue.WellFormed) (j : η) {k : Nat}
    {as : List (QueueOp η T)} (hk : k < s.queue.sharedQueue.length)
    (hcalls : untilGlobal (s.handles j).tick + 61 * k ≤ as.countP (isPopFront j)) :
    ∃ before a after u v pushed, as = before ++ a :: after ∧
      (before ++ [a]).countP (isPopFront j) ≤ untilGlobal (s.handles j).tick + 61 * k ∧
      run QueueRun.step s before = some u ∧ u.step a = some v ∧
      u.queue.sharedQueue = s.queue.sharedQueue.drop k ++ pushed ∧
      v.queue.sharedQueue = s.queue.sharedQueue.drop (k + 1) ++ pushed := by
  have hpos := untilGlobal_pos (s.handles j).tick
  induction as generalizing s k with
  | nil =>
    simp only [List.countP_nil] at hcalls
    omega
  | cons a as ih =>
    obtain ⟨r, hs⟩ := s.step_total a
    have hwf := wellFormed_step h hs
    have hpos' := untilGlobal_pos (r.handles j).tick
    have hle := untilGlobal_le (r.handles j).tick
    have hcons : (a :: as).countP (isPopFront j) =
        [a].countP (isPopFront j) + as.countP (isPopFront j) := by
      rw [← List.countP_append]
      rfl
    have hone : [a].countP (isPopFront j) ≤ 1 := List.countP_le_length
    have hne : s.queue.sharedQueue ≠ [] := List.ne_nil_of_length_pos (by omega)
    rcases step_untilGlobal h j hs hne with ⟨item, hitem⟩ | ⟨⟨added, hadded⟩, hnext⟩
    · cases k with
      | zero =>
        refine ⟨[], a, as, s, r, [], rfl, ?_, rfl, hs, ?_, ?_⟩
        · rw [List.nil_append]
          omega
        · rw [List.drop_zero, List.append_nil]
        · rw [hitem, List.drop_succ_cons, List.drop_zero, List.append_nil]
      | succ k =>
        have hlen := congrArg List.length hitem
        rw [List.length_cons] at hlen
        have hk' : k < r.queue.sharedQueue.length := by omega
        have hcalls' : untilGlobal (r.handles j).tick + 61 * k ≤ as.countP (isPopFront j) := by omega
        obtain ⟨before, a', after, u, v, pushed, hsplit, hcount, hbefore, hv, hu', hv'⟩ :=
          ih hwf hk' hcalls' hpos'
        refine ⟨a :: before, a', after, u, v, pushed, by rw [hsplit]; rfl, ?_, ?_, hv, ?_, ?_⟩
        · rw [List.cons_append, ← List.singleton_append, List.countP_append]
          omega
        · simp only [run, hs, Option.bind_some, hbefore]
        · rw [hu', hitem, List.drop_succ_cons]
        · rw [hv', hitem, List.drop_succ_cons]
    · have hlen := congrArg List.length hadded
      rw [List.length_append] at hlen
      have hk' : k < r.queue.sharedQueue.length := by omega
      have hcalls' : untilGlobal (r.handles j).tick + 61 * k ≤ as.countP (isPopFront j) := by omega
      obtain ⟨before, a', after, u, v, pushed, hsplit, hcount, hbefore, hv, hu', hv'⟩ :=
        ih hwf hk' hcalls' hpos'
      refine ⟨a :: before, a', after, u, v, added ++ pushed, by rw [hsplit]; rfl, ?_, ?_, hv,
        ?_, ?_⟩
      · rw [List.cons_append, ← List.singleton_append, List.countP_append]
        omega
      · simp only [run, hs, Option.bind_some, hbefore]
      · rw [hu', hadded, List.drop_append_of_le_length (by omega), List.append_assoc]
      · rw [hv', hadded, List.drop_append_of_le_length (by omega), List.append_assoc]

/-- An item at position `k` of the global queue is taken from it within `61 * (k + 1)` calls
of `pop_front` on any one handle, whatever else is done in between. -/
theorem shared_served {s : QueueRun η T n} (h : s.queue.WellFormed) (j : η) {k : Nat}
    {as : List (QueueOp η T)} (hk : k < s.queue.sharedQueue.length)
    (hcalls : 61 * (k + 1) ≤ as.countP (isPopFront j)) :
    ∃ before a after u v pushed, as = before ++ a :: after ∧
      (before ++ [a]).countP (isPopFront j) ≤ 61 * (k + 1) ∧
      run QueueRun.step s before = some u ∧ u.step a = some v ∧
      u.queue.sharedQueue = s.queue.sharedQueue.drop k ++ pushed ∧
      v.queue.sharedQueue = s.queue.sharedQueue.drop (k + 1) ++ pushed := by
  have hle := untilGlobal_le (s.handles j).tick
  have hcalls' : untilGlobal (s.handles j).tick + 61 * k ≤ as.countP (isPopFront j) := by omega
  obtain ⟨before, a, after, u, v, pushed, hsplit, hcount, hrest⟩ := serves h j hk hcalls'
  exact ⟨before, a, after, u, v, pushed, hsplit, by omega, hrest⟩

/-- A full local queue, and a tick that wraps at the second call. -/
def busy : QueueRun (Fin 1) Nat 1 where
  queue := ⟨[7], 1, fun _ => ⟨2, [1, 2]⟩⟩
  handles k := ⟨(2 ^ 32 - 2 : Nat).toUInt32, false, k, ⟨1, 1⟩⟩

def busyOps : List (QueueOp (Fin 1) Nat) :=
  (List.replicate 61 [.popFront ⟨0, by decide⟩, .pushBack ⟨0, by decide⟩ 3]).flatten

theorem shared_served_busy : ∃ before a after, busyOps = before ++ a :: after ∧
    (before ++ [a]).countP (isPopFront ⟨0, by decide⟩) ≤ 61 := by
  have hfits : ∀ k, (busy.queue.localQueues k).items.length ≤
      (busy.queue.localQueues k).capacity := by decide
  have hcalls : 61 * (0 + 1) ≤ busyOps.countP (isPopFront ⟨0, by decide⟩) := by decide
  obtain ⟨before, a, after, u, v, pushed, hsplit, hcount, -⟩ :=
    shared_served (s := busy) ⟨by decide, hfits⟩ ⟨0, by decide⟩ (by decide) hcalls
  exact ⟨before, a, after, hsplit, hcount⟩

end QueueRun

end OpenCoroutine
