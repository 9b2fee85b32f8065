import OpenCoroutine.Containers
import OpenCoroutine.Finding
import OpenCoroutine.NoneLost

/-! How many coroutines a scheduler has that is the only user of its queue. `size` counts
its worker, its suspend list and its syscall table, so it misses what has spilled into the
global queue, and so do `is_empty` and the assertions of `Drop`. -/

namespace OpenCoroutine

open Family Function Transition

def TimerList.len {T : Type*} (l : TimerList T) : Nat :=
  l.entries.foldl (fun total entry => total + entry.2.inner.length) 0

def LocalQueue.isEmpty {T : Type*} {n : Nat} (l : LocalQueue n) (q : WorkStealQueue T n) : Bool :=
  (q.localQueues l.queue).isEmpty

namespace SchedulerImpl

variable {n : Nat}

def size (sched : SchedulerImpl n) (q : WorkStealQueue Co n) : Nat :=
  sched.ready.len q + sched.suspend.len + sched.syscall.entries.length

def isEmpty (sched : SchedulerImpl n) (q : WorkStealQueue Co n) : Bool := sched.size q == 0

/-- The assertions of `Drop` hold. -/
def drops (sched : SchedulerImpl n) (q : WorkStealQueue Co n) : Bool :=
  sched.ready.isEmpty q && sched.suspend.isEmpty && sched.syscall.entries.isEmpty

end SchedulerImpl

namespace TimerList

variable {T : Type*}

theorem len_eq (l : TimerList T) : l.len = l.elems.length := by
  have hfold : ∀ (entries : List (Nat × TimerEntry T)) (total : Nat),
      entries.foldl (fun total entry => total + entry.2.inner.length) total =
        total + (entries.flatMap timed).length := by
    intro entries
    induction entries with
    | nil => intro total; rfl
    | cons e entries ih =>
      intro total
      rw [List.foldl_cons, ih, List.flatMap_cons, List.length_append, timed, List.length_map,
        Nat.add_assoc]
  rw [len, hfold, Nat.zero_add]
  rfl

theorem elems_of_isEmpty {l : TimerList T} (h : l.isEmpty = true) : l.elems = [] := by
  rw [isEmpty, List.all_eq_true] at h
  refine List.flatMap_eq_nil_iff.2 fun e he => ?_
  have hnil := List.isEmpty_iff.1 (h e he)
  rw [timed, hnil, List.map_nil]

end TimerList

namespace WorkStealQueue

variable {T : Type*} {n : Nat}

/-- Only the worker `k` is in use. -/
structure Alone (k : Fin n) (q : WorkStealQueue T n) : Prop where
  wf : q.WellFormed
  others : ∀ j, j ≠ k → (q.localQueues j).items = []

theorem Alone.card {k : Fin n} {q : WorkStealQueue T n} (h : q.Alone k) :
    q.contents.card = q.sharedQueue.length + (q.localQueues k).items.length := by
  have hothers : ∑ j ∈ Finset.univ.erase k, ((q.localQueues j).items : Multiset T) = 0 :=
    Finset.sum_eq_zero fun j hj => by
      rw [h.others j (Finset.ne_of_mem_erase hj)]
      rfl
  rw [contents, total_split _ _ k, hothers, add_zero, Multiset.card_add, Multiset.coe_card,
    Multiset.coe_card]

end WorkStealQueue

namespace LocalQueue

open WorkStealQueue

variable {T : Type*} {n : Nat}

theorem spill_others (k : Fin n) (count : Nat) (q : WorkStealQueue T n) {j : Fin n} (hj : j ≠ k) :
    (spill k count q).localQueues j = q.localQueues j := by
  have hlocal : ∀ q : WorkStealQueue T n, (q.popLocal k).2.localQueues j = q.localQueues j :=
    fun q => update_of_ne hj _ _
  refine spill_loop (R := fun q q' => q'.localQueues j = q.localQueues j) (fun _ => rfl)
    (fun _ _ _ h h' => h'.trans h) ?_ ?_ count q
  · intro q item q' he
    have hpop := hlocal q
    rwa [he] at hpop
  · intro q q' he
    have hpop := hlocal q
    rwa [he] at hpop

theorem pushBack_alone (l : LocalQueue n) {q : WorkStealQueue T n} (item : T)
    (h : q.Alone l.queue) : (l.pushBack q item).Alone l.queue where
  wf := (l.pushBack_gets q item).wf h.wf
  others j hj := by
    have hsame : (l.pushBack q item).localQueues j = q.localQueues j := by
      unfold pushBack
      split
      · exact update_of_ne hj _ _
      · exact spill_others l.queue _ q hj
    rw [hsame]
    exact h.others j hj

/-- With nothing in the other workers `pop_front` does not steal. -/
theorem popFront_alone (l : LocalQueue n) {q : WorkStealQueue T n} (h : q.Alone l.queue) :
    (l.popFront q).2.2.Alone l.queue where
  wf := (l.popFront_gives q).wf h.wf
  others j hj := by
    rcases l.popFront_leaves q with he | he | ⟨another, count, hne, hs, -⟩
    · rw [he, q.pop_localQueues]
      exact h.others j hj
    · have hlocal : (q.popLocal l.queue).2.localQueues j = q.localQueues j := update_of_ne hj _ _
      rw [he, hlocal]
      exact h.others j hj
    · exact absurd (h.others another hne) hs

end LocalQueue

namespace World

variable {θ : Type*} {n : Nat} {now : Nat → Nat}

/-- The scheduler counts the coroutines that were submitted and have not ended. -/
structure Counts (s : World Unit θ n) : Prop where
  size : (s.sched ()).size s.queue + s.finished.length = s.submitted.length
  isEmpty : (s.sched ()).isEmpty s.queue = true → s.finished.length = s.submitted.length
  drops : (s.sched ()).drops s.queue = true → s.finished.length = s.submitted.length

def SoleUser (s : World Unit θ n) : Prop := s.queue.Alone (s.sched ()).ready.queue

theorem Initial.soleUser {s : World Unit θ n} (h : s.Initial) (hwf : s.queue.WellFormed) :
    s.SoleUser := by
  refine ⟨hwf, fun j _ => ?_⟩
  exact (WorkStealQueue.empty_iff_contents.2 h.queue).2 j

variable [DecidableEq θ]

theorem SoleUser.step {s s' : World Unit θ n} (h : s.SoleUser) {a : Act Unit θ}
    (hs : s.step now a = some s') : s'.SoleUser := by
  cases step_touches hs with
  | rests hq hsched =>
    rw [SoleUser, hq, hsched]
    exact h
  | operates i v hv hq hsched =>
    obtain ⟨cos, hpush⟩ := hv.pushes
    rw [SoleUser, hq, hsched, update_self, hpush.ready]
    exact hpush.keeps (fun q co hq => (s.view i).sched.ready.pushBack_alone co hq) h
  | pops i hq hsched =>
    rw [SoleUser, hq, hsched, update_self]
    show WorkStealQueue.Alone ((s.sched i).ready.popFront s.queue).2.1.queue _
    rw [((s.sched i).ready.popFront_handle s.queue).1]
    exact (s.sched i).ready.popFront_alone h

omit [DecidableEq θ] in
/-- What `size` counts and what it does not. -/
theorem size_add {s : World Unit θ n} (h : s.SoleUser) (hp : s.Placed now) :
    (s.sched ()).size s.queue + s.queue.sharedQueue.length + (s.phase ()).co.card +
      s.finished.length = s.submitted.length := by
  have hcard := congrArg Multiset.card hp.names
  have hqueue := h.card
  have hfits := h.wf.fits (s.sched ()).ready.queue
  simp only [World.names, OpenCoroutine.names, total, Finset.univ_unique, Finset.sum_singleton,
    Multiset.card_add, Multiset.card_map, SchedulerImpl.parked, Multiset.coe_card,
    List.length_map] at hcard
  have hsched : s.sched default = s.sched () := rfl
  have hphase : s.phase default = s.phase () := rfl
  rw [hsched, hphase] at hcard
  simp only [Worker.Fits] at hfits
  simp only [SchedulerImpl.size, LocalQueue.len, Worker.spareCapacity, TimerList.len_eq]
  omega

omit [DecidableEq θ] in
theorem size_of_drops {s : World Unit θ n} (hd : (s.sched ()).drops s.queue = true) :
    (s.sched ()).size s.queue = 0 := by
  simp only [SchedulerImpl.drops, LocalQueue.isEmpty, Worker.isEmpty, Bool.and_eq_true,
    List.isEmpty_iff] at hd
  obtain ⟨⟨hready, hsuspend⟩, hsyscall⟩ := hd
  simp only [SchedulerImpl.size, LocalQueue.len, Worker.spareCapacity, TimerList.len_eq,
    TimerList.elems_of_isEmpty hsuspend, hready, hsyscall, List.length_nil, Nat.sub_zero,
    Nat.sub_self]

/-- `size` is right in the states in which the global queue is empty and no coroutine is
being resumed, and in no others. -/
theorem size_counts (hmono : Monotone now) {s₀ s : World Unit θ n} (h₀ : s₀.Initial)
    (hwf : s₀.queue.WellFormed) (h : Reaches (step now) Disciplined s₀ s) :
    s.Counts ↔ s.queue.sharedQueue = [] ∧ (s.phase ()).co = 0 := by
  have hp : s.Placed now := h.invariant h₀.placed fun _ _ _ hi hok hs => hi.step hmono hok hs
  have ha : s.SoleUser := h.invariant (h₀.soleUser hwf) fun _ _ _ hi _ hs => hi.step hs
  have hadd := size_add ha hp
  constructor
  · intro hc
    have hsize := hc.size
    have hshared : s.queue.sharedQueue.length = 0 := by omega
    have hphase : (s.phase ()).co.card = 0 := by omega
    exact ⟨List.length_eq_zero_iff.1 hshared, Multiset.card_eq_zero.1 hphase⟩
  · rintro ⟨hshared, hphase⟩
    rw [hshared, hphase, List.length_nil, Multiset.card_zero] at hadd
    refine ⟨by omega, fun he => ?_, fun hd => ?_⟩
    · have hzero : (s.sched ()).size s.queue = 0 := by simpa [SchedulerImpl.isEmpty] using he
      omega
    · have hzero := size_of_drops hd
      omega

/-- One scheduler, and a local queue with room for one coroutine. -/
def sole : World Unit Unit 1 where
  queue := .new 1
  sched _ := .new "s" ⟨0, false, ⟨0, Nat.zero_lt_one⟩, ⟨1, 1⟩⟩
  phase _ := .idle
  locals _ := {}

theorem sole_initial : sole.Initial where
  queue := by decide
  suspend _ := rfl
  syscall _ := rfl
  phase _ := rfl
  submitted := rfl
  finished := rfl
  panics := rfl
  returns := rfl

theorem sole_wellFormed : sole.queue.WellFormed := ⟨rfl, fun _ => Nat.zero_le _⟩

/-- The second coroutine spills. The first one is done, and the second one has been taken from
the global queue and delays itself. -/
theorem size_counts_one : ∃ s : World Unit Unit 1, s.submitted = ["s|b", "s|a"] ∧
    s.finished.length = 1 ∧ (s.sched ()).suspend.elems.length = 1 ∧ s.Counts := by
  obtain ⟨s, h, hsub, hfin, hparked, hshared, hphase⟩ : ∃ s : World Unit Unit 1,
      Reaches (step id) Disciplined sole s ∧ s.submitted = ["s|b", "s|a"] ∧
        s.finished.length = 1 ∧ (s.sched ()).suspend.elems.length = 1 ∧
        s.queue.sharedQueue = [] ∧ (s.phase ()).co = 0 :=
    ⟨_, Reaches.of_runGuarded [.submit () "a" true, .submit () "b" true, .schedule () () 1000,
      .turn (), .turn (), .turn (), .leave () (.returns ()), .turn (), .turn (), .turn (), .turn (),
      .leave () (.untilWith () 500), .turn ()] rfl, rfl, rfl, rfl, rfl, rfl⟩
  exact ⟨s, hsub, hfin, hparked,
    (size_counts monotone_id sole_initial sole_wellFormed h).2 ⟨hshared, hphase⟩⟩

/-- The second coroutine spills. The first one runs, and its call returns at the timeout. -/
def spillActs : List (Act Unit Unit) :=
  [.submit () "a" true, .submit () "b" true, .schedule () () 2, .turn (), .turn (), .turn (),
    .leave () (.returns ()), .turn (), .turn ()]

/-- A coroutine is left, and neither `size` nor `is_empty` nor `Drop` sees it. -/
theorem size_misses_spilled :
    ∃ s : World Unit Unit 1, Reaches (step id) Disciplined sole s ∧ s.panics = [] ∧
      s.submitted.length = 2 ∧ s.finished.length = 1 ∧ (s.sched ()).isEmpty s.queue = true ∧
      (s.sched ()).drops s.queue = true ∧ ¬ s.Counts := by
  obtain ⟨s, h, hpanics, hsub, hfin, hempty, hdrops⟩ : ∃ s : World Unit Unit 1,
      Reaches (step id) Disciplined sole s ∧ s.panics = [] ∧ s.submitted.length = 2 ∧
        s.finished.length = 1 ∧ (s.sched ()).isEmpty s.queue = true ∧
        (s.sched ()).drops s.queue = true :=
    ⟨_, Reaches.of_runGuarded spillActs rfl, rfl, rfl, rfl, rfl, rfl⟩
  refine ⟨s, h, hpanics, hsub, hfin, hempty, hdrops, fun hc => ?_⟩
  have heq := hc.isEmpty hempty
  omega

end World

end OpenCoroutine
