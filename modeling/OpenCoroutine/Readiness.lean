import OpenCoroutine.Distinct
import OpenCoroutine.EventLoops

/-! A readiness event and the coroutine that waits for it. The event wakes a coroutine
only through the syscall table of the loop that polled it, so a coroutine parked in
another table stays there. -/

namespace OpenCoroutine

open Transition

/-- In the state in which `try_resume` puts a coroutine into a ready queue. -/
def CoroutineImpl.IsComputing (co : Co) : Prop :=
  ∃ call, co.state = .systemCall () call .computing

namespace View

variable {n : Nat}

theorem tryResume_syscall (v : View n) (coName : String) :
    (v.tryResume coName).2.sched.syscall = v.sched.syscall.erase coName := by
  have hx : v.sched.syscall.extract coName =
      (v.sched.syscall.lookup coName, v.sched.syscall.erase coName) :=
    AList.extract_eq_lookup_erase coName v.sched.syscall
  rw [View.tryResume, hx]
  cases hl : v.sched.syscall.lookup coName with
  | none =>
    have hn : coName ∉ v.sched.syscall.keys := AList.lookup_eq_none.1 hl
    exact AList.ext (List.kerase_of_notMem_keys hn).symm
  | some co =>
    cases hst : co.state with
    | systemCall y call state =>
      simp only [hst, CoroutineImpl.syscall_of_systemCall hst]
      rfl
    | created | ready | running | suspend _ _ | complete _ | error _ =>
      simp only [hst]
      rfl

theorem tryResume_ready {v : View n} {co : Co} {call : Syscall} {state : SyscallState}
    (hm : ⟨co.name, co⟩ ∈ v.sched.syscall.entries) (hst : co.state = .systemCall () call state) :
    (⟨co.name, .systemCall () call .computing, co.done⟩ : Co) ∈
      (v.tryResume co.name).2.queue.contents := by
  have hl : v.sched.syscall.lookup co.name = some co := AList.mem_lookup_iff.2 hm
  have hx : v.sched.syscall.extract co.name = (some co, v.sched.syscall.erase co.name) := by
    rw [AList.extract_eq_lookup_erase, hl]
  simp only [View.tryResume, hx, hst, CoroutineImpl.syscall_of_systemCall hst]
  exact mem_pushReady.2 (.inl rfl)

end View

namespace World

variable {ι θ : Type*} {n : Nat} {now : Nat → Nat} [DecidableEq ι] [DecidableEq θ]

theorem tryResume_isSome (s : World ι θ n) (now : Nat → Nat) (i : ι) (coName : String) :
    ∃ s', s.step now (.tryResume i coName) = some s' := by
  simp only [World.step]
  split <;> exact ⟨_, rfl⟩

variable [Fintype ι]

omit [DecidableEq θ] in
/-- A coroutine of a syscall table is in no ready queue. -/
theorem Distinct.notReady {s : World ι θ n} (h : s.Distinct) {i : ι} {coName : String} {c co : Co}
    (hc : ⟨coName, c⟩ ∈ (s.sched i).syscall.entries) (hco : co ∈ s.queue.contents) :
    co.name ≠ c.name := by
  intro hname
  have hparked : c.name ∈ OpenCoroutine.names (s.sched i).parked := by
    refine Multiset.mem_map_of_mem _ (Multiset.mem_add.2 (.inr ?_))
    exact Multiset.mem_coe.2 (List.mem_map_of_mem hc)
  have hqueue : c.name ∈ OpenCoroutine.names s.queue.contents := by
    rw [← hname]
    exact Multiset.mem_map_of_mem _ hco
  have hp := Multiset.one_le_count_iff_mem.2 hparked
  have hq := Multiset.one_le_count_iff_mem.2 hqueue
  have hle := Multiset.nodup_iff_count_le_one.1 h.nodup_names c.name
  have ht := Family.total_split (fun (_ : ι) (sched : SchedulerImpl n) =>
    OpenCoroutine.names sched.parked) s.sched i
  simp only [World.names, ht, Multiset.count_add] at hle
  omega

/-- `try_resume` makes a parked coroutine ready exactly if it is called with its name on
the scheduler that holds it. -/
theorem Kept.tryResume_iff {s s' : World ι θ n} (h : s.Kept) {i k : ι} {c : Co}
    (hc : ⟨c.name, c⟩ ∈ (s.sched i).syscall.entries) {coName : String}
    (hs : s.step now (.tryResume k coName) = some s') :
    (∃ co ∈ s'.queue.contents, co.name = c.name ∧ co.IsComputing) ↔ k = i ∧ coName = c.name := by
  have hdistinct : s'.Distinct := h.distinct.step (a := .tryResume k coName) trivial hs
  obtain ⟨panics, rfl⟩ := step_tryResume hs
  constructor
  · rintro ⟨co, hco, hname, -⟩
    by_contra hne
    have hstay : ⟨c.name, c⟩ ∈
        ((s.setView k ((s.view k).tryResume coName).2).sched i).syscall.entries := by
      by_cases hk : k = i
      · subst hk
        have hdiff : c.name ≠ coName := fun he => hne ⟨rfl, he.symm⟩
        rw [setView_sched, View.tryResume_syscall]
        have hl : (s.sched k).syscall.lookup c.name = some c := AList.mem_lookup_iff.2 hc
        exact AList.mem_lookup_iff.1 ((AList.lookup_erase_ne hdiff).trans hl)
      · rw [setView_sched_ne _ (Ne.symm hk)]
        exact hc
    exact hdistinct.notReady hstay hco hname
  · rintro ⟨rfl, rfl⟩
    obtain ⟨-, hst⟩ := h.live.syscall k _ hc
    cases hcs : c.state with
    | systemCall y call state =>
      exact ⟨⟨c.name, .systemCall () call .computing, c.done⟩, View.tryResume_ready hc hcs, rfl,
        call, rfl⟩
    | created | ready | running | suspend _ _ | complete _ | error _ =>
      rw [hcs] at hst
      cases hst

end World

namespace EventLoops

variable {ι θ : Type*} {m n : Nat} {now : Nat → Nat} {pool : Fin m → ι}
variable [DecidableEq ι] [DecidableEq θ]

omit [DecidableEq ι] [DecidableEq θ] in
theorem token_world {s s' : EventLoops ι θ m n} {t : θ} {address threadId token : Nat}
    (h : s.token t address threadId = some (token, s')) : s'.world = s.world := by
  simp only [EventLoops.token] at h
  split at h
  · split at h
    · cases h
    · simp only [Option.some.injEq, Prod.mk.injEq] at h
      rw [← h.2]
  · simp only [Option.some.injEq, Prod.mk.injEq] at h
    rw [← h.2]

/-- The event loops change the schedulers by `try_resume` only. -/
theorem step_world [Fintype ι] {s s' : EventLoops ι θ m n} {a : Act ι θ m} (hok : s.NewName a)
    (hs : s.step now pool a = some s') :
    Reaches (World.step now) World.NewName s.world s'.world := by
  have hsame : s'.world = s.world → Reaches (World.step now) World.NewName s.world s'.world := by
    intro he
    rw [he]
    exact .start
  cases a with
  | world a =>
    simp only [step, Option.map_eq_some_iff] at hs
    obtain ⟨world, hw, rfl⟩ := hs
    exact .single hok hw
  | next skipMonitor =>
    simp only [step, Option.some.injEq] at hs
    exact hsame (by rw [← hs])
  | reset =>
    simp only [step, Option.ite_none_left_eq_some, Option.some.injEq] at hs
    exact hsame (by rw [← hs.2])
  | addEvent j t d fd fault address threadId =>
    simp only [step, Option.ite_none_right_eq_some] at hs
    obtain ⟨-, hs⟩ := hs
    split at hs
    · rename_i token s₁ ht
      have hw := token_world ht
      simp only [Option.some.injEq] at hs
      exact hsame (by rw [← hs]; exact hw)
    · simp only [Option.some.injEq] at hs
      exact hsame (by rw [← hs])
  | delInterest j d fd fault =>
    simp only [step, Option.ite_none_right_eq_some, Option.some.injEq] at hs
    exact hsame (by rw [← hs.2]; rfl)
  | delEvent j fd fault =>
    simp only [step, Option.ite_none_right_eq_some, Option.some.injEq] at hs
    exact hsame (by rw [← hs.2]; rfl)
  | select j ready =>
    simp only [step, Option.map_eq_some_iff] at hs
    obtain ⟨events, -, rfl⟩ := hs
    exact .start
  | wake j k unwritten =>
    simp only [step] at hs
    split at hs
    · cases hs
    · split at hs
      · rename_i coName _
        simp only [Option.map_eq_some_iff] at hs
        obtain ⟨world, hw, rfl⟩ := hs
        exact .single (a := .tryResume (pool j) coName) trivial hw
      · simp only [Option.some.injEq] at hs
        exact hsame (by rw [← hs]; rfl)

/-- The event that loop `j` has polled makes a parked coroutine ready exactly if `j` is
the loop of the scheduler that holds the coroutine and the event carries its token. -/
theorem woken_iff [Fintype ι] {s₀ s : EventLoops ι θ m n} (h₀ : s₀.world.Initial)
    (h : Reaches (step now pool) NewName s₀ s) {i : ι} {c : Co}
    (hc : ⟨c.name, c⟩ ∈ (s.world.sched i).syscall.entries) {j : Fin m} {k : Nat} {fd : Fd}
    {event : Event} (hp : (s.pending j)[k]? = some (fd, event)) (unwritten : Option String) :
    ∃ s', s.step now pool (.wake j k unwritten) = some s' ∧
      ((∃ co ∈ s'.world.queue.contents, co.name = c.name ∧ co.IsComputing) ↔
        pool j = i ∧ s.mapName unwritten event.key = some c.name) := by
  have hw : Reaches (World.step now) World.NewName s₀.world s.world :=
    h.simulate EventLoops.world fun _ _ _ hok hs => step_world hok hs
  have hkept : s.world.Kept := hw.invariant h₀.kept fun _ _ _ hi hok hs => hi.step hok hs
  have hname : (s.setPending j ((s.pending j).eraseIdx k)).mapName unwritten event.key =
      s.mapName unwritten event.key := rfl
  simp only [step, hp, hname]
  cases hm : s.mapName unwritten event.key with
  | none =>
    refine ⟨_, rfl, ?_⟩
    constructor
    · rintro ⟨co, hco, hcoName, -⟩
      exact absurd hcoName (hkept.distinct.notReady hc hco)
    · rintro ⟨-, hkey⟩
      cases hkey
  | some coName =>
    obtain ⟨world, hs⟩ := s.world.tryResume_isSome now (pool j) coName
    have hs' : (s.setPending j ((s.pending j).eraseIdx k)).world.step now
        (.tryResume (pool j) coName) = some world := hs
    have hiff := hkept.tryResume_iff hc hs
    simp only [hs', Option.map_some, Option.some.injEq, exists_eq_left']
    exact hiff

def three (index : Nat) : EventLoops (Fin 3) (Fin 3) 3 3 where
  world :=
    { queue := .new 1
      sched := fun i => .new "loop" ⟨0, false, i, ⟨1, 1⟩⟩
      phase := fun _ => .idle
      locals := fun _ => {} }
  pollers _ := .new
  tables := .new
  index := index

theorem three_initial (index : Nat) : (three index).world.Initial where
  queue := by
    have hnew : (three index).world.queue = .new 1 := rfl
    rw [hnew]
    decide
  suspend _ := rfl
  syscall _ := rfl
  phase _ := rfl
  submitted := rfl
  finished := rfl
  panics := rfl
  returns := rfl

def waiting (j : Fin 3) : List (Act (Fin 3) (Fin 3) 3) :=
  [.world (.submit 1 "a" true), .world (.schedule 1 1 1000), .world (.turn 1), .world (.turn 1),
    .world (.turn 1), .next false, .addEvent j 1 .readable 5 .none 100 7,
    .world (.call 1 (.syscall () .epoll_wait (.suspend 100))),
    .world (.leave 1 (.untilWith () 100)), .world (.turn 1), .select j [(5, true, false)]]

theorem woken_iff_own :
    ∃ s s' : EventLoops (Fin 3) (Fin 3) 3 3,
      Reaches (step id id) NewName (three 1) s ∧ s.step id id (.wake 1 0 none) = some s' ∧
        ∃ co ∈ s'.world.queue.contents, co.name = "loop|a" ∧ co.IsComputing := by
  obtain ⟨s, h, hc, hp, hkey⟩ : ∃ s : EventLoops (Fin 3) (Fin 3) 3 3,
      Reaches (step id id) NewName (three 1) s ∧
        ⟨"loop|a", ⟨"loop|a", .systemCall () .epoll_wait (.suspend 100), false⟩⟩ ∈
          (s.world.sched 1).syscall.entries ∧
        (s.pending 1)[0]? = some (5, ⟨100, true, false⟩) ∧
        s.mapName none 100 = some "loop|a" :=
    ⟨_, Reaches.of_runGuarded (waiting 1) rfl, List.mem_cons_self, rfl, rfl⟩
  obtain ⟨s', hs, hiff⟩ := woken_iff (three_initial 1) h
    (c := ⟨"loop|a", .systemCall () .epoll_wait (.suspend 100), false⟩) hc hp none
  exact ⟨s, s', h, hs, hiff.2 ⟨rfl, hkey⟩⟩

/-- `INDEX` is 2. Loop 2 reports the descriptor under the token of the coroutine, which
stays in the syscall table of loop 1. -/
theorem not_woken_by_other :
    ∃ s s' : EventLoops (Fin 3) (Fin 3) 3 3, ∃ c : Co,
      Reaches (step id id) NewName (three 2) s ∧
        ⟨c.name, c⟩ ∈ (s.world.sched 1).syscall.entries ∧
        s.pollers 2 5 = some ⟨100, true, false⟩ ∧
        (s.pending 2)[0]? = some (5, ⟨100, true, false⟩) ∧ s.mapName none 100 = some c.name ∧
        s.step id id (.wake 2 0 none) = some s' ∧
        ⟨c.name, c⟩ ∈ (s'.world.sched 1).syscall.entries ∧ s'.world.queue.contents = 0 :=
  ⟨_, _, ⟨"loop|a", .systemCall () .epoll_wait (.suspend 100), false⟩,
    Reaches.of_runGuarded (waiting 2) rfl, List.mem_cons_self, rfl, rfl, rfl, rfl,
    List.mem_cons_self, by rfl⟩

end EventLoops

end OpenCoroutine
