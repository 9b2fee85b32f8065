import OpenCoroutine.LazyInit

/-! The process-wide instances. `WorkStealQueue::get_instance` and `MonitorImpl::get_instance`
keep the address of a leaked box in an atomic, and `page_size` keeps what `sysconf` answers.
All three check the atomic and fill it in two steps of their own. -/

namespace OpenCoroutine

open Transition

/-- The addresses that `Box::leak` gives out, in the order in which the boxes are made. -/
structure Boxes where
  addr : Nat → Nat
  ne_zero : ∀ k, addr k ≠ 0
  injective : Function.Injective addr

variable {ι : Type*} [DecidableEq ι]

def WorkStealQueue.getInstance (boxes : Boxes) (s : LazyInit.State ι) (a : LazyInit.Act ι) :
    Option (LazyInit.State ι) :=
  LazyInit.step boxes.addr s a

def MonitorImpl.getInstance (boxes : Boxes) (s : LazyInit.State ι) (a : LazyInit.Act ι) :
    Option (LazyInit.State ι) :=
  LazyInit.step boxes.addr s a

def pageSize (sysconf : Nat) (s : LazyInit.State ι) (a : LazyInit.Act ι) :
    Option (LazyInit.State ι) :=
  LazyInit.step (fun _ => sysconf) s a

/-- `get_instance` has returned references to one queue only, if and only if no thread has
looked for it while another one was making it. -/
theorem queue_shared_iff (boxes : Boxes) {as : List (LazyInit.Act ι)} {s : LazyInit.State ι}
    (hrun : run (WorkStealQueue.getInstance boxes) LazyInit.fresh as = some s)
    (hquiet : ∀ i, s.pc i = .outside) :
    (∀ queue ∈ s.returned, ∀ queue' ∈ s.returned, queue = queue') ↔
      Guarded (WorkStealQueue.getInstance boxes) LazyInit.Undisturbed LazyInit.fresh as :=
  LazyInit.agree_iff boxes.ne_zero boxes.injective hrun hquiet

def inOrder : Boxes := ⟨fun k => k + 1, fun k => Nat.succ_ne_zero k, fun _ _ h => Nat.succ.inj h⟩

/-- Thread 1 comes when thread 0 is done. -/
theorem queue_shared_after :
    ∃ s : LazyInit.State (Fin 2), s.returned = [1, 1] ∧
      ((∀ queue ∈ s.returned, ∀ queue' ∈ s.returned, queue = queue') ↔
        Guarded (WorkStealQueue.getInstance inOrder) LazyInit.Undisturbed LazyInit.fresh
          [.load (0 : Fin 2), .store 0, .load 1]) := by
  obtain ⟨s, hrun, hreturned, hquiet⟩ : ∃ s : LazyInit.State (Fin 2),
      run (WorkStealQueue.getInstance inOrder) LazyInit.fresh [.load 0, .store 0, .load 1] = some s ∧
        s.returned = [1, 1] ∧ ∀ i, s.pc i = .outside :=
    ⟨_, rfl, rfl, by decide⟩
  exact ⟨s, hreturned, queue_shared_iff inOrder hrun hquiet⟩

/-- Two threads that both find no queue go on with a queue each. -/
example : ∃ s : LazyInit.State (Fin 2),
    run (WorkStealQueue.getInstance inOrder) LazyInit.fresh [.load 0, .load 1, .store 0, .store 1] =
      some s ∧ s.returned = [2, 1] :=
  ⟨_, rfl, rfl⟩

theorem monitor_shared_iff (boxes : Boxes) {as : List (LazyInit.Act ι)} {s : LazyInit.State ι}
    (hrun : run (MonitorImpl.getInstance boxes) LazyInit.fresh as = some s)
    (hquiet : ∀ i, s.pc i = .outside) :
    (∀ monitor ∈ s.returned, ∀ monitor' ∈ s.returned, monitor = monitor') ↔
      Guarded (MonitorImpl.getInstance boxes) LazyInit.Undisturbed LazyInit.fresh as :=
  LazyInit.agree_iff boxes.ne_zero boxes.injective hrun hquiet

/-- The page size is the same to all, whatever comes in between. -/
theorem pageSize_returned {sysconf : Nat} {as : List (LazyInit.Act ι)} {s : LazyInit.State ι}
    (hrun : run (pageSize sysconf) LazyInit.fresh as = some s) :
    ∀ ret ∈ s.returned, ret = sysconf :=
  LazyInit.returned_const (fun _ => rfl) hrun

end OpenCoroutine
