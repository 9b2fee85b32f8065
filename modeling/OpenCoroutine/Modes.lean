import OpenCoroutine.Connect

/-! The mode of the descriptor after a call. `impl_non_blocking!` restores it behind its body,
and the body of `connect` has a `return` of its own for a connection that is there at once. -/

namespace OpenCoroutine

namespace Nio

/-- A hooked call of `nio.rs` with what the calls and waits inside it answer. -/
inductive Hook where
  | io (rounds : List Round) (errno : Int32) (call : IoCall)
  | connect (first : Option Int32) (wakeups : List Wakeup)

namespace Hook

variable (d : Descriptor)

def ending : Hook → Ending
  | io rounds errno call => (hooked d rounds errno call).ending
  | connect first wakeups => (Nio.connect d first wakeups).ending

def descriptor : Hook → Descriptor
  | io rounds errno call => (hooked d rounds errno call).descriptor
  | connect first wakeups => (Nio.connect d first wakeups).descriptor

/-- If the call returns, `O_NONBLOCK` is what it was. -/
def Restores (hook : Hook) : Prop :=
  ∀ r errno, hook.ending d = .returned r errno →
    isNonBlocking (hook.descriptor d) = isNonBlocking d

end Hook

/-- What the body must not do, for the call to restore the mode. -/
theorem implNonBlocking_restores_iff {κ : Type*} (d : Descriptor) (run : Run κ) :
    (∀ r errno, (implNonBlocking d run).ending = .returned r errno →
        isNonBlocking (implNonBlocking d run).descriptor = isNonBlocking d) ↔
      (d.Controllable → isBlocking d = true → ∀ r errno, run.ending ≠ .exited r errno) := by
  by_cases hd : d.Controllable
  · rw [implNonBlocking_controllable hd]
    by_cases hb : isBlocking d = true
    · have hn : isNonBlocking d = false := by simpa [isBlocking] using hb
      rw [if_pos hb, hn]
      cases hend : run.ending with
      | returned r errno =>
        have hset := Descriptor.isNonBlocking_set (Descriptor.set_flags_ne_none hd.1 true) false
        refine iff_of_true (fun _ _ _ => hset) fun _ _ r errno => by simp
      | exited r errno =>
        have hset := Descriptor.isNonBlocking_set hd.1 true
        refine iff_of_false (fun h => ?_) fun h => h hd hb r errno rfl
        exact absurd (hset.symm.trans (h r errno rfl)) (by decide)
      | panicked | running =>
        exact iff_of_true (fun r errno he => by cases he) fun _ _ r errno => by simp
    · rw [if_neg hb]
      exact iff_of_true (fun _ _ _ => rfl) fun _ hb' => absurd hb' hb
  · rw [implNonBlocking_uncontrollable hd]
    exact iff_of_true (fun r errno he => by cases he) fun hd' => absurd hd' hd

theorem loop_ne_exited (call : IoCall) (rounds : List Round) (errno : Int32) (r : Int64)
    (errno' : Int32) : (loop rounds errno call).ending ≠ .exited r errno' := by
  rcases loop_ending call rounds errno with he | ⟨r', errno'', he⟩ <;> simp [he]

theorem failed_ne_exited (e : Int32) (r : Int64) (errno : Int32) :
    failed e ≠ .exited r errno := by
  simp [failed]

theorem connectLoop_ne_exited (wakeups : List Wakeup) (errno : Int32) (r : Int64)
    (errno' : Int32) : (connectLoop wakeups errno).ending ≠ .exited r errno' := by
  fun_induction connectLoop wakeups errno with
  | case1 | case5 | case8 => simp
  | case2 | case3 | case4 | case7 => exact failed_ne_exited _ r errno'
  | case6 _ _ _ _ _ _ _ _ _ _ _ ih => exact ih

/-- A call restores the mode of its descriptor, except `connect` of a connection that is
there at once, on a blocking descriptor that `fcntl` can control. -/
theorem mode_restored_iff (d : Descriptor) (hook : Hook) :
    hook.Restores d ↔
      ¬ (d.Controllable ∧ isBlocking d = true ∧ ∃ wakeups, hook = .connect none wakeups) := by
  cases hook with
  | io rounds errno call =>
    have hrun := implNonBlocking_restores_iff d (loop rounds errno call)
    rw [← hooked_eq] at hrun
    refine iff_of_true (hrun.2 fun _ _ => loop_ne_exited call rounds errno) ?_
    rintro ⟨-, -, wakeups, he⟩
    cases he
  | connect first wakeups =>
    refine (implNonBlocking_restores_iff d (connectBody first wakeups)).trans ?_
    cases first with
    | none =>
      constructor
      · rintro h ⟨hd, hb, -⟩
        exact h hd hb 0 0 rfl
      · intro h hd hb
        exact absurd ⟨hd, hb, wakeups, rfl⟩ h
    | some errno =>
      refine iff_of_true (fun _ _ => connectLoop_ne_exited wakeups errno) ?_
      rintro ⟨-, -, wakeups', he⟩
      cases he

/-- Connected at once, the call returns 0 and leaves the blocking descriptor non-blocking. -/
theorem connect_leaves_nonBlocking :
    isBlocking ⟨some 2, true⟩ = true ∧ ¬ (Hook.connect none []).Restores ⟨some 2, true⟩ := by
  refine ⟨by decide, fun h => ?_⟩
  exact absurd (h 0 0 rfl) (by decide)

end Nio

end OpenCoroutine
