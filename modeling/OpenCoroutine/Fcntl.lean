import Mathlib.Data.Fintype.Basic
import OpenCoroutine.Nio
import OpenCoroutine.NonBlocking

/-! The status flags of a descriptor on which hooked calls overlap, with all their bits.
`set_non_blocking_flag` reads them by `F_GETFL` and writes them by `F_SETFL`, and other calls, and
the program by an `fcntl` of its own, may come in between. -/

namespace OpenCoroutine

open Transition

namespace Fcntl

open Nio NonBlocking

/-- `got` is what a call has read of the flags and is to write back with a change. `own` is what
the program has set the flags to last. -/
structure State (ι : Type*) where
  flags : Option UInt32
  own : UInt32
  pc : ι → Pc
  got : ι → Option UInt32 := fun _ => none

inductive Act (ι : Type*) where
  | hooked (a : NonBlocking.Act ι)
  | setfl (flags : UInt32)

/-- What the call is about to change the flag to. -/
def sets? : Pc → Option Bool
  | .setNonBlocking _ => some true
  | .setBlocking true => some false
  | _ => none

def changed (flags : UInt32) (on : Bool) : UInt32 :=
  if on then flags ||| O_NONBLOCK else flags &&& ~~~O_NONBLOCK

def isSet (flags : UInt32) : Bool := flags &&& O_NONBLOCK != 0

namespace State

variable {ι : Type*}

/-- The one flag. -/
def view (s : State ι) : NonBlocking.State ι := ⟨s.flags.map isSet, s.pc⟩

variable [DecidableEq ι]

def setNonBlockingFlag (s : State ι) (i : ι) (on : Bool) : Option (State ι) :=
  match s.got i, s.flags with
  | none, some flags => some { s with got := Function.update s.got i (some flags) }
  | some flags, some _ => (advance s.view i).map fun t =>
      { s with flags := some (changed flags on), pc := t.pc, got := Function.update s.got i none }
  | _, none => (advance s.view i).map fun t => { s with pc := t.pc }

def step (s : State ι) : Act ι → Option (State ι)
  | .hooked (.advance i) =>
    match sets? (s.pc i) with
    | some on => s.setNonBlockingFlag i on
    | none => (advance s.view i).map fun t => { s with pc := t.pc }
  | .hooked a => (NonBlocking.step s.view a).map fun t => { s with pc := t.pc }
  | .setfl flags => some { s with flags := s.flags.map fun _ => flags, own := flags }

/-- The program leaves `O_NONBLOCK` as it is, and no call is between its two calls of `fcntl`. -/
def Considerate (s : State ι) : Act ι → Prop
  | .setfl flags => (∀ i, s.got i = none) ∧ (s.flags.map fun _ => isSet flags) = s.flags.map isSet
  | .hooked _ => True

instance [Fintype ι] (s : State ι) : (a : Act ι) → Decidable (s.Considerate a)
  | .setfl flags => inferInstanceAs (Decidable ((∀ i, s.got i = none) ∧
      (s.flags.map fun _ => isSet flags) = s.flags.map isSet))
  | .hooked _ => isTrue trivial

/-- The flags differ in `O_NONBLOCK` at most from those the program has set. -/
structure Kept (s : State ι) : Prop where
  flags : ∀ flags, s.flags = some flags → flags &&& ~~~O_NONBLOCK = s.own &&& ~~~O_NONBLOCK
  got : ∀ i flags, s.got i = some flags → flags &&& ~~~O_NONBLOCK = s.own &&& ~~~O_NONBLOCK

structure Initial (s : State ι) : Prop where
  own : ∀ flags, s.flags = some flags → s.own = flags
  got : ∀ i, s.got i = none

end State

open State

variable {ι : Type*} [DecidableEq ι] {s s₀ t : State ι}

theorem isSet_changed (flags : UInt32) (on : Bool) : isSet (changed flags on) = on := by
  have hne : O_NONBLOCK ≠ 0 := by decide
  cases on with
  | true => simp [isSet, changed, Descriptor.or_nonBlock, hne]
  | false => simp [isSet, changed, Descriptor.and_not_nonBlock]

theorem changed_other (flags : UInt32) (on : Bool) :
    changed flags on &&& ~~~O_NONBLOCK = flags &&& ~~~O_NONBLOCK := by
  cases on with
  | true =>
    apply UInt32.toBitVec_inj.1
    simp only [changed, if_true, UInt32.toBitVec_and, UInt32.toBitVec_or, UInt32.toBitVec_not,
      BitVec.and_or_distrib_right]
    simp
  | false =>
    simp only [changed, Bool.false_eq_true, if_false, UInt32.and_assoc, UInt32.and_self]

/-- Only where it sets the flag does a call change it. -/
theorem advance_nonBlocking {i : ι} {v w : NonBlocking.State ι} (h : advance v i = some w) :
    w.nonBlocking = match sets? (v.pc i) with
      | some on => v.nonBlocking.map fun _ => on
      | none => v.nonBlocking := by
  unfold advance at h
  split at h
  case h_2 hp | h_5 hp =>
    rw [hp]
    split at h
    · rename_i hb
      cases h
      rw [hb]
      rfl
    · rename_i hb
      cases h
      exact hb.trans (by rw [hb]; rfl)
  case h_1 hp | h_3 hp | h_4 hp | h_6 hp =>
    rw [hp]
    cases h
    rfl
  all_goals cases h

theorem step_nonBlocking {a : NonBlocking.Act ι} (ha : ∀ i, a ≠ .advance i)
    {v w : NonBlocking.State ι} (h : NonBlocking.step v a = some w) :
    w.nonBlocking = v.nonBlocking := by
  cases a with
  | advance i => exact absurd rfl (ha i)
  | enter i hooked =>
    simp only [NonBlocking.step] at h
    split at h
    · cases h
      rfl
    · cases h
  | inner i answer =>
    simp only [NonBlocking.step] at h
    split at h
    · cases h
      rfl
    · cases h
  | wake i wake =>
    simp only [NonBlocking.step] at h
    split at h
    · obtain ⟨pc, -, rfl⟩ := Option.map_eq_some_iff.1 h
      rfl
    · cases h

omit [DecidableEq ι] in
theorem view_eq {w : NonBlocking.State ι} (hw : w.nonBlocking = s.view.nonBlocking) :
    ({ s with pc := w.pc } : State ι).view = w := by
  obtain ⟨nonBlocking, pc⟩ := w
  cases hw
  rfl

/-- A step of the hooked calls is a reading of the flags, or a step of the one flag that writes
back nothing but what its call has read, with a change. -/
theorem hooked_cases {a : NonBlocking.Act ι} (hs : s.step (.hooked a) = some t) :
    (∃ i flags, s.flags = some flags ∧ t = { s with got := Function.update s.got i (some flags) }) ∨
    NonBlocking.step s.view a = some t.view ∧ t.own = s.own ∧
      (t.flags = s.flags ∧ t.got = s.got ∨ ∃ i flags on, s.got i = some flags ∧
        t.flags = some (changed flags on) ∧ t.got = Function.update s.got i none) := by
  have hother : ∀ {w : NonBlocking.State ι}, NonBlocking.step s.view a = some w →
      w.nonBlocking = s.view.nonBlocking →
        NonBlocking.step s.view a = some ({ s with pc := w.pc } : State ι).view := by
    intro w hw hkeep
    rw [view_eq hkeep]
    exact hw
  cases a with
  | advance i =>
    simp only [State.step] at hs
    split at hs
    · rename_i on hon
      simp only [State.setNonBlockingFlag] at hs
      split at hs
      · rename_i flags hgot hflags
        cases hs
        exact .inl ⟨i, flags, hflags, rfl⟩
      · rename_i flags present hgot hflags
        obtain ⟨w, hw, rfl⟩ := Option.map_eq_some_iff.1 hs
        refine .inr ⟨?_, rfl, .inr ⟨i, flags, on, hgot, rfl, rfl⟩⟩
        have hb := advance_nonBlocking hw
        rw [show s.view.pc i = s.pc i from rfl, hon] at hb
        have hview : ({ s with
            flags := some (changed flags on)
            pc := w.pc
            got := Function.update s.got i none } : State ι).view = w := by
          obtain ⟨nonBlocking, pc⟩ := w
          simp only [view, hflags, Option.map_some] at hb ⊢
          rw [hb, isSet_changed]
        rw [hview]
        exact hw
      · rename_i hflags
        obtain ⟨w, hw, rfl⟩ := Option.map_eq_some_iff.1 hs
        refine .inr ⟨hother hw ?_, rfl, .inl ⟨rfl, rfl⟩⟩
        have hb := advance_nonBlocking hw
        rw [show s.view.pc i = s.pc i from rfl, hon] at hb
        rw [hb]
        simp only [view, hflags, Option.map_none]
    · rename_i hnone
      obtain ⟨w, hw, rfl⟩ := Option.map_eq_some_iff.1 hs
      refine .inr ⟨hother hw ?_, rfl, .inl ⟨rfl, rfl⟩⟩
      have hb := advance_nonBlocking hw
      rw [show s.view.pc i = s.pc i from rfl, hnone] at hb
      exact hb
  | enter i hooked =>
    obtain ⟨w, hw, rfl⟩ := Option.map_eq_some_iff.1 hs
    exact .inr ⟨hother hw (step_nonBlocking (fun _ he => by cases he) hw), rfl, .inl ⟨rfl, rfl⟩⟩
  | inner i answer =>
    obtain ⟨w, hw, rfl⟩ := Option.map_eq_some_iff.1 hs
    exact .inr ⟨hother hw (step_nonBlocking (fun _ he => by cases he) hw), rfl, .inl ⟨rfl, rfl⟩⟩
  | wake i wake =>
    obtain ⟨w, hw, rfl⟩ := Option.map_eq_some_iff.1 hs
    exact .inr ⟨hother hw (step_nonBlocking (fun _ he => by cases he) hw), rfl, .inl ⟨rfl, rfl⟩⟩

omit [DecidableEq ι] in
theorem State.Initial.kept (h : s₀.Initial) : s₀.Kept where
  flags flags hf := by rw [h.own flags hf]
  got i flags hg := by
    rw [h.got i] at hg
    cases hg

theorem State.Kept.setGot (h : s.Kept) {i : ι} {flags : Option UInt32}
    (hf : ∀ f, flags = some f → f &&& ~~~O_NONBLOCK = s.own &&& ~~~O_NONBLOCK) (j : ι)
    (f : UInt32) (hj : Function.update s.got i flags j = some f) :
    f &&& ~~~O_NONBLOCK = s.own &&& ~~~O_NONBLOCK := by
  by_cases hij : j = i
  · subst hij
    rw [Function.update_self] at hj
    exact hf f hj
  · rw [Function.update_of_ne hij] at hj
    exact h.got j f hj

theorem State.Kept.step (h : s.Kept) {a : Act ι} (ha : s.Considerate a) (hs : s.step a = some t) :
    t.Kept := by
  cases a with
  | hooked a =>
    rcases hooked_cases hs with ⟨i, flags, hflags, rfl⟩ |
      ⟨-, hown, ⟨hflags, hgot⟩ | ⟨i, flags, on, hi, hflags, hgot⟩⟩
    · refine ⟨h.flags, h.setGot fun f hf => ?_⟩
      cases hf
      exact h.flags flags hflags
    · exact ⟨by rw [hflags, hown]; exact h.flags, by rw [hgot, hown]; exact h.got⟩
    · refine ⟨fun f hf => ?_, by rw [hgot, hown]; exact h.setGot fun f hf => by cases hf⟩
      rw [hflags] at hf
      cases hf
      rw [changed_other, hown]
      exact h.got i flags hi
  | setfl flags =>
    cases hs
    refine ⟨fun f hf => ?_, fun i f hf => ?_⟩
    · obtain ⟨_, -, rfl⟩ := Option.map_eq_some_iff.1 hf
      rfl
    · rw [show s.got i = none from ha.1 i] at hf
      cases hf

/-- Reading and writing the flags in two calls is as good as changing `O_NONBLOCK` at once, and
keeps every other flag that the program has set. -/
theorem fcntl_refines (h₀ : s₀.Initial) (h : Reaches State.step Considerate s₀ s) :
    Reaches NonBlocking.step Free s₀.view s.view ∧
      ∀ flags, s.flags = some flags → flags &&& ~~~O_NONBLOCK = s.own &&& ~~~O_NONBLOCK := by
  refine ⟨h.simulate view fun s a t ha hs => ?_,
    (h.invariant (p := State.Kept) h₀.kept fun _ _ _ hi ha hs => hi.step ha hs).flags⟩
  cases a with
  | hooked a =>
    rcases hooked_cases hs with ⟨i, flags, -, rfl⟩ | ⟨hstep, -⟩
    · exact .start
    · exact Reaches.single trivial hstep
  | setfl flags =>
    cases hs
    have hview : ({ s with flags := s.flags.map fun _ => flags, own := flags } : State ι).view =
        s.view := by
      rw [view, Option.map_map]
      exact congrArg (NonBlocking.State.mk · s.pc) ha.2
    rw [hview]
    exact .start

/-- The program sets `O_APPEND` while a call waits that has set `O_NONBLOCK`. -/
def appended (i j : ι) : List (Act ι) :=
  [.hooked (.enter i (.buf true 8)), .hooked (.advance i), .hooked (.advance i),
    .hooked (.advance i), .hooked (.advance i), .hooked (.inner i (.err .wouldBlock)),
    .setfl 3074, .hooked (.enter j (.buf false 8)), .hooked (.advance j),
    .hooked (.wake i .ready), .hooked (.advance i), .hooked (.inner i (.ok 8)),
    .hooked (.advance i), .hooked (.advance i)]

def opened : State Bool := { flags := some 2, own := 2, pc := fun _ => .outside }

theorem fcntl_refines_appended : ∃ s : State Bool, s.flags = some 1026 ∧ s.own = 3074 ∧
    (1026 : UInt32) &&& ~~~O_NONBLOCK = s.own &&& ~~~O_NONBLOCK := by
  have h₀ : opened.Initial := ⟨fun _ hf => Option.some.inj hf, fun _ => rfl⟩
  obtain ⟨s, h, hflags, hown⟩ : ∃ s : State Bool, Reaches State.step Considerate opened s ∧
      s.flags = some 1026 ∧ s.own = 3074 :=
    ⟨_, Reaches.of_runGuarded (appended true false) rfl, rfl, rfl⟩
  exact ⟨s, hflags, hown, (fcntl_refines h₀ h).2 1026 hflags⟩

/-- Between the two calls of `fcntl` it is lost. -/
example : ∃ s : State Bool, Reaches State.step Free opened s ∧ s.flags = some 2050 ∧
    s.own = 1026 :=
  ⟨_, Reaches.of_run [.hooked (.enter true (.buf true 8)), .hooked (.advance true),
    .hooked (.advance true), .setfl 1026, .hooked (.advance true)] rfl (guarded_free _), rfl, rfl⟩

end Fcntl

end OpenCoroutine
