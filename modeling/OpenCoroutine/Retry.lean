import Mathlib.Logic.Function.Basic
import OpenCoroutine.Transition

/-! Operations that ask an object again and again until they have an answer to return, and pause
in between. If everything they ask for before they return changes nothing, and what they ask for
last changes what the operation as a whole would, then overlapping operations are linearizable:
the object is as if each had been performed at once, when it returned. -/

namespace Retry

open Function Transition

variable {ι κ ο π α ρ θ ω ε : Type*}

/-- What a program does next. It may end with nothing done. -/
inductive Todo (α ω : Type*) where
  | ask (request : α)
  | pause
  | done (result : Option ω)

/-- A program for each operation, whose states are of type `π`. -/
structure Program (ο π α ρ θ ω : Type*) where
  start : ο → π
  todo : π → Todo α ω
  answer : π → ρ → π
  wake : π → θ → π

/-- What the requests of a program, the operations, and the others do to an object. -/
structure Object (κ ο α ρ ω ε : Type*) where
  request : κ → α → ρ → Option κ
  perform : κ → ο → ω → Option κ
  beside : κ → ε → Option κ

/-- The last event stands first in `log`. -/
structure State (ι κ ο π ω ε : Type*) where
  object : κ
  ops : ι → Option (ο × π) := fun _ => none
  log : List (ε ⊕ ι × ο × ω) := []

inductive Act (ι ο ρ θ ε : Type*) where
  | enter (i : ι) (o : ο)
  | answer (i : ι) (a : ρ)
  | wake (i : ι) (w : θ)
  | beside (e : ε)

variable [DecidableEq ι] (P : Program ο π α ρ θ ω) (O : Object κ ο α ρ ω ε)

/-- The operation of `i` goes on in state `p` or returns. -/
def State.settle (s : State ι κ ο π ω ε) (i : ι) (o : ο) (p : π) : State ι κ ο π ω ε :=
  match P.todo p with
  | .ask _ | .pause => { s with ops := update s.ops i (some (o, p)) }
  | .done none => { s with ops := update s.ops i none }
  | .done (some w) => { s with ops := update s.ops i none, log := .inr (i, o, w) :: s.log }

def step (s : State ι κ ο π ω ε) : Act ι ο ρ θ ε → Option (State ι κ ο π ω ε)
  | .enter i o =>
    match s.ops i with
    | none => some (s.settle P i o (P.start o))
    | some _ => none
  | .answer i a =>
    match s.ops i with
    | none => none
    | some (o, p) =>
      match P.todo p with
      | .ask request => (O.request s.object request a).map fun object =>
          { s with object }.settle P i o (P.answer p a)
      | .pause | .done _ => none
  | .wake i w =>
    match s.ops i with
    | none => none
    | some (o, p) =>
      match P.todo p with
      | .pause => some (s.settle P i o (P.wake p w))
      | .ask _ | .done _ => none
  | .beside e => (O.beside s.object e).map fun object => { s with object, log := .inl e :: s.log }

/-- One operation at a time. -/
def plain (k : κ) : ε ⊕ ι × ο × ω → Option κ
  | .inl e => O.beside k e
  | .inr (_, o, w) => O.perform k o w

/-- In the states `Begun` a program has done nothing, and when it returns it has done what the
operation would have done then. -/
structure Retries (Begun : ο → π → Prop) : Prop where
  start : ∀ o, Begun o (P.start o) ∨ P.todo (P.start o) = .done none
  goes : ∀ o p w, Begun o p → P.todo p ≠ .done (some w)
  ask : ∀ o p request a k k', Begun o p → P.todo p = .ask request →
    O.request k request a = some k' →
      k' = k ∧ (Begun o (P.answer p a) ∨ P.todo (P.answer p a) = .done none) ∨
        ∃ w, P.todo (P.answer p a) = .done (some w) ∧ O.perform k o w = some k'
  pause : ∀ o p w, Begun o p → P.todo p = .pause →
    Begun o (P.wake p w) ∨ P.todo (P.wake p w) = .done none

variable {P O} {Begun : ο → π → Prop} {k₀ : κ} {s t : State ι κ ο π ω ε}

theorem run_concat {σ : Type*} {step : σ → α → Option σ} {s t u : σ} {as : List α} {a : α}
    (h : run step s as = some t) (ha : step t a = some u) : run step s (as ++ [a]) = some u := by
  induction as generalizing s with
  | nil =>
    cases h
    rw [List.nil_append, run, ha]
    rfl
  | cons b as ih =>
    rw [run, Option.bind_eq_some_iff] at h
    obtain ⟨r, hr, has⟩ := h
    rw [List.cons_append, run, hr]
    exact ih has

theorem step_cases {a : Act ι ο ρ θ ε} (hs : step P O s a = some t) :
    (∃ i o, a = .enter i o ∧ t = s.settle P i o (P.start o)) ∨
    (∃ i o p b request object, a = .answer i b ∧ s.ops i = some (o, p) ∧ P.todo p = .ask request ∧
      O.request s.object request b = some object ∧
        t = { s with object }.settle P i o (P.answer p b)) ∨
    (∃ i o p w, a = .wake i w ∧ s.ops i = some (o, p) ∧ P.todo p = .pause ∧
      t = s.settle P i o (P.wake p w)) ∨
    ∃ e object, a = .beside e ∧ O.beside s.object e = some object ∧
      t = { s with object, log := .inl e :: s.log } := by
  cases a with
  | enter i o =>
    simp only [step] at hs
    split at hs
    · exact .inl ⟨i, o, rfl, (Option.some.inj hs).symm⟩
    · cases hs
  | answer i b =>
    simp only [step] at hs
    split at hs
    · cases hs
    · rename_i o p hi
      split at hs
      · rename_i request hask
        obtain ⟨object, hk, rfl⟩ := Option.map_eq_some_iff.1 hs
        exact .inr (.inl ⟨i, o, p, b, request, object, rfl, hi, hask, hk, rfl⟩)
      · cases hs
      · cases hs
  | wake i w =>
    simp only [step] at hs
    split at hs
    · cases hs
    · rename_i o p hi
      split at hs
      · rename_i hpause
        exact .inr (.inr (.inl ⟨i, o, p, w, rfl, hi, hpause, (Option.some.inj hs).symm⟩))
      · cases hs
      · cases hs
  | beside e =>
    obtain ⟨object, hk, rfl⟩ := Option.map_eq_some_iff.1 hs
    exact .inr (.inr (.inr ⟨e, object, rfl, hk, rfl⟩))

theorem update_ops {Q : ο → π → Prop} (h : ∀ j o p, s.ops j = some (o, p) → Q o p) (i : ι)
    {x : Option (ο × π)} (hx : ∀ o p, x = some (o, p) → Q o p) (j : ι) (o : ο) (p : π)
    (hj : update s.ops i x j = some (o, p)) : Q o p := by
  by_cases hij : j = i
  · subst hij
    rw [update_self] at hj
    exact hx o p hj
  · rw [update_of_ne hij] at hj
    exact h j o p hj

/-- The object is what the log makes of it, and the operations at work have done nothing. -/
structure Sound (O : Object κ ο α ρ ω ε) (Begun : ο → π → Prop) (k₀ : κ)
    (s : State ι κ ο π ω ε) : Prop where
  object : run (plain O) k₀ s.log.reverse = some s.object
  ops : ∀ i o p, s.ops i = some (o, p) → Begun o p

omit [DecidableEq ι] in
theorem fresh_sound (k₀ : κ) : Sound O Begun k₀ ({ object := k₀ } : State ι κ ο π ω ε) where
  object := rfl
  ops i o p h := by cases h

theorem Sound.settle (hP : Retries P O Begun) (h : Sound O Begun k₀ s) (i : ι) {o : ο} {p : π}
    (hp : Begun o p ∨ P.todo p = .done none) : Sound O Begun k₀ (s.settle P i o p) := by
  have hgo : P.todo p ≠ .done none →
      Sound O Begun k₀ { s with ops := update s.ops i (some (o, p)) } := by
    intro hne
    refine ⟨h.object, update_ops h.ops i fun _ _ hx => ?_⟩
    cases hx
    exact hp.resolve_right hne
  unfold State.settle
  split
  · rename_i hask
    exact hgo fun hd => by rw [hask] at hd; cases hd
  · rename_i hpause
    exact hgo fun hd => by rw [hpause] at hd; cases hd
  · exact ⟨h.object, update_ops h.ops i fun _ _ hx => by cases hx⟩
  · rename_i w hw
    rcases hp with hb | hd
    · exact absurd hw (hP.goes o p w hb)
    · rw [hw] at hd
      cases hd

/-- An operation returns. -/
theorem Sound.returns (h : Sound O Begun k₀ s) (i : ι) {o : ο} {p : π} {w : ω} {object : κ}
    (hp : P.todo p = .done (some w)) (hk : O.perform s.object o w = some object) :
    Sound O Begun k₀ ({ s with object }.settle P i o p) := by
  unfold State.settle
  rw [hp]
  refine ⟨?_, update_ops h.ops i fun _ _ hx => by cases hx⟩
  rw [List.reverse_cons]
  exact run_concat h.object hk

theorem Sound.step (hP : Retries P O Begun) (h : Sound O Begun k₀ s) {a : Act ι ο ρ θ ε}
    (hs : step P O s a = some t) : Sound O Begun k₀ t := by
  rcases step_cases hs with ⟨i, o, -, rfl⟩ | ⟨i, o, p, b, request, object, -, hi, hask, hk, rfl⟩ |
    ⟨i, o, p, w, -, hi, hpause, rfl⟩ | ⟨e, object, -, hk, rfl⟩
  · exact h.settle hP i (hP.start o)
  · rcases hP.ask o p request b s.object object (h.ops i o p hi) hask hk with
      ⟨rfl, hb⟩ | ⟨w, hw, hperform⟩
    · exact h.settle hP i hb
    · exact h.returns i hw hperform
  · exact h.settle hP i (hP.pause o p w (h.ops i o p hi) hpause)
  · refine ⟨?_, h.ops⟩
    rw [List.reverse_cons]
    exact run_concat h.object hk

/-- Overlapping operations act on the object as one after the other, in the order in which they
return. -/
theorem object_plain (hP : Retries P O Begun)
    {ok : State ι κ ο π ω ε → Act ι ο ρ θ ε → Prop}
    (h : Reaches (step P O) ok { object := k₀ } s) :
    run (plain O) k₀ s.log.reverse = some s.object :=
  (h.invariant (p := Sound O Begun k₀) (fresh_sound k₀) fun _ _ _ hi _ hs => hi.step hP hs).object

/-- The operations of the log, and those at work, are of a kind. -/
structure OfKind (Q : ο → Prop) (s : State ι κ ο π ω ε) : Prop where
  ops : ∀ i o p, s.ops i = some (o, p) → Q o
  log : ∀ i o w, .inr (i, o, w) ∈ s.log → Q o

omit [DecidableEq ι] in
theorem fresh_ofKind (Q : ο → Prop) (k₀ : κ) :
    OfKind Q ({ object := k₀ } : State ι κ ο π ω ε) where
  ops i o p h := by cases h
  log i o w h := by cases h

theorem OfKind.settle {Q : ο → Prop} (h : OfKind Q s) (i : ι) {o : ο} (ho : Q o) (p : π) :
    OfKind Q (s.settle P i o p) := by
  have hgo := update_ops (Q := fun o _ => Q o) h.ops i (x := some (o, p)) fun _ _ hx => by
    cases hx
    exact ho
  have hend := update_ops (Q := fun o _ => Q o) h.ops i (x := none) fun _ _ hx => by cases hx
  unfold State.settle
  split
  · exact ⟨hgo, h.log⟩
  · exact ⟨hgo, h.log⟩
  · exact ⟨hend, h.log⟩
  · refine ⟨hend, fun j o' w hm => ?_⟩
    rcases List.mem_cons.1 hm with he | hm
    · cases he
      exact ho
    · exact h.log j o' w hm

theorem OfKind.step {Q : ο → Prop} (h : OfKind Q s) {a : Act ι ο ρ θ ε}
    (ha : ∀ i o, a = .enter i o → Q o) (hs : step P O s a = some t) : OfKind Q t := by
  rcases step_cases hs with ⟨i, o, he, rfl⟩ | ⟨i, o, p, b, request, object, -, hi, -, -, rfl⟩ |
    ⟨i, o, p, w, -, hi, -, rfl⟩ | ⟨e, object, -, -, rfl⟩
  · exact h.settle i (ha i o he) _
  · exact OfKind.settle (s := { s with object }) ⟨h.ops, h.log⟩ i (h.ops i o p hi) _
  · exact h.settle i (h.ops i o p hi) _
  · refine ⟨h.ops, fun i o w hm => ?_⟩
    rcases List.mem_cons.1 hm with he | hm
    · cases he
    · exact h.log i o w hm

/-- Operations that are all of a kind when they are entered are so when they have returned. -/
theorem log_ofKind {Q : ο → Prop} {ok : State ι κ ο π ω ε → Act ι ο ρ θ ε → Prop}
    (hok : ∀ s i o, ok s (.enter i o) → Q o) (h : Reaches (step P O) ok { object := k₀ } s) :
    ∀ i o w, .inr (i, o, w) ∈ s.log → Q o := by
  refine (h.invariant (p := OfKind Q) (fresh_ofKind Q k₀) ?_).log
  intro s a t hi ha hs
  refine hi.step (fun i o he => hok s i o ?_) hs
  rw [← he]
  exact ha

end Retry
