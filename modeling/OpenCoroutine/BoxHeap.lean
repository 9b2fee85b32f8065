import Mathlib.Data.Option.Basic
import Mathlib.Logic.Function.Basic

/-! A heap of boxes that are handed around as addresses without a type. Whoever uses an address
says what type is behind it, and the use is a fault where that is wrong or where the box has
been freed. Addresses are not given out twice. -/

namespace BoxHeap

open Function

inductive Misuse where
  | dangling
  | mistyped
  deriving DecidableEq, Repr

variable {τ : Type*} (V : τ → Type*)

structure Heap where
  boxes : Nat → Option (Sigma V) := fun _ => none
  next : Nat := 0

variable {V} [DecidableEq τ]

namespace Heap

omit [DecidableEq τ] in
/-- `Box::leak`. -/
def leak (h : Heap V) (x : Sigma V) : Nat × Heap V :=
  (h.next, { boxes := update h.boxes h.next (some x), next := h.next + 1 })

/-- The value behind an address. -/
def deref (h : Heap V) (ptr : Nat) (t : τ) : Except Misuse (Sigma V) :=
  match h.boxes ptr with
  | none => .error .dangling
  | some x => if x.1 = t then .ok x else .error .mistyped

def write (h : Heap V) (ptr : Nat) (x : Sigma V) : Except Misuse (Heap V) :=
  (h.deref ptr x.1).map fun _ => { h with boxes := update h.boxes ptr (some x) }

/-- `Box::from_raw`, whose box is moved out of and freed. -/
def fromRaw (h : Heap V) (ptr : Nat) (t : τ) : Except Misuse (Sigma V × Heap V) :=
  (h.deref ptr t).map fun x => (x, { h with boxes := update h.boxes ptr none })

/-- Nothing is behind an address that has not been given out. -/
def Unused (h : Heap V) : Prop := ∀ ptr, h.next ≤ ptr → h.boxes ptr = none

variable {h : Heap V} {ptr : Nat} {t : τ} {x y : Sigma V}

omit [DecidableEq τ] in
theorem leak_self (h : Heap V) (x : Sigma V) : (h.leak x).2.boxes (h.leak x).1 = some x :=
  update_self ..

omit [DecidableEq τ] in
theorem Unused.leak (hu : h.Unused) (x : Sigma V) : (h.leak x).2.Unused := by
  intro ptr hptr
  change h.next + 1 ≤ ptr at hptr
  change update h.boxes h.next (some x) ptr = none
  rw [update_of_ne (by omega)]
  exact hu ptr (by omega)

omit [DecidableEq τ] in
/-- The boxes there are stay where they are. -/
theorem Unused.leak_keeps (hu : h.Unused) (hy : h.boxes ptr = some y) (x : Sigma V) :
    (h.leak x).2.boxes ptr = some y := by
  have hne : ptr ≠ h.next := by
    rintro rfl
    rw [hu h.next (Nat.le_refl _)] at hy
    cases hy
  change update h.boxes h.next (some x) ptr = some y
  rw [update_of_ne hne]
  exact hy

theorem deref_of_live (hx : h.boxes ptr = some x) (ht : x.1 = t) : h.deref ptr t = .ok x := by
  rw [deref, hx]
  exact if_pos ht

theorem deref_faults (h : Heap V) (ptr : Nat) (t : τ) (hx : ∀ x, h.boxes ptr = some x → x.1 ≠ t) :
    ∃ fault, h.deref ptr t = .error fault := by
  unfold deref
  split
  · exact ⟨_, rfl⟩
  · rename_i y hy
    exact ⟨_, if_neg (hx y hy)⟩

end Heap

end BoxHeap
