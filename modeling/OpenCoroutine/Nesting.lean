import Mathlib.Data.List.Nodup
import Mathlib.Logic.Function.Basic

/-! A stack that is pushed at the start of a call and popped at its end, by calls that nest.
The calls in progress stand innermost first, each with its own entry and the stack that it
has found. -/

namespace Nesting

open Function

variable {κ : Type*}

/-- Each call in progress has put its own entry on what it has found, and the outermost one
has found `base`. -/
def Nested (base : List κ) : List κ → List (κ × List κ) → Prop
  | stack, [] => stack = base
  | stack, call :: calls => stack = call.1 :: call.2 ∧ Nested base call.2 calls

variable {base stack : List κ} {calls : List (κ × List κ)}

theorem Nested.enter (h : Nested base stack calls) (p : κ) :
    Nested base (p :: stack) ((p, stack) :: calls) :=
  ⟨rfl, h⟩

theorem Nested.leave {call : κ × List κ} (h : Nested base stack (call :: calls)) :
    stack.tail = call.2 ∧ Nested base stack.tail calls := by
  obtain ⟨rfl, hcalls⟩ := h
  exact ⟨rfl, hcalls⟩

theorem Nested.ne_found {call : κ × List κ} (h : Nested base stack (call :: calls)) :
    stack ≠ call.2 := by
  rw [h.1]
  exact List.cons_ne_self _ _

theorem Nested.head? (h : Nested [] stack calls) : stack.head? = (calls.map Prod.fst).head? := by
  cases calls with
  | nil =>
    rw [show stack = [] from h]
    rfl
  | cons call calls =>
    rw [h.1]
    rfl

/-! Stacks of several threads for entries that are each on one of them at most once. -/

variable {θ β : Type*}

structure Separate (lists : θ → List β) : Prop where
  apart : ∀ t t' b, b ∈ lists t → b ∈ lists t' → t = t'
  nodup : ∀ t, (lists t).Nodup

variable [DecidableEq θ] {lists : θ → List β} {t : θ} {b : β}

theorem mem_push {t' : θ} {b' : β} (hb : b' ∈ update lists t (b :: lists t) t') :
    b' = b ∧ t' = t ∨ b' ∈ lists t' := by
  by_cases ht : t' = t
  · subst ht
    rw [update_self, List.mem_cons] at hb
    exact hb.imp_left fun he => ⟨he, rfl⟩
  · rw [update_of_ne ht] at hb
    exact .inr hb

theorem mem_pop {below : List β} (htop : lists t = b :: below) {t' : θ} {b' : β}
    (hb : b' ∈ update lists t below t') : b' ∈ lists t' := by
  by_cases ht : t' = t
  · subst ht
    rw [update_self] at hb
    rw [htop]
    exact List.mem_cons_of_mem _ hb
  · rwa [update_of_ne ht] at hb

theorem Separate.push (h : Separate lists) (hnew : ∀ t', b ∉ lists t') :
    Separate (update lists t (b :: lists t)) where
  apart t₁ t₂ b' h₁ h₂ := by
    rcases mem_push h₁ with ⟨rfl, rfl⟩ | h₁
    · rcases mem_push h₂ with ⟨-, rfl⟩ | h₂
      · rfl
      · exact absurd h₂ (hnew t₂)
    · rcases mem_push h₂ with ⟨hb, -⟩ | h₂
      · exact absurd (hb ▸ h₁) (hnew t₁)
      · exact h.apart t₁ t₂ b' h₁ h₂
  nodup t' := by
    by_cases ht : t' = t
    · subst ht
      rw [update_self, List.nodup_cons]
      exact ⟨hnew t', h.nodup t'⟩
    · rw [update_of_ne ht]
      exact h.nodup t'

theorem Separate.pop (h : Separate lists) {below : List β} (htop : lists t = b :: below) :
    Separate (update lists t below) where
  apart t₁ t₂ b' h₁ h₂ := h.apart t₁ t₂ b' (mem_pop htop h₁) (mem_pop htop h₂)
  nodup t' := by
    by_cases ht : t' = t
    · subst ht
      have hnodup := h.nodup t'
      rw [htop, List.nodup_cons] at hnodup
      rw [update_self]
      exact hnodup.2
    · rw [update_of_ne ht]
      exact h.nodup t'

/-- The entry taken off is on no stack any more. -/
theorem Separate.gone (h : Separate lists) {below : List β} (htop : lists t = b :: below)
    (t' : θ) : b ∉ update lists t below t' := by
  intro hb
  have hmem : b ∈ lists t := by
    rw [htop]
    exact List.mem_cons_self
  by_cases ht : t' = t
  · subst ht
    have hnodup := h.nodup t'
    rw [update_self] at hb
    rw [htop, List.nodup_cons] at hnodup
    exact hnodup.1 hb
  · rw [update_of_ne ht] at hb
    exact ht (h.apart t' t b hb hmem)

end Nesting
