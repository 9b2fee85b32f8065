import Mathlib.Algebra.BigOperators.Group.Finset.Basic

/-! Totals over a finite family of containers when one member of it changes. -/

namespace Family

variable {ι α M : Type*} [Fintype ι] [AddCommMonoid M]

def total (g : ι → α → M) (f : ι → α) : M := ∑ k, g k (f k)

theorem total_zero {g : ι → α → M} {f : ι → α} (h : ∀ k, g k (f k) = 0) : total g f = 0 :=
  Finset.sum_eq_zero fun k _ => h k

variable [DecidableEq ι] (g : ι → α → M) (f : ι → α) {i : ι} {a : α} {x : M}

theorem total_split (i : ι) :
    total g f = g i (f i) + ∑ k ∈ Finset.univ.erase i, g k (f k) :=
  (Finset.add_sum_erase _ _ (Finset.mem_univ i)).symm

theorem total_update_split (i : ι) (a : α) :
    total g (Function.update f i a) = g i a + ∑ k ∈ Finset.univ.erase i, g k (f k) := by
  rw [total_split g _ i, Function.update_self]
  congr 1
  exact Finset.sum_congr rfl fun k hk => by rw [Function.update_of_ne (Finset.ne_of_mem_erase hk)]

theorem total_update_add (i : ι) (a : α) :
    total g (Function.update f i a) + g i (f i) = total g f + g i a := by
  rw [total_split g f i, total_update_split, add_right_comm, add_comm (g i a), add_right_comm]

theorem total_take (h : g i (f i) = x + g i a) :
    total g f = x + total g (Function.update f i a) := by
  rw [total_split g f i, total_update_split, h, add_assoc]

theorem total_put (h : g i a = x + g i (f i)) :
    total g (Function.update f i a) = x + total g f := by
  rw [total_split g f i, total_update_split, h, add_assoc]

/-- The members other than `i` contribute what they did. -/
theorem total_change {g g' : ι → α → M} {f f' : ι → α} (i : ι)
    (h : ∀ k, k ≠ i → g' k (f' k) = g k (f k)) :
    total g' f' + g i (f i) = total g f + g' i (f' i) := by
  have hrest : ∑ k ∈ Finset.univ.erase i, g' k (f' k) = ∑ k ∈ Finset.univ.erase i, g k (f k) :=
    Finset.sum_congr rfl fun k hk => h k (Finset.ne_of_mem_erase hk)
  rw [total_split g' f' i, total_split g f i, hrest, add_right_comm, add_comm (g' i (f' i)),
    add_right_comm]

theorem total_same (h : g i a = g i (f i)) : total g (Function.update f i a) = total g f := by
  rw [total_split g f i, total_update_split, h]

end Family
