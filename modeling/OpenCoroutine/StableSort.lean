import Mathlib.Data.List.Pairwise
import Mathlib.Order.Lattice

/-! Lists in the order of a key. Two of them are equal when they agree key by key, so the stable
sort of a list is the only one that has every key's elements in the list's own order. -/

namespace StableSort

variable {A K : Type*}

section Key

variable [LinearOrder K] {key : A → K}

theorem filter_ne_nil {l : List A} {a : A} (h : a ∈ l) : l.filter (fun b => key b = key a) ≠ [] := by
  intro hnil
  have ha := List.filter_eq_nil_iff.1 hnil a h
  simp at ha

theorem key_mem {l l' : List A} (h : ∀ k, l.filter (fun a => key a = k) = l'.filter fun a => key a = k)
    {a : A} (ha : a ∈ l) : a ∈ l' := by
  have hmem : a ∈ l.filter fun b => key b = key a := List.mem_filter.2 ⟨ha, decide_eq_true rfl⟩
  rw [h] at hmem
  exact (List.mem_filter.1 hmem).1

/-- A list in the order of the key is known when the elements of each key are. -/
theorem eq_of_filter_eq {l l' : List A} (hl : l.Pairwise fun a b => key a ≤ key b)
    (hl' : l'.Pairwise fun a b => key a ≤ key b)
    (h : ∀ k, l.filter (fun a => key a = k) = l'.filter fun a => key a = k) : l = l' := by
  induction l generalizing l' with
  | nil =>
    refine (List.eq_nil_iff_forall_not_mem.2 fun a ha => ?_).symm
    exact filter_ne_nil ha (h (key a)).symm
  | cons a l ih =>
    cases l' with
    | nil => exact absurd (h (key a)) (filter_ne_nil List.mem_cons_self)
    | cons b l' =>
      obtain ⟨hmin, hrest⟩ := List.pairwise_cons.1 hl
      obtain ⟨hmin', hrest'⟩ := List.pairwise_cons.1 hl'
      have hle : key a ≤ key b := by
        rcases List.mem_cons.1 (key_mem (fun k => (h k).symm) List.mem_cons_self) with rfl | hb
        · exact le_rfl
        · exact hmin b hb
      have hge : key b ≤ key a := by
        rcases List.mem_cons.1 (key_mem h List.mem_cons_self) with rfl | ha
        · exact le_rfl
        · exact hmin' a ha
      have heq : key b = key a := le_antisymm hge hle
      -- Both heads are the first of the least key.
      have hheads := h (key a)
      simp only [List.filter_cons, heq, decide_true, if_true, List.cons.injEq] at hheads
      obtain ⟨rfl, -⟩ := hheads
      refine congrArg (a :: ·) (ih hrest hrest' fun k => ?_)
      have hk := h k
      simp only [List.filter_cons] at hk
      split at hk
      · exact (List.cons.inj hk).2
      · exact hk

theorem decide_trans (a b c : A) (hab : decide (key a ≤ key b) = true)
    (hbc : decide (key b ≤ key c) = true) : decide (key a ≤ key c) = true :=
  decide_eq_true ((of_decide_eq_true hab).trans (of_decide_eq_true hbc))

theorem decide_total (a b : A) : (decide (key a ≤ key b) || decide (key b ≤ key a)) = true := by
  rcases le_total (key a) (key b) with hle | hle <;> simp [hle]

theorem filter_mergeSort (l : List A) (k : K) :
    (l.mergeSort fun a b => key a ≤ key b).filter (fun a => key a = k) =
      l.filter fun a => key a = k := by
  have hsub : (l.filter fun a => key a = k).Sublist (l.mergeSort fun a b => key a ≤ key b) := by
    apply List.sublist_mergeSort decide_trans decide_total
    · refine List.pairwise_of_forall_mem_list fun a ha b hb => ?_
      have hka := of_decide_eq_true (List.mem_filter.1 ha).2
      have hkb := of_decide_eq_true (List.mem_filter.1 hb).2
      exact decide_eq_true (hka.trans hkb.symm).le
    · exact List.filter_sublist
  have hfilter := hsub.filter fun a => key a = k
  simp only [List.filter_filter, Bool.and_self] at hfilter
  refine (hfilter.eq_of_length ?_).symm
  exact (((List.mergeSort_perm l _).filter _).length_eq).symm

theorem eq_mergeSort {l l' : List A} (hl : l.Pairwise fun a b => key a ≤ key b)
    (h : ∀ k, l.filter (fun a => key a = k) = l'.filter fun a => key a = k) :
    l = l'.mergeSort fun a b => key a ≤ key b := by
  refine eq_of_filter_eq hl ?_ fun k => (h k).trans (filter_mergeSort l' k).symm
  exact (List.pairwise_mergeSort decide_trans decide_total l').imp fun hab => of_decide_eq_true hab

end Key

/-- Without the element at `index` of those that satisfy `p`. -/
def eraseNth (p : A → Bool) : Nat → List A → List A
  | _, [] => []
  | index, a :: l =>
    if p a then
      match index with
      | 0 => l
      | index + 1 => a :: eraseNth p index l
    else a :: eraseNth p index l

variable (p : A → Bool)

theorem filter_eraseNth (index : Nat) (l : List A) :
    (eraseNth p index l).filter p = (l.filter p).eraseIdx index := by
  induction l generalizing index with
  | nil => rfl
  | cons a l ih =>
    by_cases ha : p a = true
    · cases index with
      | zero => simp [eraseNth, ha]
      | succ index => simp [eraseNth, ha, ih]
    · simp [eraseNth, ha, ih]

theorem filter_eraseNth_of_disjoint {q : A → Bool} (h : ∀ a, p a = true → q a = false) (index : Nat)
    (l : List A) : (eraseNth p index l).filter q = l.filter q := by
  induction l generalizing index with
  | nil => rfl
  | cons a l ih =>
    by_cases ha : p a = true
    · cases index with
      | zero => simp [eraseNth, ha, h a ha]
      | succ index => simp [eraseNth, ha, ih, h a ha]
    · simp [eraseNth, ha, List.filter_cons, ih]

theorem eraseNth_sublist (index : Nat) (l : List A) : (eraseNth p index l).Sublist l := by
  induction l generalizing index with
  | nil => exact .slnil
  | cons a l ih =>
    by_cases ha : p a = true
    · cases index with
      | zero =>
        simp only [eraseNth, ha, if_true]
        exact List.sublist_cons_self a l
      | succ index =>
        simp only [eraseNth, ha, if_true]
        exact (ih index).cons_cons a
    · simp only [eraseNth, ha]
      exact (ih index).cons_cons a

theorem eraseNth_perm (index : Nat) (l : List A) :
    l.Perm ((l.filter p)[index]?.toList ++ eraseNth p index l) := by
  induction l generalizing index with
  | nil => simp [eraseNth]
  | cons a l ih =>
    by_cases ha : p a = true
    · cases index with
      | zero => simp [eraseNth, ha]
      | succ index =>
        simp only [eraseNth, ha, if_true, List.filter_cons, List.getElem?_cons_succ]
        exact ((ih index).cons a).trans List.perm_middle.symm
    · simp only [eraseNth, ha, List.filter_cons]
      exact ((ih index).cons a).trans List.perm_middle.symm

end StableSort
