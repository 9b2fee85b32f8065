import OpenCoroutine.Timer

/-! `TimerEntry::remove` looks for its element with a binary search, and removes what stands at
the index it gets, found or not. The deque is in the order of insertion, so the search may
answer anything. On a sorted deque without the element the index is where the element would
go, and what goes instead is the next larger one. -/

namespace OpenCoroutine

namespace TimerEntry

variable {T : Type*}

inductive Op (T : Type*) where
  | pushBack (t : T)
  | popFront

def step (e : TimerEntry T) : Op T → TimerEntry T
  | .pushBack t => e.pushBack t
  | .popFront => (e.popFront.map Prod.snd).getD e

def build (timestamp : Nat) (ops : List (Op T)) : TimerEntry T := ops.foldl step (new timestamp)

/-- `remove` of `t` takes `t` out once, and nothing if it is not there. -/
structure RemovesExactly (e : TimerEntry T) (t : T) (index : Nat) : Prop where
  found : t ∈ e.inner → e.removed index = some t ∧ ∃ pre post,
    e.inner = pre ++ t :: post ∧ e.remove index = { e with inner := pre ++ post }
  absent : t ∉ e.inner → e.removed index = none ∧ e.remove index = e

/-- Whether the right thing happens depends on what stands at the index. -/
theorem removesExactly_iff {e : TimerEntry T} {t : T} {index : Nat} :
    e.RemovesExactly t index ↔
      e.removed index = some t ∨ t ∉ e.inner ∧ e.inner.length ≤ index := by
  constructor
  · intro h
    by_cases ht : t ∈ e.inner
    · exact .inl (h.found ht).1
    · exact .inr ⟨ht, List.getElem?_eq_none_iff.1 (h.absent ht).1⟩
  · rintro (h | ⟨ht, hlen⟩)
    · obtain ⟨hlt, hget⟩ := List.getElem?_eq_some_iff.1 h
      have hmem : t ∈ e.inner := hget ▸ List.getElem_mem hlt
      refine ⟨fun _ => ⟨h, e.inner.take index, e.inner.drop (index + 1), ?_, ?_⟩,
        fun hno => absurd hmem hno⟩
      · have hsplit := List.take_append_drop index e.inner
        rw [List.drop_eq_getElem_cons hlt, hget] at hsplit
        exact hsplit.symm
      · rw [remove, List.eraseIdx_eq_take_drop_succ]
    · refine ⟨fun hmem => absurd hmem ht, fun _ => ⟨List.getElem?_eq_none hlen, ?_⟩⟩
      rw [remove, List.eraseIdx_of_length_le hlen]

variable [LinearOrder T]

theorem exists_cut {l : List T} (hsorted : l.Pairwise (· ≤ ·)) {t : T} (ht : t ∉ l) :
    ∃ pre post, l = pre ++ post ∧ (∀ x ∈ pre, x < t) ∧ ∀ x ∈ post, t < x := by
  induction l with
  | nil => exact ⟨[], [], rfl, by simp, by simp⟩
  | cons a l ih =>
    obtain ⟨hle, hsorted⟩ := List.pairwise_cons.1 hsorted
    obtain ⟨hne, ht⟩ := List.ne_and_not_mem_of_not_mem_cons ht
    rcases lt_or_gt_of_ne hne with hlt | hgt
    · refine ⟨[], a :: l, rfl, by simp, fun x hx => ?_⟩
      rcases List.mem_cons.1 hx with rfl | hx
      · exact hlt
      · exact hlt.trans_le (hle x hx)
    · obtain ⟨pre, post, rfl, hpre, hpost⟩ := ih hsorted ht
      refine ⟨a :: pre, post, rfl, fun x hx => ?_, hpost⟩
      rcases List.mem_cons.1 hx with rfl | hx
      · exact hgt
      · exact hpre x hx

theorem searches_cut {e : TimerEntry T} {t : T} {pre post : List T} (he : e.inner = pre ++ post)
    (ht : t ∉ e.inner) (hpre : ∀ x ∈ pre, x < t) (hpost : ∀ x ∈ post, t < x) :
    e.Searches t pre.length := by
  refine ⟨?_, fun _ => .inr ⟨ht, ?_, ?_⟩⟩
  · rw [he, List.length_append]
    omega
  · rwa [he, List.take_left]
  · rwa [he, List.drop_left]

theorem searches_of_not_sorted {e : TimerEntry T} (h : ¬ e.inner.Pairwise (· ≤ ·)) (t : T)
    {index : Nat} (hle : index ≤ e.inner.length) : e.Searches t index :=
  ⟨hle, fun hsorted => absurd hsorted h⟩

theorem exists_searches (e : TimerEntry T) (t : T) : ∃ index, e.Searches t index := by
  by_cases hsorted : e.inner.Pairwise (· ≤ ·)
  · by_cases ht : t ∈ e.inner
    · obtain ⟨index, hlt, hget⟩ := List.mem_iff_getElem.1 ht
      exact ⟨index, hlt.le, fun _ => .inl (hget ▸ List.getElem?_eq_getElem hlt)⟩
    · obtain ⟨pre, post, he, hpre, hpost⟩ := exists_cut hsorted ht
      exact ⟨pre.length, searches_cut he ht hpre hpost⟩
  · exact ⟨0, searches_of_not_sorted hsorted t (Nat.zero_le _)⟩

/-- On a deque that is not sorted an answer of the search is wrong for every element. -/
theorem not_removesExactly {e : TimerEntry T} (h : ¬ e.inner.Pairwise (· ≤ ·)) (t : T) :
    ∃ index, e.Searches t index ∧ ¬ e.RemovesExactly t index := by
  have hpos : 0 < e.inner.length := by
    refine List.length_pos_iff.2 fun hnil => h ?_
    rw [hnil]
    exact .nil
  by_cases ht : t ∈ e.inner
  · refine ⟨e.inner.length, searches_of_not_sorted h t le_rfl, fun hexact => ?_⟩
    have hsome := (hexact.found ht).1
    rw [removed, List.getElem?_eq_none le_rfl] at hsome
    exact Option.some_ne_none _ hsome.symm
  · refine ⟨0, searches_of_not_sorted h t (Nat.zero_le _), fun hexact => ?_⟩
    have hnone := List.getElem?_eq_none_iff.1 (hexact.absent ht).1
    omega

/-- What goes in place of an element that is not there is the next larger one. -/
theorem removed_next {e : TimerEntry T} (hsorted : e.inner.Pairwise (· ≤ ·)) {t : T}
    (ht : t ∉ e.inner) (hmore : ∃ x ∈ e.inner, t < x) {index : Nat} (h : e.Searches t index) :
    ∃ x, e.removed index = some x ∧ t < x ∧ ∀ y ∈ e.inner, t < y → x ≤ y := by
  rcases h.2 hsorted with hget | ⟨-, hbefore, hafter⟩
  · exact absurd (List.mem_of_getElem? hget) ht
  have hdrop : ∀ y ∈ e.inner, t < y → y ∈ e.inner.drop index := by
    intro y hy hlt
    rw [← List.take_append_drop index e.inner] at hy
    exact (List.mem_append.1 hy).resolve_left fun hy => lt_asymm hlt (hbefore y hy)
  have hlen : index < e.inner.length := by
    obtain ⟨x, hx, hlt⟩ := hmore
    have hpos := List.length_pos_of_mem (hdrop x hx hlt)
    rw [List.length_drop] at hpos
    omega
  have hcons := List.drop_eq_getElem_cons hlen
  refine ⟨e.inner[index], List.getElem?_eq_getElem hlen, ?_, fun y hy hlt => ?_⟩
  · apply hafter
    rw [hcons]
    exact List.mem_cons_self
  · have hrest : (e.inner.drop index).Pairwise (· ≤ ·) := hsorted.drop
    have hmem := hdrop y hy hlt
    rw [hcons] at hrest hmem
    rcases List.mem_cons.1 hmem with rfl | hmem
    · exact le_rfl
    · exact (List.pairwise_cons.1 hrest).1 y hmem

theorem removesExactly_of_searches {e : TimerEntry T} (hsorted : e.inner.Pairwise (· ≤ ·)) {t : T}
    (ht : t ∈ e.inner ∨ ∀ x ∈ e.inner, x < t) {index : Nat} (h : e.Searches t index) :
    e.RemovesExactly t index := by
  rw [removesExactly_iff]
  rcases h.2 hsorted with hget | ⟨hno, -, hafter⟩
  · exact .inl hget
  · have hall := ht.resolve_left hno
    refine .inr ⟨hno, ?_⟩
    by_contra hlt
    have hlen : index < e.inner.length := by omega
    have hmem : e.inner[index] ∈ e.inner.drop index := by
      rw [List.drop_eq_getElem_cons hlen]
      exact List.mem_cons_self
    exact lt_asymm (hafter _ hmem) (hall _ (List.getElem_mem hlen))

/-- `remove` is right on the deques that are sorted and have the element or only smaller
ones. -/
theorem remove_exact_iff (timestamp : Nat) (ops : List (Op T)) (t : T) :
    (∀ index, (build timestamp ops).Searches t index →
        (build timestamp ops).RemovesExactly t index) ↔
      (build timestamp ops).inner.Pairwise (· ≤ ·) ∧
        (t ∈ (build timestamp ops).inner ∨ ∀ x ∈ (build timestamp ops).inner, x < t) := by
  generalize build timestamp ops = e
  constructor
  · intro hexact
    have hsorted : e.inner.Pairwise (· ≤ ·) := by
      by_contra hno
      obtain ⟨index, hsearch, hwrong⟩ := not_removesExactly hno t
      exact hwrong (hexact index hsearch)
    refine ⟨hsorted, ?_⟩
    by_cases ht : t ∈ e.inner
    · exact .inl ht
    · refine .inr fun x hx => ?_
      by_contra hle
      have hlt : t < x := (not_lt.1 hle).lt_of_ne fun heq => ht (heq ▸ hx)
      obtain ⟨pre, post, he, hpre, hpost⟩ := exists_cut hsorted ht
      have hsearch := searches_cut he ht hpre hpost
      obtain ⟨y, hy, -⟩ := removed_next hsorted ht ⟨x, hx, hlt⟩ hsearch
      have hnone := ((hexact _ hsearch).absent ht).1
      rw [hy] at hnone
      cases hnone
  · rintro ⟨hsorted, ht⟩ index hsearch
    exact removesExactly_of_searches hsorted ht hsearch

/-- One `push_back` of 2, and `remove(&1)` takes the 2 out. -/
theorem remove_takes_other : ∃ (ops : List (Op Nat)) (t : Nat),
    t ∉ (build 0 ops).inner ∧ (∃ index, (build 0 ops).Searches t index) ∧
      ∀ index, (build 0 ops).Searches t index → (build 0 ops).removed index = some 2 ∧
        ((build 0 ops).remove index).inner = [] ∧ ¬ (build 0 ops).RemovesExactly t index := by
  refine ⟨[.pushBack 2], 1, by decide, ⟨0, by decide⟩, fun index h => ?_⟩
  have hzero : index = 0 := by
    rcases index with - | index
    · rfl
    · have hle : index + 1 ≤ 1 := h.1
      obtain rfl : index = 0 := by omega
      exact absurd h (by decide)
  subst hzero
  refine ⟨rfl, rfl, fun hexact => ?_⟩
  have hnone := (hexact.absent (by decide)).1
  cases hnone

end TimerEntry

end OpenCoroutine
