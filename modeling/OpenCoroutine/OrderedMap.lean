import Mathlib.Order.Lattice
import Mathlib.Data.List.Pairwise

/-! Finite maps over a linear order as strictly sorted lists of entries. Inserting at a
key keeps what lies below it and above it, so every operation is described by the cut
of the entry list at the key. -/

structure OrderedMap (K V : Type*) [LinearOrder K] where
  entries : List (K × V)
  sorted : entries.Pairwise fun a b => a.1 < b.1

namespace OrderedMap

variable {K V : Type*} [LinearOrder K]

def empty : OrderedMap K V := ⟨[], .nil⟩

def below (k : K) (l : List (K × V)) : List (K × V) := l.filter fun e => e.1 < k

def above (k : K) (l : List (K × V)) : List (K × V) := l.filter fun e => k < e.1

def get? (m : OrderedMap K V) (k : K) : Option V :=
  (m.entries.find? fun e => e.1 = k).map Prod.snd

theorem sorted_cut (m : OrderedMap K V) (k : K) (v : V) :
    (below k m.entries ++ (k, v) :: above k m.entries).Pairwise fun a b => a.1 < b.1 := by
  have hb : ∀ e ∈ below k m.entries, e.1 < k := fun e he => by
    simpa using (List.mem_filter.mp he).2
  have ha : ∀ e ∈ above k m.entries, k < e.1 := fun e he => by
    simpa using (List.mem_filter.mp he).2
  refine List.pairwise_append.mpr ⟨m.sorted.filter _, ?_, ?_⟩
  · exact List.pairwise_cons.mpr ⟨ha, m.sorted.filter _⟩
  · intro a hal b hbr
    rcases List.mem_cons.mp hbr with rfl | hbr
    · exact hb a hal
    · exact (hb a hal).trans (ha b hbr)

def insert (m : OrderedMap K V) (k : K) (v : V) : OrderedMap K V :=
  ⟨below k m.entries ++ (k, v) :: above k m.entries, m.sorted_cut k v⟩

def first? (m : OrderedMap K V) : Option (K × V) := m.entries.head?

def popFirst (m : OrderedMap K V) : Option ((K × V) × OrderedMap K V) :=
  m.entries.head?.map fun e => (e, ⟨m.entries.tail, m.sorted.tail⟩)

def erase (m : OrderedMap K V) (k : K) : OrderedMap K V :=
  ⟨m.entries.filter fun e => e.1 ≠ k, m.sorted.filter _⟩

def length (m : OrderedMap K V) : Nat := m.entries.length

@[simp] theorem entries_insert (m : OrderedMap K V) (k : K) (v : V) :
    (m.insert k v).entries = below k m.entries ++ (k, v) :: above k m.entries := rfl

theorem cut_of_lt {k : K} {l : List (K × V)} (h : ∀ e ∈ l, k < e.1) :
    below k l = [] ∧ above k l = l := by
  refine ⟨List.filter_eq_nil_iff.mpr fun e he => ?_, List.filter_eq_self.mpr fun e he => ?_⟩
  · simpa using (h e he).le
  · simpa using h e he

/-- A key that is there splits the entries into those below it, its own and those above. -/
theorem entries_of_get? {m : OrderedMap K V} {k : K} {v : V} (h : m.get? k = some v) :
    m.entries = below k m.entries ++ (k, v) :: above k m.entries := by
  obtain ⟨l, hs⟩ := m
  simp only [get?] at h
  induction l with
  | nil => simp at h
  | cons e l ih =>
    have hp := List.pairwise_cons.mp hs
    by_cases he : e.1 = k
    · subst he
      have hc := cut_of_lt hp.1
      simp only [List.find?_cons, decide_true, Option.map_some, Option.some.injEq] at h
      subst h
      have hb : below e.1 (e :: l) = below e.1 l := by simp [below]
      have ha : above e.1 (e :: l) = above e.1 l := by simp [above]
      rw [hb, ha, hc.1, hc.2]
      rfl
    · have h' : (l.find? fun e => decide (e.1 = k)).map Prod.snd = some v := by
        simpa [List.find?_cons, he] using h
      have hi := ih hp.2 h'
      have hm : (k, v) ∈ l := by
        simp only at hi
        rw [hi]
        simp
      have hlt : e.1 < k := hp.1 _ hm
      simp only [below, above, List.filter_cons, hlt, decide_true, if_true, not_lt_of_gt hlt,
        decide_false] at hi ⊢
      simpa using hi

theorem entries_of_get?_none {m : OrderedMap K V} {k : K} (h : m.get? k = none) :
    m.entries = below k m.entries ++ above k m.entries := by
  obtain ⟨l, hs⟩ := m
  simp only [get?] at h
  induction l with
  | nil => rfl
  | cons e l ih =>
    have hp := List.pairwise_cons.mp hs
    have he : e.1 ≠ k := by
      intro he
      simp [he] at h
    have hi := ih hp.2 (by simpa [List.find?_cons, he] using h)
    rcases lt_or_gt_of_ne he with hlt | hgt
    · simp only [below, above, List.filter_cons, hlt, decide_true, if_true, not_lt_of_gt hlt,
        decide_false] at hi ⊢
      simpa using hi
    · have hc := cut_of_lt (k := k) (l := e :: l) (by
        intro a ha
        rcases List.mem_cons.mp ha with rfl | ha
        · exact hgt
        · exact hgt.trans (hp.1 a ha))
      simp only [hc.1, hc.2, List.nil_append]

theorem entries_erase (m : OrderedMap K V) (k : K) :
    (m.erase k).entries = below k m.entries ++ above k m.entries := by
  obtain ⟨l, hs⟩ := m
  simp only [erase]
  induction l with
  | nil => rfl
  | cons e l ih =>
    have hp := List.pairwise_cons.mp hs
    have hi := ih hp.2
    rcases lt_trichotomy e.1 k with hlt | rfl | hgt
    · simpa [below, above, hlt, hlt.ne, not_lt_of_gt hlt] using hi
    · have hc := cut_of_lt hp.1
      have ha : above e.1 (e :: l) = above e.1 l := by simp [above]
      have hb : below e.1 (e :: l) = below e.1 l := by simp [below]
      rw [ha, hb, ← hi]
      simp
    · have hc := cut_of_lt (k := k) (l := e :: l) fun a ha => by
        rcases List.mem_cons.mp ha with rfl | ha
        · exact hgt
        · exact hgt.trans (hp.1 a ha)
      rw [hc.1, hc.2, List.nil_append, List.filter_eq_self]
      intro a ha
      have hlt : k < a.1 := by
        rcases List.mem_cons.mp ha with rfl | ha
        · exact hgt
        · exact hgt.trans (hp.1 a ha)
      simpa using hlt.ne'

theorem get?_eq_some_iff {m : OrderedMap K V} {k : K} {v : V} :
    m.get? k = some v ↔ (k, v) ∈ m.entries := by
  constructor
  · intro h
    rw [entries_of_get? h]
    exact List.mem_append_right _ List.mem_cons_self
  · intro hmem
    have hbelow : ∀ e ∈ below k m.entries, e.1 ≠ k := fun e he =>
      (of_decide_eq_true (List.mem_filter.1 he).2).ne
    have habove : ∀ e ∈ above k m.entries, e.1 ≠ k := fun e he =>
      (of_decide_eq_true (List.mem_filter.1 he).2).ne'
    cases h : m.get? k with
    | none =>
      rw [entries_of_get?_none h] at hmem
      rcases List.mem_append.1 hmem with hmem | hmem
      · exact absurd rfl (hbelow _ hmem)
      · exact absurd rfl (habove _ hmem)
    | some w =>
      rw [entries_of_get? h] at hmem
      rcases List.mem_append.1 hmem with hmem | hmem
      · exact absurd rfl (hbelow _ hmem)
      · rcases List.mem_cons.1 hmem with heq | hmem
        · rw [(Prod.mk.inj heq).2]
        · exact absurd rfl (habove _ hmem)

theorem get?_insert (m : OrderedMap K V) (k : K) (v : V) (k' : K) :
    (m.insert k v).get? k' = if k' = k then some v else m.get? k' := by
  ext w
  by_cases hk : k' = k
  · subst hk
    rw [if_pos rfl, get?_eq_some_iff, entries_insert]
    simp [below, above, eq_comm]
  · rw [if_neg hk, get?_eq_some_iff, get?_eq_some_iff, entries_insert]
    simp only [below, above, List.mem_append, List.mem_filter, List.mem_cons, Prod.mk.injEq, hk,
      false_and, false_or, decide_eq_true_eq, ← and_or_left]
    exact and_iff_left (lt_or_gt_of_ne hk)

theorem get?_erase (m : OrderedMap K V) (k k' : K) :
    (m.erase k).get? k' = if k' = k then none else m.get? k' := by
  ext w
  by_cases hk : k' = k
  · subst hk
    rw [if_pos rfl, get?_eq_some_iff, erase]
    simp
  · rw [if_neg hk, get?_eq_some_iff, get?_eq_some_iff, erase]
    simp [hk]

/-- What is taken off the front lies before everything that stays. -/
theorem popFirst_eq_some {m m' : OrderedMap K V} {e : K × V} (h : m.popFirst = some (e, m')) :
    m.entries = e :: m'.entries ∧ ∀ e' ∈ m'.entries, e.1 < e'.1 := by
  obtain ⟨l, hs⟩ := m
  cases l with
  | nil => simp [popFirst] at h
  | cons a l =>
    simp only [popFirst, List.head?_cons, List.tail_cons, Option.map_some, Option.some.injEq,
      Prod.mk.injEq] at h
    obtain ⟨rfl, rfl⟩ := h
    exact ⟨rfl, (List.pairwise_cons.mp hs).1⟩

theorem popFirst_erase {m m' : OrderedMap K V} {k : K} {v : V}
    (h : m.popFirst = some ((k, v), m')) : m.get? k = some v ∧ m' = m.erase k := by
  obtain ⟨hentries, hlt⟩ := popFirst_eq_some h
  refine ⟨get?_eq_some_iff.2 (hentries ▸ List.mem_cons_self), ?_⟩
  have hcut := cut_of_lt hlt
  have herase : (m.erase k).entries = m'.entries := by
    have hbelow : below k ((k, v) :: m'.entries) = below k m'.entries := by simp [below]
    have habove : above k ((k, v) :: m'.entries) = above k m'.entries := by simp [above]
    rw [entries_erase, hentries, hbelow, habove, hcut.1, hcut.2, List.nil_append]
  cases m'
  cases hm : m.erase k
  rw [hm] at herase
  cases herase
  rfl

theorem popFirst_of_entries {m : OrderedMap K V} {e : K × V} {entries : List (K × V)}
    (h : m.entries = e :: entries) :
    ∃ m', m.first? = some e ∧ m.popFirst = some (e, m') ∧ m'.entries = entries := by
  obtain ⟨l, hs⟩ := m
  subst h
  exact ⟨⟨entries, hs.tail⟩, rfl, rfl, rfl⟩

theorem lt_of_first {m : OrderedMap K V} {e : K × V} {entries : List (K × V)} {k : K}
    (h : m.entries = e :: entries) (hk : k < e.1) : ∀ e' ∈ m.entries, k < e'.1 := by
  have hs := m.sorted
  rw [h] at hs ⊢
  intro e' he
  rcases List.mem_cons.mp he with rfl | he
  · exact hk
  · exact hk.trans ((List.pairwise_cons.mp hs).1 e' he)

theorem popFirst_of_first? {m m' : OrderedMap K V} {e e' : K × V} (hf : m.first? = some e)
    (hp : m.popFirst = some (e', m')) : e' = e := by
  have he := (popFirst_eq_some hp).1
  rw [first?, he, List.head?_cons, Option.some.injEq] at hf
  exact hf

end OrderedMap
