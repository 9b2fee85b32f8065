import Mathlib.Order.Monotone.Basic
import Mathlib.Order.WellFounded

/-! What must happen on an infinite run, whose moments are the natural numbers. -/

namespace Descent

variable {α β : Type*}

/-- After any moment it happens again. -/
def Recurs (p : Nat → Prop) : Prop := ∀ i, ∃ j, i ≤ j ∧ p j

/-- An event that recurs, and is a good one or lowers a count that nothing else raises, is a good
one again and again. -/
theorem Recurs.good {event good : Nat → Prop} (h : Recurs event) (count : Nat → Nat)
    (hkeep : ∀ i, ¬ event i → count (i + 1) ≤ count i)
    (hlow : ∀ i, event i → good i ∨ count (i + 1) < count i) : Recurs good := by
  have hbelow : ∀ c i, count i ≤ c → ∃ j, i ≤ j ∧ good j := by
    intro c
    induction c using Nat.strong_induction_on with
    | _ c ih =>
      intro i hc
      obtain ⟨j, hij, hj⟩ := h i
      obtain ⟨d, rfl⟩ := Nat.exists_eq_add_of_le hij
      -- the count has not risen when the next event comes
      induction d generalizing i with
      | zero =>
        rcases hlow _ hj with hgood | hlt
        · exact ⟨_, hij, hgood⟩
        · simp only [Nat.add_zero] at hlt
          obtain ⟨k, hk, hgood⟩ := ih (count (i + 1)) (by omega) (i + 1) (Nat.le_refl _)
          exact ⟨k, by omega, hgood⟩
      | succ d ihd =>
        by_cases hi : event i
        · rcases hlow i hi with hgood | hlt
          · exact ⟨i, Nat.le_refl _, hgood⟩
          · obtain ⟨k, hk, hgood⟩ := ih (count (i + 1)) (by omega) (i + 1) (Nat.le_refl _)
            exact ⟨k, by omega, hgood⟩
        · have hle := hkeep i hi
          have he : i + (d + 1) = i + 1 + d := by omega
          rw [he] at hj
          obtain ⟨k, hk, hgood⟩ := ihd (i + 1) (by omega) (by omega) hj
          exact ⟨k, by omega, hgood⟩
  exact fun i => hbelow (count i) i (Nat.le_refl _)

theorem Recurs.mono {event event' : Nat → Prop} (h : Recurs event)
    (himp : ∀ i, event i → event' i) : Recurs event' := fun i => by
  obtain ⟨j, hij, hj⟩ := h i
  exact ⟨j, hij, himp j hj⟩

/-- What can be left again and again is entered again and again. -/
theorem Recurs.enters {leaves enters : Nat → Prop} (h : Recurs leaves) (inside : Nat → Prop)
    (hleaves : ∀ i, leaves i → inside i ∧ ¬ inside (i + 1))
    (henters : ∀ i, ¬ inside i → inside (i + 1) → enters i) : Recurs enters := by
  have hbetween : ∀ d i, ¬ inside i → inside (i + d) → ∃ j, i ≤ j ∧ enters j := by
    intro d
    induction d with
    | zero => exact fun i hout hin => absurd hin hout
    | succ d ih =>
      intro i hout hin
      by_cases hmid : inside (i + d)
      · exact ih i hout hmid
      · exact ⟨i + d, Nat.le_add_right i d, henters (i + d) hmid hin⟩
  intro i
  obtain ⟨j, hij, hj⟩ := h i
  obtain ⟨k, hjk, hk⟩ := h (j + 1)
  obtain ⟨d, rfl⟩ := Nat.exists_eq_add_of_le hjk
  obtain ⟨m, hm, hme⟩ := hbetween d (j + 1) (hleaves j hj).2 (hleaves _ hk).1
  exact ⟨m, by omega, hme⟩

/-- A counter that never falls and rises again and again comes up to any bound. -/
theorem Recurs.unbounded {rises : Nat → Prop} (h : Recurs rises) {count : Nat → Nat}
    (hkeep : ∀ i, count i ≤ count (i + 1)) (hrise : ∀ i, rises i → count i < count (i + 1))
    (bound : Nat) : ∃ i, bound ≤ count i := by
  have hmono : Monotone count := monotone_nat_of_le_succ hkeep
  induction bound with
  | zero => exact ⟨0, Nat.zero_le _⟩
  | succ bound ih =>
    obtain ⟨i, hi⟩ := ih
    obtain ⟨j, hij, hj⟩ := h i
    have hle := hmono hij
    have hlt := hrise j hj
    exact ⟨j + 1, by omega⟩

/-- What comes to each of finitely many, and stays, is true of all of them from some time on. -/
theorem eventually_all {p : Nat → α → Prop} (hstay : ∀ i a, p i a → p (i + 1) a) {i : Nat}
    {l : List α} (h : ∀ a ∈ l, ∃ j, i ≤ j ∧ p j a) :
    ∃ j, i ≤ j ∧ ∀ k, j ≤ k → ∀ a ∈ l, p k a := by
  have hlasts : ∀ a j k, j ≤ k → p j a → p k a := fun a j k hjk hj =>
    Nat.le_induction hj (fun k _ hk => hstay k a hk) k hjk
  induction l with
  | nil => exact ⟨i, Nat.le_refl i, fun _ _ _ hm => absurd hm List.not_mem_nil⟩
  | cons a l ih =>
    obtain ⟨j, hij, hj⟩ := h a List.mem_cons_self
    obtain ⟨m, -, hm⟩ := ih fun b hb => h b (List.mem_cons_of_mem a hb)
    refine ⟨max j m, Nat.le_trans hij (Nat.le_max_left j m), fun k hk b hb => ?_⟩
    rcases List.mem_cons.1 hb with rfl | hb
    · exact hlasts b j k (Nat.le_trans (Nat.le_max_left j m) hk) hj
    · exact hm k (Nat.le_trans (Nat.le_max_right j m) hk) b hb

/-- What can always go on goes on for ever. -/
theorem exists_forever {p : α → Prop} {R : α → β → α → Prop}
    (h : ∀ s, p s → ∃ a s', R s a s' ∧ p s') {s : α} (hs : p s) :
    ∃ (f : Nat → α) (g : Nat → β), f 0 = s ∧ ∀ i, p (f i) ∧ R (f i) (g i) (f (i + 1)) := by
  choose a s' hR hp using h
  let f : Nat → Subtype p := Nat.rec ⟨s, hs⟩ fun _ x => ⟨s' x.1 x.2, hp x.1 x.2⟩
  exact ⟨fun i => (f i).1, fun i => a (f i).1 (f i).2, rfl, fun i => ⟨(f i).2, hR (f i).1 (f i).2⟩⟩

/-- A run with one step before it. -/
theorem exists_before {R : α → β → α → Prop} {f : Nat → α} {g : Nat → β}
    (h : ∀ i, R (f i) (g i) (f (i + 1))) {s : α} {a : β} (hs : R s a (f 0)) :
    ∃ (f' : Nat → α) (g' : Nat → β), f' 0 = s ∧ (∀ i, f' (i + 1) = f i ∧ g' (i + 1) = g i) ∧
      ∀ i, R (f' i) (g' i) (f' (i + 1)) := by
  refine ⟨fun i => Nat.casesOn i s f, fun i => Nat.casesOn i a g, rfl, fun _ => ⟨rfl, rfl⟩,
    fun i => ?_⟩
  cases i with
  | zero => exact hs
  | succ i => exact h i

def trio (a b c : α) : Nat → α
  | 0 => a
  | 1 => b
  | _ => c

/-- The moments of a run each step of which is made of three moves. -/
def thrice (f : Nat → Nat → α) (k : Nat) : α := f (k / 3) (k % 3)

theorem thrice_eq (f : Nat → Nat → α) (i : Nat) {r : Nat} (hr : r < 3) :
    thrice f (3 * i + r) = f i r := by
  have hdiv : (3 * i + r) / 3 = i := by omega
  have hmod : (3 * i + r) % 3 = r := by omega
  rw [thrice, hdiv, hmod]

theorem exists_thrice (k : Nat) : ∃ i, k = 3 * i + 0 ∨ k = 3 * i + 1 ∨ k = 3 * i + 2 :=
  ⟨k / 3, by omega⟩

theorem thrice_moves {R : α → β → α → Prop} {f : Nat → Nat → α} {g : Nat → Nat → β}
    (h : ∀ i, R (f i 0) (g i 0) (f i 1) ∧ R (f i 1) (g i 1) (f i 2) ∧
      R (f i 2) (g i 2) (f (i + 1) 0)) (k : Nat) :
    R (thrice f k) (thrice g k) (thrice f (k + 1)) := by
  obtain ⟨i, rfl | rfl | rfl⟩ := exists_thrice k
  · rw [thrice_eq f i (by decide : 0 < 3), thrice_eq g i (by decide : 0 < 3), Nat.add_assoc,
      thrice_eq f i (by decide : 0 + 1 < 3)]
    exact (h i).1
  · rw [thrice_eq f i (by decide : 1 < 3), thrice_eq g i (by decide : 1 < 3), Nat.add_assoc,
      thrice_eq f i (by decide : 1 + 1 < 3)]
    exact (h i).2.1
  · have hnext : 3 * i + 2 + 1 = 3 * (i + 1) + 0 := by omega
    rw [thrice_eq f i (by decide : 2 < 3), thrice_eq g i (by decide : 2 < 3), hnext,
      thrice_eq f (i + 1) (by decide : 0 < 3)]
    exact (h i).2.2

variable [LT β] [WellFoundedLT β] {place : Nat → α → Prop} {rank : α → β} {done : Nat → Prop}

/-- From one place to another of lower rank, until it is done. -/
def Lowers (place : Nat → α → Prop) (rank : α → β) (done : Nat → Prop) (a : α) (i : Nat) : Prop :=
  place i a → done i ∨ ∃ b, place (i + 1) b ∧ rank b < rank a

omit [WellFoundedLT β] in
/-- At any later moment it is done, has come to a lower rank, or is still where it was. -/
theorem stays (hstay : ∀ i a, place i a → done i ∨ ∃ b, place (i + 1) b ∧ (b = a ∨ rank b < rank a))
    {i : Nat} {a : α} (h : place i a) (d : Nat) :
    (∃ k, i ≤ k ∧ done k) ∨ (∃ k b, i ≤ k ∧ place k b ∧ rank b < rank a) ∨ place (i + d) a := by
  induction d with
  | zero => exact .inr (.inr h)
  | succ d ih =>
    rcases ih with hdone | hlower | hsame
    · exact .inl hdone
    · exact .inr (.inl hlower)
    · rcases hstay _ _ hsame with hdone | ⟨b, hb, rfl | hlt⟩
      · exact .inl ⟨_, Nat.le_add_right _ _, hdone⟩
      · exact .inr (.inr hb)
      · exact .inr (.inl ⟨_, b, Nat.le_add_right i (d + 1), hb, hlt⟩)

/-- What stays or moves to a lower rank, and cannot stay for ever, is done some time. -/
theorem eventually_done (place : Nat → α → Prop) (rank : α → β) (done : Nat → Prop)
    (hstay : ∀ i a, place i a → done i ∨ ∃ b, place (i + 1) b ∧ (b = a ∨ rank b < rank a))
    (hgo : ∀ a, Recurs (Lowers place rank done a)) {i : Nat} {a : α} (h : place i a) :
    ∃ j, i ≤ j ∧ done j := by
  have hwf : WellFounded (InvImage (· < ·) rank) := InvImage.wf rank wellFounded_lt
  induction a using hwf.induction generalizing i with
  | _ a ih =>
    obtain ⟨j, hij, hlowers⟩ := hgo a i
    obtain ⟨d, rfl⟩ := Nat.exists_eq_add_of_le hij
    rcases stays hstay h d with hdone | ⟨k, b, hk, hb, hlt⟩ | hsame
    · exact hdone
    · obtain ⟨j, hj, hdone⟩ := ih b hlt hb
      exact ⟨j, Nat.le_trans hk hj, hdone⟩
    · rcases hlowers hsame with hdone | ⟨b, hb, hlt⟩
      · exact ⟨_, hij, hdone⟩
      · obtain ⟨j, hj, hdone⟩ := ih b hlt hb
        exact ⟨j, by omega, hdone⟩

end Descent
