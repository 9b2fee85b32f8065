import Mathlib.Data.Nat.Find
import Mathlib.Tactic.Push

/-! Maps of bit vectors that are linear for exclusive or. Such a map is known from what it
does to the powers of two, so that two of them are compared on these alone. Negation is not
linear, but flips a vector above its lowest bit. -/

namespace XorLinear

variable {w v u : Nat}

def Linear (f : BitVec w → BitVec v) : Prop := ∀ x y, f (x ^^^ y) = f x ^^^ f y

theorem Linear.zero {f : BitVec w → BitVec v} (hf : Linear f) : f 0#w = 0#v := by
  have h := hf 0#w 0#w
  rw [BitVec.xor_self, BitVec.xor_self] at h
  exact h

theorem linear_id : Linear fun x : BitVec w => x := fun _ _ => rfl

theorem Linear.comp {g : BitVec v → BitVec u} {f : BitVec w → BitVec v} (hg : Linear g)
    (hf : Linear f) : Linear fun x => g (f x) := by
  intro x y
  simp only [hf x y, hg (f x)]

theorem Linear.xor {f g : BitVec w → BitVec v} (hf : Linear f) (hg : Linear g) :
    Linear fun x => f x ^^^ g x := by
  intro x y
  simp only [hf x y, hg x y]
  ac_rfl

theorem Linear.shiftLeft {f : BitVec w → BitVec v} (hf : Linear f) (n : Nat) :
    Linear fun x => f x <<< n := by
  intro x y
  simp only [hf x y, BitVec.shiftLeft_xor_distrib]

theorem Linear.shiftRight {f : BitVec w → BitVec v} (hf : Linear f) (n : Nat) :
    Linear fun x => f x >>> n := by
  intro x y
  simp only [hf x y, BitVec.ushiftRight_xor_distrib]

/-- The columns at the bits of `x`, the first of which is bit `i`. -/
def combine (x : BitVec w) : Nat → List (BitVec v) → BitVec v
  | _, [] => 0#v
  | i, column :: columns => (if x.getLsbD i then column else 0#v) ^^^ combine x (i + 1) columns

theorem linear_combine (i : Nat) (columns : List (BitVec v)) :
    Linear fun x : BitVec w => combine x i columns := by
  induction columns generalizing i with
  | nil => exact fun _ _ => BitVec.xor_self.symm
  | cons column columns ih =>
    have hfirst : Linear fun x : BitVec w => if x.getLsbD i then column else 0#v := by
      intro x y
      simp only [BitVec.getLsbD_xor]
      cases x.getLsbD i <;> cases y.getLsbD i <;> simp
    exact hfirst.xor (ih (i + 1))

/-- Without its bit `n` a vector with no bits above has none from `n` on. -/
theorem clear_bit {x : BitVec w} {n : Nat} (hn : n < w) (hx : ∀ i, n < i → x.getLsbD i = false)
    (hbit : x.getLsbD n = true) (i : Nat) (hi : n ≤ i) :
    (x ^^^ BitVec.twoPow w n).getLsbD i = false := by
  rw [BitVec.getLsbD_xor, BitVec.getLsbD_twoPow]
  rcases Nat.eq_or_lt_of_le hi with rfl | hlt
  · simp [hbit, hn]
  · have hne : n ≠ i := by omega
    simp [hx i hlt, hne]

theorem Linear.eq_of_below {f g : BitVec w → BitVec v} (hf : Linear f) (hg : Linear g)
    (h : ∀ i < w, f (BitVec.twoPow w i) = g (BitVec.twoPow w i)) (n : Nat) (hn : n ≤ w)
    {x : BitVec w} (hx : ∀ i, n ≤ i → x.getLsbD i = false) : f x = g x := by
  induction n generalizing x with
  | zero =>
    have hzero : x = 0#w := BitVec.eq_of_getLsbD_eq fun i _ => by simp [hx i (Nat.zero_le i)]
    rw [hzero, hf.zero, hg.zero]
  | succ n ih =>
    by_cases hbit : x.getLsbD n = true
    · have hsplit : x = (x ^^^ BitVec.twoPow w n) ^^^ BitVec.twoPow w n := by
        rw [BitVec.xor_assoc, BitVec.xor_self, BitVec.xor_zero]
      rw [hsplit, hf, hg, h n hn,
        ih (by omega) (clear_bit hn (fun i hi => hx i hi) hbit)]
    · refine ih (by omega) fun i hi => ?_
      rcases Nat.eq_or_lt_of_le hi with rfl | hlt
      · simpa using hbit
      · exact hx i hlt

/-- Two linear maps that agree on the powers of two are the same. -/
theorem Linear.ext {f g : BitVec w → BitVec v} (hf : Linear f) (hg : Linear g)
    (h : ∀ i < w, f (BitVec.twoPow w i) = g (BitVec.twoPow w i)) (x : BitVec w) : f x = g x :=
  hf.eq_of_below hg h w le_rfl fun i hi => BitVec.getLsbD_of_ge x i hi

theorem Linear.leftInverse {f : BitVec w → BitVec v} {g : BitVec v → BitVec w} (hf : Linear f)
    (hg : Linear g) (h : ∀ i < w, g (f (BitVec.twoPow w i)) = BitVec.twoPow w i) (x : BitVec w) :
    g (f x) = x :=
  (hg.comp hf).ext linear_id h x

/-- The bits above bit `k`. -/
def above (w k : Nat) : BitVec w := BitVec.allOnes w <<< (k + 1)

theorem neg_eq_xor_above {x : BitVec w} {k : Nat} (hk : x.getLsbD k = true)
    (hlow : ∀ i < k, x.getLsbD i = false) : -x = x ^^^ above w k := by
  refine BitVec.eq_of_getLsbD_eq fun i hi => ?_
  have hexists : (∃ j < i, x.getLsbD j = true) ↔ k < i := by
    constructor
    · rintro ⟨j, hj, hbit⟩
      by_contra hle
      rw [hlow j (by omega)] at hbit
      cases hbit
    · exact fun h => ⟨k, h, hk⟩
  have habove : (above w k).getLsbD i = decide (k < i) := by
    rw [above, BitVec.getLsbD_shiftLeft, BitVec.getLsbD_allOnes]
    by_cases hki : k < i
    · have h₁ : ¬ i < k + 1 := by omega
      have h₂ : i - (k + 1) < w := by omega
      simp [hi, h₁, h₂, hki]
    · have h₁ : i < k + 1 := by omega
      simp [h₁, hki]
  rw [BitVec.getLsbD_neg, BitVec.getLsbD_xor, habove]
  simp only [hi, decide_true, Bool.true_and, hexists]

theorem exists_neg_eq {x : BitVec w} (hx : x ≠ 0#w) : ∃ k < w, -x = x ^^^ above w k := by
  have hbit : ∃ k, x.getLsbD k = true := by
    by_contra hnone
    push Not at hnone
    exact hx (BitVec.eq_of_getLsbD_eq fun i _ => by simpa using hnone i)
  have hk := Nat.find_spec hbit
  refine ⟨Nat.find hbit, BitVec.lt_of_getLsbD hk, neg_eq_xor_above hk fun i hi => ?_⟩
  simpa using Nat.find_min hbit hi

end XorLinear
