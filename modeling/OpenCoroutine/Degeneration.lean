import OpenCoroutine.Rand
import OpenCoroutine.Transition
import OpenCoroutine.XorLinear

/-! The generators of random numbers over any run, from the state (0, 0), which yields 0 for
ever. A step leads there from nowhere else. The seeds of a generator are two outputs in a row,
which are both 0 from one other state. -/

namespace OpenCoroutine

open Transition XorLinear

namespace FastRand

/-- What a step makes of the first word. -/
def mixOne (x : BitVec 32) : BitVec 32 :=
  (x ^^^ x <<< 17) ^^^ (x ^^^ x <<< 17) >>> 7

/-- What a step makes of the second word. -/
def mixTwo (x : BitVec 32) : BitVec 32 := x ^^^ x >>> 16

theorem linear_mixOne : Linear mixOne :=
  have h := linear_id.xor (linear_id.shiftLeft 17)
  h.xor (h.shiftRight 7)

theorem linear_mixTwo : Linear mixTwo := linear_id.xor (linear_id.shiftRight 16)

def unmixOne (x : BitVec 32) : BitVec 32 :=
  let y := x ^^^ x >>> 7 ^^^ x >>> 14 ^^^ x >>> 21 ^^^ x >>> 28
  y ^^^ y <<< 17

theorem linear_unmixOne : Linear unmixOne :=
  have h := (((linear_id.xor (linear_id.shiftRight 7)).xor (linear_id.shiftRight 14)).xor
    (linear_id.shiftRight 21)).xor (linear_id.shiftRight 28)
  h.xor (h.shiftLeft 17)

theorem unmixOne_mixOne (x : BitVec 32) : unmixOne (mixOne x) = x :=
  linear_mixOne.leftInverse linear_unmixOne (by decide) x

theorem xor_regroup (a b c d : BitVec 32) : a ^^^ b ^^^ c ^^^ d = (a ^^^ c) ^^^ (b ^^^ d) := by
  ac_rfl

/-- The word that a step puts in the second place. -/
def next (r : FastRand) : UInt32 := ⟨mixOne r.one.toBitVec ^^^ mixTwo r.two.toBitVec⟩

theorem fastrand_eq (r : FastRand) : r.fastrand = (r.two + r.next, ⟨r.two, r.next⟩) := by
  have hnext : (r.one ^^^ r.one <<< 17) ^^^ r.two ^^^ (r.one ^^^ r.one <<< 17) >>> 7 ^^^
      r.two >>> 16 = r.next := by
    rw [← UInt32.toBitVec_inj]
    exact xor_regroup _ _ _ _
  rw [fastrand]
  simp only [hnext]

def zero : FastRand := ⟨0, 0⟩

/-- Only the zero state steps to the zero state. -/
theorem fastrand_eq_zero {r : FastRand} (h : r.fastrand.2 = zero) : r = zero := by
  rw [fastrand_eq, zero, FastRand.mk.injEq] at h
  obtain ⟨htwo, hnext⟩ := h
  have hmix : mixOne r.one.toBitVec = 0#32 := by
    rw [next, htwo, ← UInt32.toBitVec_inj] at hnext
    exact (BitVec.xor_zero).symm.trans hnext
  have hone : r.one.toBitVec = 0#32 := by
    rw [← unmixOne_mixOne r.one.toBitVec, hmix]
    rfl
  rw [zero, FastRand.mk.injEq]
  exact ⟨UInt32.toBitVec_inj.1 hone, htwo⟩

/-- The outputs of two steps are 0 if the step of `two` and its negative leads back to `two`. -/
def Recurs (x : BitVec 32) : Prop := mixOne x ^^^ mixTwo (-x) = x

instance (x : BitVec 32) : Decidable (Recurs x) := inferInstanceAs (Decidable (_ = _))

/-- `unmixSum` takes back the sum of both mixes and the vector itself. -/
def unmixSum (x : BitVec 32) : BitVec 32 :=
  combine x 0
    [0xfeaaff55#32, 0xfea8ff54#32, 0xfeacff56#32, 0xfea4ff52#32, 0xfeb4ff5a#32, 0xfe94ff4a#32,
      0xfed4ff6a#32, 0xfe54ff2a#32, 0x01fe00ff#32, 0xfd56feab#32, 0x07fa03fd#32, 0xf15ef8af#32,
      0x1fea0ff5#32, 0xc17ee0bf#32, 0x7faa3fd5#32, 0x01fe80ff#32, 0x03fd01fe#32, 0xf950fca9#32,
      0x0ff607f9#32, 0xe146f0a7#32, 0x3fda1fe5#32, 0x811ec09f#32, 0xff6a7f95#32, 0xfd29fed4#32,
      0xf9aefc56#32, 0xf0a0f952#32, 0xe2bcf35a#32, 0xc684e74a#32, 0x8ef4cf6a#32, 0x1e149f2a#32,
      0xc283c101#32, 0x78507ca9#32]

theorem unmixSum_sum (x : BitVec 32) : unmixSum (mixOne x ^^^ mixTwo x ^^^ x) = x :=
  ((linear_mixOne.xor linear_mixTwo).xor linear_id).leftInverse (linear_combine 0 _) (by decide) x

theorem Recurs.eq_unmixSum {x : BitVec 32} (h : Recurs x) {k : Nat}
    (hneg : -x = x ^^^ above 32 k) : x = unmixSum (mixTwo (above 32 k)) := by
  have hsum : mixOne x ^^^ mixTwo x ^^^ mixTwo (above 32 k) = x := by
    rw [BitVec.xor_assoc, ← linear_mixTwo, ← hneg]
    exact h
  have hmix : mixOne x ^^^ mixTwo x ^^^ x = mixTwo (above 32 k) :=
    calc mixOne x ^^^ mixTwo x ^^^ x
        = mixOne x ^^^ mixTwo x ^^^ (mixOne x ^^^ mixTwo x ^^^ mixTwo (above 32 k)) := by rw [hsum]
      _ = mixTwo (above 32 k) := by rw [← BitVec.xor_assoc, BitVec.xor_self, BitVec.zero_xor]
  rw [← hmix, unmixSum_sum]

/-- Each place of the lowest bit leaves one candidate, and one of them recurs. -/
theorem recurs_iff {x : BitVec 32} : Recurs x ↔ x = 0#32 ∨ x = 0x5135579b#32 := by
  constructor
  · intro h
    by_cases hx : x = 0#32
    · exact .inl hx
    · obtain ⟨k, hk, hneg⟩ := exists_neg_eq hx
      have hcandidates : ∀ k < 32, Recurs (unmixSum (mixTwo (above 32 k))) →
          unmixSum (mixTwo (above 32 k)) = 0#32 ∨
            unmixSum (mixTwo (above 32 k)) = 0x5135579b#32 := by
        decide
      have hx' := h.eq_unmixSum hneg
      rw [hx'] at h ⊢
      exact hcandidates k hk h
  · rintro (rfl | rfl) <;> decide

/-- The state other than zero whose next two outputs are both 0. -/
def degenerate : FastRand := ⟨0xad33a998, 0x5135579b⟩

/-- The first word is known from the second one and the next. -/
theorem one_eq {r : FastRand} {y : BitVec 32} (h : r.next.toBitVec = y) :
    r.one.toBitVec = unmixOne (y ^^^ mixTwo r.two.toBitVec) := by
  have hmix : mixOne r.one.toBitVec ^^^ mixTwo r.two.toBitVec = y := h
  rw [← hmix, BitVec.xor_assoc, BitVec.xor_self, BitVec.xor_zero, unmixOne_mixOne]

theorem next_eq_neg {x y : BitVec 32} (h : x + y = 0#32) : y = -x := by
  bv_omega

theorem outputs_eq_zero {r : FastRand} :
    r.fastrand.1 = 0 ∧ r.fastrand.2.fastrand.1 = 0 ↔ r = zero ∨ r = degenerate := by
  constructor
  · rintro ⟨hfirst, hsecond⟩
    rw [fastrand_eq] at hfirst hsecond
    rw [fastrand_eq] at hsecond
    have hnext := next_eq_neg (UInt32.toBitVec_inj.2 hfirst)
    have hagain := next_eq_neg (UInt32.toBitVec_inj.2 hsecond)
    have hrecurs : Recurs r.two.toBitVec := by
      rw [Recurs, ← hnext]
      refine Eq.trans hagain ?_
      rw [hnext, BitVec.neg_neg]
    have hone := one_eq hnext
    rcases recurs_iff.1 hrecurs with htwo | htwo
    · rw [htwo] at hone
      refine .inl ?_
      rw [zero, FastRand.mk.injEq]
      exact ⟨UInt32.toBitVec_inj.1 hone, UInt32.toBitVec_inj.1 htwo⟩
    · rw [htwo] at hone
      refine .inr ?_
      rw [degenerate, FastRand.mk.injEq]
      refine ⟨UInt32.toBitVec_inj.1 (hone.trans ?_), UInt32.toBitVec_inj.1 htwo⟩
      decide
  · rintro (rfl | rfl) <;> decide

end FastRand

namespace RngSeedGenerator

theorem nextSeed_eq_zero {g : RngSeedGenerator} :
    FastRand.new g.nextSeed.1 = .zero ↔ g.state = .zero ∨ g.state = .degenerate := by
  rw [← FastRand.outputs_eq_zero, FastRand.zero, FastRand.mk.injEq]
  rfl

theorem nextSeed_state {g : RngSeedGenerator} (h : g.nextSeed.2.state = .zero) :
    g.state = .zero :=
  FastRand.fastrand_eq_zero (FastRand.fastrand_eq_zero h)

end RngSeedGenerator

theorem FastRand.new_fromU64 (seed : UInt64) : FastRand.new (.fromU64 seed) ≠ .zero := by
  intro h
  rw [zero, FastRand.mk.injEq] at h
  have htwo : (if seed.toUInt32 = 0 then 1 else seed.toUInt32) = 0 := h.2
  split at htwo
  · cases htwo
  · exact absurd htwo ‹_›

/-- The generators that there are: of numbers, as in local queues, and of seeds. -/
structure Rands where
  rands : List FastRand := []
  generators : List RngSeedGenerator := []

/-- `nextSeed` makes a generator of numbers from the seed. -/
inductive RandOp where
  | newRand (seed : UInt64)
  | newGenerator (seed : UInt64)
  | fastrand (i : Nat)
  | fastrandN (i : Nat) (n : UInt32)
  | nextSeed (i : Nat)
  | nextGenerator (i : Nat)

namespace Rands

def step (s : Rands) : RandOp → Option Rands
  | .newRand seed => some { s with rands := .new (.fromU64 seed) :: s.rands }
  | .newGenerator seed => some { s with generators := .new (.fromU64 seed) :: s.generators }
  | .fastrand i => s.rands[i]?.map fun r => { s with rands := s.rands.set i r.fastrand.2 }
  | .fastrandN i n => s.rands[i]?.map fun r => { s with rands := s.rands.set i (r.fastrandN n).2 }
  | .nextSeed i => s.generators[i]?.map fun g =>
    { rands := .new g.nextSeed.1 :: s.rands, generators := s.generators.set i g.nextSeed.2 }
  | .nextGenerator i => s.generators[i]?.map fun g =>
    { s with generators := g.nextGenerator.1 :: s.generators.set i g.nextGenerator.2 }

structure Alive (s : Rands) : Prop where
  rands : ∀ r ∈ s.rands, r ≠ .zero
  generators : ∀ g ∈ s.generators, g.state ≠ .zero

/-- The step leaves no generator in the state (0, 0). -/
def StaysAlive (s : Rands) (op : RandOp) : Prop := ∀ t, s.step op = some t → t.Alive

/-- No seed is taken from a generator whose next two outputs are 0. -/
def SeedsFromOther (s : Rands) : RandOp → Prop
  | .nextSeed i | .nextGenerator i => ∀ g, s.generators[i]? = some g → g.state ≠ .degenerate
  | .newRand _ | .newGenerator _ | .fastrand _ | .fastrandN _ _ => True

theorem forall_mem_set {α : Type} {p : α → Prop} {l : List α} (h : ∀ a ∈ l, p a) (i : Nat) {a : α}
    (ha : p a) : ∀ b ∈ l.set i a, p b := by
  intro b hb
  rcases List.mem_or_eq_of_mem_set hb with hb | rfl
  · exact h b hb
  · exact ha

namespace Alive

variable {s : Rands}

theorem new : Alive {} := ⟨nofun, nofun⟩

theorem fastrand (h : s.Alive) {i : Nat} {r : FastRand} (hr : s.rands[i]? = some r) :
    Alive { s with rands := s.rands.set i r.fastrand.2 } :=
  ⟨forall_mem_set h.rands i fun hzero =>
    h.rands r (List.mem_of_getElem? hr) (FastRand.fastrand_eq_zero hzero), h.generators⟩

theorem set_nextSeed (h : s.Alive) {i : Nat} {g : RngSeedGenerator}
    (hg : s.generators[i]? = some g) : ∀ g' ∈ s.generators.set i g.nextSeed.2, g'.state ≠ .zero :=
  forall_mem_set h.generators i fun hzero =>
    h.generators g (List.mem_of_getElem? hg) (RngSeedGenerator.nextSeed_state hzero)

/-- The seed that is taken makes a live generator unless it comes from the one state. -/
theorem nextSeed_iff (h : s.Alive) {i : Nat} {g : RngSeedGenerator}
    (hg : s.generators[i]? = some g) :
    FastRand.new g.nextSeed.1 ≠ .zero ↔ g.state ≠ .degenerate := by
  have hlive : g.state ≠ .zero := h.generators g (List.mem_of_getElem? hg)
  rw [Ne, RngSeedGenerator.nextSeed_eq_zero, not_or]
  exact and_iff_right hlive

theorem staysAlive_iff (h : s.Alive) (op : RandOp) : s.StaysAlive op ↔ s.SeedsFromOther op := by
  cases op with
  | newRand seed =>
    refine iff_of_true ?_ trivial
    rintro t ⟨⟩
    exact ⟨List.forall_mem_cons.2 ⟨FastRand.new_fromU64 seed, h.rands⟩, h.generators⟩
  | newGenerator seed =>
    refine iff_of_true ?_ trivial
    rintro t ⟨⟩
    exact ⟨h.rands, List.forall_mem_cons.2 ⟨FastRand.new_fromU64 seed, h.generators⟩⟩
  | fastrand i =>
    refine iff_of_true (fun t ht => ?_) trivial
    simp only [step, Option.map_eq_some_iff] at ht
    obtain ⟨r, hr, rfl⟩ := ht
    exact h.fastrand hr
  | fastrandN i n =>
    refine iff_of_true (fun t ht => ?_) trivial
    simp only [step, Option.map_eq_some_iff] at ht
    obtain ⟨r, hr, rfl⟩ := ht
    exact h.fastrand hr
  | nextSeed i =>
    constructor
    · intro halive g hg
      obtain ⟨t, ht, hrands⟩ : ∃ t, s.step (.nextSeed i) = some t ∧
          t.rands = .new g.nextSeed.1 :: s.rands := by
        rw [step, hg]
        exact ⟨_, rfl, rfl⟩
      exact (h.nextSeed_iff hg).1 ((halive t ht).rands _ (hrands ▸ List.mem_cons_self))
    · intro hother t ht
      simp only [step, Option.map_eq_some_iff] at ht
      obtain ⟨g, hg, rfl⟩ := ht
      exact ⟨List.forall_mem_cons.2 ⟨(h.nextSeed_iff hg).2 (hother g hg), h.rands⟩,
        h.set_nextSeed hg⟩
  | nextGenerator i =>
    constructor
    · intro halive g hg
      obtain ⟨t, ht, hgenerators⟩ : ∃ t, s.step (.nextGenerator i) = some t ∧
          t.generators = .new g.nextSeed.1 :: s.generators.set i g.nextSeed.2 := by
        rw [step, hg]
        exact ⟨_, rfl, rfl⟩
      exact (h.nextSeed_iff hg).1 ((halive t ht).generators (.new g.nextSeed.1)
        (hgenerators ▸ List.mem_cons_self))
    · intro hother t ht
      simp only [step, Option.map_eq_some_iff] at ht
      obtain ⟨g, hg, rfl⟩ := ht
      exact ⟨h.rands,
        List.forall_mem_cons.2 ⟨(h.nextSeed_iff hg).2 (hother g hg), h.set_nextSeed hg⟩⟩

end Alive

/-- The generators of a run stay clear of (0, 0) if and only if no seed is taken from one in
the state (0xad33a998, 0x5135579b). -/
theorem never_degenerates_iff (ops : List RandOp) :
    Guarded step StaysAlive {} ops ↔ Guarded step SeedsFromOther {} ops :=
  guarded_iff Alive (fun _ _ t _ hstays hs => hstays t hs) (fun _ op h => h.staysAlive_iff op)
    .new ops

/-- A local queue's generator that yields 0 for ever. -/
theorem seed_degenerates :
    ¬ Guarded step StaysAlive {} [.newGenerator 0xad33a9985135579b, .nextSeed 0] := by
  intro h
  exact ((h.2 _ rfl).1 _ rfl).rands ⟨0, 0⟩ (by decide) rfl

end Rands

end OpenCoroutine
