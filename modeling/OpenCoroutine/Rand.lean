/-! The xorshift generator of the work-stealing queue, and the generator of its seeds. -/

namespace OpenCoroutine

structure FastRand where
  one : UInt32
  two : UInt32
  deriving DecidableEq, Repr

namespace FastRand

def fastrand (r : FastRand) : UInt32 × FastRand :=
  let s1 := r.one
  let s0 := r.two
  let s1 := s1 ^^^ (s1 <<< 17)
  let s1 := s1 ^^^ s0 ^^^ (s1 >>> 7) ^^^ (s0 >>> 16)
  (s0 + s1, ⟨s0, s1⟩)

/-- The high word of the product, a number below `n`. -/
def fastrandN (r : FastRand) (n : UInt32) : UInt32 × FastRand :=
  let (x, r) := r.fastrand
  (((x.toUInt64 * n.toUInt64) >>> 32).toUInt32, r)

end FastRand

structure RngSeed where
  s : UInt32
  r : UInt32
  deriving DecidableEq, Repr

namespace RngSeed

def fromPair (s r : UInt32) : RngSeed := ⟨s, r⟩

def fromU64 (seed : UInt64) : RngSeed :=
  let one := (seed >>> 32).toUInt32
  let two := seed.toUInt32
  fromPair one (if two = 0 then 1 else two)

end RngSeed

def FastRand.new (seed : RngSeed) : FastRand := ⟨seed.s, seed.r⟩

structure RngSeedGenerator where
  state : FastRand
  deriving DecidableEq, Repr

namespace RngSeedGenerator

def new (seed : RngSeed) : RngSeedGenerator := ⟨.new seed⟩

def nextSeed (g : RngSeedGenerator) : RngSeed × RngSeedGenerator :=
  let (s, state) := g.state.fastrand
  let (r, state) := state.fastrand
  (.fromPair s r, ⟨state⟩)

def nextGenerator (g : RngSeedGenerator) : RngSeedGenerator × RngSeedGenerator :=
  let (seed, g) := g.nextSeed
  (new seed, g)

end RngSeedGenerator

end OpenCoroutine
