import Hetnet.TypedId

/-!
# The random generator

Sampling needs random numbers that depend on nothing but a seed. The generator is a
xorshift register of four 32-bit words. A 64-bit seed is spread over the words
by a linear congruential sequence whose states are shuffled before use; the register
must not be all zero, because it would stay so forever.
-/

namespace Hetnet

/-- The state of the generator. -/
structure XorShift where
  x : UInt32
  y : UInt32
  z : UInt32
  w : UInt32
deriving DecidableEq

namespace XorShift

/-- The register used in place of one that is all zero. -/
def fallback : XorShift := ⟨0x0BAD5EED, 0x0BAD5EED, 0x0BAD5EED, 0x0BAD5EED⟩

instance : Inhabited XorShift := ⟨fallback⟩

/-- The next state of the sequence that spreads a seed. -/
def advanceSeed (s : UInt64) : UInt64 := s * 6364136223846793005 + 11634580027462260723

/-- A word turned right by an amount below 32. -/
def rotateRight (word amount : UInt32) : UInt32 :=
  (word >>> amount) ||| (word <<< ((32 - amount) % 32))

/-- The word made from a state of the spreading sequence. -/
def seedWord (s : UInt64) : UInt32 :=
  rotateRight (((s >>> 18) ^^^ s) >>> 27).toUInt32 (s >>> 59).toUInt32

/-- The generator started by a seed. -/
def ofSeed (seed : UInt64) : XorShift :=
  let s₁ := advanceSeed seed
  let s₂ := advanceSeed s₁
  let s₃ := advanceSeed s₂
  let s₄ := advanceSeed s₃
  let register := ⟨seedWord s₁, seedWord s₂, seedWord s₃, seedWord s₄⟩
  if register = ⟨0, 0, 0, 0⟩ then fallback else register

/-- Draws 32 bits. -/
def next32 (g : XorShift) : UInt32 × XorShift :=
  let t := g.x ^^^ (g.x <<< 11)
  let w := g.w ^^^ (g.w >>> 19) ^^^ t ^^^ (t >>> 8)
  (w, ⟨g.y, g.z, g.w, w⟩)

/-- Draws 64 bits, the low half first. -/
def next64 (g : XorShift) : UInt64 × XorShift :=
  let (low, g) := g.next32
  let (high, g) := g.next32
  ((high.toUInt64 <<< 32) ||| low.toUInt64, g)

/-- Draws a number from 0 up to but not including 1: a multiple of 2⁻⁵³. -/
def nextUnit (g : XorShift) : Float × XorShift :=
  let (word, g) := g.next64
  ((word >>> 11).toFloat * Float.ofBits 0x3CA0000000000000, g)

end XorShift

end Hetnet
