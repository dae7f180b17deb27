import Hetnet.Sampling.XorShift

/-!
# Sampling edges and pairs

A sampled search skips some of the edges it meets, and a sampled request skips some of
its start and end pairs. Both decisions are functions of the seed: a visit to a node
starts a generator of its own and draws, for every adjacent node in order, a number
and a seed for the visit that may follow. The draws are made whether or not the edge
is kept, so they never depend on the probability, and raising it can only turn kept
edges into skipped ones. No schedule of the tasks can change what is drawn.
-/

namespace Hetnet

namespace Sampling

/-- A fixed scrambling of 64-bit words in which no two words collide. -/
def mix (z : UInt64) : UInt64 :=
  let z := z + 0x9E3779B97F4A7C15
  let z := (z ^^^ (z >>> 30)) * 0xBF58476D1CE4E5B9
  let z := (z ^^^ (z >>> 27)) * 0x94D049BB133111EB
  z ^^^ (z >>> 31)

/-- A pair of nodes as one word. -/
def pairWord (start stop : NodeId) : UInt64 :=
  (start.raw.toUInt64 <<< 32) ||| stop.raw.toUInt64

/-- The seed of the search between a pair of nodes. -/
def pairSeed (seed : UInt64) (start stop : NodeId) : UInt64 :=
  mix (seed ^^^ mix (pairWord start stop))

/-- Sets the draw for a pair apart from the draws of the search between its nodes. -/
def pairOffset : UInt64 := 0xA5A5A5A5A5A5A5A5

/-- Whether a pair is searched when pairs are skipped with the given probability. -/
def keepPair (seed : UInt64) (start stop : NodeId) (skip : Float) : Bool :=
  if skip ≤ 0.0 then true
  else decide (skip ≤ (XorShift.ofSeed (pairSeed seed start stop ^^^ pairOffset)).nextUnit.1)

end Sampling

/-- The draws of one visit. -/
structure Branch where
  generator : XorShift
  /-- The probability with which an edge is skipped. -/
  skip : Float

namespace Branch

/-- The branch that a seed starts. -/
def ofSeed (skip : Float) (seed : UInt64) : Branch := ⟨.ofSeed seed, skip⟩

/-- Draws for the next edge: whether it is kept, and the seed of the visit beyond it. -/
def nextEdge (b : Branch) : (Bool × UInt64) × Branch :=
  let (u, generator) := b.generator.nextUnit
  let (childSeed, generator) := generator.next64
  ((decide (b.skip ≤ u), childSeed), { b with generator })

/-- Draws for several edges in order. -/
def draw (b : Branch) : Nat → List (Bool × UInt64) × Branch
  | 0 => ([], b)
  | count + 1 =>
      let (first, b) := b.nextEdge
      let (rest, b) := b.draw count
      (first :: rest, b)

/-- Draws for each adjacent node in order; lists the kept ones with their seeds. -/
def kept (b : Branch) : List NodeId → List (NodeId × UInt64)
  | [] => []
  | node :: rest =>
      let ((keep, childSeed), b) := b.nextEdge
      if keep then (node, childSeed) :: b.kept rest else b.kept rest

end Branch

end Hetnet
