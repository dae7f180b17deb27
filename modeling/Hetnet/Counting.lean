import Hetnet.Collector

/-!
# Counting meta-paths

An unsampled enumeration counts exactly. A sampled one sees only part: a walk of h hops
survives the skipping of edges with probability (1 - edgeSkip)^h, and its pair
survives the skipping of pairs with probability 1 - nodeSkip. Dividing what was
observed by the product of the two gives an unbiased estimate of the full count, the
Horvitz–Thompson estimate. Where nothing was observed, or nothing can survive, the
estimate is zero.
-/

namespace Hetnet

/-- How often meta-paths were observed, and under which sampling. -/
structure Occurrences where
  tally : PathTally
  edgeSkip : Float
  nodeSkip : Float
  /-- How many walks were recorded. -/
  traces : Nat := 0

/-- Raises to a power by repeated squaring: `base` is the current square and `power`
the product of the squares chosen so far. The products are taken from the lowest binary
digit of the exponent to the highest, which fixes how they are rounded. -/
def powerFrom (base power : Float) (exponent : Nat) : Float :=
  if h : exponent = 0 then power
  else
    let square := base * base
    powerFrom square (if exponent % 2 = 1 then power * square else power) (exponent / 2)
termination_by exponent
decreasing_by exact Nat.div_lt_self (Nat.pos_of_ne_zero h) (by decide)

/-- The power of a double with a natural exponent. -/
def power (base : Float) (exponent : Nat) : Float :=
  powerFrom base (if exponent % 2 = 1 then base else 1.0) (exponent / 2)

/-- A number forced between 0 and 1. -/
def clampUnit (x : Float) : Float := if x < 0.0 then 0.0 else if 1.0 < x then 1.0 else x

namespace Occurrences

/-- How often a path was observed. -/
def observed (o : Occurrences) (path : MetaPath) : Nat := o.tally.observed path

/-- The distinct paths that were observed. -/
def pathSet (o : Occurrences) : MetaPathSet := o.tally.pathSet

/-- Whether anything was skipped. -/
def isSampled (o : Occurrences) : Bool := 0.0 < o.edgeSkip || 0.0 < o.nodeSkip

/-- The greatest exponent that the power function takes. -/
def greatestExponent : Nat := 2147483647

/-- The probability with which a walk of some length is observed. -/
def retention (o : Occurrences) (hops : Nat) : Float :=
  power (clampUnit (1.0 - o.edgeSkip)) (min hops greatestExponent)
    * clampUnit (1.0 - o.nodeSkip)

/-- The estimate of how often a path occurs. -/
def estimate (o : Occurrences) (path : MetaPath) : Float :=
  let observed := o.observed path
  let retention := o.retention path.hops
  if observed = 0 || retention ≤ 0.0 then 0.0
  else
    let estimate := (UInt64.ofNat observed).toFloat / retention
    if estimate.isFinite then estimate else 0.0

end Occurrences

/-- The counts of target paths. -/
inductive Counts
  /-- Numbers of occurrences in a full enumeration. -/
  | exact (counts : Std.ExtTreeMap MetaPath Nat)
  /-- Estimates from a sampled enumeration. -/
  | approximate (counts : Std.ExtTreeMap MetaPath Float)

namespace Counts

/-- The count of a target as a number. -/
def get? (counts : Counts) (path : MetaPath) : Option Float :=
  match counts with
  | exact counts => counts[path]?.map fun count => (UInt64.ofNat count).toFloat
  | approximate counts => counts[path]?

/-- How many targets there are. -/
def size : Counts → Nat
  | exact counts => counts.size
  | approximate counts => counts.size

/-- Whether there are no targets. -/
def isEmpty (counts : Counts) : Bool := counts.size = 0

end Counts

namespace Occurrences

/-- The value of a function at every target. -/
def tabulate {β : Type} (targets : MetaPathSet) (value : MetaPath → β) :
    Std.ExtTreeMap MetaPath β :=
  Std.ExtTreeMap.ofList (targets.toList.map fun path => (path, value path))

/-- The observed number of every target. -/
def exact (o : Occurrences) (targets : MetaPathSet) : Std.ExtTreeMap MetaPath Nat :=
  tabulate targets o.observed

/-- The estimate of every target. -/
def approximate (o : Occurrences) (targets : MetaPathSet) : Std.ExtTreeMap MetaPath Float :=
  tabulate targets o.estimate

/-- Counts targets: exactly if nothing was skipped, by estimates otherwise. -/
def count (o : Occurrences) (targets : MetaPathSet) : Counts :=
  if o.isSampled then .approximate (o.approximate targets) else .exact (o.exact targets)

end Occurrences

end Hetnet
