import Hetnet.Decimal.Layout
import Hetnet.Network
import Hetnet.Workers

/-!
# Settings

Two sets of choices steer an analysis. The engine is given the sizes of its pools, the
seed of all sampling and the direction in which walks go, once for all. Every
enumeration is given its own length bound, the way in which the bound is meant, the
probabilities of skipping edges and pairs and a limit on the size of the answer.

Both are checked before any work begins, and the first choice that is out of order
is the one reported.
-/

namespace Hetnet

/-- The seed that is used when none is given. -/
def defaultSeed : UInt64 := 42

/-- The choices of an engine. -/
structure EngineSettings where
  /-- Workers that enumerate. -/
  threads : Nat := 1
  /-- Blocks into which the nodes are cut to extract the schema. -/
  schemaPartitions : Nat := 1
  /-- Workers that extract the schema. -/
  schemaThreads : Nat := 1
  seed : UInt64 := defaultSeed
  direction : Direction := .both
deriving DecidableEq, Inhabited

namespace EngineSettings

/-- Settings that use a machine of `cores` cores to the full. -/
def forCores (cores : Nat) : EngineSettings :=
  { threads := cores * 4, schemaPartitions := cores, schemaThreads := cores }

/-- Refuses a size that is zero. -/
def checkSize (name : String) (size : Nat) : Except Error Unit :=
  if size = 0 then .error (.invalidParameter name "must be greater than zero") else .ok ()

/-- Refuses settings with a size that is zero. -/
def validate (s : EngineSettings) : Except Error Unit := do
  checkSize "threads" s.threads
  checkSize "schema_partitions" s.schemaPartitions
  checkSize "schema_threads" s.schemaThreads

/-- The form shown to a developer. -/
def inspect (s : EngineSettings) : String :=
  s!"Config \x7b threads: {s.threads}, schema_partitions: {s.schemaPartitions}, " ++
  s!"schema_threads: {s.schemaThreads}, seed: {s.seed.toNat}, " ++
  s!"direction: {s.direction.inspect} \x7d"

end EngineSettings

/-- How a length bound is meant. -/
inductive LengthMode
  /-- Walks of every length from one hop to the bound. -/
  | upTo
  /-- Walks of exactly the bound. -/
  | exact
deriving DecidableEq, Inhabited

namespace LengthMode

/-- Whether a walk of some length is recorded under a bound. -/
def accepts (mode : LengthMode) (hops maxLength : Nat) : Bool :=
  match mode with
  | .upTo => 1 ≤ hops && hops ≤ maxLength
  | .exact => hops = maxLength

/-- The word for the mode. -/
def text : LengthMode → String
  | .upTo => "up-to"
  | .exact => "exact"

/-- The form shown to a developer. -/
def inspect : LengthMode → String
  | .upTo => "UpTo"
  | .exact => "Exact"

end LengthMode

/-- The error for a length bound of no hops at all. -/
def Error.noHops : Error := .invalidParameter "max_length" "must be at least one hop"

/-- The choices of one enumeration. -/
structure SearchSettings where
  maxLength : Nat
  /-- The probability with which a start and end pair is skipped. -/
  nodeSkip : Float := 0.0
  /-- The probability with which an edge is skipped. -/
  edgeSkip : Float := 0.0
  /-- The greatest number of meta-paths in the answer. -/
  limit : Option Nat := none
  mode : LengthMode := .upTo

namespace SearchSettings

/-- Whether anything is skipped. -/
def isSampled (s : SearchSettings) : Bool := 0.0 < s.nodeSkip || 0.0 < s.edgeSkip

/-- Refuses a number that is no probability. -/
def checkProbability (name : String) (value : Float) : Except Error Unit :=
  if 0.0 ≤ value ∧ value ≤ 1.0 then .ok ()
  else .error (.invalidParameter name s!"{Layout.plain.text value} is not in [0, 1]")

/-- Refuses a bound of zero and numbers that are no probabilities. -/
def validate (s : SearchSettings) : Except Error Unit := do
  if s.maxLength = 0 then
    throw Error.noHops
  checkProbability "node_skip_probability" s.nodeSkip
  checkProbability "edge_skip_probability" s.edgeSkip

/-- The form shown to a developer. -/
def inspect (s : SearchSettings) : String :=
  let limit := match s.limit with
    | none => "None"
    | some limit => s!"Some({limit})"
  s!"EnumerationConfig \x7b max_length: {s.maxLength}, " ++
  s!"node_skip_probability: {Layout.compact.text s.nodeSkip}, " ++
  s!"edge_skip_probability: {Layout.compact.text s.edgeSkip}, " ++
  s!"limit: {limit}, length_mode: {s.mode.inspect} \x7d"

end SearchSettings

end Hetnet
