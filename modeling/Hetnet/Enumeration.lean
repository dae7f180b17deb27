import Hetnet.Counting
import Hetnet.Dump
import Hetnet.Request
import Hetnet.Search

/-!
# Enumerating meta-paths

An enumerator answers requests about one network. It turns a request into searches,
one per start and end pair, runs the searches of a request with many pairs as tasks,
and merges what they found. The settings and the nodes of the request are checked
first, so that a request is either refused as a whole or worked on.

The same work answers two questions: which meta-paths there are, and how often each of
them occurs. They differ in the collector alone.
-/

namespace Hetnet

/-- The merged findings of the searches of a request. -/
structure Outcome (C : Type) where
  collector : C
  /-- How many walks were recorded. -/
  traces : Nat
  /-- How many meta-paths they stand for, in a word that wraps as in `Findings.instances`. -/
  instances : UInt64
  /-- How many pairs were searched. -/
  pairs : Nat
  /-- The dumps handed out, in the order of the tasks. -/
  dumps : Array PairDump

namespace Outcome

variable {C : Type} [Collector C]

/-- The outcome of no search. -/
def empty : Outcome C := ⟨Collector.empty, 0, 0, 0, #[]⟩

/-- Both outcomes together. -/
def absorb (a b : Outcome C) : Outcome C :=
  ⟨Collector.merge a.collector b.collector, a.traces + b.traces, a.instances + b.instances,
    a.pairs + b.pairs, a.dumps ++ b.dumps⟩

/-- All outcomes together, from left to right. -/
def merge (outcomes : List (Outcome C)) : Outcome C := outcomes.foldl absorb empty

end Outcome

/-- The distinct meta-paths of a request. -/
structure EnumerationResult where
  paths : MetaPathSet
  /-- How many walks were recorded. -/
  traces : Nat
  /-- How many pairs were searched. -/
  pairs : Nat
  /-- Whether the limit left out a meta-path. -/
  truncated : Bool
deriving DecidableEq

/-- Answers requests about a network. -/
structure Enumerator where
  network : Network
  direction : Direction := .both
  seed : UInt64 := defaultSeed
  /-- Where the meta-paths of every searched pair are dumped. -/
  sink : Option Sink := none
  /-- Which failure is reported when several tasks fail. -/
  reports : Reporting := .lowest

namespace Enumerator

variable {C : Type} [Collector C]

/-- The search that a start node and an optional end node call for. -/
def search (e : Enumerator) (settings : SearchSettings) (stop : Option NodeId) : Search where
  network := e.network
  direction := e.direction
  edgeSkip := settings.edgeSkip
  target := stop
  maxLength := settings.maxLength
  mode := settings.mode

/-- The dump of a searched pair. -/
def dump (e : Enumerator) (settings : SearchSettings) (start stop : NodeId)
    (paths : MetaPathSet) : PairDump where
  maxLength := settings.maxLength
  edgeSkip := settings.edgeSkip
  start := e.network.externalId start
  stop := e.network.externalId stop
  paths := paths

/-- Hands the meta-paths of a searched pair to the sink. -/
def handOut (e : Enumerator) (settings : SearchSettings) (start : NodeId)
    (stop : Option NodeId) (paths : MetaPathSet) : Except Error (Array PairDump) :=
  match e.sink, stop with
  | some sink, some stop => do
      let dump := e.dump settings start stop paths
      sink.takes dump
      return #[dump]
  | _, _ => .ok #[]

/-- Searches from a start node, to an end node if there is one. -/
def searchFrom (e : Enumerator) (settings : SearchSettings) (start : NodeId)
    (stop : Option NodeId) : Except Failure (Outcome C) := do
  let seed := Sampling.pairSeed e.seed start (stop.getD start)
  let found ← (e.search settings stop).run (C := C) start seed
  let dumps ← e.handOut settings start stop (Collector.pathSet found.collector)
  return {
    collector := found.collector
    traces := found.traces
    instances := found.instances
    pairs := 1
    dumps }

/-- Whether a pair is searched at all. -/
def keeps (e : Enumerator) (settings : SearchSettings) (start stop : NodeId) : Bool :=
  Sampling.keepPair e.seed start stop settings.nodeSkip

/-- Searches a pair unless it is skipped. -/
def searchPair (e : Enumerator) (settings : SearchSettings) (start stop : NodeId) :
    Except Failure (Outcome C) :=
  if e.keeps settings start stop then e.searchFrom settings start (some stop)
  else .ok .empty

/-- Searches from a node to each of its neighbors, except for skipped pairs. -/
def searchNeighbors (e : Enumerator) (settings : SearchSettings) (start : NodeId) :
    Except Failure (Outcome C) :=
  ((e.network.neighbors start e.direction).filter (e.keeps settings start)).foldlM
    (fun outcome stop => return outcome.absorb (← e.searchFrom settings start (some stop)))
    .empty

/-- The start nodes of a range. -/
def startNodes (e : Enumerator) : Option (NodeId × NodeId) → Except Error (List NodeId)
  | none => .ok (Network.nodesFrom 0 e.network.nodeCount)
  | some (first, stop) =>
      if stop.index < first.index then
        .error (.invalidParameter "range" s!"start {first.text} is past end {stop.text}")
      else
        .ok (Network.nodesFrom (min first.index e.network.nodeCount)
          (min stop.index e.network.nodeCount))

/-- Refuses a list of pairs with a node that is not in the network. -/
def checkPairs (e : Enumerator) (list : List (NodeId × NodeId)) : Except Error Unit :=
  list.forM fun (start, stop) => do
    e.network.check start
    e.network.check stop

/-- Runs all searches of a request. -/
def collect (e : Enumerator) (request : Request) (settings : SearchSettings) :
    Except Failure (Outcome C) := do
  settings.validate
  match request with
  | .pair start stop =>
      e.network.check start
      e.network.check stop
      e.searchFrom settings start (some stop)
  | .walksFrom start =>
      e.network.check start
      e.searchFrom settings start none
  | .wholeGraph range =>
      let starts ← e.startNodes range
      let outcomes ← runTasks (fun _ start => e.searchNeighbors settings start) starts e.reports
      return .merge outcomes
  | .pairs list =>
      e.checkPairs list
      let outcomes ←
        runTasks (fun _ (start, stop) => e.searchPair settings start stop) list e.reports
      return .merge outcomes

/-- The distinct meta-paths of a request, and the dumps handed out on the way. -/
def enumerateWithDumps (e : Enumerator) (request : Request) (settings : SearchSettings) :
    Except Failure (EnumerationResult × List PairDump) := do
  let outcome ← e.collect (C := MetaPathSet) request settings
  let paths := outcome.collector
  let truncated := settings.limit.any (· < paths.size)
  let paths := match settings.limit with
    | some limit => if limit < paths.size then paths.truncate limit else paths
    | none => paths
  return ({ paths, traces := outcome.traces, pairs := outcome.pairs, truncated },
    outcome.dumps.toList)

/-- The distinct meta-paths of a request. -/
def enumerate (e : Enumerator) (request : Request) (settings : SearchSettings) :
    Except Failure EnumerationResult :=
  return (← e.enumerateWithDumps request settings).1

/-- How often each meta-path of a request occurs. The limit does not apply, because
counting needs every observation. -/
def occurrences (e : Enumerator) (request : Request) (settings : SearchSettings) :
    Except Failure Occurrences := do
  let outcome ← e.collect (C := PathTally) request settings
  return {
    tally := outcome.collector
    edgeSkip := settings.edgeSkip
    nodeSkip := if request.samplesPairs then settings.nodeSkip else 0.0
    traces := outcome.traces }

end Enumerator

end Hetnet
