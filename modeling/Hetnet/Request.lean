import Hetnet.Error

/-!
# Requests

A request says between which nodes walks are enumerated: between two nodes, from one
node to anywhere, between all adjacent nodes, or between the nodes of a list of pairs.
The last two are made of many pairs, and only there are pairs sampled.
-/

namespace Hetnet

/-- What to enumerate. -/
inductive Request
  /-- Walks from `start` that end where they first reach `stop`. -/
  | pair (start stop : NodeId)
  /-- Every walk from `start`. -/
  | walksFrom (start : NodeId)
  /-- Walks from each start node to each of its neighbors. The start nodes can be
  restricted to a range without its end, which is clamped to the network. -/
  | wholeGraph (range : Option (NodeId × NodeId))
  /-- Walks between the nodes of each listed pair. -/
  | pairs (list : List (NodeId × NodeId))
deriving DecidableEq, Inhabited

namespace Request

/-- The request for an optional start node and an optional end node. -/
def ofEnds : Option NodeId → Option NodeId → Except Error Request
  | some start, some stop => .ok (pair start stop)
  | some start, none => .ok (walksFrom start)
  | none, none => .ok (wholeGraph none)
  | none, some _ =>
      .error (.invalidParameter "start" "an end node requires a start node")

/-- Whether pairs are sampled. -/
def samplesPairs : Request → Bool
  | wholeGraph _ | pairs _ => true
  | pair _ _ | walksFrom _ => false

/-- A short description. -/
def describe : Request → String
  | pair start stop => s!"pair {start.text}->{stop.text}"
  | walksFrom start => s!"from {start.text}"
  | wholeGraph none => "whole graph"
  | wholeGraph (some (first, stop)) => s!"whole graph [{first.text}, {stop.text})"
  | pairs list => s!"{list.length} pairs"

/-- The form shown to a developer. -/
def inspect : Request → String
  | pair start stop => s!"Pair \x7b start: {start.inspect}, end: {stop.inspect} \x7d"
  | walksFrom start => s!"From \x7b start: {start.inspect} \x7d"
  | wholeGraph none => "WholeGraph \x7b range: None \x7d"
  | wholeGraph (some (first, stop)) =>
      s!"WholeGraph \x7b range: Some({first.inspect}..{stop.inspect}) \x7d"
  | pairs list =>
      let entries := list.map fun (start, stop) => s!"({start.inspect}, {stop.inspect})"
      let joined := ", ".intercalate entries
      s!"Pairs([{joined}])"

end Request

end Hetnet
