import Hetnet.CommandLine.Reader
import Hetnet.Request

/-!
# Invocations

An invocation is what a command line asks for, with every choice that was not made
filled in. Options of the program that are given both before and after the
command count as they are given after it.
-/

namespace Hetnet

namespace CommandLine

/-- Between which nodes a search goes. -/
inductive Scope
  /-- The pairs listed in a file. -/
  | pairsFile (path : String)
  /-- Start nodes in a range, which takes two ends. -/
  | range (ends : List NodeId)
  /-- From a start node to an end node, as far as they are given. -/
  | ends (start stop : Option ExternalId)
deriving DecidableEq, Inhabited

/-- What to do with a graph. -/
inductive Task
  /-- Show the schema, and the meta-paths that it allows up to a length. -/
  | schema (maxLength : Option Nat)
  /-- Show the meta-paths of a search, by names or by keys, and dump them into a
  directory. -/
  | paths (scope : Scope) (settings : SearchSettings) (names : Bool) (dumpDir : Option String)
  /-- Show the counts of target keys in a search. -/
  | count (scope : Scope) (settings : SearchSettings) (targets : List String)

/-- What a command line asks for. -/
structure Invocation where
  format : Format
  quiet : Bool
  settings : EngineSettings
  /-- The file of the graph. -/
  path : String
  task : Task

namespace Invocation

/-- The length bound of a search that is given none. -/
def defaultMaxLength : Nat := 3

/-- The scope of a search. -/
def scopeOf (g : Given) : Scope :=
  match g.pairs, g.nodeRange with
  | some path, _ => .pairsFile path
  | none, [] => .ends g.start g.stop
  | none, ends => .range ends

/-- The settings of a search. -/
def searchSettingsOf (g : Given) : SearchSettings where
  maxLength := g.maxLength.getD defaultMaxLength
  nodeSkip := g.nodeSkip.getD 0.0
  edgeSkip := g.edgeSkip.getD 0.0
  limit := g.limit
  mode := if g.exactLength then .exact else .upTo

/-- The task of a command, if it is given what it needs. -/
def taskOf (command : Command) (g : Given) : Option Task :=
  match command with
  | .schema => some (.schema g.schemaPaths)
  | .paths => some (.paths (scopeOf g) (searchSettingsOf g) g.names g.dumpDir)
  | .count =>
      if g.targets.isEmpty then none
      else some (.count (scopeOf g) (searchSettingsOf g) g.targets)

/-- The settings of the engine on a machine of `cores` cores. -/
def engineSettingsOf (cores : Nat) (outer inner : Given) : EngineSettings :=
  let base := EngineSettings.forCores cores
  { base with
    threads := (inner.threads.or outer.threads).getD base.threads
    seed := (inner.seed.or outer.seed).getD defaultSeed
    direction := if inner.directed || outer.directed then .outgoing else .both }

/-- The invocation of a command with what the program and the command are given. -/
def ofGiven (cores : Nat) (command : Command) (outer inner : Given) : Option Invocation := do
  let path ← inner.path
  let task ← taskOf command inner
  if inner.isContradictory then failure
  return {
    format := (inner.format.or outer.format).getD .table
    quiet := inner.quiet || outer.quiet
    settings := engineSettingsOf cores outer inner
    path, task }

/-- Ends the reading of a command line. -/
def ofReader (cores : Nat) (r : Reader) : Except Stop Invocation := do
  if r.pending.isSome then throw .usage
  match r.topic with
  | .program => throw .usage
  | .help _ => throw .help
  | .command command => Reader.orUsage (ofGiven cores command r.program r.given)

/-- Reads a command line. -/
def read (cores : Nat) (words : List String) : Except Stop Invocation := do
  ofReader cores (← words.foldlM Reader.read {})

end Invocation

end CommandLine

end Hetnet
