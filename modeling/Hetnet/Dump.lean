import Hetnet.Decimal.Layout
import Hetnet.MetaPath

/-!
# Dumps

When a pair of nodes has been searched, its meta-paths can be dumped: one file per pair,
one key per line, with the settings and the external ids of the pair in the file's
name. Who stores the dumps decides where and how; all that a search needs to know
is whether a dump is accepted.
-/

namespace Hetnet

/-- The meta-paths found between one pair of nodes. -/
structure PairDump where
  maxLength : Nat
  edgeSkip : Float
  start : ExternalId
  stop : ExternalId
  paths : MetaPathSet

namespace PairDump

/-- The name of the file that the dump goes to. -/
def fileName (d : PairDump) : String :=
  s!"MetaPaths-{d.maxLength}-{Layout.compact.text d.edgeSkip}_{d.start.text}_{d.stop.text}.txt"

/-- The contents of the file: every key on a line of its own, in increasing order. -/
def lines (d : PairDump) : String := String.join (d.paths.keys.map fun key => key ++ "\n")

end PairDump

/-- A place where dumps are stored. -/
structure Sink where
  /-- Whether the place takes a dump, or why it does not. -/
  takes : PairDump → Except Error Unit

/-- A place that takes every dump. -/
def Sink.open : Sink := ⟨fun _ => .ok ()⟩

/-- The dumps stored under their file names. -/
abbrev DumpStore := Std.ExtTreeMap String MetaPathSet

namespace DumpStore

/-- Stores a dump; an earlier one under the same name is lost. -/
def write (store : DumpStore) (dump : PairDump) : DumpStore :=
  store.insert dump.fileName dump.paths

/-- Stores dumps in order. -/
def writeAll (store : DumpStore) (dumps : List PairDump) : DumpStore := dumps.foldl write store

end DumpStore

end Hetnet
