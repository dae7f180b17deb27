import Hetnet.Decimal.Read
import Hetnet.Settings

/-!
# Options of the command line

Every option has a long name, some have a letter as well. An option is a flag or takes a
fixed number of values, and a value that does not read as what the option wants is
refused at once. An option is given once; the two exceptions collect what they are
given.

Some options belong to the program and may stand before or after the name of the
command; the others belong to commands.
-/

namespace Hetnet

namespace CommandLine

/-- How results are shown. -/
inductive Format
  | table
  | json
deriving DecidableEq, Inhabited

/-- Reads the name of a format. -/
def Format.read? : String → Option Format
  | "table" => some .table
  | "json" => some .json
  | _ => none

/-- The commands. -/
inductive Command
  /-- Extract the schema. -/
  | schema
  /-- Enumerate meta-paths. -/
  | paths
  /-- Count target meta-paths. -/
  | count
deriving DecidableEq, Inhabited

/-- Reads the name of a command. -/
def Command.read? : String → Option Command
  | "schema" => some .schema
  | "paths" => some .paths
  | "count" => some .count
  | _ => none

/-- The options. -/
inductive Switch
  | format
  | quiet
  | verbose
  | threads
  | seed
  | directed
  | schemaPaths
  | maxLength
  | start
  | stop
  | pairs
  | nodeRange
  | edgeSkip
  | nodeSkip
  | exactLength
  | limit
  | names
  | dumpDir
  | target
  | help
  | version
deriving DecidableEq, Inhabited

namespace Switch

/-- The options of the program. Asking for help is one of them. -/
def ofProgram : List Switch := [format, quiet, verbose, threads, seed, directed, help]

/-- The options of every search. -/
def ofSearch : List Switch :=
  [maxLength, start, stop, pairs, nodeRange, edgeSkip, nodeSkip, exactLength]

/-- The options of a command; before the command, those of the program alone. -/
def allowed : Option Command → List Switch
  | none => version :: ofProgram
  | some .schema => schemaPaths :: ofProgram
  | some .paths => [limit, names, dumpDir] ++ ofSearch ++ ofProgram
  | some .count => target :: ofSearch ++ ofProgram

/-- The long name. -/
def long : Switch → String
  | format => "format"
  | quiet => "quiet"
  | verbose => "verbose"
  | threads => "threads"
  | seed => "seed"
  | directed => "directed"
  | schemaPaths => "paths"
  | maxLength => "max-length"
  | start => "start"
  | stop => "end"
  | pairs => "pairs"
  | nodeRange => "node-range"
  | edgeSkip => "edge-skip"
  | nodeSkip => "node-skip"
  | exactLength => "exact-length"
  | limit => "limit"
  | names => "names"
  | dumpDir => "dump-dir"
  | target => "target"
  | help => "help"
  | version => "version"

/-- The letter. -/
def letter? : Switch → Option Char
  | quiet => some 'q'
  | verbose => some 'v'
  | maxLength => some 'k'
  | help => some 'h'
  | version => some 'V'
  | _ => none

/-- The number of values. -/
def arity : Switch → Nat
  | quiet | verbose | directed | exactLength | names | help | version => 0
  | nodeRange => 2
  | _ => 1

end Switch

/-- What one level of a command line, the program or its command, is given. -/
structure Given where
  format : Option Format := none
  quiet : Bool := false
  verbose : Bool := false
  threads : Option Nat := none
  seed : Option UInt64 := none
  directed : Bool := false
  schemaPaths : Option Nat := none
  maxLength : Option Nat := none
  start : Option ExternalId := none
  stop : Option ExternalId := none
  pairs : Option String := none
  /-- The collected ends of ranges. -/
  nodeRange : List NodeId := []
  edgeSkip : Option Float := none
  nodeSkip : Option Float := none
  exactLength : Bool := false
  limit : Option Nat := none
  names : Bool := false
  dumpDir : Option String := none
  /-- The collected targets. -/
  targets : List String := []
  path : Option String := none

namespace Given

/-- Fills a gap with a value, if it still is one and the value was read. -/
def fill {α : Type} : Option α → Option α → Option (Option α)
  | none, some value => some (some value)
  | _, _ => none

/-- Raises a flag that is not raised. -/
def raise (flag : Bool) : Option Bool := if flag then none else some true

/-- Reads a number that fits a machine word. -/
def readSize? (text : String) : Option Nat := (Text.readNumber UInt64.size text.toList).toOption

/-- Reads a seed. -/
def readSeed? (text : String) : Option UInt64 := (readSize? text).map UInt64.ofNat

/-- Reads the external id of a node. -/
def readExternal? (text : String) : Option ExternalId :=
  (Text.readExternal text.toList).toOption

/-- Reads a path, which is any text but the empty one. -/
def readPath? (text : String) : Option String := if text.isEmpty then none else some text

/-- Takes the values of an option, unless they are not what it wants or it was
given before. -/
def take (g : Given) : Switch → List String → Option Given
  | .format, [v] => do return { g with format := ← fill g.format (Format.read? v) }
  | .quiet, [] => do return { g with quiet := ← raise g.quiet }
  | .verbose, [] => do return { g with verbose := ← raise g.verbose }
  | .threads, [v] => do return { g with threads := ← fill g.threads (readSize? v) }
  | .seed, [v] => do return { g with seed := ← fill g.seed (readSeed? v) }
  | .directed, [] => do return { g with directed := ← raise g.directed }
  | .schemaPaths, [v] => do return { g with schemaPaths := ← fill g.schemaPaths (readSize? v) }
  | .maxLength, [v] => do return { g with maxLength := ← fill g.maxLength (readSize? v) }
  | .start, [v] => do return { g with start := ← fill g.start (readExternal? v) }
  | .stop, [v] => do return { g with stop := ← fill g.stop (readExternal? v) }
  | .pairs, [v] => do return { g with pairs := ← fill g.pairs (readPath? v) }
  | .nodeRange, [v, w] => do
      let first ← Text.readId? v.toList
      let stop ← Text.readId? w.toList
      return { g with nodeRange := g.nodeRange ++ [first, stop] }
  | .edgeSkip, [v] => do
      return { g with edgeSkip := ← fill g.edgeSkip (Text.readDouble? v.toList) }
  | .nodeSkip, [v] => do
      return { g with nodeSkip := ← fill g.nodeSkip (Text.readDouble? v.toList) }
  | .exactLength, [] => do return { g with exactLength := ← raise g.exactLength }
  | .limit, [v] => do return { g with limit := ← fill g.limit (readSize? v) }
  | .names, [] => do return { g with names := ← raise g.names }
  | .dumpDir, [v] => do return { g with dumpDir := ← fill g.dumpDir (readPath? v) }
  | .target, [v] => some { g with targets := g.targets ++ [v] }
  | _, _ => none

/-- Takes a word that belongs to no option: the path of the graph. -/
def takePath (g : Given) (word : String) : Option Given := do
  return { g with path := ← fill g.path (readPath? word) }

/-- Whether options are given together that exclude each other, or an end without a start.
A range of start nodes excludes a start and thereby excuses that it is missing. -/
def isContradictory (g : Given) : Bool :=
  (g.pairs.isSome && (g.start.isSome || g.stop.isSome || !g.nodeRange.isEmpty))
    || (!g.nodeRange.isEmpty && g.start.isSome)
    || (g.stop.isSome && g.start.isNone && g.nodeRange.isEmpty)

end Given

end CommandLine

end Hetnet
