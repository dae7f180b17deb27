import Hetnet.CommandLine.Answer
import Hetnet.CommandLine.Invocation
import Hetnet.Files
import Hetnet.GraphText

/-!
# Running commands

A command reads its graph, asks the engine, writes dumps if that is wanted and shows the
answer. Nothing is shown before all of this has worked. A run needs a place with
files and nothing else, and ends in a report: the exit code, what goes to the output
and, if something was wrong, one line that says what.
-/

namespace Hetnet

namespace CommandLine

/-- What can be wrong with an invocation. -/
inductive Problem
  /-- A file cannot be read. -/
  | unreadable (path : String) (fault : FileFault)
  /-- The file of the graph is out of order. -/
  | badGraph (path : String) (error : TextError)
  /-- The file of pairs is out of order. -/
  | badPairs (error : TextError)
  /-- A range of nodes has more or fewer than two ends. -/
  | badRange
  /-- The directory for dumps cannot be made. -/
  | noDirectory (fault : FileFault)
  /-- The library refused. -/
  | refused (error : Error)
deriving DecidableEq, Inhabited

/-- The line that says what is wrong. -/
def Problem.message : Problem → String
  | unreadable path fault => s!"reading {path}: {fault.message}"
  | badGraph path error => s!"loading {path}: {error.report}"
  | badPairs error => error.report
  | badRange => "--node-range takes two node ids"
  | noDirectory fault => fault.message
  | refused error => error.report

/-- How a run breaks off. -/
inductive Halt
  | problem (problem : Problem)
  | crash
deriving DecidableEq, Inhabited

/-- A failure of the library, as the end of a run. -/
def Halt.ofFailure : Failure → Halt
  | .error error => .problem (.refused error)
  | .crash _ => .crash

/-- How a run ended. -/
structure Report where
  exit : UInt8
  output : String := ""
  problem : Option String := none
deriving DecidableEq, Inhabited

variable {m : Type → Type} [Monad m]

/-- Goes on with a result, or breaks off. -/
def orHalt {ε α : Type} (halt : ε → Halt) (result : Except ε α) : ExceptT Halt m α :=
  ExceptT.mk (pure (result.mapError halt))

/-- Goes on unless the library refuses. -/
def orRefused {α : Type} (result : Except Error α) : ExceptT Halt m α :=
  orHalt (.problem ∘ .refused) result

/-- Goes on unless the library fails. -/
def orFailed {α : Type} (result : Except Failure α) : ExceptT Halt m α :=
  orHalt Halt.ofFailure result

variable [Files m]

/-- Reads a file. -/
def readFile (path : String) : ExceptT Halt m String := do
  orHalt (fun fault => .problem (.unreadable path fault)) (← Files.read (m := m) path)

/-- Reads a graph. -/
def readGraphFile (path : String) : ExceptT Halt m Graph := do
  let text ← readFile path
  orHalt (fun error => .problem (.badGraph path error)) (Text.readGraph text)

/-- The nodes of a pair of external ids. -/
def nodesOf (graph : Graph) (pair : ExternalId × ExternalId) :
    Except Error (NodeId × NodeId) := do
  let start ← graph.node pair.1
  let stop ← graph.node pair.2
  return (start, stop)

/-- The request of a scope. -/
def requestOf (graph : Graph) : Scope → ExceptT Halt m Request
  | .pairsFile path => do
      let text ← readFile path
      let pairs ← orHalt (fun error => .problem (.badPairs error)) (Text.readPairs text)
      return .pairs (← orRefused (pairs.mapM (nodesOf graph)))
  | .range [first, stop] => return .wholeGraph (some (first, stop))
  | .range _ => throw (.problem .badRange)
  | .ends start stop => do
      let start ← orRefused (start.mapM graph.node)
      let stop ← orRefused (stop.mapM graph.node)
      orRefused (Request.ofEnds start stop)

/-- The sink that refuses one dump. -/
def refusing (refused : PairDump) (fault : FileFault) : Sink where
  takes dump :=
    if dump.fileName = refused.fileName then .error (.storage fault.message) else .ok ()

/-- Enumerates and dumps what is found into a directory. A dump that cannot be written fails
the task that found it. -/
def enumerateInto (engine : Engine) (request : Request) (settings : SearchSettings)
    (directory : String) : ExceptT Halt m EnumerationResult := do
  orHalt (.problem ∘ .noDirectory) (← Files.makeDirectory (m := m) directory)
  let (result, dumps) ← orFailed (engine.enumerateWithSink request settings .open)
  for dump in dumps do
    match ← Files.write (m := m) (pathIn directory dump.fileName) dump.lines with
    | .ok () => pure ()
    | .error fault =>
        let _ ← orFailed (engine.enumerateWithSink request settings (refusing dump fault))
  return result

/-- The text of an answer in the chosen format. -/
def present (format : Format) (json : Json) (lines : List String) : String :=
  match format with
  | .json => jsonText json
  | .table => unlines lines

/-- Carries out an invocation; the result is what it has to show. -/
def carryOut (i : Invocation) : ExceptT Halt m String := do
  match i.task with
  | .schema maxLength => do
      let graph ← readGraphFile i.path
      let engine ← orRefused (Engine.create graph.network i.settings)
      let schema ← orFailed engine.schema
      let metaPaths ← orFailed (maxLength.mapM fun k => engine.schemaMetaPaths k .upTo)
      let answer : SchemaAnswer := {
        nodeCount := graph.nodeCount
        labels := graph.labelNames
        edgeTypes := graph.edgeTypeNames
        schema, metaPaths }
      return present i.format answer.json answer.lines
  | .paths scope settings names dumpDir => do
      let graph ← readGraphFile i.path
      let engine ← orRefused (Engine.create graph.network i.settings)
      let request ← requestOf graph scope
      let result ← match dumpDir with
        | some directory => enumerateInto engine request settings directory
        | none => orFailed (engine.enumerate request settings)
      let shown := result.paths.toList.map fun path =>
        if names then path.render graph.labelNames graph.edgeTypeNames else path.key
      let answer : PathsAnswer := { result, shown }
      let notice := match dumpDir with
        | some directory => s!"✓ Trace dumps written to {directory}\n"
        | none => ""
      return present i.format answer.json answer.lines ++ notice
  | .count scope settings targets => do
      let targets ← orRefused (MetaPathSet.parseAll targets)
      let graph ← readGraphFile i.path
      let engine ← orRefused (Engine.create graph.network i.settings)
      let request ← requestOf graph scope
      let counts ← orFailed (engine.count request settings targets)
      return present i.format (countsJson counts) (countsLines counts)

/-- The text that answers the question for the version. -/
def versionText : String := "metagraph 0.1.0\n"

/-- The exit code of a run that met a problem. -/
def problemExit : UInt8 := 1

/-- The exit code of a run that was not a command line. -/
def usageExit : UInt8 := 2

/-- The exit code of a run that crashed. -/
def crashExit : UInt8 := 101

/-- Runs a command line on a machine of `cores` cores; `usage` is the text for who needs help. -/
def run (cores : Nat) (usage : String) (words : List String) : m Report := do
  match Invocation.read cores words with
  | .error .usage => return { exit := usageExit }
  | .error .help => return { exit := 0, output := usage }
  | .error .version => return { exit := 0, output := versionText }
  | .ok invocation =>
      match ← (carryOut invocation).run with
      | .ok output => return { exit := 0, output := if invocation.quiet then "" else output }
      | .error (.problem problem) =>
          return { exit := problemExit, problem := some problem.message }
      | .error .crash => return { exit := crashExit }

end CommandLine

end Hetnet
