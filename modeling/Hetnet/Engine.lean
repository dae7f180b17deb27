import Hetnet.Enumeration
import Hetnet.Schema.Extraction
import Hetnet.Schema.MetaPaths

/-!
# The engine

An engine is a network together with the settings under which it is analysed. It
answers every question of the library about that network: the schema, the meta-paths
that the schema allows, the meta-paths that have instances, and how many.
-/

namespace Hetnet

/-- A network with the settings of its analysis. -/
structure Engine where
  network : Network
  settings : EngineSettings
  /-- The workers that enumerate. -/
  pool : WorkerPool
  /-- The workers that extract the schema. -/
  schemaPool : WorkerPool
  /-- Which failure is reported when several tasks fail. -/
  reports : Reporting

namespace Engine

/-- The engine of a network, if the settings are in order. -/
def create (network : Network) (settings : EngineSettings) (reports : Reporting := .lowest) :
    Except Error Engine := do
  settings.validate
  let pool ← WorkerPool.create settings.threads
  let schemaPool ← WorkerPool.create settings.schemaThreads
  return { network, settings, pool, schemaPool, reports }

/-- The enumerator of the engine. -/
def enumerator (e : Engine) : Enumerator where
  network := e.network
  direction := e.settings.direction
  seed := e.settings.seed
  reports := e.reports

/-- The schema of the network. -/
def schema (e : Engine) : Except Failure Schema :=
  Schema.extract e.network e.settings.schemaPartitions e.reports

/-- The meta-paths that the schema of the network allows. -/
def schemaMetaPaths (e : Engine) (maxLength : Nat) (mode : LengthMode) :
    Except Failure MetaPathSet := do
  let schema ← e.schema
  schema.metaPaths maxLength mode

/-- The distinct meta-paths of a request. -/
def enumerate (e : Engine) (request : Request) (settings : SearchSettings) :
    Except Failure EnumerationResult :=
  e.enumerator.enumerate request settings

/-- The distinct meta-paths of a request, and the dumps that the sink has taken. -/
def enumerateWithSink (e : Engine) (request : Request) (settings : SearchSettings)
    (sink : Sink) : Except Failure (EnumerationResult × List PairDump) :=
  { e.enumerator with sink := some sink }.enumerateWithDumps request settings

/-- How often each meta-path of a request occurs. -/
def occurrences (e : Engine) (request : Request) (settings : SearchSettings) :
    Except Failure Occurrences :=
  e.enumerator.occurrences request settings

/-- The counts of target meta-paths in a request. -/
def count (e : Engine) (request : Request) (settings : SearchSettings)
    (targets : MetaPathSet) : Except Failure Counts :=
  return (← e.occurrences request settings).count targets

/-- The form shown to a developer. -/
def inspect (e : Engine) : String :=
  s!"MetaPathEngine \x7b nodes: {e.network.nodeCount}, " ++
  s!"config: {e.settings.inspect}, .. \x7d"

end Engine

end Hetnet
