import Hetnet.Engine
import Hetnet.Graph
import Hetnet.Schema.Record
import Hetnet.Table

/-!
# Answers of the commands

An answer is what a command found out, ready to be shown either as structured output or as
tables for a reader. Structured output names its members in a fixed order. Tables
show names where there are any, and estimates with two places.
-/

namespace Hetnet

namespace CommandLine

/-- What is known about the schema of a graph. -/
structure SchemaAnswer where
  nodeCount : Nat
  labels : Vocabulary .label
  edgeTypes : Vocabulary .edgeType
  schema : Schema
  /-- The meta-paths that the schema allows, if they were asked for. -/
  metaPaths : Option MetaPathSet

/-- What an enumeration has found. -/
structure PathsAnswer where
  result : EnumerationResult
  /-- The meta-paths as they are shown, in the order of the result. -/
  shown : List String

/-- Lines of text, each ended. -/
def unlines (lines : List String) : String := String.join (lines.map fun line => line ++ "\n")

/-- Structured output on lines of its own. -/
def jsonText (json : Json) : String := json.pretty 0 ++ "\n"

/-- The names of a vocabulary by their ids. -/
def vocabularyJson {kind : Kind} (v : Vocabulary kind) : Json :=
  .object (v.entries.map fun (id, name) => (id.text, .string name))

/-- A list of texts. -/
def textsJson (texts : List String) : Json := .array (texts.map .string)

namespace SchemaAnswer

/-- The meta-paths by names. -/
def rendered (a : SchemaAnswer) : Option (List String) :=
  a.metaPaths.map fun paths => paths.toList.map (·.render a.labels a.edgeTypes)

/-- The structured form. -/
def json (a : SchemaAnswer) : Json :=
  let base := [
    ("nodes", .nat a.nodeCount), ("labels", vocabularyJson a.labels),
    ("edge_types", vocabularyJson a.edgeTypes), ("schema", a.schema.toRecord.json)]
  .object (match a.rendered with
    | none => base
    | some paths => base ++ [("meta_paths", textsJson paths)])

/-- The links of the schema by names, one per row. -/
def linkRows (a : SchemaAnswer) : List (List String) :=
  a.schema.toRecord.rows.zipIdx.flatMap fun (links, i) => links.map fun link =>
    [a.labels.display (.ofIndex i), a.labels.display link.label,
      a.edgeTypes.display link.edgeType]

/-- The form for a reader. -/
def lines (a : SchemaAnswer) : List String :=
  let links : Table := ⟨["Label", "Neighbor Label", "Edge Type"], a.linkRows⟩
  let paths := match a.rendered with
    | none => []
    | some paths => "" :: (Table.mk ["Schema Meta-Path"] (paths.map ([·]))).lines
  links.lines ++ paths ++
    [s!"{a.nodeCount} nodes, {a.labels.size} labels, {a.schema.pairCount} schema pairs"]

end SchemaAnswer

namespace PathsAnswer

/-- The structured form. -/
def json (a : PathsAnswer) : Json :=
  .object [
    ("meta_paths", textsJson a.shown), ("trace_count", .nat a.result.traces),
    ("pairs_processed", .nat a.result.pairs), ("truncated", .bool a.result.truncated)]

/-- The form for a reader. -/
def lines (a : PathsAnswer) : List String :=
  let rows := List.zipWith (fun text path => [text, toString (MetaPath.hops path)])
    a.shown a.result.paths.toList
  (Table.mk ["Meta-Path", "Hops"] rows).lines ++
    (Table.mk ["Property", "Value"] [
      ["Meta-paths", toString a.shown.length], ["Traces", toString a.result.traces],
      ["Pairs", toString a.result.pairs],
      ["Truncated", toString a.result.truncated]]).lines

end PathsAnswer

/-- The structured form of counts. -/
def countsJson : Counts → Json
  | .exact counts => .object [
      ("mode", .string "exact"),
      ("counts", .object (counts.toList.map fun (path, count) => (path.key, .nat count)))]
  | .approximate counts => .object [
      ("mode", .string "approximate"),
      ("counts", .object (counts.toList.map fun (path, estimate) =>
        (path.key, .double estimate)))]

/-- The number of places with which estimates are shown. -/
def estimatePlaces : Nat := 2

/-- The form of counts for a reader. -/
def countsLines : Counts → List String
  | .exact counts =>
      (Table.mk ["Meta-Path", "Count"]
        (counts.toList.map fun (path, count) => [path.key, toString count])).lines
  | .approximate counts =>
      (Table.mk ["Meta-Path", "Estimated Count"]
        (counts.toList.map fun (path, estimate) =>
          [path.key, fixedText estimatePlaces estimate])).lines

end CommandLine

end Hetnet
