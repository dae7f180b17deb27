import Hetnet.Graph.Builder
import Hetnet.Text.Fields

/-!
# Graphs as text

A graph is written one element per line:

    # comment
    node <id> <label>[,<label>...]
    edge <source id> <destination id> <edge type>

Blank lines and comments are passed over. A node comes before the edges that use it.
Reading stops at the first line that is out of order, and the error names its number.
A list of pairs is written the same way, two ids per line.
-/

namespace Hetnet

/-- What is wrong with a line. -/
inductive LineFault
  /-- A token in the place of a node id is no number. -/
  | badId (token : String) (why : NumberFault)
  /-- The element was refused. -/
  | refused (error : Error)
  /-- The line declares neither a node nor an edge. -/
  | notAnElement
  /-- The line is not a pair. -/
  | notAPair
deriving DecidableEq, Inhabited

/-- What is wrong with a text: the first faulty line. -/
structure TextError where
  line : Nat
  fault : LineFault
deriving DecidableEq, Inhabited

namespace LineFault

/-- The sentences that follow the number of the line. -/
def report : LineFault → String
  | badId token why => s!"`{token}` is not a node id: {why.message}"
  | refused error => error.report
  | notAnElement => "expected `node <id> <labels>` or `edge <src> <dst> <type>`"
  | notAPair => "expected `<start> <end>`"

end LineFault

/-- The one-line report of a faulty text. -/
def TextError.report (e : TextError) : String := s!"line {e.line}: {e.fault.report}"

namespace Text

/-- Reads the id of a node. -/
def readNodeId (token : List Char) : Except LineFault ExternalId :=
  (readExternal token).mapError (.badId (String.ofList token))

/-- Adds the element that a line declares. -/
def addElement (b : GraphBuilder) : List (List Char) → Except LineFault GraphBuilder
  | [['n', 'o', 'd', 'e'], id, labels] => do
      let id ← readNodeId id
      match b.addNode id (commaList labels) with
      | (.ok _, b) => return b
      | (.error error, _) => throw (.refused error)
  | [['e', 'd', 'g', 'e'], src, dst, edgeType] => do
      let src ← readNodeId src
      let dst ← readNodeId dst
      match b.addEdge src dst (String.ofList edgeType) with
      | (.ok _, b) => return b
      | (.error error, _) => throw (.refused error)
  | _ => .error .notAnElement

/-- Reads a graph. -/
def readGraph (text : String) : Except TextError Graph := do
  let b ← (significantLines text).foldlM
    (fun b (line, fields) => (addElement b fields).mapError (.mk line)) ({} : GraphBuilder)
  return b.build

/-- Reads the pair on a line. -/
def readPair : List (List Char) → Except LineFault (ExternalId × ExternalId)
  | [start, stop] => do
      let start ← readNodeId start
      let stop ← readNodeId stop
      return (start, stop)
  | _ => .error .notAPair

/-- Reads a list of pairs. -/
def readPairs (text : String) : Except TextError (List (ExternalId × ExternalId)) :=
  (significantLines text).mapM fun (line, fields) => (readPair fields).mapError (.mk line)

end Text

end Hetnet
