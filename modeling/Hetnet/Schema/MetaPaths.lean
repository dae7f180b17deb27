import Hetnet.MetaPath
import Hetnet.Schema
import Hetnet.Settings

/-!
# Meta-paths of a schema

Walking the schema instead of the network gives every meta-path that its links allow.
Such a path need not have an instance, but no node is visited, so the work depends only on
the labels and on the length bound.

A path is extended at its end, so the steps taken so far are kept latest first.
-/

namespace Hetnet

namespace Schema

/-- Adds the path of the steps taken from a label, latest first, if it may be listed. -/
def addPath (mode : LengthMode) (maxLength : Nat) (start : LabelId)
    (steps : List (EdgeTypeId × LabelId)) (paths : MetaPathSet) : Except Error MetaPathSet :=
  if mode.accepts steps.length maxLength then do
    let walked := steps.reverse
    let path ← MetaPath.ofParts (start :: walked.map Prod.snd) (walked.map Prod.fst)
    return paths.insert path
  else .ok paths

/-- Collects the paths that go on from a label by at most `remaining` links, where `steps`
led from `start` to that label. -/
def extend (s : Schema) (mode : LengthMode) (maxLength : Nat) (start : LabelId)
    (remaining : Nat) (last : LabelId) (steps : List (EdgeTypeId × LabelId))
    (paths : MetaPathSet) : Except Error MetaPathSet :=
  match remaining with
  | 0 => .ok paths
  | remaining + 1 =>
      (s.links last).foldlM
        (fun paths link => do
          let steps := (link.edgeType, link.label) :: steps
          let paths ← addPath mode maxLength start steps paths
          extend s mode maxLength start remaining link.label steps paths)
        paths

/-- The size of an id in the buffers that hold a path. -/
def idBytes : Nat := 4

/-- The meta-paths that the schema allows under a length bound. -/
def metaPaths (s : Schema) (maxLength : Nat) (mode : LengthMode) :
    Except Failure MetaPathSet := do
  if maxLength = 0 then
    throw (.error Error.noHops)
  reserve (maxLength + 1) idBytes
  (List.range s.labelCount).foldlM
    (fun paths i => s.extend mode maxLength (.ofIndex i) maxLength (.ofIndex i) [] paths) ∅

end Schema

end Hetnet
