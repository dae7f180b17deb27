import Hetnet.TypedId

/-!
# Errors and failures

An `Error` is a cause that an operation reports. What each task of an operation does is
deterministic for a given seed and input, so nothing is ever tried again: computing a
second time would reproduce the same causes. Left open is which of them is reported when
several tasks fail.

A `Failure` is the wider notion that a running task has: it either reports an
error or crashes with a message. Inside a worker both end up as an error
of the run (see `Hetnet.Workers`); outside one a crash stays a crash.
-/

namespace Hetnet

/-- What can go wrong in building a network, extracting its schema, enumerating or
counting. -/
inductive Error
  /-- A dense id that is not in the network. -/
  | unknownNode (node : NodeId)
  /-- An external id that was never added to the network. -/
  | unknownExternal (id : ExternalId)
  /-- The edge type of a pair of nodes that are not adjacent was asked for. -/
  | edgeNotFound (src dst : NodeId)
  /-- A parameter was rejected before any work began. -/
  | invalidParameter (name reason : String)
  /-- One task of a concurrent operation failed, and the whole operation with it. -/
  | workerFailed (task : Nat) (source : Error)
  /-- The same external id was added twice. -/
  | duplicateNode (id : ExternalId)
  /-- A node was added without any label. -/
  | emptyLabelSet (id : ExternalId)
  /-- Two edges between the same two nodes carry different edge types. -/
  | conflictingEdgeType (src dst : NodeId)
  /-- A key that is not a meta-path. -/
  | malformedMetaPath (key : String)
  /-- An internal invariant failed, or a worker crashed. -/
  | internal (reason : String)
  /-- A place where results are stored refused them. -/
  | storage (reason : String)
deriving DecidableEq, Inhabited

namespace Error

/-- The sentence shown to the caller. -/
def message : Error → String
  | unknownNode node => s!"unknown node {node.text}"
  | unknownExternal id => s!"unknown original node id {id.text}"
  | edgeNotFound src dst => s!"no edge between nodes {src.text} and {dst.text}"
  | invalidParameter name reason => s!"invalid parameter `{name}`: {reason}"
  | workerFailed task source => s!"worker task {task} failed: {source.message}"
  | duplicateNode id => s!"node with original id {id.text} already exists"
  | emptyLabelSet id => s!"node with original id {id.text} has no labels"
  | conflictingEdgeType src dst =>
      s!"conflicting edge labels between nodes {src.text} and {dst.text}"
  | malformedMetaPath key => s!"malformed meta-path `{key}`"
  | internal reason => s!"internal error: {reason}"
  | storage reason => s!"I/O error: {reason}"

/-- The innermost error, found by looking through worker failures. -/
def rootCause : Error → Error
  | workerFailed _ source => source.rootCause
  | other => other

/-- The sentences of the error and of everything that caused it, outermost first. A
sentence that already quotes its cause is followed by that cause all the same. -/
def causes : Error → List String
  | workerFailed task source => (workerFailed task source).message :: source.causes
  | storage reason => [(storage reason).message, reason]
  | other => [other.message]

/-- The one-line report of an error with its causes. -/
def report (error : Error) : String := ": ".intercalate error.causes

end Error

/-- How a running task can fail. -/
inductive Failure
  /-- It reported an error. -/
  | error (error : Error)
  /-- It broke down, leaving nothing but a message. -/
  | crash (message : String)
deriving DecidableEq, Inhabited

instance : MonadLift (Except Error) (Except Failure) where
  monadLift
    | .ok value => .ok value
    | .error error => .error (.error error)

end Hetnet
