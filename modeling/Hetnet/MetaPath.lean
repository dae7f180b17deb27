import Std.Data.ExtTreeSet
import Hetnet.Numbering
import Hetnet.Text.Number

/-!
# Meta-paths

A meta-path is the trace that a walk leaves when its nodes are forgotten: the label of
each node it visits and the type of each edge it takes, in turn. It is written as a
key, the ids in decimal form joined by bars, as in `0|2|1|2|0`. A path of `h` hops has
`h + 1` labels and `h` edge types, hence a key of `2h + 1` tokens.

A key is canonical if it has an odd number of tokens, each of which is the decimal form
of an id. Only canonical keys are parsed, so a sequence of ids has one key. A
`MetaPath` can nevertheless be made from any text, and then `labels` and `edgeTypes`
pass over the tokens that are no ids.
-/

namespace Hetnet

/-- A meta-path, held as its key. -/
structure MetaPath where
  key : String
deriving DecidableEq

namespace MetaPath

instance : Inhabited MetaPath := ⟨⟨""⟩⟩

/-- Meta-paths are ordered as texts, which is the order of their bytes. -/
instance : Ord MetaPath := ⟨compareOn key⟩

instance : Std.TransOrd MetaPath := inferInstanceAs (Std.TransCmp (compareOn key))

instance : Std.LawfulEqOrd MetaPath where
  eq_of_compare {a b} h := by
    have hkey : a.key = b.key := Std.LawfulEqOrd.eq_of_compare h
    cases a; cases b; simp_all

/-- The character between two tokens. -/
def separator : Char := '|'

/-- The tokens of a key. -/
def tokensOf (key : String) : List (List Char) := key.toList.splitOn separator

/-- The tokens of the meta-path. -/
def tokens (p : MetaPath) : List (List Char) := tokensOf p.key

/-- The number of edges on the path. -/
def hops (p : MetaPath) : Nat := p.tokens.length / 2

/-- Whether a token is the decimal form of an id. -/
def isCanonical (token : List Char) : Bool :=
  match (Text.readId? token : Option LabelId) with
  | some id => id.text.toList = token
  | none => false

/-- The meta-path of a canonical key. -/
def parse (key : String) : Except Error MetaPath :=
  if (tokensOf key).all isCanonical && (tokensOf key).length % 2 = 1 then .ok ⟨key⟩
  else .error (.malformedMetaPath key)

/-- The meta-path of a stored key, which is taken as it was stored. -/
def restore (key : String) : MetaPath := ⟨key⟩

/-- The key of a start label and the steps from there. -/
def ofSteps (start : LabelId) (steps : List (EdgeTypeId × LabelId)) : MetaPath :=
  ⟨separator.toString.intercalate
    (start.text :: steps.flatMap fun (edgeType, label) => [edgeType.text, label.text])⟩

/-- The key of a list of labels and the edge types between them. -/
def ofParts (labels : List LabelId) (edgeTypes : List EdgeTypeId) : Except Error MetaPath :=
  let mismatch := Error.malformedMetaPath
    s!"{labels.length} node labels with {edgeTypes.length} edge labels"
  match labels with
  | [] => .error mismatch
  | start :: rest =>
      if rest.length = edgeTypes.length then .ok (ofSteps start (edgeTypes.zip rest))
      else .error mismatch

/-- The members of a list at even positions. -/
def evens {α : Type} : List α → List α
  | [] => []
  | [a] => [a]
  | a :: _ :: rest => a :: evens rest

/-- The tokens that are ids, signs and leading zeros included, as ids of one kind. -/
def ids (kind : Kind) (p : MetaPath) : List (TypedId kind) := p.tokens.filterMap Text.readId?

/-- The labels along the path. -/
def labels (p : MetaPath) : List LabelId := evens (p.ids .label)

/-- The edge types along the path. -/
def edgeTypes (p : MetaPath) : List EdgeTypeId := evens ((p.ids .edgeType).drop 1)

/-- The name that the vocabularies give to the token at a position; a token without a
name stands for itself. -/
def tokenName (labels : Vocabulary .label) (edgeTypes : Vocabulary .edgeType)
    (token : List Char) (position : Nat) : String :=
  let name :=
    if position % 2 = 0 then (Text.readId? token).bind labels.name?
    else (Text.readId? token).bind edgeTypes.name?
  name.getD (String.ofList token)

/-- The path written with names instead of ids. -/
def render (p : MetaPath) (labels : Vocabulary .label) (edgeTypes : Vocabulary .edgeType) :
    String :=
  separator.toString.intercalate
    (p.tokens.zipIdx.map fun (token, position) => tokenName labels edgeTypes token position)

/-- The form shown to a developer. -/
def inspect (p : MetaPath) : String := s!"MetaPath({p.key})"

end MetaPath

/-- A set of meta-paths, listed in the order of their keys. -/
abbrev MetaPathSet := Std.ExtTreeSet MetaPath

namespace MetaPathSet

/-- Parses every key and stops at the first that is malformed. -/
def parseAll (keys : List String) : Except Error MetaPathSet :=
  keys.foldlM (fun paths key => return paths.insert (← MetaPath.parse key)) ∅

/-- The keys in increasing order. -/
def keys (paths : MetaPathSet) : List String := paths.toList.map (·.key)

/-- The first paths of a set, at most `count` of them. -/
def truncate (paths : MetaPathSet) (count : Nat) : MetaPathSet :=
  Std.ExtTreeSet.ofList (paths.toList.take count)

end MetaPathSet

end Hetnet
