import Std.Data.ExtTreeMap
import Hetnet.MetaPath

/-!
# Collectors

Every task of a search fills a collector of its own with the meta-paths it comes across,
and the collectors are merged when the tasks are done. A collector may keep as
much about the paths as its question needs: a set keeps which paths were seen, a tally
keeps how often.
-/

namespace Hetnet

/-- An accumulator of meta-paths. -/
class Collector (C : Type) where
  empty : C
  record : C → MetaPath → C
  merge : C → C → C
  /-- The distinct meta-paths recorded so far. -/
  pathSet : C → MetaPathSet

namespace Collector

variable {C : Type} [Collector C]

/-- Records a list of paths in order. -/
def recordAll (collector : C) (paths : List MetaPath) : C := paths.foldl record collector

end Collector

/-- Moves the paths of another set into a set. -/
def MetaPathSet.append (paths others : MetaPathSet) : MetaPathSet :=
  others.foldl (fun paths path => paths.insert path) paths

/-- The set of distinct paths is a collector; of two sets the smaller one is moved into the
larger one. -/
instance : Collector MetaPathSet where
  empty := ∅
  record paths path := paths.insert path
  merge a b := if a.size < b.size then b.append a else a.append b
  pathSet := id

/-- How often each meta-path occurred; paths that did not occur are absent. -/
abbrev PathTally := Std.ExtTreeMap MetaPath Nat

namespace PathTally

/-- Adds occurrences of a path. -/
def add (tally : PathTally) (path : MetaPath) (count : Nat) : PathTally :=
  tally.alter path fun old => some (old.getD 0 + count)

/-- How often a path occurred. -/
def observed (tally : PathTally) (path : MetaPath) : Nat := tally.getD path 0

/-- The tally of a list of counts; the counts of a repeated path add up. -/
def ofCounts (counts : List (MetaPath × Nat)) : PathTally :=
  counts.foldl (fun tally (path, count) => tally.add path count) ∅

/-- The paths that occurred. -/
def pathSet (tally : PathTally) : MetaPathSet := Std.ExtTreeSet.ofList tally.keys

end PathTally

/-- The number of occurrences per path is a collector; merging adds. -/
instance : Collector PathTally where
  empty := ∅
  record tally path := tally.add path 1
  merge a b := b.foldl PathTally.add a
  pathSet := PathTally.pathSet

end Hetnet
