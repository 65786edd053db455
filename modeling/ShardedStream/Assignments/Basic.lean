import ShardedStream.Position
import ShardedStream.Lineage
import Std.Data.ExtTreeSet

/-!
Assignments: which shards to open, and where. Each shard is assigned at most once.
-/

namespace ShardedStream

/-- The decision to open one shard at one position. -/
structure Assignment where
  shard : ShardId
  position : Position
  deriving DecidableEq, Repr, Inhabited

/-- Decisions in order, with the set of shards that have one. -/
structure Assignments where
  entries : List Assignment
  decided : Std.ExtTreeSet ShardId

namespace Assignments

def empty : Assignments := ⟨[], ∅⟩

instance : Inhabited Assignments := ⟨empty⟩

/-- The first decision on a shard stands. -/
def assign (assignments : Assignments) (shard : ShardId) (position : Position) : Assignments :=
  if assignments.decided.contains shard then assignments
  else ⟨assignments.entries ++ [⟨shard, position⟩], assignments.decided.insert shard⟩

/-- Opens every listed shard at the one position. -/
def assignAll (assignments : Assignments) (shards : List Shard) (position : Position) :
    Assignments :=
  shards.foldl (fun made shard => made.assign shard.id position) assignments

def position? (assignments : Assignments) (shard : ShardId) : Option Position :=
  (assignments.entries.find? fun entry => entry.shard == shard).map Assignment.position

def shards (assignments : Assignments) : List ShardId :=
  assignments.entries.map Assignment.shard

def size (assignments : Assignments) : Nat := assignments.entries.length

def isEmpty (assignments : Assignments) : Bool := assignments.entries.isEmpty

/-- Takes back the decisions on the shards in `skip`. -/
def without (assignments : Assignments) (skip : Std.ExtTreeSet ShardId) : Assignments :=
  ⟨assignments.entries.filter fun entry => !skip.contains entry.shard,
    assignments.decided.filter fun shard => !skip.contains shard⟩

/-- Assignments are the same when their entries and their decided shards are. -/
def same (first second : Assignments) : Bool :=
  first.entries == second.entries && first.decided.toList == second.decided.toList

/-- Puts the decisions into the order of the shard list; shards that are not listed come last. -/
def inOrderOf (assignments : Assignments) (lineage : Lineage) : Assignments :=
  let rank := fun entry : Assignment => (lineage.place? entry.shard).getD lineage.size
  { assignments with
    entries := assignments.entries.mergeSort fun first second => rank first ≤ rank second }

end Assignments

end ShardedStream
