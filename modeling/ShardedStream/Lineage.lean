import ShardedStream.Shard
import Std.Data.ExtTreeMap

/-!
The lineage of a stream at one moment: a flat shard list, indexed by shard and by parent.
A shard whose parent is not in the list is a root, so a child outlives its parent's removal.
-/

namespace ShardedStream

/-- An indexed shard list; the three indexes hold places in the list. -/
structure Lineage where
  shards : List Shard
  places : Std.ExtTreeMap ShardId Nat
  childPlaces : Std.ExtTreeMap ShardId (List Nat)
  rootPlaces : List Nat

namespace Lineage

/-- Shards with their places in the list. -/
def numbered (shards : List Shard) : List (Shard × Nat) := shards.zipIdx

/-- The last shard with an id takes its place in the index. -/
def indexPlaces (shards : List Shard) : Std.ExtTreeMap ShardId Nat :=
  (numbered shards).foldl (fun places entry => places.insert entry.1.id entry.2) ∅

/-- Files a shard under its parent, or among the roots when the parent is not known. -/
def file (places : Std.ExtTreeMap ShardId Nat)
    (filed : Std.ExtTreeMap ShardId (List Nat) × List Nat) (entry : Shard × Nat) :
    Std.ExtTreeMap ShardId (List Nat) × List Nat :=
  match entry.1.parent with
  | some parent =>
    if places.contains parent then
      (filed.1.insert parent (filed.1.getD parent [] ++ [entry.2]), filed.2)
    else
      (filed.1, filed.2 ++ [entry.2])
  | none => (filed.1, filed.2 ++ [entry.2])

/-- Indexes a shard list. -/
def ofShards (shards : List Shard) : Lineage :=
  let places := indexPlaces shards
  let filed := (numbered shards).foldl (file places) (∅, [])
  ⟨shards, places, filed.1, filed.2⟩

def size (lineage : Lineage) : Nat := lineage.shards.length

def isEmpty (lineage : Lineage) : Bool := lineage.shards.isEmpty

/-- The place of a shard in the list. -/
def place? (lineage : Lineage) (id : ShardId) : Option Nat := lineage.places[id]?

def contains (lineage : Lineage) (id : ShardId) : Bool := lineage.places.contains id

def get? (lineage : Lineage) (id : ShardId) : Option Shard :=
  (lineage.place? id).bind fun place => lineage.shards[place]?

/-- The shards at some places of the list. -/
def atPlaces (lineage : Lineage) (places : List Nat) : List Shard :=
  places.filterMap fun place => lineage.shards[place]?

/-- The shards that begin a line of descent, in list order. -/
def roots (lineage : Lineage) : List Shard := lineage.atPlaces lineage.rootPlaces

/-- The shards that name `id` as their parent, in list order. -/
def children (lineage : Lineage) (id : ShardId) : List Shard :=
  lineage.atPlaces (lineage.childPlaces.getD id [])

def isParent (lineage : Lineage) (id : ShardId) : Bool :=
  lineage.childPlaces.contains id

/-- Takes the top shard off the stack: a parent gives way to its children, a leaf is kept. -/
def walkTips (lineage : Lineage) : Nat → List ShardId → List Shard → List Shard
  | 0, _, leaves => leaves
  | _ + 1, [], leaves => leaves
  | fuel + 1, id :: stack, leaves =>
    if lineage.isParent id then
      lineage.walkTips fuel ((lineage.children id).map Shard.id ++ stack) leaves
    else
      lineage.walkTips fuel stack (leaves ++ (lineage.get? id).toList)

/--
A line of descent without repetition is determined by the set of places it visits, so a walk that
ends takes no more turns than there are such sets.
-/
def walkBound (lineage : Lineage) : Nat := Nat.pow 2 lineage.size + 1

/-- The childless shards at or below `id`, depth first. -/
def tipsBelow (lineage : Lineage) (id : ShardId) : List Shard :=
  lineage.walkTips lineage.walkBound [id] []

end Lineage

end ShardedStream
