import ShardedStream.Assignments.Basic
import ShardedStream.Checkpoint

/-!
Where every shard that needs reading starts.
A line of descent is covered when a checkpoint entry on it still matters; the walk goes from the
roots down and decides on the children before their parent.
-/

namespace ShardedStream

namespace Assignments

/-- Splits off the shards that a walk finds uncovered and threads the decisions through. -/
def sweep (walk : Shard → Assignments → Bool × Assignments) :
    List Shard → Assignments → List Shard × Assignments
  | [], made => ([], made)
  | shard :: rest, made =>
    let walked := walk shard made
    let swept := sweep walk rest walked.2
    (if walked.1 then swept.1 else shard :: swept.1, swept.2)

/--
Decides on the lines of descent through `shard` and says whether they are covered.
A shard below which something is covered is not opened: its other children start at the beginning.
Else its own entry counts: a shard read to its end hands over to all its children, any other
resumes after the entry. Only a walk without an end runs out of fuel, and it opens nothing.
-/
def cover (lineage : Lineage) (checkpoint : Checkpoint) :
    Nat → Shard → Assignments → Bool × Assignments
  | 0, _, made => (true, made)
  | fuel + 1, shard, made =>
    let children := lineage.children shard.id
    let swept := sweep (cover lineage checkpoint fuel) children made
    if swept.1.length < children.length then
      (true, swept.2.assignAll swept.1 .trimHorizon)
    else
      match checkpoint.get? shard.id with
      | none => (false, swept.2)
      | some sequence =>
        if shard.endsAt sequence then
          (true, swept.2.assignAll children .trimHorizon)
        else
          (true, swept.2.assign shard.id (.afterSequence sequence))

/-- A walk that ends meets no place of the list twice on one line of descent. -/
def depthBound (lineage : Lineage) : Nat := lineage.size

/-- Sweeps a list of shards with a walk deep enough for the lineage. -/
def coverAll (lineage : Lineage) (checkpoint : Checkpoint) (shards : List Shard) :
    List Shard × Assignments :=
  sweep (cover lineage checkpoint (depthBound lineage)) shards empty

/-- Opens a root with nothing saved below it as the policy says. -/
def openRoot (lineage : Lineage) (policy : StartPolicy) (made : Assignments) (root : Shard) :
    Assignments :=
  match policy with
  | .oldest => made.assign root.id .trimHorizon
  | .newest => made.assignAll (lineage.tipsBelow root.id) .latest

/--
Where to start reading a stream. The policy decides only when no root is covered; once one is,
the others have never been read and start at the beginning.
-/
def atStart (lineage : Lineage) (checkpoint : Checkpoint) (policy : StartPolicy) : Assignments :=
  let swept := coverAll lineage checkpoint lineage.roots
  let made :=
    if swept.1.length = lineage.roots.length then
      swept.1.foldl (openRoot lineage policy) swept.2
    else
      swept.2.assignAll swept.1 .trimHorizon
  made.inOrderOf lineage

/-- Opens a child of a finished shard at the beginning, unless its line of descent is covered. -/
def succeed (walk : Shard → Assignments → Bool × Assignments) (made : Assignments)
    (child : Shard) : Assignments :=
  let walked := walk child made
  if walked.1 then walked.2 else walked.2.assign child.id .trimHorizon

/-- Where to go on once the shard `finished` has been read to its end. -/
def afterEnd (lineage : Lineage) (finished : ShardId) (checkpoint : Checkpoint) :
    Assignments :=
  ((lineage.children finished).foldl
    (succeed (cover lineage checkpoint (depthBound lineage))) empty).inOrderOf lineage

end Assignments

end ShardedStream
