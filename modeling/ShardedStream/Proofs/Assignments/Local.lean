import ShardedStream.Assignments.Cover
import ShardedStream.Proofs.Lineage.Growth

/-!
Successions are local.
What is opened once a shard has been read to its end depends on the checkpoint entries of the shards
below it, and on no others.
-/

namespace ShardedStream
namespace Assignments

variable {lineage : Lineage} {first second : Checkpoint} {shards : List Shard}

/-- Walks that do the same to the shards of a list sweep it alike. -/
theorem sweep_congr {walk other : Shard → Assignments → Bool × Assignments} {swept : List Shard}
    (same : ∀ shard ∈ swept, ∀ made, walk shard made = other shard made) (made : Assignments) :
    sweep walk swept made = sweep other swept made := by
  induction swept generalizing made with
  | nil => rfl
  | cons shard rest inductionHypothesis =>
      rw [sweep, sweep, same shard List.mem_cons_self,
        inductionHypothesis fun below member => same below (List.mem_cons_of_mem _ member)]

/-- A walk looks up no entry but those at or below its shard. -/
theorem cover_congr (fuel : Nat) {shard : Shard}
    (same : ∀ lower, lineage.Below shard lower → first.get? lower.id = second.get? lower.id)
    (made : Assignments) :
    cover lineage first fuel shard made = cover lineage second fuel shard made := by
  induction fuel generalizing shard made with
  | zero => rfl
  | succ fuel inductionHypothesis =>
      have children : ∀ child ∈ lineage.children shard.id, ∀ made,
          cover lineage first fuel child made = cover lineage second fuel child made :=
        fun child link => inductionHypothesis fun lower below => same lower (.head link below)
      rw [cover, cover, sweep_congr children, same shard .refl]

/-- A succession looks up no entry but those below the finished shard. -/
theorem afterEnd_congr {finished : ShardId}
    (same : ∀ lower, Lineage.AncestorOf shards finished lower →
      first.get? lower = second.get? lower) :
    afterEnd (.ofShards shards) finished first = afterEnd (.ofShards shards) finished second := by
  have children : ∀ child ∈ (Lineage.ofShards shards).children finished, ∀ made,
      cover (.ofShards shards) first (depthBound (.ofShards shards)) child made =
        cover (.ofShards shards) second (depthBound (.ofShards shards)) child made := by
    intro child link
    refine cover_congr _ fun lower below => same lower.id ?_
    have parent : Lineage.ParentOf shards finished child.id := ⟨child, link, rfl⟩
    rcases Relation.reflTransGen_iff_eq_or_transGen.mp below with rfl | further
    · exact .single parent
    · exact .head parent (Lineage.ancestorOf_of_strictlyBelow further)
  rw [afterEnd, afterEnd, List.foldl_ext]
  exact fun made child link => by rw [succeed, succeed, children child link]

end Assignments
end ShardedStream
