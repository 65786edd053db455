import ShardedStream.Proofs.Lineage.Descent

/-!
The family of a shard.
A rooted shard is a root or has its parent in the list, and the links of a lineage depend on the
shards of the list and not on their order.
-/

namespace ShardedStream
namespace Lineage

variable {shards shuffled : List Shard} {shard : Shard}

/-- A rooted shard is a root or the child of a rooted shard of the list. -/
theorem root_or_child (rooted : (ofShards shards).Rooted shard) :
    shard ∈ (ofShards shards).roots ∨
      ∃ parent ∈ shards, (ofShards shards).Rooted parent ∧
        (ofShards shards).IsChild parent shard := by
  obtain ⟨root, member, below⟩ := rooted
  rcases Relation.ReflTransGen.cases_tail below with rfl | ⟨parent, above, link⟩
  · exact .inl member
  · have parentRooted : (ofShards shards).Rooted parent := ⟨root, member, above⟩
    exact .inr ⟨parent, listed_of_rooted parentRooted, parentRooted, link⟩

/-- The parent of a child is the only listed shard that the child names. -/
theorem named_parent_eq (distinct : (shards.map Shard.id).Nodup) {parent named : Shard}
    (listed : parent ∈ shards) (link : (ofShards shards).IsChild parent shard)
    (namedListed : named ∈ shards) (names : shard.parent = some named.id) : named = parent := by
  have parentNamed := (isChild_iff.mp link).2.1
  rw [names] at parentNamed
  exact eq_of_id_eq distinct namedListed listed (Option.some.inj parentNamed)

/-- A root names no listed shard. -/
theorem not_named_of_root (root : shard ∈ (ofShards shards).roots) {named : Shard}
    (namedListed : named ∈ shards) : shard.parent ≠ some named.id :=
  (mem_roots.mp root).2 named namedListed

/-- A childless shard has nothing below it. -/
theorem not_strictlyBelow_of_childless {lineage : Lineage} {lower : Shard}
    (childless : lineage.children shard.id = []) : ¬ lineage.StrictlyBelow shard lower := by
  intro below
  obtain ⟨child, link, _⟩ := Relation.TransGen.head'_iff.mp below
  rw [IsChild, childless] at link
  exact List.not_mem_nil link

/-- Lists of the same shards have the same links. -/
theorem isChild_congr (same : ∀ shard, shard ∈ shuffled ↔ shard ∈ shards) :
    (ofShards shuffled).IsChild = (ofShards shards).IsChild := by
  funext parent child
  apply propext
  rw [isChild_iff, isChild_iff]
  simp only [same]

/-- Lists of the same shards have the same roots. -/
theorem mem_roots_congr (same : ∀ shard, shard ∈ shuffled ↔ shard ∈ shards) (root : Shard) :
    root ∈ (ofShards shuffled).roots ↔ root ∈ (ofShards shards).roots := by
  rw [mem_roots, mem_roots]
  simp only [same]

/-- Lists of the same shards have the same children. -/
theorem mem_children_congr (same : ∀ shard, shard ∈ shuffled ↔ shard ∈ shards) (id : ShardId)
    (child : Shard) :
    child ∈ (ofShards shuffled).children id ↔ child ∈ (ofShards shards).children id := by
  rw [mem_children, mem_children]
  simp only [same]

/-- Lists of the same shards have the same rooted shards. -/
theorem rooted_congr (same : ∀ shard, shard ∈ shuffled ↔ shard ∈ shards) (shard : Shard) :
    (ofShards shuffled).Rooted shard ↔ (ofShards shards).Rooted shard := by
  unfold Rooted Below
  rw [isChild_congr same]
  simp only [mem_roots_congr same]

end Lineage
end ShardedStream
