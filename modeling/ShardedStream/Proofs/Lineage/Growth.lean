import ShardedStream.Proofs.Lineage.Descent

/-!
Descriptions that grow.
A later description of a stream keeps the shards of an earlier one below their parents and puts no
new parent above them, so a line of descent that once has been described never changes upwards.
-/

namespace ShardedStream
namespace Lineage

/-- One name is the parent of another in a list of shards. -/
def ParentOf (shards : List Shard) (upper lower : ShardId) : Prop :=
  ∃ child ∈ (ofShards shards).children upper, child.id = lower

/-- One name is a proper ancestor of another in a list of shards. -/
def AncestorOf (shards : List Shard) : ShardId → ShardId → Prop :=
  Relation.TransGen (ParentOf shards)

/-- A later description keeps every shard below its parent, and adds no parent of such a shard. -/
structure Grows (earlier later : List Shard) : Prop where
  keeps : ∀ shard ∈ earlier, ∃ kept ∈ later, kept.id = shard.id ∧ kept.parent = shard.parent
  adds : ∀ added ∈ later, added.id ∉ earlier.map Shard.id →
    ∀ shard ∈ earlier, shard.parent ≠ some added.id

/-- Every description is acyclic with distinct names, and each later one grows from the others. -/
structure Growing (descriptions : List (List Shard)) : Prop where
  distinct : ∀ shards ∈ descriptions, (shards.map Shard.id).Nodup
  acyclic : ∀ shards ∈ descriptions, (ofShards shards).Acyclic
  grows : descriptions.Pairwise Grows

variable {shards earlier later : List Shard} {upper lower : ShardId}

/-- Ancestors by name are ancestors. -/
theorem ancestorOf_of_strictlyBelow {top shard : Shard}
    (below : (ofShards shards).StrictlyBelow top shard) : AncestorOf shards top.id shard.id :=
  Relation.TransGen.lift (p := ParentOf shards) Shard.id (fun _ child link => ⟨child, link, rfl⟩)
    _ _ below

/-- A shard with the name of an ancestor is an ancestor. -/
theorem exists_strictlyBelow {top : Shard} (ancestor : AncestorOf shards top.id lower) :
    ∃ shard, (ofShards shards).StrictlyBelow top shard ∧ shard.id = lower := by
  induction ancestor with
  | single link =>
      obtain ⟨child, link, same⟩ := link
      exact ⟨child, .single link, same⟩
  | tail _ link inductionHypothesis =>
      obtain ⟨parent, below, rfl⟩ := inductionHypothesis
      obtain ⟨child, link, same⟩ := link
      exact ⟨child, below.tail link, same⟩

theorem ParentOf.listed (parent : ParentOf shards upper lower) :
    upper ∈ shards.map Shard.id ∧ lower ∈ shards.map Shard.id := by
  obtain ⟨child, link, rfl⟩ := parent
  obtain ⟨listed, _, known, knownListed, rfl⟩ := mem_children.mp link
  exact ⟨List.mem_map_of_mem knownListed, List.mem_map_of_mem listed⟩

/-- Both names are those of listed shards. -/
theorem AncestorOf.listed (ancestor : AncestorOf shards upper lower) :
    upper ∈ shards.map Shard.id ∧ lower ∈ shards.map Shard.id := by
  refine ⟨?_, ?_⟩
  · obtain ⟨_, first, _⟩ := Relation.TransGen.head'_iff.mp ancestor
    exact first.listed.1
  · obtain ⟨_, _, last⟩ := Relation.TransGen.tail'_iff.mp ancestor
    exact last.listed.2

/-- No name is its own ancestor in an acyclic list. -/
theorem Acyclic.not_ancestorOf_self (acyclic : (ofShards shards).Acyclic)
    (distinct : (shards.map Shard.id).Nodup) : ¬ AncestorOf shards upper upper := by
  intro around
  obtain ⟨top, listed, rfl⟩ := List.mem_map.mp around.listed.1
  obtain ⟨shard, below, same⟩ := exists_strictlyBelow around
  rw [eq_of_id_eq distinct (listed_of_below listed below.to_reflTransGen) listed same] at below
  exact acyclic top below

/-- A name has only one parent. -/
theorem ParentOf.unique (distinct : (shards.map Shard.id).Nodup) {other : ShardId}
    (first : ParentOf shards upper lower) (second : ParentOf shards other lower) :
    upper = other := by
  obtain ⟨child, link, rfl⟩ := first
  obtain ⟨twin, twinLink, same⟩ := second
  obtain ⟨listed, named, _⟩ := mem_children.mp link
  obtain ⟨twinListed, twinNamed, _⟩ := mem_children.mp twinLink
  rw [eq_of_id_eq distinct twinListed listed same, named] at twinNamed
  exact Option.some.inj twinNamed

/-- Of two ancestors of one name one is the other, or an ancestor of the other. -/
theorem AncestorOf.total (distinct : (shards.map Shard.id).Nodup) {other : ShardId}
    (first : AncestorOf shards upper lower) (second : AncestorOf shards other lower) :
    upper = other ∨ AncestorOf shards upper other ∨ AncestorOf shards other upper := by
  induction first with
  | single link =>
      obtain ⟨parent, above, last⟩ := Relation.TransGen.tail'_iff.mp second
      rw [last.unique distinct link] at above
      rcases Relation.reflTransGen_iff_eq_or_transGen.mp above with same | further
      · exact .inl same
      · exact .inr (.inr further)
  | tail further link inductionHypothesis =>
      obtain ⟨parent, above, last⟩ := Relation.TransGen.tail'_iff.mp second
      rw [last.unique distinct link] at above
      rcases Relation.reflTransGen_iff_eq_or_transGen.mp above with rfl | higher
      · exact .inr (.inl further)
      · exact inductionHypothesis higher

namespace Grows

theorem listed (grows : Grows earlier later) {id : ShardId} (known : id ∈ earlier.map Shard.id) :
    id ∈ later.map Shard.id := by
  obtain ⟨shard, listed, rfl⟩ := List.mem_map.mp known
  obtain ⟨kept, keptListed, same, _⟩ := grows.keeps shard listed
  exact same ▸ List.mem_map_of_mem keptListed

/-- An old shard has the parent in a later description that it had in the earlier one. -/
theorem parentOf_iff (grows : Grows earlier later) (distinct : (later.map Shard.id).Nodup)
    (known : lower ∈ earlier.map Shard.id) :
    ParentOf later upper lower ↔ ParentOf earlier upper lower := by
  constructor
  · rintro ⟨child, link, rfl⟩
    obtain ⟨listed, named, parent, parentListed, rfl⟩ := mem_children.mp link
    obtain ⟨shard, shardListed, same⟩ := List.mem_map.mp known
    obtain ⟨kept, keptListed, keptSame, keptParent⟩ := grows.keeps shard shardListed
    rw [eq_of_id_eq distinct keptListed listed (keptSame.trans same), named] at keptParent
    have parentKnown : parent.id ∈ earlier.map Shard.id := by
      by_contra added
      exact grows.adds parent parentListed added shard shardListed keptParent.symm
    obtain ⟨old, oldListed, oldSame⟩ := List.mem_map.mp parentKnown
    exact ⟨shard, mem_children.mpr ⟨shardListed, keptParent.symm, old, oldListed, oldSame⟩, same⟩
  · rintro ⟨child, link, rfl⟩
    obtain ⟨listed, named, parent, parentListed, rfl⟩ := mem_children.mp link
    obtain ⟨kept, keptListed, keptSame, keptParent⟩ := grows.keeps child listed
    obtain ⟨above, aboveListed, aboveSame, _⟩ := grows.keeps parent parentListed
    exact ⟨kept, mem_children.mpr
      ⟨keptListed, keptParent.trans named, above, aboveListed, aboveSame⟩, keptSame⟩

/-- An old shard keeps its ancestors, and gets no other ones. -/
theorem ancestorOf_iff (grows : Grows earlier later) (distinct : (later.map Shard.id).Nodup)
    (known : lower ∈ earlier.map Shard.id) :
    AncestorOf later upper lower ↔ AncestorOf earlier upper lower := by
  constructor
  · intro ancestor
    induction ancestor with
    | single link => exact .single ((grows.parentOf_iff distinct known).mp link)
    | tail _ link inductionHypothesis =>
        have last := (grows.parentOf_iff distinct known).mp link
        exact (inductionHypothesis last.listed.1).tail last
  · intro ancestor
    induction ancestor with
    | single link => exact .single ((grows.parentOf_iff distinct known).mpr link)
    | tail _ link inductionHypothesis =>
        exact (inductionHypothesis link.listed.1).tail
          ((grows.parentOf_iff distinct known).mpr link)

end Grows

namespace Growing

variable {descriptions first : List (List Shard)}

theorem of_prefix (growing : Growing descriptions) (initial : first <+: descriptions) :
    Growing first where
  distinct := fun shards member => growing.distinct shards (initial.subset member)
  acyclic := fun shards member => growing.acyclic shards (initial.subset member)
  grows := growing.grows.sublist initial.sublist

/-- The ancestors of a described shard are the same in the last description. -/
theorem ancestorOf_last (growing : Growing (descriptions ++ [later]))
    (member : earlier ∈ descriptions ++ [later]) (known : lower ∈ earlier.map Shard.id) :
    AncestorOf later upper lower ↔ AncestorOf earlier upper lower := by
  rcases List.mem_append.mp member with before | last
  · have grows := (List.pairwise_append.mp growing.grows).2.2 earlier before later
      List.mem_cons_self
    exact grows.ancestorOf_iff
      (growing.distinct later (List.mem_append_right _ List.mem_cons_self)) known
  · rw [List.mem_singleton.mp last]

end Growing

end Lineage
end ShardedStream
