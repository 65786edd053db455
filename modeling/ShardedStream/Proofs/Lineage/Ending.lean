import ShardedStream.Proofs.Lineage.Tips

/-!
Walks down a lineage come to their end.
Parent names may be missing, name the shard itself or go round in a circle. But with distinct ids no
root reaches a circle, so the lines of descent from a root are no longer than the list, and the walk
with a stack takes no more turns than there are shards.
-/

namespace ShardedStream
namespace Lineage

/-- The parents of a shard, one after the other, run into a circle. -/
def RunsIntoCycle (lineage : Lineage) (shard : Shard) : Prop :=
  ∃ upper, lineage.Below upper shard ∧ lineage.StrictlyBelow upper upper

/--
The walk with a stack comes to its end after so many turns, and this is what it has found then. No
end is set to it from outside.
-/
inductive WalksTips (lineage : Lineage) : Nat → List ShardId → List Shard → List Shard → Prop where
  | ended (leaves : List Shard) : WalksTips lineage 0 [] leaves leaves
  | parent {turns : Nat} {id : ShardId} {stack : List ShardId} {leaves found : List Shard}
      (parent : lineage.isParent id = true)
      (rest : WalksTips lineage turns ((lineage.children id).map Shard.id ++ stack) leaves found) :
      WalksTips lineage (turns + 1) (id :: stack) leaves found
  | leaf {turns : Nat} {id : ShardId} {stack : List ShardId} {leaves found : List Shard}
      (childless : lineage.isParent id = false)
      (rest : WalksTips lineage turns stack (leaves ++ (lineage.get? id).toList) found) :
      WalksTips lineage (turns + 1) (id :: stack) leaves found

variable {shards : List Shard} {lineage : Lineage}

/-- What is above a rooted shard is rooted. -/
theorem Rooted.above (distinct : (shards.map Shard.id).Nodup) {upper shard : Shard}
    (rooted : (ofShards shards).Rooted shard) (listed : upper ∈ shards)
    (below : (ofShards shards).Below upper shard) : (ofShards shards).Rooted upper := by
  obtain ⟨root, member, reached⟩ := rooted
  rcases below_total distinct (mem_roots.mp member).1 listed reached below with down | up
  · exact ⟨root, member, down⟩
  · rcases Relation.ReflTransGen.cases_tail up with rfl | ⟨parent, _, link⟩
    · exact ⟨root, member, .refl⟩
    · exact absurd link (not_isChild_root member)

/-- No root reaches a shard whose parents run into a circle. -/
theorem RunsIntoCycle.not_rooted (distinct : (shards.map Shard.id).Nodup) {shard : Shard}
    (circular : (ofShards shards).RunsIntoCycle shard) : ¬ (ofShards shards).Rooted shard := by
  intro rooted
  obtain ⟨upper, below, around⟩ := circular
  obtain ⟨_, _, last⟩ := Relation.TransGen.tail'_iff.mp around
  obtain ⟨child, link, back⟩ := Relation.TransGen.head'_iff.mp around
  obtain ⟨way, up⟩ := (rooted.above distinct (isChild_iff.mp last).1 below).ascent
  exact up.not_below_child distinct link back

/-- A chain of children is no longer than the depth below its first shard. -/
theorem EndsWithin.length_le {depth : Nat} {shard : Shard} {chain : List Shard}
    (ends : lineage.EndsWithin depth shard) (links : (shard :: chain).IsChain lineage.IsChild) :
    (shard :: chain).length ≤ depth := by
  induction depth generalizing shard chain with
  | zero => exact ends.elim
  | succ depth inductionHypothesis =>
      cases chain with
      | nil => exact Nat.succ_le_succ (Nat.zero_le depth)
      | cons child chain =>
          obtain ⟨link, rest⟩ := List.isChain_cons_cons.mp links
          exact Nat.succ_le_succ (inductionHypothesis (ends child link) rest)

/-- A walk with fuel enough finds what the walk finds. -/
theorem WalksTips.walkTips_eq {turns : Nat} {stack : List ShardId} {leaves found : List Shard}
    (walks : lineage.WalksTips turns stack leaves found) {fuel : Nat} (enough : turns ≤ fuel) :
    lineage.walkTips fuel stack leaves = found := by
  induction walks generalizing fuel with
  | ended leaves => cases fuel <;> rfl
  | parent parent rest inductionHypothesis =>
      obtain ⟨fuel, rfl⟩ := Nat.exists_eq_add_of_le' (Nat.one_le_of_lt enough)
      rw [walkTips, if_pos parent]
      exact inductionHypothesis (Nat.le_of_succ_le_succ enough)
  | leaf childless rest inductionHypothesis =>
      obtain ⟨fuel, rfl⟩ := Nat.exists_eq_add_of_le' (Nat.one_le_of_lt enough)
      rw [walkTips, if_neg (by rw [childless]; exact Bool.false_ne_true)]
      exact inductionHypothesis (Nat.le_of_succ_le_succ enough)

/-- The walk takes one turn for every shard in the listings of its stack. -/
theorem exists_walksTips (depth turns : Nat) (stack leaves : List Shard)
    (ends : ∀ shard ∈ stack, (ofShards shards).EndsWithin depth shard)
    (count : (stack.flatMap ((ofShards shards).preorder depth)).length = turns) :
    ∃ found, (ofShards shards).WalksTips turns (stack.map Shard.id) leaves found := by
  induction turns generalizing stack leaves with
  | zero =>
      cases stack with
      | nil => exact ⟨leaves, .ended leaves⟩
      | cons shard stack =>
          rw [List.flatMap_cons, preorder_eq (ends shard List.mem_cons_self)] at count
          exact absurd count (Nat.succ_ne_zero _)
  | succ turns inductionHypothesis =>
      cases stack with
      | nil => exact absurd count.symm (Nat.succ_ne_zero turns)
      | cons shard stack =>
          have here := ends shard List.mem_cons_self
          have others : ∀ other ∈ stack, (ofShards shards).EndsWithin depth other :=
            fun other member => ends other (List.mem_cons_of_mem _ member)
          rw [List.flatMap_cons, preorder_eq here, List.cons_append, List.length_cons,
            ← List.flatMap_append] at count
          have left := Nat.succ.inj count
          rw [List.map_cons]
          cases parent : (ofShards shards).isParent shard.id with
          | true =>
              obtain ⟨found, walks⟩ := inductionHypothesis
                ((ofShards shards).children shard.id ++ stack) leaves
                (fun other member => (List.mem_append.mp member).elim here.child (others other))
                left
              rw [List.map_append] at walks
              exact ⟨found, .parent parent walks⟩
          | false =>
              have childless : (ofShards shards).children shard.id = [] := by
                by_contra children
                rw [(isParent_ofShards shards shard.id).mpr children] at parent
                cases parent
              rw [childless, List.nil_append] at left
              obtain ⟨found, walks⟩ := inductionHypothesis stack
                (leaves ++ ((ofShards shards).get? shard.id).toList) others left
              exact ⟨found, .leaf parent walks⟩

/-- Where the lines of descent end, the walk within its bound is the walk, if there are turns for
the whole listing. -/
theorem EndsWithin.walksTips {depth : Nat} {shard : Shard}
    (ends : (ofShards shards).EndsWithin depth shard)
    (short : ((ofShards shards).preorder depth shard).length < (ofShards shards).walkBound) :
    (ofShards shards).WalksTips ((ofShards shards).preorder depth shard).length [shard.id] []
      ((ofShards shards).tipsBelow shard.id) := by
  obtain ⟨found, walks⟩ := exists_walksTips depth _ [shard] []
    (fun other member => by rwa [List.mem_singleton.mp member]) rfl
  rw [List.flatMap_singleton] at walks
  rw [tipsBelow, show [shard.id] = [shard].map Shard.id from rfl, walks.walkTips_eq short.le]
  exact walks

/-- From a rooted shard the walk ends, with no more turns than there are shards. -/
theorem Rooted.walksTips (distinct : (shards.map Shard.id).Nodup) {shard : Shard}
    (rooted : (ofShards shards).Rooted shard) :
    ∃ turns ≤ shards.length, (ofShards shards).WalksTips turns [shard.id] []
      ((ofShards shards).tipsBelow shard.id) := by
  have ends := rooted.endsWithin distinct
  have short := ends.length_preorder_le_of_distinct distinct (listed_of_rooted rooted)
  have room : shards.length < Nat.pow 2 shards.length := Nat.lt_two_pow_self
  exact ⟨_, short, ends.walksTips ((short.trans room.le).trans_lt (Nat.lt_succ_self _))⟩

end Lineage
end ShardedStream
