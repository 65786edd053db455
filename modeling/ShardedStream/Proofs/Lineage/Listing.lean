import ShardedStream.Proofs.Lineage.Depth

/-!
The walk with a stack against the recursive listing.
The stack takes the children of a shard in one go, so that the first of them is on top: the walk
then comes by the shards in the order in which a recursive listing names them. Without a circle in
its way the walk ends, and since no shard has two parents it comes by no shard twice.
-/

namespace ShardedStream
namespace Lineage

/--
The recursive listing of ids, one after the other, made without an index: first the shard itself,
then everything below it, child by child in the order of the shard list, and then the ids that are
left. An id without a shard names nothing.
-/
inductive Lists (shards : List Shard) : List ShardId → List Shard → Prop where
  | nothing : Lists shards [] []
  | shard {id : ShardId} {others : List ShardId} {below beside : List Shard}
      (children : Lists shards ((namingParent shards id).map Shard.id) below)
      (rest : Lists shards others beside) :
      Lists shards (id :: others)
        ((shards.find? fun shard => shard.id = id).toList ++ below ++ beside)

/-- On a way down from an id there is a shard that is its own ancestor. -/
def MeetsCycle (lineage : Lineage) (id : ShardId) : Prop :=
  ∃ top lower : Shard, top.id = id ∧ lineage.Below top lower ∧ lineage.StrictlyBelow lower lower

variable {shards : List Shard} {lineage : Lineage} {id : ShardId}

/-- Ids have one listing at most. -/
theorem Lists.unique {ids : List ShardId} {first second : List Shard}
    (lists : Lists shards ids first) (again : Lists shards ids second) : first = second := by
  induction lists generalizing second with
  | nothing =>
      cases again
      rfl
  | shard _ _ children rest =>
      cases again with
      | shard otherChildren otherRest => rw [children otherChildren, rest otherRest]

/-- With distinct ids a search finds each shard by its id. -/
theorem find?_of_listed (distinct : (shards.map Shard.id).Nodup) {shard : Shard}
    (listed : shard ∈ shards) : shards.find? (fun other => other.id = shard.id) = some shard := by
  cases found : shards.find? fun other => other.id = shard.id with
  | none => exact absurd (decide_eq_true rfl) (List.find?_eq_none.mp found shard listed)
  | some other =>
      have same := List.find?_some found
      rw [eq_of_id_eq distinct (List.mem_of_find?_eq_some found) listed (of_decide_eq_true same)]

/-- Where the lines of descent end there is a listing, and depth enough makes it. -/
theorem lists_preorder (distinct : (shards.map Shard.id).Nodup) (depth : Nat) (stack : List Shard)
    (ends : ∀ shard ∈ stack, (ofShards shards).EndsWithin depth shard)
    (listed : ∀ shard ∈ stack, shard ∈ shards) :
    Lists shards (stack.map Shard.id)
      (stack.flatMap ((ofShards shards).preorder depth)) := by
  induction depth generalizing stack with
  | zero =>
      cases stack with
      | nil => exact .nothing
      | cons shard stack => exact (ends shard List.mem_cons_self).elim
  | succ depth inductionHypothesis =>
      induction stack with
      | nil => exact .nothing
      | cons shard stack rest =>
          have found := find?_of_listed distinct (listed shard List.mem_cons_self)
          have children := inductionHypothesis ((ofShards shards).children shard.id)
            (ends shard List.mem_cons_self) fun _ link => (isChild_iff.mp link).1
          have others := rest (fun other member => ends other (List.mem_cons_of_mem _ member))
            fun other member => listed other (List.mem_cons_of_mem _ member)
          rw [children_eq_namingParent] at children
          have all := Lists.shard children others
          rw [found, ← children_eq_namingParent] at all
          exact all

/-- Where the lines of descent end no circle is met. -/
theorem EndsWithin.not_meetsCycle {depth : Nat} {shard : Shard}
    (ends : lineage.EndsWithin depth shard) : ¬ lineage.MeetsCycle shard.id := by
  rintro ⟨top, lower, same, below, around⟩
  -- The shards below depend on the id alone, so the circle is met from this shard as well.
  have under : lineage.StrictlyBelow shard lower := by
    rcases Relation.ReflTransGen.cases_head below with rfl | ⟨child, link, rest⟩
    · obtain ⟨child, link, back⟩ := Relation.TransGen.head'_iff.mp around
      exact .head' (by rwa [IsChild, ← same]) back
    · exact .head' (by rwa [IsChild, ← same]) rest
  exact (ends.below under.to_reflTransGen).not_around around

/--
The walk from an id comes to its end, and it finds the childless shards of the recursive listing, in
the order of the listing. The listing holds the shards at and below the id, so the walk finds every
childless shard of them, each once.
-/
structure WalksListing (shards : List Shard) (id : ShardId) (listing : List Shard) : Prop where
  recursive : ∀ other, Lists shards [id] other ↔ other = listing
  subtree : ∀ shard, shard ∈ listing ↔
    ∃ top ∈ shards, top.id = id ∧ (ofShards shards).Below top shard
  ends : ∃ turns ≤ shards.length + 1,
    (ofShards shards).WalksTips turns [id] [] ((ofShards shards).tipsBelow id)
  ordered : (ofShards shards).tipsBelow id =
    listing.filter fun shard => namingParent shards shard.id = []
  once : ((ofShards shards).tipsBelow id).Nodup
  tips : ∀ tip, tip ∈ (ofShards shards).tipsBelow id ↔
    (∃ top ∈ shards, top.id = id ∧ (ofShards shards).Below top tip) ∧
      namingParent shards tip.id = []

/-- The walk below a listed shard is a walk along its listing. -/
theorem EndsWithin.walksListing (distinct : (shards.map Shard.id).Nodup) {shard : Shard}
    (listed : shard ∈ shards) (ends : (ofShards shards).EndsWithin shards.length shard) :
    WalksListing shards shard.id ((ofShards shards).preorder shards.length shard) := by
  have short := ends.length_preorder_le_of_distinct distinct listed
  have room : shards.length < Nat.pow 2 shards.length := Nat.lt_two_pow_self
  have lists := lists_preorder distinct shards.length [shard]
    (fun other member => by rwa [List.mem_singleton.mp member])
    (fun other member => by rwa [List.mem_singleton.mp member])
  rw [List.map_cons, List.map_nil, List.flatMap_singleton] at lists
  have only : ∀ other : Shard, (∃ top ∈ shards, top.id = shard.id ∧
      (ofShards shards).Below top other) ↔ (ofShards shards).Below shard other := by
    intro other
    constructor
    · rintro ⟨top, topListed, same, below⟩
      rwa [eq_of_id_eq distinct topListed listed same] at below
    · exact fun below => ⟨shard, listed, rfl, below⟩
  have found := ends.tipsBelow_eq distinct listed
  simp only [children_eq_namingParent] at found
  refine ⟨fun other => ⟨fun again => again.unique lists, fun same => same ▸ lists⟩,
    fun other => ?_, ⟨_, short.trans (Nat.le_succ _), ends.walksTips
      ((short.trans room.le).trans_lt (Nat.lt_succ_self _))⟩, found, ?_, fun tip => ?_⟩
  · rw [only, mem_preorder ends]
  · rw [found]
    exact (ends.nodup_preorder distinct).filter _
  · rw [found, List.mem_filter, mem_preorder ends, decide_eq_true_eq, only]

/-- An id without a shard has nothing below it. -/
theorem walksListing_unknown (unknown : id ∉ shards.map Shard.id) :
    WalksListing shards id [] := by
  have absent : ∀ top ∈ shards, top.id ≠ id :=
    fun top listed same => unknown (same ▸ List.mem_map_of_mem listed)
  have answers : (ofShards shards).get? id = none := by
    rw [get?_ofShards, List.getLast?_eq_none_iff, List.filter_eq_nil_iff]
    exact fun top listed same => absent top listed (of_decide_eq_true same)
  have childless : namingParent shards id = [] := if_neg unknown
  have leaf : (ofShards shards).isParent id = false := by
    rw [← Bool.not_eq_true, isParent_ofShards, children_eq_namingParent, childless]
    exact fun parent => parent rfl
  have walks : (ofShards shards).WalksTips 1 [id] [] [] := .leaf leaf (by
    rw [answers]
    exact .ended [])
  have found : (ofShards shards).tipsBelow id = [] :=
    walks.walkTips_eq (Nat.le_add_left 1 _)
  have lists : Lists shards [id] [] := by
    have missed : shards.find? (fun shard => shard.id = id) = none :=
      List.find?_eq_none.mpr fun top listed same => absent top listed (of_decide_eq_true same)
    have all : Lists shards [id] ((shards.find? fun shard => shard.id = id).toList ++ [] ++ []) :=
      .shard (by rw [childless]; exact .nothing) .nothing
    rwa [missed] at all
  refine ⟨fun other => ⟨fun again => again.unique lists, fun same => same ▸ lists⟩,
    fun other => ⟨fun member => absurd member List.not_mem_nil, ?_⟩,
    ⟨1, Nat.le_add_left 1 _, found.symm ▸ walks⟩, found, ?_, fun tip => ⟨fun member => ?_, ?_⟩⟩
  · rintro ⟨top, listed, same, _⟩
    exact absurd same (absent top listed)
  · rw [found]
    exact List.nodup_nil
  · rw [found] at member
    cases member
  · rintro ⟨⟨top, listed, same, _⟩, _⟩
    exact absurd same (absent top listed)

/--
With distinct ids, and from every id from which no circle of parents is met, the walk with a stack
finds what the recursive listing holds: the childless shards at and below the id, each once, in the
order of the listing. A childless shard is all that is found from its own id, and nothing is found
from an id that no shard has.
-/
theorem walk_follows_listing (distinct : (shards.map Shard.id).Nodup)
    (straight : ¬ (ofShards shards).MeetsCycle id) :
    (∃ listing, WalksListing shards id listing) ∧
      (∀ shard ∈ shards, shard.id = id → namingParent shards id = [] →
        (ofShards shards).tipsBelow id = [shard]) ∧
      (id ∉ shards.map Shard.id → (ofShards shards).tipsBelow id = []) := by
  refine ⟨?_, ?_, fun unknown => (walksListing_unknown unknown).ordered⟩
  · by_cases known : id ∈ shards.map Shard.id
    · obtain ⟨shard, listed, rfl⟩ := List.mem_map.mp known
      have ends := endsWithin_of_straight listed
        fun lower below around => straight ⟨shard, lower, rfl, below, around⟩
      exact ⟨_, ends.walksListing distinct listed⟩
    · exact ⟨[], walksListing_unknown known⟩
  · rintro shard listed rfl childless
    have ends := endsWithin_of_straight listed
      fun lower below around => straight ⟨shard, lower, rfl, below, around⟩
    rw [← children_eq_namingParent] at childless
    rw [ends.tipsBelow_eq distinct listed, preorder_eq ends, childless, List.flatMap_nil,
      List.filter_singleton, childless]
    rfl

/-- The parents of the shards "X" and "Y" go round in a circle, and the others are below it. -/
def circled : List Shard :=
  [⟨"D", some "C", "400", none⟩, ⟨"X", some "Y", "10", none⟩, ⟨"C", some "A", "300", some "399"⟩,
    ⟨"A", some "X", "100", some "199"⟩, ⟨"Y", some "X", "20", none⟩, ⟨"B", some "A", "200", none⟩]

/-- From below the circle the walk ends: the listing is "A", "C", "D", "B". -/
theorem circled_follows_listing :
    (circled.map Shard.id).Nodup ∧ ¬ (ofShards circled).MeetsCycle "A" ∧
      (ofShards circled).MeetsCycle "Y" ∧
      (∃ listing, WalksListing circled "A" listing) ∧
      (ofShards circled).tipsBelow "A" = [circled[0], circled[5]] ∧
      (ofShards circled).tipsBelow "B" = [circled[5]] ∧
      (ofShards circled).tipsBelow "gone" = [] := by
  have distinct : (circled.map Shard.id).Nodup := by decide
  have straight : ∀ shard ∈ [circled[3], circled[5], ⟨"gone", none, "", none⟩],
      ¬ (ofShards circled).MeetsCycle shard.id := by
    intro shard member
    have ends : ∀ shard ∈ [circled[3], circled[5], ⟨"gone", none, "", none⟩],
        (ofShards circled).EndsWithin 3 shard := by decide
    exact (ends shard member).not_meetsCycle
  have link : ∀ {parent child : Shard}, child ∈ (ofShards circled).children parent.id →
      (ofShards circled).IsChild parent child := id
  have around : (ofShards circled).StrictlyBelow circled[4] circled[4] :=
    .tail (.single (link (by decide : circled[1] ∈ _))) (link (by decide))
  have below := walk_follows_listing distinct (straight circled[3] (by decide))
  have tip := walk_follows_listing distinct (straight circled[5] (by decide))
  have unknown := walk_follows_listing distinct (straight ⟨"gone", none, "", none⟩ (by decide))
  exact ⟨distinct, straight circled[3] (by decide), ⟨circled[4], circled[4], rfl, .refl, around⟩,
    below.1, by decide, tip.2.1 circled[5] (by decide) rfl (by decide), unknown.2.2 (by decide)⟩

end Lineage
end ShardedStream
