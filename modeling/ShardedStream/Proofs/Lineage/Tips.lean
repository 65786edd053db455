import Mathlib.Data.List.Nodup
import ShardedStream.Proofs.Lineage.Descent

/-!
The childless shards below a root.
The walk with a stack visits the shards below a root in the order of the recursive listing, and the
listing repeats no shard, so the walk has turns enough.
-/

namespace ShardedStream
namespace Lineage

/-- The shards below a shard, every shard before its children. -/
def preorder (lineage : Lineage) : Nat → Shard → List Shard
  | 0, _ => []
  | depth + 1, shard => shard :: (lineage.children shard.id).flatMap (lineage.preorder depth)

variable {shards : List Shard}

/-- More depth than a line of descent needs changes nothing. -/
theorem EndsWithin.mono {lineage : Lineage} {depth : Nat} {shard : Shard}
    (ends : lineage.EndsWithin depth shard) : lineage.EndsWithin (depth + 1) shard := by
  induction depth generalizing shard with
  | zero => exact ends.elim
  | succ depth inductionHypothesis => exact fun child link => inductionHypothesis (ends child link)

theorem EndsWithin.child {lineage : Lineage} {depth : Nat} {parent child : Shard}
    (ends : lineage.EndsWithin depth parent) (link : lineage.IsChild parent child) :
    lineage.EndsWithin depth child := by
  cases depth with
  | zero => exact ends.elim
  | succ depth => exact (ends child link).mono

/-- Below a shard whose lines of descent end they end too. -/
theorem EndsWithin.below {lineage : Lineage} {depth : Nat} {shard other : Shard}
    (ends : lineage.EndsWithin depth shard) (below : lineage.Below shard other) :
    lineage.EndsWithin depth other := by
  induction below with
  | refl => exact ends
  | tail _ link inductionHypothesis => exact inductionHypothesis.child link

/-- A shard whose lines of descent end is not below itself. -/
theorem EndsWithin.not_around {lineage : Lineage} {depth : Nat} {shard : Shard}
    (ends : lineage.EndsWithin depth shard) : ¬ lineage.StrictlyBelow shard shard := by
  induction depth generalizing shard with
  | zero => exact ends.elim
  | succ depth inductionHypothesis =>
      intro around
      obtain ⟨child, link, back⟩ := Relation.TransGen.head'_iff.mp around
      exact inductionHypothesis (ends child link) (Relation.TransGen.tail' back link)

/-- The listing does not depend on the depth once every line of descent has ended. -/
theorem preorder_succ {lineage : Lineage} {depth : Nat} {shard : Shard}
    (ends : lineage.EndsWithin depth shard) :
    lineage.preorder (depth + 1) shard = lineage.preorder depth shard := by
  induction depth generalizing shard with
  | zero => exact ends.elim
  | succ depth inductionHypothesis =>
      rw [preorder, preorder]
      congr 1
      exact List.flatMap_congr fun child link => inductionHypothesis (ends child link)

/-- The listing of a shard is the shard and the listings of its children. -/
theorem preorder_eq {lineage : Lineage} {depth : Nat} {shard : Shard}
    (ends : lineage.EndsWithin depth shard) :
    lineage.preorder depth shard =
      shard :: (lineage.children shard.id).flatMap (lineage.preorder depth) := by
  rw [← preorder_succ ends, preorder]

/-- The listing holds exactly the shards below. -/
theorem mem_preorder {lineage : Lineage} {depth : Nat} {shard other : Shard}
    (ends : lineage.EndsWithin depth shard) :
    other ∈ lineage.preorder depth shard ↔ lineage.Below shard other := by
  induction depth generalizing shard with
  | zero => exact ends.elim
  | succ depth inductionHypothesis =>
      rw [preorder, List.mem_cons, List.mem_flatMap]
      constructor
      · rintro (rfl | ⟨child, link, here⟩)
        · exact .refl
        · exact .head link ((inductionHypothesis (ends child link)).mp here)
      · intro below
        rcases Relation.ReflTransGen.cases_head below with rfl | ⟨child, link, rest⟩
        · exact .inl rfl
        · exact .inr ⟨child, link, (inductionHypothesis (ends child link)).mpr rest⟩

/-- The way up from below runs through the shard above. -/
theorem Ascent.extend {lineage : Lineage} {top shard : Shard} {way : List Shard}
    (up : lineage.Ascent top way) (below : lineage.Below top shard) :
    ∃ longer, lineage.Ascent shard (longer ++ way) := by
  induction below with
  | refl => exact ⟨[], up⟩
  | tail _ link inductionHypothesis =>
      obtain ⟨longer, further⟩ := inductionHypothesis
      exact ⟨_ :: longer, .child further link⟩

/-- Siblings share no shard below them. -/
theorem EndsWithin.sibling_eq (distinct : (shards.map Shard.id).Nodup) {depth : Nat}
    {parent first second lower : Shard} (ends : (ofShards shards).EndsWithin depth parent)
    (firstLink : (ofShards shards).IsChild parent first)
    (secondLink : (ofShards shards).IsChild parent second)
    (belowFirst : (ofShards shards).Below first lower)
    (belowSecond : (ofShards shards).Below second lower) : first = second := by
  -- Of the two siblings one would be below the other, and then the parent is below itself.
  have apart : ∀ {upper other : Shard}, (ofShards shards).IsChild parent upper →
      (ofShards shards).IsChild parent other → (ofShards shards).Below upper other →
        upper = other := by
    intro upper other upperLink otherLink below
    rcases Relation.ReflTransGen.cases_tail below with same | ⟨between, down, last⟩
    · exact same.symm
    · have named := (isChild_iff.mp last).2.1
      rw [(isChild_iff.mp otherLink).2.1] at named
      have again : (ofShards shards).IsChild between upper := by
        rw [IsChild, ← Option.some.inj named]
        exact upperLink
      exact absurd (Relation.TransGen.head' again down)
        ((ends.child upperLink).below down).not_around
  rcases below_total distinct (isChild_iff.mp firstLink).1 (isChild_iff.mp secondLink).1 belowFirst
    belowSecond with down | up
  · exact apart firstLink secondLink down
  · exact (apart secondLink firstLink up).symm

/-- No shard is below one of its children. -/
theorem Ascent.not_below_child (distinct : (shards.map Shard.id).Nodup)
    {parent child : Shard} {way : List Shard} (up : (ofShards shards).Ascent parent way)
    (link : (ofShards shards).IsChild parent child) :
    ¬ (ofShards shards).Below child parent := by
  intro below
  obtain ⟨longer, around⟩ := (Ascent.child up link).extend below
  have lengths := congrArg List.length (up.unique distinct around)
  rw [List.length_append, List.length_cons] at lengths
  omega

/-- The listing repeats no shard. -/
theorem EndsWithin.nodup_preorder (distinct : (shards.map Shard.id).Nodup) {depth : Nat}
    {shard : Shard} (ends : (ofShards shards).EndsWithin depth shard) :
    ((ofShards shards).preorder depth shard).Nodup := by
  induction depth generalizing shard with
  | zero => exact List.nodup_nil
  | succ depth inductionHypothesis =>
      have children : ((ofShards shards).children shard.id).Nodup := by
        rw [children_ofShards]
        exact distinct.of_map.filter _
      rw [preorder, List.nodup_cons, List.nodup_flatMap]
      refine ⟨fun here => ?_, fun child link => inductionHypothesis (ends child link),
        children.imp_of_mem fun firstLink secondLink different => ?_⟩
      · obtain ⟨child, link, below⟩ := List.mem_flatMap.mp here
        exact ends.not_around (.head' link ((mem_preorder (ends child link)).mp below))
      · intro other belowFirst belowSecond
        exact different (ends.sibling_eq distinct firstLink secondLink
          ((mem_preorder (ends _ firstLink)).mp belowFirst)
          ((mem_preorder (ends _ secondLink)).mp belowSecond))

/-- The listing is no longer than the list of shards. -/
theorem EndsWithin.length_preorder_le_of_distinct (distinct : (shards.map Shard.id).Nodup)
    {depth : Nat} {shard : Shard} (listed : shard ∈ shards)
    (ends : (ofShards shards).EndsWithin depth shard) :
    ((ofShards shards).preorder depth shard).length ≤ shards.length :=
  ((ends.nodup_preorder distinct).subperm fun _ here =>
    listed_of_below listed ((mem_preorder ends).mp here)).length_le

/-- The walk with a stack takes the childless shards from the listings of its stack. -/
theorem walkTips_eq (distinct : (shards.map Shard.id).Nodup) (depth turns : Nat)
    (stack leaves : List Shard)
    (ends : ∀ shard ∈ stack, (ofShards shards).EndsWithin depth shard)
    (listed : ∀ shard ∈ stack, shard ∈ shards)
    (enough : (stack.flatMap ((ofShards shards).preorder depth)).length < turns) :
    (ofShards shards).walkTips turns (stack.map Shard.id) leaves =
      leaves ++ (stack.flatMap ((ofShards shards).preorder depth)).filter
        fun shard => !(ofShards shards).isParent shard.id := by
  -- Every turn takes one shard off the listings of the stack, and there are turns for all of them.
  induction turns generalizing stack leaves with
  | zero => exact absurd enough (Nat.not_lt_zero _)
  | succ turns inductionHypothesis =>
      cases stack with
      | nil => simp [walkTips]
      | cons shard stack =>
          have here := ends shard List.mem_cons_self
          have others : ∀ other ∈ stack, (ofShards shards).EndsWithin depth other :=
            fun other member => ends other (List.mem_cons_of_mem _ member)
          have othersListed : ∀ other ∈ stack, other ∈ shards :=
            fun other member => listed other (List.mem_cons_of_mem _ member)
          rw [List.flatMap_cons, preorder_eq here, List.cons_append, List.length_cons,
            ← List.flatMap_append] at enough
          rw [List.flatMap_cons, preorder_eq here, List.map_cons, walkTips, List.cons_append,
            List.filter_cons, ← List.flatMap_append]
          by_cases parent : (ofShards shards).isParent shard.id
          · rw [if_pos parent, if_neg (by simp [parent]), ← List.map_append]
            refine inductionHypothesis _ _ (fun other member => ?_) (fun other member => ?_)
              (by omega)
            · rcases List.mem_append.mp member with link | old
              · exact here.child link
              · exact others other old
            · rcases List.mem_append.mp member with link | old
              · exact (isChild_iff.mp link).1
              · exact othersListed other old
          · have childless : (ofShards shards).children shard.id = [] :=
              Decidable.not_not.mp fun children =>
                parent ((isParent_ofShards shards shard.id).mpr children)
            have answers : (ofShards shards).get? shard.id = some shard :=
              (get?_eq_some_iff distinct _ _).mpr ⟨listed shard List.mem_cons_self, rfl⟩
            rw [childless, List.nil_append] at enough
            rw [if_neg parent, if_pos (by simp [parent]), childless, List.nil_append, answers,
              inductionHypothesis stack _ others othersListed (by omega)]
            simp

/-- Where the lines of descent end, the walk takes the childless shards from the listing. -/
theorem EndsWithin.tipsBelow_eq (distinct : (shards.map Shard.id).Nodup) {shard : Shard}
    (listed : shard ∈ shards) (ends : (ofShards shards).EndsWithin shards.length shard) :
    (ofShards shards).tipsBelow shard.id =
      ((ofShards shards).preorder shards.length shard).filter
        fun shard => (ofShards shards).children shard.id = [] := by
  have walked := walkTips_eq distinct shards.length (ofShards shards).walkBound [shard] []
    (fun other member => by rwa [List.mem_singleton.mp member])
    (fun other member => by rwa [List.mem_singleton.mp member])
    (by
      rw [List.flatMap_singleton]
      have short := ends.length_preorder_le_of_distinct distinct listed
      have room : shards.length < Nat.pow 2 shards.length := Nat.lt_two_pow_self
      change _ < Nat.pow 2 shards.length + 1
      omega)
  rw [List.flatMap_singleton, List.nil_append, List.map_cons, List.map_nil] at walked
  rw [tipsBelow, walked]
  refine List.filter_congr fun other _ => ?_
  rw [Bool.eq_iff_iff, Bool.not_eq_true', ← Bool.not_eq_true, isParent_ofShards, ne_eq,
    Decidable.not_not, decide_eq_true_eq]

/-- The walk finds exactly the childless shards below a rooted shard. -/
theorem mem_tipsBelow (distinct : (shards.map Shard.id).Nodup) {shard tip : Shard}
    (rooted : (ofShards shards).Rooted shard) :
    tip ∈ (ofShards shards).tipsBelow shard.id ↔
      (ofShards shards).Below shard tip ∧ (ofShards shards).children tip.id = [] := by
  have ends := rooted.endsWithin distinct
  rw [ends.tipsBelow_eq distinct (listed_of_rooted rooted), List.mem_filter, mem_preorder ends,
    decide_eq_true_eq]

end Lineage
end ShardedStream
