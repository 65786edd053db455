import Mathlib.Data.Finset.Powerset
import ShardedStream.Proofs.Lineage.Ending
import ShardedStream.Proofs.Lineage.Search

/-!
The fuel of a walk is enough whenever the walk ends.
Ids may repeat, so a shard can be below another in more ways than one, and roots may have circles
below them. But where the walk ends it has met no circle: a line of descent then visits no shard
twice, so it is no longer than the list, and its set of places determines it, so there are no more
lines than sets of places.
-/

namespace ShardedStream
namespace Lineage

variable {shards : List Shard} {lineage : Lineage}

/-- Where all chains of children are short the lines of descent end. -/
theorem endsWithin_of_length_le {depth : Nat} {shard : Shard}
    (short : ∀ chain, (shard :: chain).IsChain lineage.IsChild → (shard :: chain).length ≤ depth) :
    lineage.EndsWithin depth shard := by
  induction depth generalizing shard with
  | zero => exact absurd (short [] (.singleton shard)) (Nat.not_succ_le_zero _)
  | succ depth inductionHypothesis =>
      intro child link
      refine inductionHypothesis fun chain links => ?_
      have longer := short (child :: chain) (.cons_cons link links)
      exact Nat.le_of_succ_le_succ longer

/-- Where no circle is met a chain of children visits no shard twice. -/
theorem nodup_of_isChain {shard : Shard} {chain : List Shard}
    (straight : ∀ lower, lineage.Below shard lower → ¬ lineage.StrictlyBelow lower lower)
    (links : (shard :: chain).IsChain lineage.IsChild) :
    (shard :: chain).Nodup ∧ ∀ other ∈ chain, lineage.StrictlyBelow shard other := by
  have : IsTrans Shard lineage.StrictlyBelow := ⟨fun _ _ _ => Relation.TransGen.trans⟩
  have descends : (shard :: chain).Pairwise lineage.StrictlyBelow :=
    List.isChain_iff_pairwise.mp (links.imp fun _ _ link => Relation.TransGen.single link)
  have under : ∀ other ∈ chain, lineage.StrictlyBelow shard other :=
    fun other later => List.rel_of_pairwise_cons descends later
  refine ⟨descends.imp_of_mem fun {first second} member _ below same => ?_, under⟩
  rcases List.mem_cons.mp member with rfl | later
  · exact straight first .refl (same ▸ below)
  · exact straight first (under first later).to_reflTransGen (same ▸ below)

/-- Where no circle is met the lines of descent are no longer than the list. -/
theorem endsWithin_of_straight {shard : Shard} (listed : shard ∈ shards)
    (straight : ∀ lower, (ofShards shards).Below shard lower →
      ¬ (ofShards shards).StrictlyBelow lower lower) :
    (ofShards shards).EndsWithin shards.length shard := by
  refine endsWithin_of_length_le fun chain links => ?_
  obtain ⟨distinct, under⟩ := nodup_of_isChain straight links
  refine (distinct.subperm fun other member => ?_).length_le
  rcases List.mem_cons.mp member with rfl | later
  · exact listed
  · exact listed_of_below listed (under other later).to_reflTransGen

/-- Lines of descent that end are no longer than the list. -/
theorem EndsWithin.listed {depth : Nat} {shard : Shard} (listed : shard ∈ shards)
    (ends : (ofShards shards).EndsWithin depth shard) :
    (ofShards shards).EndsWithin shards.length shard :=
  endsWithin_of_straight listed fun _ below => (ends.below below).not_around

/-- The lines of descent from a shard, each as the places it visits below the shard. -/
def descents (lineage : Lineage) : Nat → ShardId → List (List Nat)
  | 0, _ => []
  | depth + 1, id =>
    [] :: (lineage.childPlaces.getD id []).flatMap fun place =>
      lineage.shards[place]?.toList.flatMap fun child =>
        (lineage.descents depth child.id).map (List.cons place)

/-- There is a line of descent for every shard in the listing. -/
theorem length_descents (depth : Nat) (shard : Shard) :
    (lineage.descents depth shard.id).length = (lineage.preorder depth shard).length := by
  induction depth generalizing shard with
  | zero => rfl
  | succ depth inductionHypothesis =>
      rw [descents, preorder, List.length_cons, List.length_cons, children, atPlaces,
        List.filterMap_eq_flatMap_toList, List.flatMap_assoc]
      congr 1
      rw [List.length_flatMap, List.length_flatMap]
      congr 1
      refine List.map_congr_left fun place _ => ?_
      cases lineage.shards[place]? with
      | none => rfl
      | some child =>
          simp only [Option.toList_some, List.flatMap_singleton, List.length_map]
          exact inductionHypothesis child

/-- A line of descent other than the empty one goes through a child. -/
theorem mem_descents_succ {depth : Nat} {id : ShardId} {line : List Nat} :
    line ∈ lineage.descents (depth + 1) id ↔
      line = [] ∨ ∃ place ∈ lineage.childPlaces.getD id [], ∃ child,
        lineage.shards[place]? = some child ∧
          ∃ rest ∈ lineage.descents depth child.id, place :: rest = line := by
  simp only [descents, List.mem_cons, List.mem_flatMap, Option.mem_toList, List.mem_map]

/-- No line of descent is listed twice. -/
theorem nodup_descents (depth : Nat) (id : ShardId) :
    ((ofShards shards).descents depth id).Nodup := by
  induction depth generalizing id with
  | zero => exact List.nodup_nil
  | succ depth inductionHypothesis =>
      rw [descents, List.nodup_cons, List.nodup_flatMap]
      refine ⟨fun here => ?_, fun place _ => ?_, ?_⟩
      · simp only [List.mem_flatMap, List.mem_map, List.cons_ne_nil, and_false,
          exists_false] at here
      · cases (ofShards shards).shards[place]? with
        | none => exact List.nodup_nil
        | some child =>
            rw [Option.toList_some, List.flatMap_singleton]
            exact (inductionHypothesis child.id).map List.cons_injective
      · rw [getD_childPlaces_ofShards]
        refine (nodup_placesOf _).imp fun {first second} apart line inFirst inSecond => apart ?_
        simp only [List.mem_flatMap, List.mem_map] at inFirst inSecond
        obtain ⟨_, _, _, _, rfl⟩ := inFirst
        obtain ⟨_, _, _, _, same⟩ := inSecond
        exact (List.cons.inj same).1.symm

/-- A shard is strictly below another one, and these are their places. -/
def Leads (shards : List Shard) (place other : Nat) : Prop :=
  ∃ upper lower, shards[place]? = some upper ∧ shards[other]? = some lower ∧
    (ofShards shards).StrictlyBelow upper lower

/-- The child at a place is one link below. -/
theorem isChild_of_mem_childPlaces {place : Nat} {shard child : Shard}
    (filed : place ∈ (ofShards shards).childPlaces.getD shard.id [])
    (found : shards[place]? = some child) : (ofShards shards).IsChild shard child :=
  List.mem_filterMap.mpr ⟨place, filed, found⟩

/-- The shards on a line of descent are below the shard it comes from. -/
theorem strictlyBelow_of_mem_descents {depth : Nat} {shard : Shard} {line : List Nat}
    (member : line ∈ (ofShards shards).descents depth shard.id) :
    ∀ place ∈ line, ∃ lower, shards[place]? = some lower ∧
      (ofShards shards).StrictlyBelow shard lower := by
  induction depth generalizing shard line with
  | zero => exact absurd member List.not_mem_nil
  | succ depth inductionHypothesis =>
      rcases mem_descents_succ.mp member with rfl | ⟨first, filed, child, found, rest, within, rfl⟩
      · exact fun _ absent => absurd absent List.not_mem_nil
      · have link := isChild_of_mem_childPlaces filed found
        intro place here
        rcases List.mem_cons.mp here with rfl | later
        · exact ⟨child, found, .single link⟩
        · obtain ⟨lower, lowerFound, below⟩ := inductionHypothesis within place later
          exact ⟨lower, lowerFound, .head link below⟩

/-- A line of descent goes down at every step. -/
theorem pairwise_leads {depth : Nat} {shard : Shard} {line : List Nat}
    (member : line ∈ (ofShards shards).descents depth shard.id) : line.Pairwise (Leads shards) := by
  induction depth generalizing shard line with
  | zero => exact absurd member List.not_mem_nil
  | succ depth inductionHypothesis =>
      rcases mem_descents_succ.mp member with rfl | ⟨first, -, child, found, rest, within, rfl⟩
      · exact .nil
      · refine .cons (fun place later => ?_) (inductionHypothesis within)
        obtain ⟨lower, lowerFound, below⟩ := strictlyBelow_of_mem_descents within place later
        exact ⟨child, lower, found, lowerFound, below⟩

/-- Where the lines of descent end no two places lead to each other. -/
theorem EndsWithin.leads_asymm {depth : Nat} {shard upper : Shard} {place other : Nat}
    (ends : (ofShards shards).EndsWithin depth shard) (found : shards[place]? = some upper)
    (under : (ofShards shards).StrictlyBelow shard upper) (there : Leads shards place other)
    (back : Leads shards other place) : False := by
  obtain ⟨first, second, firstFound, secondFound, down⟩ := there
  obtain ⟨third, fourth, thirdFound, fourthFound, up⟩ := back
  rw [found, Option.some.injEq] at firstFound fourthFound
  rw [secondFound, Option.some.injEq] at thirdFound
  subst firstFound fourthFound thirdFound
  exact (ends.below under.to_reflTransGen).not_around (down.trans up)

/-- A line of descent is determined by the set of its places. -/
theorem EndsWithin.descent_unique {depth : Nat} {shard : Shard}
    (ends : (ofShards shards).EndsWithin depth shard) {first second : List Nat}
    (firstMember : first ∈ (ofShards shards).descents depth shard.id)
    (secondMember : second ∈ (ofShards shards).descents depth shard.id)
    (same : first.toFinset = second.toFinset) : first = second := by
  have apart : ∀ line ∈ (ofShards shards).descents depth shard.id, line.Nodup := by
    intro line member
    refine (pairwise_leads member).imp_of_mem fun {place other} here _ leads equal => ?_
    obtain ⟨upper, found, under⟩ := strictlyBelow_of_mem_descents member place here
    exact ends.leads_asymm found under leads (equal ▸ leads)
  have perm : first.Perm second :=
    (List.perm_ext_iff_of_nodup (apart first firstMember) (apart second secondMember)).mpr
      fun place => by rw [← List.mem_toFinset, same, List.mem_toFinset]
  refine perm.eq_of_pairwise (fun place other here _ there back => ?_)
    (pairwise_leads firstMember) (pairwise_leads secondMember)
  obtain ⟨upper, found, under⟩ := strictlyBelow_of_mem_descents firstMember place here
  exact (ends.leads_asymm found under there back).elim

/-- There are no more lines of descent than sets of places. -/
theorem EndsWithin.length_preorder_le {depth : Nat} {shard : Shard}
    (ends : (ofShards shards).EndsWithin depth shard) :
    ((ofShards shards).preorder depth shard).length ≤ Nat.pow 2 shards.length := by
  have distinct : (((ofShards shards).descents depth shard.id).map List.toFinset).Nodup :=
    (nodup_descents depth shard.id).map_on fun first firstMember second secondMember =>
      ends.descent_unique firstMember secondMember
  have within : (((ofShards shards).descents depth shard.id).map List.toFinset).toFinset ⊆
      (Finset.range shards.length).powerset := by
    intro places member
    obtain ⟨line, listed, rfl⟩ := List.mem_map.mp (List.mem_toFinset.mp member)
    refine Finset.mem_powerset.mpr fun place here => Finset.mem_range.mpr ?_
    obtain ⟨lower, found, -⟩ :=
      strictlyBelow_of_mem_descents listed place (List.mem_toFinset.mp here)
    exact (List.getElem?_eq_some_iff.mp found).1
  have bounded := Finset.card_le_card within
  rw [List.toFinset_card_of_nodup distinct, List.length_map, length_descents,
    Finset.card_powerset, Finset.card_range] at bounded
  exact bounded

/-- A walk with a stack that ends has met ends of all lines of descent. -/
theorem WalksTips.endsWithin {turns : Nat} {stack : List ShardId} {leaves found : List Shard}
    (walks : (ofShards shards).WalksTips turns stack leaves found) :
    ∀ shard : Shard, shard.id ∈ stack → (ofShards shards).EndsWithin turns shard := by
  induction walks with
  | ended leaves => exact fun shard absent => absurd absent List.not_mem_nil
  | parent parent rest inductionHypothesis =>
      intro shard member
      rcases List.mem_cons.mp member with rfl | below
      · exact fun child link => inductionHypothesis child
          (List.mem_append_left _ (List.mem_map_of_mem link))
      · exact (inductionHypothesis shard (List.mem_append_right _ below)).mono
  | leaf childless rest inductionHypothesis =>
      intro shard member
      rcases List.mem_cons.mp member with rfl | below
      · intro child link
        have parent := (isParent_ofShards shards shard.id).mpr (List.ne_nil_of_mem link)
        rw [parent] at childless
        cases childless
      · exact (inductionHypothesis shard below).mono

/-- What a walk down to the tips comes to is what it comes to within its bound. -/
theorem WalksTips.eq_tipsBelow {turns : Nat} {shard : Shard} {found : List Shard}
    (walks : (ofShards shards).WalksTips turns [shard.id] [] found) :
    found = (ofShards shards).tipsBelow shard.id := by
  have ends := walks.endsWithin shard List.mem_cons_self
  have bounded := ends.walksTips (Nat.lt_succ_of_le ends.length_preorder_le)
  rw [← walks.walkTips_eq (Nat.le_max_left _ _), bounded.walkTips_eq (Nat.le_max_right turns _)]

end Lineage
end ShardedStream
