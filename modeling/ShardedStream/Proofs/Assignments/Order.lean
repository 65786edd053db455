import Mathlib.Data.List.Permutation
import Mathlib.Data.List.Sort
import ShardedStream.Proofs.Assignments.Cut
import ShardedStream.Proofs.Assignments.Listed

/-!
The order of decisions.
Decisions stand in the order of the shard list, so assignments that decide alike are the same list.
A restart below a shard that hands over is therefore the succession of that shard, place by place.
-/

namespace ShardedStream
namespace Assignments

variable {shards : List Shard} {checkpoint : Checkpoint}

/-- Decisions are sorted by the places of their shards. -/
def placeOf (lineage : Lineage) (entry : Assignment) : Nat :=
  (lineage.place? entry.shard).getD lineage.size

theorem sorted_inOrderOf (made : Assignments) (lineage : Lineage) :
    (made.inOrderOf lineage).entries.Pairwise fun first second =>
      placeOf lineage first ≤ placeOf lineage second := by
  have transitive : ∀ first second third : Assignment,
      decide (placeOf lineage first ≤ placeOf lineage second) = true →
      decide (placeOf lineage second ≤ placeOf lineage third) = true →
      decide (placeOf lineage first ≤ placeOf lineage third) = true := by
    intro first second third before after
    rw [decide_eq_true_eq] at before after ⊢
    exact before.trans after
  have total : ∀ first second : Assignment,
      (decide (placeOf lineage first ≤ placeOf lineage second) ||
        decide (placeOf lineage second ≤ placeOf lineage first)) = true := by
    intro first second
    rw [Bool.or_eq_true, decide_eq_true_eq, decide_eq_true_eq]
    exact Nat.le_total _ _
  have sorted := List.pairwise_mergeSort transitive total made.entries
  exact sorted.imp fun ordered => of_decide_eq_true ordered

/-- A listed shard is sorted by the place that it has in the index. -/
theorem place?_of_listed {entry : Assignment} (listed : entry.shard ∈ shards.map Shard.id) :
    (Lineage.ofShards shards).place? entry.shard = some (placeOf (.ofShards shards) entry) := by
  obtain ⟨known, knownListed, same⟩ := List.mem_map.mp listed
  obtain ⟨place, indexed⟩ := Lineage.exists_place? knownListed
  rw [same] at indexed
  rw [placeOf, indexed, Option.getD_some]

/-- Listed shards stand at different places. -/
theorem shard_eq_of_placeOf_eq {first second : Assignment}
    (firstListed : first.shard ∈ shards.map Shard.id)
    (secondListed : second.shard ∈ shards.map Shard.id)
    (same : placeOf (.ofShards shards) first = placeOf (.ofShards shards) second) :
    first.shard = second.shard := by
  obtain ⟨here, found, foundSame⟩ := Lineage.place?_eq_some (place?_of_listed firstListed)
  obtain ⟨there, otherFound, otherFoundSame⟩ :=
    Lineage.place?_eq_some (place?_of_listed secondListed)
  rw [same, otherFound] at found
  rw [← foundSame, ← otherFoundSame, Option.some.inj found]

/-- Sorted lists of the same decisions on listed shards are one list. -/
theorem entries_eq_of_mem_iff {first second : List Assignment}
    (firstDistinct : (first.map Assignment.shard).Nodup)
    (secondDistinct : (second.map Assignment.shard).Nodup)
    (firstSorted : first.Pairwise fun one other =>
      placeOf (.ofShards shards) one ≤ placeOf (.ofShards shards) other)
    (secondSorted : second.Pairwise fun one other =>
      placeOf (.ofShards shards) one ≤ placeOf (.ofShards shards) other)
    (listed : ∀ entry ∈ first, entry.shard ∈ shards.map Shard.id)
    (same : ∀ entry, entry ∈ first ↔ entry ∈ second) : first = second := by
  have perm := (List.perm_ext_iff_of_nodup firstDistinct.of_map secondDistinct.of_map).mpr same
  refine perm.eq_of_pairwise (fun one other oneMember otherMember before after => ?_)
    firstSorted secondSorted
  have otherFirst := (same other).mpr otherMember
  exact List.inj_on_of_nodup_map firstDistinct oneMember otherFirst
    (shard_eq_of_placeOf_eq (listed one oneMember) (listed other otherFirst)
      (Nat.le_antisymm before after))

/-- A decided shard has the one decision that agrees with the checkpoint. -/
theorem AllAgree.mem_iff {made : Assignments} (agree : AllAgree checkpoint made)
    {entry : Assignment} :
    entry ∈ made.entries ↔ entry.shard ∈ made.shards ∧ Agrees checkpoint entry := by
  constructor
  · exact fun member => ⟨List.mem_map_of_mem member, agree entry member⟩
  · rintro ⟨decided, own⟩
    obtain ⟨position, member⟩ := mem_shards.mp decided
    rw [own.unique (agree _ member) rfl]
    exact member

/-- Once a root opens at the beginning, a start agrees with the checkpoint. -/
theorem atStart_allAgree (distinct : (shards.map Shard.id).Nodup) {policy : StartPolicy}
    (opens : RootOpens (.ofShards shards) checkpoint policy) :
    AllAgree checkpoint (atStart (.ofShards shards) checkpoint policy) :=
  fun entry member => ((mem_atStart distinct checkpoint policy entry).mp member).agrees opens

/-- What hands over covers the root above it. -/
theorem HandsOver.rootOpens {finished : Shard}
    (rooted : (Lineage.ofShards shards).Rooted finished)
    (handsOver : HandsOver (.ofShards shards) checkpoint finished) (policy : StartPolicy) :
    RootOpens (.ofShards shards) checkpoint policy := by
  obtain ⟨root, member, below⟩ := rooted
  exact .inl ⟨root, member, handsOver.covered.above below⟩

/-- A shard hands over when it is consumed or has an entry further down. -/
theorem handsOver_iff {lineage : Lineage} {shard : Shard} :
    HandsOver lineage checkpoint shard ↔ Consumed checkpoint shard ∨
      ∃ saved, lineage.StrictlyBelow shard saved ∧ (checkpoint.get? saved.id).isSome = true := by
  constructor
  · rintro (⟨child, link, saved, below, entry⟩ | consumed)
    · exact .inr ⟨saved, Relation.TransGen.head' link below, entry⟩
    · exact .inl consumed
  · rintro (consumed | ⟨saved, below, entry⟩)
    · exact .inr consumed
    · obtain ⟨child, link, rest⟩ := Relation.TransGen.head'_iff.mp below
      exact .inl ⟨child, link, saved, rest, entry⟩

/-- Below a shard that hands over, a start opens what the succession of the shard opens. -/
theorem started_iff_succeeded (distinct : (shards.map Shard.id).Nodup) {finished shard : Shard}
    (rooted : (Lineage.ofShards shards).Rooted finished)
    (handsOver : HandsOver (.ofShards shards) checkpoint finished) (policy : StartPolicy)
    (below : (Lineage.ofShards shards).StrictlyBelow finished shard) :
    shard.id ∈ (atStart (.ofShards shards) checkpoint policy).shards ↔
      shard.id ∈ (afterEnd (.ofShards shards) finished.id checkpoint).shards := by
  have opens := handsOver.rootOpens rooted policy
  obtain ⟨parent, above, link⟩ := Relation.TransGen.tail'_iff.mp below
  rcases Relation.reflTransGen_iff_eq_or_transGen.mp above with rfl | further
  · rw [opened_child_iff distinct opens rooted link, succeeded_child_iff distinct rooted link,
      and_iff_right handsOver]
  · have parentRooted : (Lineage.ofShards shards).Rooted parent := by
      obtain ⟨root, member, top⟩ := rooted
      exact ⟨root, member, top.trans above⟩
    rw [opened_child_iff distinct opens parentRooted link,
      succeeded_below_iff distinct rooted further link]

/-- A shard that hands over is not opened at the start. -/
theorem not_started_of_handsOver (distinct : (shards.map Shard.id).Nodup) {finished : Shard}
    (rooted : (Lineage.ofShards shards).Rooted finished)
    (handsOver : HandsOver (.ofShards shards) checkpoint finished) (policy : StartPolicy) :
    finished.id ∉ (atStart (.ofShards shards) checkpoint policy).shards := by
  have opens := handsOver.rootOpens rooted policy
  obtain ⟨root, member, below⟩ := rooted
  rcases Relation.ReflTransGen.cases_tail below with rfl | ⟨parent, above, link⟩
  · rw [opened_root_iff distinct opens member]
    exact not_not.mpr handsOver
  · rw [opened_child_iff distinct opens ⟨root, member, above⟩ link]
    exact fun both => both.2 handsOver

open scoped Classical in
/--
Of a shard that is consumed, or below which something is saved, a start opens the descendants as the
succession of the shard does, in the same order and at the same positions, and not the shard itself.
-/
theorem restart_below_eq_succession (distinct : (shards.map Shard.id).Nodup)
    (checkpoint : Checkpoint) (policy : StartPolicy) {finished : Shard}
    (rooted : (Lineage.ofShards shards).Rooted finished)
    (passed : Consumed checkpoint finished ∨
      ∃ saved, (Lineage.ofShards shards).StrictlyBelow finished saved ∧
        (checkpoint.get? saved.id).isSome = true) :
    let start := atStart (.ofShards shards) checkpoint policy
    finished.id ∉ start.shards ∧
      (start.entries.filter fun entry => ∃ shard,
        (Lineage.ofShards shards).StrictlyBelow finished shard ∧ shard.id = entry.shard) =
          (afterEnd (.ofShards shards) finished.id checkpoint).entries := by
  intro start
  have handsOver : HandsOver (.ofShards shards) checkpoint finished := handsOver_iff.mpr passed
  refine ⟨not_started_of_handsOver distinct rooted handsOver policy, ?_⟩
  have startSound := (atStart_adds distinct checkpoint policy).sound
  have startAgrees := atStart_allAgree distinct (handsOver.rootOpens rooted policy)
  refine entries_eq_of_mem_iff ?_ (afterEnd_sound shards finished.id checkpoint).distinct ?_
    (sorted_inOrderOf _ _) (fun entry member => ?_) fun entry => ?_
  · exact startSound.distinct.sublist (List.filter_sublist.map _)
  · exact (sorted_inOrderOf _ _).filter _
  · exact atStart_listed shards checkpoint policy entry (List.mem_filter.mp member).1
  · rw [List.mem_filter, decide_eq_true_eq, startAgrees.mem_iff,
      (afterEnd_agrees (.ofShards shards) finished.id checkpoint).mem_iff]
    constructor
    · rintro ⟨⟨opened, own⟩, shard, below, same⟩
      rw [← same] at opened ⊢
      exact ⟨(started_iff_succeeded distinct rooted handsOver policy below).mp opened, own⟩
    · rintro ⟨opened, own⟩
      obtain ⟨shard, below, same⟩ := below_of_succeeded distinct rooted opened
      rw [← same] at opened ⊢
      exact ⟨⟨(started_iff_succeeded distinct rooted handsOver policy below).mpr opened, own⟩,
        shard, below, rfl⟩

open scoped Classical in
/-- Of three shards that a start opens, the two below the inner shard are its succession. -/
theorem splitTwice_restart_below :
    let lineage := Lineage.ofShards splitTwice
    let checkpoint := Checkpoint.empty.record "D" "410"
    let start := atStart lineage checkpoint .newest
    (splitTwice.map Shard.id).Nodup ∧ lineage.Rooted splitTwice[1] ∧
      lineage.StrictlyBelow splitTwice[1] splitTwice[3] ∧
      start.shards = ["C", "D", "E"] ∧
      (start.entries.filter fun entry => ∃ shard,
        lineage.StrictlyBelow splitTwice[1] shard ∧ shard.id = entry.shard) =
          [⟨"D", .afterSequence "410"⟩, ⟨"E", .trimHorizon⟩] := by
  have distinct : (splitTwice.map Shard.id).Nodup := by decide
  have root : splitTwice[0] ∈ (Lineage.ofShards splitTwice).roots := by decide
  have outer : (Lineage.ofShards splitTwice).IsChild splitTwice[0] splitTwice[1] := by
    unfold Lineage.IsChild
    decide
  have inner : (Lineage.ofShards splitTwice).IsChild splitTwice[1] splitTwice[3] := by
    unfold Lineage.IsChild
    decide
  have rooted : (Lineage.ofShards splitTwice).Rooted splitTwice[1] := ⟨_, root, .single outer⟩
  have agree := restart_below_eq_succession distinct (Checkpoint.empty.record "D" "410") .newest
    rooted (.inr ⟨splitTwice[3], .single inner, by decide +kernel⟩)
  exact ⟨distinct, rooted, .single inner, by cbv, agree.2.trans (by cbv)⟩

end Assignments
end ShardedStream
