import ShardedStream.Proofs.Assignments.Ending
import ShardedStream.Proofs.Assignments.Order
import ShardedStream.Proofs.Lineage.Depth

/-!
What resolution gives back is well formed, whatever the shard list.
The entries and the set of decided shards are updated apart, ids may repeat, and the walk may meet a
shard more than once. But every decision goes through one test, only listed shards are decided on,
and no two ids share a place, so the sorted entries and the set never come apart.
-/

namespace ShardedStream
namespace Assignments

/-- One shard comes before another in the index of a lineage. -/
def Precedes (lineage : Lineage) (first second : ShardId) : Prop :=
  ∃ one other, lineage.place? first = some one ∧ lineage.place? second = some other ∧ one < other

/--
The entries are of different listed shards, in the order of the index; the decided shards are the
shards of the entries; and a lookup answers with the entry of a decided shard, and of no other.
-/
structure WellFormed (lineage : Lineage) (made : Assignments) : Prop where
  distinct : made.shards.Nodup
  listed : ∀ shard ∈ made.shards, lineage.contains shard = true
  ordered : made.shards.Pairwise (Precedes lineage)
  decided : ∀ shard, made.decided.contains shard = true ↔ shard ∈ made.shards
  found : ∀ shard, (made.position? shard).isSome = made.decided.contains shard
  position : ∀ shard position,
    made.position? shard = some position ↔ ⟨shard, position⟩ ∈ made.entries

/-- What is left when shards are skipped: every other entry, in its old order, at its position. -/
structure Spares (skip : Std.ExtTreeSet ShardId) (made reduced : Assignments) : Prop where
  order : reduced.entries.Sublist made.entries
  entries : ∀ entry,
    entry ∈ reduced.entries ↔ entry ∈ made.entries ∧ skip.contains entry.shard = false
  position : ∀ shard, skip.contains shard = false → reduced.position? shard = made.position? shard
  skipped : ∀ shard ∈ reduced.shards, skip.contains shard = false

/-- Assignments are well formed, and so is what is left of them, whatever is skipped. -/
def StaysWellFormed (lineage : Lineage) (made : Assignments) : Prop :=
  made.WellFormed lineage ∧
    ∀ skip, (made.without skip).WellFormed lineage ∧ Spares skip made (made.without skip)

variable {shards : List Shard} {checkpoint : Checkpoint} {made : Assignments}

/-- The entries of listed shards are in strict order once they are sorted. -/
theorem pairwise_precedes (sound : made.Sound) (listed : AllListed shards made)
    (sorted : made.entries.Pairwise fun first second =>
      placeOf (.ofShards shards) first ≤ placeOf (.ofShards shards) second) :
    made.shards.Pairwise (Precedes (.ofShards shards)) := by
  have apart : made.entries.Pairwise fun first second => first.shard ≠ second.shard :=
    List.pairwise_map.mp sound.distinct
  refine List.pairwise_map.mpr ((sorted.and apart).imp_of_mem ?_)
  rintro first second firstMember secondMember ⟨ordered, different⟩
  refine ⟨_, _, place?_of_listed (listed first firstMember),
    place?_of_listed (listed second secondMember), lt_of_le_of_ne ordered fun same => different ?_⟩
  exact shard_eq_of_placeOf_eq (listed first firstMember) (listed second secondMember) same

/-- Sorted decisions on listed shards, each shard once, are well formed. -/
theorem Sound.wellFormed (sound : made.Sound) (listed : AllListed shards made)
    (sorted : made.entries.Pairwise fun first second =>
      placeOf (.ofShards shards) first ≤ placeOf (.ofShards shards) second) :
    made.WellFormed (.ofShards shards) where
  distinct := sound.distinct
  listed := fun shard member => by
    obtain ⟨position, entry⟩ := mem_shards.mp member
    obtain ⟨known, knownListed, same⟩ := List.mem_map.mp (listed _ entry)
    exact (Lineage.contains_indexPlaces shards shard).mpr ⟨known, knownListed, same⟩
  ordered := pairwise_precedes sound listed sorted
  decided := sound.decided
  found := fun shard => by
    rw [Bool.eq_iff_iff, isSome_position?_iff, sound.decided]
  position := fun _ _ => sound.position?_eq_some_iff

theorem shards_without (made : Assignments) (skip : Std.ExtTreeSet ShardId) :
    (made.without skip).shards = made.shards.filter fun shard => !skip.contains shard := by
  rw [shards, shards, List.filter_map]
  rfl

theorem Sound.without (sound : made.Sound) (skip : Std.ExtTreeSet ShardId) :
    (made.without skip).Sound where
  distinct := by
    rw [shards_without]
    exact sound.distinct.filter _
  decided := fun shard => by
    rw [shards_without, List.mem_filter, ← sound.decided, Assignments.without,
      ← Std.ExtTreeSet.mem_iff_contains, Std.ExtTreeSet.mem_filter]
    simp only [Std.ExtTreeSet.get_eq, exists_prop, Std.ExtTreeSet.mem_iff_contains]

/-- Skipping shards takes their entries and leaves the others as they are. -/
theorem Sound.spares (sound : made.Sound) (skip : Std.ExtTreeSet ShardId) :
    Spares skip made (made.without skip) where
  order := List.filter_sublist
  entries := fun _ => mem_without
  position := fun shard kept => by
    refine Option.ext fun position => ?_
    rw [(sound.without skip).position?_eq_some_iff, sound.position?_eq_some_iff, mem_without,
      and_iff_left kept]
  skipped := fun shard member => by
    rw [shards_without, List.mem_filter, Bool.not_eq_true'] at member
    exact member.2

/-- Sorted decisions on listed shards stay well formed when shards are skipped. -/
theorem Sound.staysWellFormed (sound : made.Sound) (listed : AllListed shards made)
    (sorted : made.entries.Pairwise fun first second =>
      placeOf (.ofShards shards) first ≤ placeOf (.ofShards shards) second) :
    made.StaysWellFormed (.ofShards shards) := by
  refine ⟨sound.wellFormed listed sorted, fun skip => ⟨?_, sound.spares skip⟩⟩
  exact (sound.without skip).wellFormed (fun entry member => listed entry (mem_without.mp member).1)
    (sorted.filter _)

/-- A sweep has taken every shard of its list through the walk. -/
theorem Sweeps.walks {walks : Shard → Assignments → Bool × Assignments → Prop}
    {swept : List Shard} {result : List Shard × Assignments}
    (sweeps : Sweeps walks swept made result) :
    ∀ shard ∈ swept, ∃ made walked, walks shard made walked := by
  induction sweeps with
  | nil made => exact fun shard absent => absurd absent List.not_mem_nil
  | cons here others inductionHypothesis =>
      intro shard member
      rcases List.mem_cons.mp member with rfl | later
      · exact ⟨_, _, here⟩
      · exact inductionHypothesis shard later

/-- A walk that ends has met the ends of all lines of descent. -/
theorem Covers.endsWithin {lineage : Lineage} {calls : Nat} {shard : Shard}
    {walked : Bool × Assignments} (covers : Covers lineage checkpoint calls shard made walked) :
    lineage.EndsWithin calls shard := by
  induction calls generalizing shard made walked with
  | zero => exact covers.elim
  | succ calls inductionHypothesis =>
      obtain ⟨swept, sweeps, rfl⟩ := covers
      intro child link
      obtain ⟨_, _, walks⟩ := sweeps.walks child link
      exact inductionHypothesis walks

/-- What a walk from a listed shard comes to is what it comes to within its bound. -/
theorem Covers.eq_cover {calls : Nat} {shard : Shard} {walked : Bool × Assignments}
    (listed : shard ∈ shards)
    (covers : Covers (.ofShards shards) checkpoint calls shard made walked) :
    walked = cover (.ofShards shards) checkpoint (depthBound (.ofShards shards)) shard made :=
  covers.unique (covers_cover (covers.endsWithin.listed listed) made)

/--
On every shard list what a start and what a succession decide is well formed, and it stays so
whatever is skipped. Ids may repeat, parents may be missing, and shards may go round in a circle.
And where the two walks that resolution is made of come to an end of themselves, with any number of
calls or turns, the bound set to them does not change what they find.
-/
theorem resolution_wellFormed (shards : List Shard) (checkpoint : Checkpoint) :
    let lineage := Lineage.ofShards shards
    (∀ policy, (atStart lineage checkpoint policy).StaysWellFormed lineage) ∧
      (∀ finished, (afterEnd lineage finished checkpoint).StaysWellFormed lineage) ∧
      (∀ shard ∈ shards, ∀ calls made walked,
        Covers lineage checkpoint calls shard made walked →
          walked = cover lineage checkpoint (depthBound lineage) shard made) ∧
      ∀ (shard : Shard) turns found, lineage.WalksTips turns [shard.id] [] found →
        found = lineage.tipsBelow shard.id := by
  intro lineage
  refine ⟨fun policy => ?_, fun finished => ?_, fun shard listed calls made walked covers => ?_,
    fun shard turns found walks => ?_⟩
  · exact (atStart_sound shards checkpoint policy).staysWellFormed
      (atStart_listed shards checkpoint policy) (sorted_inOrderOf _ _)
  · exact (afterEnd_sound shards finished checkpoint).staysWellFormed
      (afterEnd_listed shards finished checkpoint) (sorted_inOrderOf _ _)
  · exact covers.eq_cover listed
  · exact walks.eq_tipsBelow

/-- A shard with three children, two of one id, an orphan, and a circle that no root reaches. -/
def knotted : List Shard :=
  [⟨"A", none, "100", some "199"⟩, ⟨"B", some "A", "200", none⟩, ⟨"C", some "A", "300", none⟩,
    ⟨"B", some "A", "400", none⟩, ⟨"D", some "gone", "500", none⟩, ⟨"E", some "F", "600", none⟩,
    ⟨"F", some "E", "700", none⟩]

/-- The repeated id is opened once, at the place of its last shard, and the walks from the root end
although the circle never would. -/
theorem knotted_wellFormed :
    let lineage := Lineage.ofShards knotted
    let checkpoint := Checkpoint.empty.record "C" "310"
    let start := atStart lineage checkpoint .oldest
    (start.StaysWellFormed lineage ∧ start.shards = ["C", "B", "D"]) ∧
      (∃ walked, Covers lineage checkpoint 2 knotted[0] empty walked ∧
        walked = cover lineage checkpoint (depthBound lineage) knotted[0] empty) ∧
      ∃ found, lineage.WalksTips 4 ["A"] [] found ∧ found = lineage.tipsBelow "A" := by
  intro lineage checkpoint start
  obtain ⟨started, -, covered, walked⟩ := resolution_wellFormed knotted checkpoint
  have children : lineage.children "A" = [knotted[1], knotted[2], knotted[3]] := by decide
  have ends : lineage.EndsWithin 2 knotted[0] := by
    intro child link grandchild further
    have childless : ∀ child ∈ lineage.children "A", lineage.children child.id = [] := by
      rw [children]
      decide
    rw [Lineage.IsChild, childless child link] at further
    exact absurd further List.not_mem_nil
  have walks : lineage.WalksTips 4 ["A"] [] [knotted[3], knotted[2], knotted[3]] := by
    refine .parent (by decide) ?_
    rw [children]
    exact .leaf (by decide) (.leaf (by decide) (.leaf (by decide) (.ended _)))
  have covers : Covers lineage checkpoint 2 knotted[0] empty _ := covers_cover ends empty
  have entries : start.entries =
      [⟨"C", .afterSequence "310"⟩, ⟨"B", .trimHorizon⟩, ⟨"D", .trimHorizon⟩] :=
    (List.mergeSort_of_pairwise (by decide +kernel)).trans (by decide +kernel)
  exact ⟨⟨started .oldest, congrArg (List.map Assignment.shard) entries⟩,
    ⟨_, covers, covered knotted[0] List.mem_cons_self 2 empty _ covers⟩,
    ⟨_, walks, walked knotted[0] 4 _ walks⟩⟩

end Assignments
end ShardedStream
