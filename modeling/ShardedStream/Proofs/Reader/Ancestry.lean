import ShardedStream.Proofs.Lineage.Growth
import ShardedStream.Proofs.Reader.Succession

/-!
Finished ancestors.
Whatever a reader starts from, of two tracked shards in one line of descent the upper one is done:
a start and a succession open no shard above another, and a succession opens only shards below a
shard that has nothing tracked below it.
-/

namespace ShardedStream
namespace Reader

/-- The tracked shards are listed, and those above other tracked ones are done. -/
structure Ordered (shards : List Shard) (reader : Reader) : Prop where
  listed : ∀ id ∈ reader.ids, id ∈ shards.map Shard.id
  done : ∀ upper lower, Lineage.AncestorOf shards upper lower → upper ∈ reader.ids →
    lower ∈ reader.ids → reader.IsDone upper

variable {shards earlier : List Shard} {reader later : Reader}

/-- What is done has been tracked. -/
theorem IsDone.of_prefix {id : ShardId} (done : reader.IsDone id)
    (kept : ∀ tracked ∈ reader.shards, tracked.phase = .done → tracked ∈ later.shards) :
    later.IsDone id := by
  obtain ⟨tracked, member, same, finished⟩ := done
  exact ⟨tracked, kept tracked member finished, same, finished⟩

/-- Tracking finishes nothing and undoes nothing. -/
theorem Tracks.isDone_iff {entries added : List Assignment}
    (tracks : Tracks reader entries added later) {id : ShardId} :
    later.IsDone id ↔ reader.IsDone id := by
  constructor
  · rintro ⟨tracked, member, same, done⟩
    rw [tracks.shards] at member
    rcases List.mem_append.mp member with before | new
    · exact ⟨tracked, before, same, done⟩
    · obtain ⟨entry, _, rfl⟩ := List.mem_map.mp new
      cases done
  · intro done
    refine done.of_prefix fun tracked member _ => ?_
    rw [tracks.shards]
    exact List.mem_append_left _ member

namespace Ordered

/-- A reader that tracks nothing is ordered. -/
theorem of_untracked (untracked : reader.ids = []) : Ordered shards reader := by
  refine ⟨fun id member => ?_, fun upper lower _ member => ?_⟩
  · rw [untracked] at member
    exact absurd member List.not_mem_nil
  · rw [untracked] at member
    exact absurd member List.not_mem_nil

theorem congr (ordered : Ordered shards reader) (ids : later.ids = reader.ids)
    (done : ∀ id, later.IsDone id ↔ reader.IsDone id) : Ordered shards later where
  listed := fun id member => ordered.listed id (ids ▸ member)
  done := fun upper lower ancestor upperMember lowerMember =>
    (done upper).mpr
      (ordered.done upper lower ancestor (ids ▸ upperMember) (ids ▸ lowerMember))

/-- A description that has grown changes nothing above the tracked shards. -/
theorem grow (ordered : Ordered earlier reader) (grows : Lineage.Grows earlier shards)
    (distinct : (shards.map Shard.id).Nodup) : Ordered shards reader where
  listed := fun id member => grows.listed (ordered.listed id member)
  done := fun upper lower ancestor upperMember lowerMember =>
    ordered.done upper lower
      ((grows.ancestorOf_iff distinct (ordered.listed lower lowerMember)).mp ancestor)
      upperMember lowerMember

/-- Below a shard that is not done nothing is tracked. -/
theorem untracked_below (ordered : Ordered shards reader) (indexed : reader.Indexed)
    {tracked : Tracked} (member : tracked ∈ reader.shards) (unfinished : tracked.phase ≠ .done)
    {lower : ShardId} (ancestor : Lineage.AncestorOf shards tracked.id lower) :
    lower ∉ reader.ids := by
  intro known
  exact indexed.not_isDone member unfinished
    (ordered.done _ _ ancestor (List.mem_map_of_mem member) known)

/-- A start opens no shard above another. -/
theorem opening (indexed : reader.Indexed) (distinct : (shards.map Shard.id).Nodup)
    (untracked : reader.shards = []) : Ordered shards (reader.opening shards) := by
  have tracks := indexed.track
    (Assignments.atStart (.ofShards shards) reader.checkpoint reader.settings.policy)
  have opened : ∀ id ∈ (reader.opening shards).ids,
      id ∈ (Assignments.atStart (.ofShards shards) reader.checkpoint
        reader.settings.policy).shards := by
    intro id member
    rw [ids, Reader.opening, tracks.shards, untracked, List.nil_append, List.map_map] at member
    obtain ⟨entry, here, rfl⟩ := List.mem_map.mp member
    exact List.mem_map_of_mem (tracks.chosen entry here).1
  refine ⟨fun id member => ?_, fun upper lower ancestor upperMember lowerMember => ?_⟩
  · obtain ⟨shard, rooted, rfl⟩ := Assignments.rooted_of_opened distinct (opened id member)
    exact List.mem_map_of_mem (Lineage.listed_of_rooted rooted)
  · obtain ⟨top, listed, rfl⟩ := List.mem_map.mp ancestor.listed.1
    obtain ⟨shard, below, rfl⟩ := Lineage.exists_strictlyBelow ancestor
    exact absurd (opened _ lowerMember)
      (Assignments.not_both_opened distinct listed below (opened _ upperMember))

/-- What a succession opens is listed below the tracked shard. -/
theorem below_of_succeeded (ordered : Ordered shards reader)
    (distinct : (shards.map Shard.id).Nodup) (acyclic : (Lineage.ofShards shards).Acyclic)
    {tracked : Tracked} (member : tracked ∈ reader.shards) {checkpoint : Checkpoint}
    {entry : Assignment}
    (chosen : entry ∈ (Assignments.afterEnd (.ofShards shards) tracked.id checkpoint).entries) :
    Lineage.AncestorOf shards tracked.id entry.shard := by
  obtain ⟨finished, listed, same⟩ :=
    List.mem_map.mp (ordered.listed _ (List.mem_map_of_mem member))
  have opened := List.mem_map_of_mem (f := Assignment.shard) chosen
  rw [← same] at opened ⊢
  obtain ⟨shard, below, equal⟩ :=
    Assignments.below_of_succeeded distinct (acyclic.rooted listed) opened
  exact equal ▸ Lineage.ancestorOf_of_strictlyBelow below

/-- The successors of a tracked shard are listed below it. -/
theorem below_of_successor (ordered : Ordered shards reader)
    (distinct : (shards.map Shard.id).Nodup) (acyclic : (Lineage.ofShards shards).Acyclic)
    {tracked : Tracked} (member : tracked ∈ reader.shards) {entry : Assignment}
    (chosen : entry ∈ (reader.successors tracked.id shards).entries) :
    Lineage.AncestorOf shards tracked.id entry.shard :=
  ordered.below_of_succeeded distinct acyclic member (Assignments.mem_without.mp chosen).1

/-- No successor is above another one. -/
theorem successors_apart (ordered : Ordered shards reader)
    (distinct : (shards.map Shard.id).Nodup) (acyclic : (Lineage.ofShards shards).Acyclic)
    {tracked : Tracked} (member : tracked ∈ reader.shards) {first second : Assignment}
    (firstChosen : first ∈ (reader.successors tracked.id shards).entries)
    (secondChosen : second ∈ (reader.successors tracked.id shards).entries) :
    ¬ Lineage.AncestorOf shards first.shard second.shard := by
  intro ancestor
  obtain ⟨finished, listed, same⟩ :=
    List.mem_map.mp (ordered.listed _ (List.mem_map_of_mem member))
  have firstOpened :=
    List.mem_map_of_mem (f := Assignment.shard) (Assignments.mem_without.mp firstChosen).1
  have secondOpened :=
    List.mem_map_of_mem (f := Assignment.shard) (Assignments.mem_without.mp secondChosen).1
  obtain ⟨top, topListed, topSame⟩ := List.mem_map.mp ancestor.listed.1
  rw [← topSame] at ancestor firstOpened
  obtain ⟨shard, below, equal⟩ := Lineage.exists_strictlyBelow ancestor
  rw [← same] at firstOpened secondOpened
  rw [← equal] at secondOpened
  exact Assignments.not_both_succeeded distinct (acyclic.rooted listed) topListed below firstOpened
    secondOpened

/-- The successors of a shard that has been read to its end come after all their ancestors. -/
theorem succeed (ordered : Ordered shards reader) (indexed : reader.Indexed)
    (distinct : (shards.map Shard.id).Nodup) (acyclic : (Lineage.ofShards shards).Acyclic)
    {tracked : Tracked} (member : tracked ∈ reader.shards) (ended : tracked.phase = .exhausted)
    (follows : Follows reader tracked.id (some .done)
      (reader.successors tracked.id shards).entries later) : Ordered shards later := by
  have unfinished : tracked.phase ≠ .done := by
    rw [ended]
    exact Phase.noConfusion
  have below : ∀ entry ∈ (reader.successors tracked.id shards).entries,
      Lineage.AncestorOf shards tracked.id entry.shard :=
    fun entry chosen => ordered.below_of_successor distinct acyclic member chosen
  refine ⟨fun id here => ?_, fun upper lower ancestor upperHere lowerHere => ?_⟩
  · rcases follows.mem_ids_iff.mp here with before | ⟨entry, chosen, rfl⟩
    · exact ordered.listed id before
    · exact (below entry chosen).listed.2
  · rw [follows.isDone_finished_iff member]
    rcases follows.mem_ids_iff.mp upperHere with before | ⟨first, firstChosen, rfl⟩
    · rcases follows.mem_ids_iff.mp lowerHere with lowerBefore | ⟨entry, chosen, rfl⟩
      · exact .inr (ordered.done upper lower ancestor before lowerBefore)
      -- Both are above the new shard, so one of the two is above the other.
      · rcases ancestor.total distinct (below entry chosen) with same | higher | lower
        · exact .inl same
        · exact .inr (ordered.done _ _ higher before (List.mem_map_of_mem member))
        · exact absurd before (ordered.untracked_below indexed member unfinished lower)
    · rcases follows.mem_ids_iff.mp lowerHere with lowerBefore | ⟨second, secondChosen, rfl⟩
      · exact absurd lowerBefore (ordered.untracked_below indexed member unfinished
          ((below first firstChosen).trans ancestor))
      · exact absurd ancestor
          (ordered.successors_apart distinct acyclic member firstChosen secondChosen)

end Ordered

end Reader
end ShardedStream
