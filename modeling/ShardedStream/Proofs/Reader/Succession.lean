import ShardedStream.Proofs.Assignments.Opened
import ShardedStream.Proofs.Reader.Step
import ShardedStream.Script

/-!
What follows a shard that has been read to its end.
Its children are found through the shard itself, so they are tracked exactly when the stream still
lists the shard at the moment at which it is asked for.
-/

namespace ShardedStream
namespace Reader

variable {σ : Type} {service : Service σ} {reader later : Reader} {shards : List Shard}
  {world after : World σ}

/-- Changes in a row keep the index right, and tracked shards where they are. -/
theorem Indexed.changes (indexed : reader.Indexed)
    (changes : Relation.ReflTransGen Change reader later) :
    later.Indexed ∧ reader.ids <+: later.ids := by
  induction changes with
  | refl => exact ⟨indexed, List.prefix_refl _⟩
  | tail _ change inductionHypothesis =>
      obtain ⟨before, kept⟩ := inductionHypothesis
      obtain ⟨indexed, more⟩ := change.indexed before
      exact ⟨indexed, kept.trans more⟩

/-- A shard that is not listed has no successors. -/
theorem successors_of_unlisted {shard : ShardId} (gone : shard ∉ shards.map Shard.id) :
    (reader.successors shard shards).entries = [] := by
  have childless : (Lineage.ofShards shards).children shard = [] := by
    rw [List.eq_nil_iff_forall_not_mem]
    intro child link
    obtain ⟨_, _, parent, listed, same⟩ := Lineage.mem_children.mp link
    exact gone (List.mem_map.mpr ⟨parent, listed, same⟩)
  rw [List.eq_nil_iff_forall_not_mem]
  intro entry member
  obtain ⟨sorted, _⟩ := Assignments.mem_without.mp member
  rw [Assignments.afterEnd, childless] at sorted
  exact List.not_mem_nil (Assignments.mem_inOrderOf.mp sorted)

/-- The uncovered children of a listed shard are its successors, unless they are tracked. -/
theorem mem_successors (indexed : reader.Indexed) (distinct : (shards.map Shard.id).Nodup)
    (acyclic : (Lineage.ofShards shards).Acyclic) {finished child : Shard}
    (link : (Lineage.ofShards shards).IsChild finished child) (listed : finished ∈ shards)
    (uncovered : ¬ Assignments.Covered (.ofShards shards) reader.checkpoint child)
    (untracked : child.id ∉ reader.ids) :
    ∃ entry ∈ (reader.successors finished.id shards).entries, entry.shard = child.id := by
  have opened := (Assignments.succeeded_child_iff distinct (acyclic.rooted listed) link).mpr
    fun handsOver => uncovered handsOver.covered
  obtain ⟨position, member⟩ := Assignments.mem_shards.mp opened
  refine ⟨_, Assignments.mem_without.mpr ⟨member, ?_⟩, rfl⟩
  rw [← Bool.not_eq_true, indexed.mem_trackedShards]
  exact untracked

/-- A described step of an exhausted shard brings its successors. -/
theorem outcome_of_described (indexed : reader.Indexed) {tracked : Tracked}
    (member : tracked ∈ reader.shards) (ended : tracked.phase = .exhausted) {outcome : Outcome}
    (stepped : reader.stepIn service tracked.id world = (some (.ok outcome), after))
    (described : after.descriptions = world.descriptions ++ [shards]) :
    outcome = .bare tracked.id (.successorsKnown (reader.successors tracked.id shards)) := by
  obtain ⟨other, otherMember, same, steps⟩ := step_steps indexed stepped
  obtain rfl := indexed.eq_of_id_eq otherMember member same
  cases steps with
  | opened waiting _ _ => cases ended.symm.trans waiting
  | unopened waiting _ => cases ended.symm.trans waiting
  | missing waiting _ _ => cases ended.symm.trans waiting
  | read reading _ => cases ended.symm.trans reading
  | described _ settles =>
      have recorded := settles.descriptions_of_some
      rw [described] at recorded
      cases List.append_cancel_left recorded
      rfl
  | undescribed _ settles =>
      have recorded := settles.descriptions_of_none
      rw [described] at recorded
      exact absurd recorded (by simp)
  | idle finished => cases ended.symm.trans finished

/--
Once the described outcome of an exhausted shard is applied, now or after other changes, the shard
is done, and a child with nothing saved below it is tracked only if it was tracked before or the
description still lists the shard.
-/
theorem tracked_child_iff {settings : ReaderSettings} (reached : Reached settings reader)
    (changes : Relation.ReflTransGen Change reader later) {tracked : Tracked}
    (member : tracked ∈ reader.shards) (ended : tracked.phase = .exhausted) {outcome : Outcome}
    (stepped : reader.stepIn service tracked.id world = (some (.ok outcome), after))
    (described : after.descriptions = world.descriptions ++ [shards])
    (distinct : (shards.map Shard.id).Nodup) (acyclic : (Lineage.ofShards shards).Acyclic) :
    (∃ finished ∈ (later.apply outcome).2.shards,
        finished.id = tracked.id ∧ finished.phase = .done) ∧
      ∀ child ∈ shards, child.parent = some tracked.id →
        ¬ Assignments.Covered (.ofShards shards) reader.checkpoint child →
        (child.id ∈ (later.apply outcome).2.ids ↔
          child.id ∈ later.ids ∨ tracked.id ∈ shards.map Shard.id) := by
  obtain rfl := outcome_of_described reached.indexed member ended stepped described
  obtain ⟨indexed, kept⟩ := reached.indexed.changes changes
  obtain ⟨current, currentMember, same⟩ := mem_ids.mp (kept.subset (List.mem_map_of_mem member))
  have follows := follows_apply indexed currentMember
    (show (Outcome.bare tracked.id (.successorsKnown (reader.successors tracked.id shards))).shard =
      current.id from same.symm)
  refine ⟨⟨current.enter (some .done), ?_, same, rfl⟩, fun child listed named uncovered => ?_⟩
  · have moved := follows.keeps currentMember
    rwa [if_pos rfl] at moved
  · rw [follows.mem_ids_iff]
    constructor
    · rintro (before | ⟨entry, chosen, _⟩)
      · exact .inl before
      · refine .inr (by_contra fun gone => ?_)
        change entry ∈ (reader.successors tracked.id shards).entries at chosen
        rw [successors_of_unlisted gone] at chosen
        exact List.not_mem_nil chosen
    · rintro (before | known)
      · exact .inl before
      -- A child tracked when the stream was asked is no successor, but it is tracked still.
      · by_cases old : child.id ∈ reader.ids
        · exact .inl (kept.subset old)
        · obtain ⟨finished, finishedListed, finishedSame⟩ := List.mem_map.mp known
          have link : (Lineage.ofShards shards).IsChild finished child :=
            Lineage.isChild_iff.mpr ⟨listed, finishedSame ▸ named, finished, finishedListed, rfl⟩
          obtain ⟨entry, chosen, entrySame⟩ := mem_successors reached.indexed distinct acyclic link
            finishedListed uncovered old
          exact .inr ⟨entry, finishedSame ▸ chosen, entrySame⟩

/-- A shard has been split; one half of it is listed. -/
def splitOnce : List Shard := [⟨"A", none, "100", some "199"⟩, ⟨"B", some "A", "200", none⟩]

theorem splitOnce_acyclic : (Lineage.ofShards splitOnce).Acyclic :=
  Lineage.acyclic_of_rank (fun id => if id = "A" then 0 else 1) (by decide)

/-- This reader has read the split shard to its end. -/
def atSplit : Reader :=
  ⟨.ofStream "stream", .empty, [⟨"A", .exhausted, .trimHorizon⟩],
    (∅ : Std.ExtTreeMap ShardId Nat).insert "A" 0, true, ∅⟩

theorem atSplit_reached : Reached (.ofStream "stream") atSplit := by
  have start : (Assignments.atStart (.ofShards splitOnce) .empty .oldest).entries =
      [⟨"A", .trimHorizon⟩] := by decide +kernel
  have opened : (ofSettings (.ofStream "stream")).opening splitOnce =
      ⟨.ofStream "stream", .empty, [⟨"A", .waiting .trimHorizon, .trimHorizon⟩],
        (∅ : Std.ExtTreeMap ShardId Nat).insert "A" 0, true, ∅⟩ := by
    unfold opening track
    change { (List.foldl trackOne ([], ofSettings (.ofStream "stream"))
      (Assignments.atStart (.ofShards splitOnce) .empty .oldest).entries).2 with
        initialized := true } = _
    rw [start]
    rfl
  have first : Change (ofSettings (.ofStream "stream"))
      ((ofSettings (.ofStream "stream")).opening splitOnce) := .prepared _ _
  have second : Change ((ofSettings (.ofStream "stream")).opening splitOnce) _ :=
    .applied _ (.bare "A" .exhausted)
  have ended : (((ofSettings (.ofStream "stream")).opening splitOnce).apply
      (.bare "A" .exhausted)).2 = atSplit := by
    rw [opened]
    rfl
  rw [ended] at second
  exact (Relation.ReflTransGen.single first).tail second

/-- A shard that is still listed hands over to its child. -/
theorem listed_shard_hands_over :
    ∃ outcome after,
      atSplit.stepIn Script.service "A" (.start (.describing splitOnce) .off) =
        (some (.ok outcome), after) ∧
      (∃ finished ∈ (atSplit.apply outcome).2.shards, finished.id = "A" ∧ finished.phase = .done) ∧
      "B" ∈ (atSplit.apply outcome).2.ids := by
  refine ⟨.bare "A" (.successorsKnown (atSplit.successors "A" splitOnce)), _, rfl, ?_⟩
  have stepped : atSplit.stepIn Script.service "A" (.start (.describing splitOnce) .off) =
      (some (.ok (.bare "A" (.successorsKnown (atSplit.successors "A" splitOnce)))), _) := rfl
  have tracked : ⟨"A", .exhausted, .trimHorizon⟩ ∈ atSplit.shards := List.mem_cons_self
  have finished := tracked_child_iff atSplit_reached .refl tracked rfl stepped
    (show _ = [] ++ [splitOnce] from rfl) (by decide) splitOnce_acyclic
  exact ⟨finished.1, (finished.2 ⟨"B", some "A", "200", none⟩ (by decide) rfl
    (Assignments.not_covered_empty _ _)).mpr (.inr (by decide))⟩

/-- A shard that is no longer listed is done without its child, which has nothing saved below. -/
theorem unlisted_shard_drops_child :
    Reached (.ofStream "stream") atSplit ∧ ((splitOnce.drop 1).map Shard.id).Nodup ∧
      (Lineage.ofShards (splitOnce.drop 1)).Acyclic ∧
      ∃ outcome after,
        atSplit.stepIn Script.service "A" (.start (.describing (splitOnce.drop 1)) .off) =
          (some (.ok outcome), after) ∧
        after.descriptions = [splitOnce.drop 1] ∧
        (∃ finished ∈ (atSplit.apply outcome).2.shards,
          finished.id = "A" ∧ finished.phase = .done) ∧
        ∃ child ∈ splitOnce.drop 1, child.parent = some "A" ∧
          ¬ Assignments.Covered (.ofShards (splitOnce.drop 1)) atSplit.checkpoint child ∧
          child.id ∉ (atSplit.apply outcome).2.ids := by
  have acyclic : (Lineage.ofShards (splitOnce.drop 1)).Acyclic :=
    Lineage.acyclic_of_rank (fun _ => 0) (by decide)
  refine ⟨atSplit_reached, by decide, acyclic,
    .bare "A" (.successorsKnown (atSplit.successors "A" (splitOnce.drop 1))), _, rfl, rfl, ?_⟩
  have nothing : (atSplit.successors "A" (splitOnce.drop 1)).entries = [] :=
    successors_of_unlisted (by decide)
  have shards : (atSplit.apply (.bare "A" (.successorsKnown
      (atSplit.successors "A" (splitOnce.drop 1))))).2.shards =
      [⟨"A", .done, .trimHorizon⟩] := by
    change ((List.foldl trackOne ([], atSplit)
      (atSplit.successors "A" (splitOnce.drop 1)).entries).2.setPhase "A" .done).shards = _
    rw [nothing]
    rfl
  rw [ids, shards]
  exact ⟨⟨_, List.mem_cons_self, rfl, rfl⟩, ⟨"B", some "A", "200", none⟩, by decide, rfl,
    Assignments.not_covered_empty _ _, by decide⟩

end Reader
end ShardedStream
