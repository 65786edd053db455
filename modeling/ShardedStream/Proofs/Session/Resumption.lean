import ShardedStream.Proofs.Session.Unfold

/-!
Resuming from a checkpoint.
A start from the checkpoint of a live reader opens what the reader has open, at the point at which
it stands, or the one finished shard above from which all of it is read again.
-/

namespace ShardedStream
namespace Reader

variable {shards : List Shard} {reader : Reader}

/-- This is how a start takes up what a reader has left. -/
structure TakesUp (shards : List Shard) (reader : Reader) (start : Assignments) : Prop where
  listed : ∀ tracked ∈ reader.shards, ∃ shard ∈ shards, shard.id = tracked.id
  /-- A shard with an entry goes on after it, unless it is consumed. -/
  entered : ∀ shard ∈ shards, ∀ tracked ∈ reader.shards, tracked.id = shard.id →
    tracked.phase ≠ .done → ∀ sequence, reader.checkpoint.get? shard.id = some sequence →
    start.position? shard.id =
      if shard.endsAt sequence then none else some (.afterSequence sequence)
  /-- A shard without an entry begins, or exactly one finished shard above it is taken up. -/
  unentered : ∀ shard ∈ shards, ∀ tracked ∈ reader.shards, tracked.id = shard.id →
    tracked.phase ≠ .done → reader.checkpoint.get? shard.id = none →
    (start.position? shard.id = some .trimHorizon ∧
        ∀ ancestor ∈ shards, (Lineage.ofShards shards).StrictlyBelow ancestor shard →
          start.position? ancestor.id = none) ∨
      start.position? shard.id = none ∧
        ∃ ancestor ∈ shards, (Lineage.ofShards shards).StrictlyBelow ancestor shard ∧
          reader.IsDone ancestor.id ∧
          start.position? ancestor.id = some (Assignments.resumeOf reader.checkpoint ancestor.id) ∧
          ∀ other ∈ shards, (Lineage.ofShards shards).StrictlyBelow other shard →
            (start.position? other.id).isSome = true → other = ancestor
  /-- A shard that is not tracked is opened only below a consumed one. -/
  untracked : ∀ id, (start.position? id).isSome = true → id ∉ reader.ids →
    ∃ parent ∈ shards, ∃ child ∈ shards, child.id = id ∧ child.parent = some parent.id ∧
      ∃ sequence, reader.checkpoint.get? parent.id = some sequence ∧ parent.endsAt sequence = true

/-- Once something is saved a root is covered. -/
theorem Unfolds.covered_root (unfolds : Unfolds shards reader)
    (acyclic : (Lineage.ofShards shards).Acyclic) (saved : reader.checkpoint ≠ .empty) :
    ∃ root ∈ (Lineage.ofShards shards).roots,
      Assignments.Covered (.ofShards shards) reader.checkpoint root := by
  have entry : ∃ id, (reader.checkpoint.get? id).isSome = true := by
    by_contra none
    refine saved (Checkpoint.ext fun id => ?_)
    rw [Checkpoint.get?_empty, ← Option.not_isSome_iff_eq_none]
    exact fun entry => none ⟨id, entry⟩
  obtain ⟨id, entry⟩ := entry
  obtain ⟨shard, listed, same⟩ := unfolds.listed id (unfolds.saved id entry)
  obtain ⟨root, member, below⟩ := acyclic.rooted listed
  exact ⟨root, member, shard, below, same.symm ▸ entry⟩

variable {policy : StartPolicy}

/-- A covered shard with nothing covered below it is opened unless it is consumed. -/
theorem position?_of_entered (distinct : (shards.map Shard.id).Nodup)
    (acyclic : (Lineage.ofShards shards).Acyclic) {checkpoint : Checkpoint}
    (opens : Assignments.RootOpens (.ofShards shards) checkpoint policy) {shard : Shard}
    (listed : shard ∈ shards) {sequence : SequenceNumber}
    (saved : checkpoint.get? shard.id = some sequence)
    (bare : ∀ child, (Lineage.ofShards shards).IsChild shard child →
      ¬ Assignments.Covered (.ofShards shards) checkpoint child) :
    (Assignments.atStart (.ofShards shards) checkpoint policy).position? shard.id =
      if shard.endsAt sequence then none else some (.afterSequence sequence) := by
  have handsOver_iff : Assignments.HandsOver (.ofShards shards) checkpoint shard ↔
      shard.endsAt sequence = true := by
    constructor
    · rintro (⟨child, link, covered⟩ | ⟨other, same, consumed⟩)
      · exact absurd covered (bare child link)
      · rw [saved] at same
        exact Option.some.inj same ▸ consumed
    · exact fun consumed => .inr ⟨sequence, saved, consumed⟩
  have opened_iff :
      shard.id ∈ (Assignments.atStart (.ofShards shards) checkpoint policy).shards ↔
        ¬ Assignments.HandsOver (.ofShards shards) checkpoint shard := by
    obtain ⟨root, member, below⟩ := acyclic.rooted listed
    rcases Relation.ReflTransGen.cases_tail below with rfl | ⟨parent, above, link⟩
    · exact Assignments.opened_root_iff distinct opens member
    · have handsOver : Assignments.HandsOver (.ofShards shards) checkpoint parent :=
        .inl ⟨shard, link, shard, .refl, saved ▸ rfl⟩
      rw [Assignments.opened_child_iff distinct opens ⟨root, member, above⟩ link,
        and_iff_right handsOver]
  rw [handsOver_iff] at opened_iff
  by_cases consumed : shard.endsAt sequence = true
  · rw [if_pos consumed, Assignments.position?_eq_none_iff, opened_iff]
    exact not_not.mpr consumed
  · rw [if_neg consumed, Assignments.position?_of_opened distinct opens (opened_iff.mpr consumed),
      ← Assignments.agrees_afterSequence saved]

/-- A shard that is not covered is opened itself, or exactly one shard above it is. -/
theorem position?_of_uncovered (distinct : (shards.map Shard.id).Nodup)
    (acyclic : (Lineage.ofShards shards).Acyclic) {checkpoint : Checkpoint}
    (opens : Assignments.RootOpens (.ofShards shards) checkpoint policy) {shard : Shard}
    (listed : shard ∈ shards)
    (uncovered : ¬ Assignments.Covered (.ofShards shards) checkpoint shard) :
    let start := Assignments.atStart (.ofShards shards) checkpoint policy
    (start.position? shard.id = some .trimHorizon ∧
        ∀ ancestor ∈ shards, (Lineage.ofShards shards).StrictlyBelow ancestor shard →
          start.position? ancestor.id = none) ∨
      start.position? shard.id = none ∧
        ∃ ancestor ∈ shards, (Lineage.ofShards shards).StrictlyBelow ancestor shard ∧
          start.position? ancestor.id = some (Assignments.resumeOf checkpoint ancestor.id) ∧
          ∀ other ∈ shards, (Lineage.ofShards shards).StrictlyBelow other shard →
            (start.position? other.id).isSome = true → other = ancestor := by
  intro start
  obtain ⟨root, member, below⟩ := acyclic.rooted listed
  obtain ⟨cut, upper, lower, opened⟩ := Assignments.exists_opened_above distinct opens member below
    fun handsOver => uncovered handsOver.covered
  have cutListed := Lineage.listed_of_below (Lineage.mem_roots.mp member).1 upper
  -- Of two opened shards above the shard one would be above the other.
  have only : ∀ other ∈ shards, (Lineage.ofShards shards).Below other shard →
      other.id ∈ start.shards → other = cut := by
    intro other otherListed otherBelow otherOpened
    rcases Lineage.below_total distinct otherListed cutListed otherBelow lower with above | above
    · rcases Relation.reflTransGen_iff_eq_or_transGen.mp above with same | strictly
      · exact same.symm
      · exact absurd opened (Assignments.not_both_opened distinct otherListed strictly otherOpened)
    · rcases Relation.reflTransGen_iff_eq_or_transGen.mp above with same | strictly
      · exact same
      · exact absurd otherOpened (Assignments.not_both_opened distinct cutListed strictly opened)
  rcases Relation.reflTransGen_iff_eq_or_transGen.mp lower with rfl | strictly
  · refine .inl ⟨?_, fun ancestor ancestorListed above => ?_⟩
    · rw [Assignments.position?_of_opened distinct opens opened,
        ← Assignments.agrees_trimHorizon (Assignments.get?_eq_none_of_uncovered uncovered)]
    · rw [Assignments.position?_eq_none_iff]
      intro ancestorOpened
      have same := only ancestor ancestorListed above.to_reflTransGen ancestorOpened
      exact acyclic _ (same ▸ above)
  · refine .inr ⟨?_, cut, cutListed, strictly,
      Assignments.position?_of_opened distinct opens opened,
      fun other otherListed above otherOpened =>
        only other otherListed above.to_reflTransGen
          (Assignments.isSome_position?_iff.mp otherOpened)⟩
    rw [Assignments.position?_eq_none_iff]
    intro own
    have same := only shard listed .refl own
    exact acyclic _ (same ▸ strictly)

/-- A start from the checkpoint of an unfolding reader takes up what the reader has left. -/
theorem Unfolds.takesUp (unfolds : Unfolds shards reader) (indexed : reader.Indexed)
    (distinct : (shards.map Shard.id).Nodup) (acyclic : (Lineage.ofShards shards).Acyclic)
    (saved : reader.checkpoint ≠ .empty) (policy : StartPolicy) :
    TakesUp shards reader
      (Assignments.atStart (.ofShards shards) reader.checkpoint policy) := by
  have opens : Assignments.RootOpens (.ofShards shards) reader.checkpoint policy :=
    .inl (unfolds.covered_root acyclic saved)
  refine ⟨fun tracked member => unfolds.listed _ (List.mem_map_of_mem member),
    fun shard listed tracked member same unfinished sequence entry => ?_,
    fun shard listed tracked member same unfinished bare => ?_, fun id opened unknown => ?_⟩
  · exact position?_of_entered distinct acyclic opens listed entry fun child link =>
      unfolds.not_covered_child indexed member unfinished same.symm link
  · have uncovered : ¬ Assignments.Covered (.ofShards shards) reader.checkpoint shard := by
      rw [Assignments.covered_iff, bare]
      rintro (none | ⟨child, link, covered⟩)
      · cases none
      · exact unfolds.not_covered_child indexed member unfinished same.symm link covered
    rcases position?_of_uncovered distinct acyclic opens listed uncovered with
      here | ⟨elsewhere, ancestor, ancestorListed, above, position, only⟩
    · exact .inl here
    · have known : shard.id ∈ reader.ids := same ▸ List.mem_map_of_mem member
      exact .inr ⟨elsewhere, ancestor, ancestorListed, above, unfolds.done_above above known,
        position, only⟩
  · rw [Assignments.isSome_position?_iff] at opened
    obtain ⟨child, ⟨root, member, below⟩, rfl⟩ := Assignments.rooted_of_opened distinct opened
    rcases Relation.ReflTransGen.cases_tail below with rfl | ⟨parent, above, link⟩
    · obtain ⟨other, _, savedBelow, _, entry⟩ := unfolds.covered_root acyclic saved
      exact absurd (unfolds.roots (unfolds.initialized (unfolds.saved _ entry)) _ member) unknown
    · refine ⟨parent, Lineage.listed_of_below (Lineage.mem_roots.mp member).1 above, child,
        (Lineage.isChild_iff.mp link).1, rfl, (Lineage.isChild_iff.mp link).2.1, ?_⟩
      rcases ((Assignments.opened_child_iff distinct opens ⟨root, member, above⟩ link).mp
        opened).1 with ⟨sibling, siblingLink, covered⟩ | consumed
      · have siblingKnown : sibling.id ∈ reader.ids := by
          by_contra absent
          exact unfolds.not_covered absent covered
        exact absurd (unfolds.children parent child link
          (unfolds.parents parent sibling siblingLink siblingKnown)) unknown
      · exact consumed

end Reader

namespace Life

variable {σ : Type} {service : Service σ} {shards : List Shard}

/--
At every moment of a life that began with nothing saved, and in which every description of the
stream is the same acyclic list, a start from the checkpoint takes up what the reader has left,
whatever its policy is.
-/
theorem start_takes_up {settings : ReaderSettings} (oldest : settings.policy = .oldest)
    (unsaved : settings.checkpoint = .empty) (distinct : (shards.map Shard.id).Nodup)
    (acyclic : (Lineage.ofShards shards).Acyclic) (world : World σ) (acts : List Act)
    (described : ∀ description ∈
      ((begin settings world).run service acts).session.world.descriptions,
        description = shards) :
    let reader := ((begin settings world).run service acts).session.reader
    reader.checkpoint ≠ .empty →
      Assignments.atStart (.ofShards shards) reader.checkpoint .oldest =
          Assignments.atStart (.ofShards shards) reader.checkpoint .newest ∧
        ∀ policy, reader.TakesUp shards
          (Assignments.atStart (.ofShards shards) reader.checkpoint policy) := by
  intro reader saved
  have unfolding := unfolding_run service oldest unsaved distinct acyclic world acts
  have unfolds := unfolding.unfolds described
  have covered := unfolds.covered_root acyclic saved
  refine ⟨?_, unfolds.takesUp unfolding.sound.indexed distinct acyclic saved⟩
  rw [Assignments.atStart_of_covered distinct covered,
    Assignments.atStart_of_covered distinct covered]

/-- A service that ends the split shard after one record. -/
def splitOnceService : Script :=
  (Script.describing Reader.splitOnce).queueBatches "A"
    [.now (.ok ⟨[⟨"110", "key", [], none⟩], false, 0⟩)]

/-- When the split shard is done and nothing of its child is read, the split shard is taken up. -/
theorem split_taken_up :
    let life := (begin (.ofStream "stream") (.start splitOnceService .off)).run Script.service
      [.turn, .turn, .turn, .turn]
    life.session.reader.IsDone "A" ∧ life.session.reader.checkpoint.get? "A" = some "110" ∧
      life.session.reader.TakesUp Reader.splitOnce
        (Assignments.atStart (.ofShards Reader.splitOnce) life.session.reader.checkpoint
          .newest) := by
  intro life
  have shards : life.session.reader.shards =
      [⟨"A", .done, .trimHorizon⟩, ⟨"B", .waiting .trimHorizon, .trimHorizon⟩] := by
    decide +kernel
  have entry : life.session.reader.checkpoint.get? "A" = some "110" := by decide +kernel
  have saved : life.session.reader.checkpoint ≠ .empty := by decide +kernel
  refine ⟨?_, entry, (start_takes_up rfl rfl (by decide) Reader.splitOnce_acyclic _ _
    (by decide +kernel) saved).2 .newest⟩
  rw [Reader.IsDone, shards]
  exact ⟨_, List.mem_cons_self, rfl, rfl⟩

end Life
end ShardedStream
