import ShardedStream.Proofs.Assignments.Local
import ShardedStream.Proofs.Assignments.Order
import ShardedStream.Proofs.Lineage.Family

/-!
The meaning of a start without its walk.
Where a shard is opened is said by the entries at and below it, by the family of its parent, and by
the policy. So the order of the shard list makes no difference, and neither does an entry of a shard
that no root reaches.
-/

namespace ShardedStream
namespace Assignments

/--
A start opens the shard at this position. A shard resumes after its entry when nothing is saved
below it and it has not been read to its end. An uncovered shard begins with the oldest record when
something of its parent has been read, or, as a root, when the policy or another root says so. The
newest records are for the tips of a stream of which nothing has been read.
-/
def OpensAt (lineage : Lineage) (checkpoint : Checkpoint) (policy : StartPolicy) (shard : Shard) :
    Position → Prop
  | .afterSequence sequence =>
    checkpoint.get? shard.id = some sequence ∧ shard.endSequence ≠ some sequence ∧
      ∀ lower, lineage.StrictlyBelow shard lower → checkpoint.get? lower.id = none
  | .trimHorizon =>
    ¬ Covered lineage checkpoint shard ∧
      ((∃ parent ∈ lineage.shards, shard.parent = some parent.id ∧
          ((∃ child ∈ lineage.children parent.id, Covered lineage checkpoint child) ∨
            Consumed checkpoint parent)) ∨
        shard ∈ lineage.roots ∧
          ((∃ root ∈ lineage.roots, Covered lineage checkpoint root) ∨ policy = .oldest))
  | .latest =>
    policy = .newest ∧ (∀ root ∈ lineage.roots, ¬ Covered lineage checkpoint root) ∧
      lineage.children shard.id = []
  | .atSequence _ => False

variable {shards : List Shard} {checkpoint : Checkpoint} {policy : StartPolicy} {shard : Shard}

/-- A shard that is consumed at no entry and has none further down resumes after its entry. -/
theorem stays_iff {lineage : Lineage} {sequence : SequenceNumber}
    (saved : checkpoint.get? shard.id = some sequence) :
    ¬ HandsOver lineage checkpoint shard ↔ shard.endSequence ≠ some sequence ∧
      ∀ lower, lineage.StrictlyBelow shard lower → checkpoint.get? lower.id = none := by
  have consumed : Consumed checkpoint shard ↔ shard.endSequence = some sequence := by
    simp [Consumed, saved, Shard.endsAt_iff]
  rw [handsOver_iff, not_or, consumed]
  refine and_congr_right fun _ => ⟨fun none lower below => ?_, fun bare ⟨lower, below, entry⟩ => ?_⟩
  · rw [← Option.not_isSome_iff_eq_none]
    exact fun entry => none ⟨lower, below, entry⟩
  · rw [bare lower below] at entry
    cases entry

/-- A shard without an entry is uncovered exactly when it does not hand over. -/
theorem uncovered_iff_stays {lineage : Lineage} (bare : checkpoint.get? shard.id = none) :
    ¬ Covered lineage checkpoint shard ↔ ¬ HandsOver lineage checkpoint shard := by
  refine not_congr ⟨fun covered => covered.handsOver_or_resumes.resolve_right ?_,
    HandsOver.covered⟩
  rintro ⟨sequence, saved, _⟩
  rw [bare] at saved
  cases saved

/-- A start that opens roots opens a rooted shard when handing over comes down to it and stops. -/
theorem opened_iff (distinct : (shards.map Shard.id).Nodup)
    (opens : RootOpens (.ofShards shards) checkpoint policy)
    (rooted : (Lineage.ofShards shards).Rooted shard) :
    shard.id ∈ (atStart (.ofShards shards) checkpoint policy).shards ↔
      ((∃ parent ∈ shards, shard.parent = some parent.id ∧
          HandsOver (.ofShards shards) checkpoint parent) ∨
        shard ∈ (Lineage.ofShards shards).roots) ∧
      ¬ HandsOver (.ofShards shards) checkpoint shard := by
  rcases Lineage.root_or_child rooted with root | ⟨parent, listed, parentRooted, link⟩
  · rw [opened_root_iff distinct opens root]
    exact (and_iff_right (.inr root)).symm
  · rw [opened_child_iff distinct opens parentRooted link]
    refine and_congr_left fun _ => ⟨fun handsOver => ?_, ?_⟩
    · exact .inl ⟨parent, listed, (Lineage.isChild_iff.mp link).2.1, handsOver⟩
    · rintro (⟨named, namedListed, names, handsOver⟩ | root)
      · rwa [Lineage.named_parent_eq distinct listed link namedListed names] at handsOver
      · exact absurd link (Lineage.not_isChild_root root)

/-- What a start that opens roots opens, it opens at the position that the entry says. -/
theorem position?_iff_of_opens (distinct : (shards.map Shard.id).Nodup)
    (opens : RootOpens (.ofShards shards) checkpoint policy) {id : ShardId}
    {position : Position} :
    (atStart (.ofShards shards) checkpoint policy).position? id = some position ↔
      id ∈ (atStart (.ofShards shards) checkpoint policy).shards ∧
        position = resumeOf checkpoint id := by
  constructor
  · intro found
    have opened := isSome_position?_iff.mp (Option.isSome_iff_exists.mpr ⟨_, found⟩)
    rw [position?_of_opened distinct opens opened] at found
    exact ⟨opened, (Option.some.inj found).symm⟩
  · rintro ⟨opened, rfl⟩
    exact position?_of_opened distinct opens opened

/-- A start that opens no root opens the tips for the newest records. -/
theorem position?_iff_of_closed (distinct : (shards.map Shard.id).Nodup)
    (closed : ¬ RootOpens (.ofShards shards) checkpoint policy)
    (rooted : (Lineage.ofShards shards).Rooted shard) {position : Position} :
    (atStart (.ofShards shards) checkpoint policy).position? shard.id = some position ↔
      position = .latest ∧ (Lineage.ofShards shards).children shard.id = [] := by
  have sound := (atStart_adds distinct checkpoint policy).sound
  have latest : ∀ {position : Position},
      (atStart (.ofShards shards) checkpoint policy).position? shard.id = some position →
        position = .latest := fun found =>
    ((mem_atStart distinct checkpoint policy _).mp (sound.position?_eq_some_iff.mp found)).latest
      closed
  rw [← opened_tip_iff distinct closed rooted, ← isSome_position?_iff]
  constructor
  · exact fun found => ⟨latest found, Option.isSome_iff_exists.mpr ⟨_, found⟩⟩
  · rintro ⟨rfl, opened⟩
    obtain ⟨position, found⟩ := Option.isSome_iff_exists.mp opened
    rw [found, latest found]

/-- What is covered covers the root above it. -/
theorem rootOpens_of_covered (rooted : (Lineage.ofShards shards).Rooted shard)
    (covered : Covered (.ofShards shards) checkpoint shard) :
    RootOpens (.ofShards shards) checkpoint policy := by
  obtain ⟨root, member, below⟩ := rooted
  exact .inl ⟨root, member, covered.above below⟩

/-- The declared positions are those of a start that opens roots. -/
theorem opensAt_iff_of_opens
    (opens : RootOpens (.ofShards shards) checkpoint policy)
    (rooted : (Lineage.ofShards shards).Rooted shard) (position : Position) :
    OpensAt (.ofShards shards) checkpoint policy shard position ↔
      (((∃ parent ∈ shards, shard.parent = some parent.id ∧
            HandsOver (.ofShards shards) checkpoint parent) ∨
          shard ∈ (Lineage.ofShards shards).roots) ∧
        ¬ HandsOver (.ofShards shards) checkpoint shard) ∧
      position = resumeOf checkpoint shard.id := by
  unfold resumeOf
  cases position with
  | atSequence sequence =>
      cases checkpoint.get? shard.id <;> simp [OpensAt]
  | latest =>
      have none : ¬ OpensAt (.ofShards shards) checkpoint policy shard .latest := by
        rintro ⟨newest, bare, _⟩
        rcases opens with ⟨root, member, covered⟩ | oldest
        · exact bare root member covered
        · rw [newest] at oldest
          cases oldest
      cases checkpoint.get? shard.id <;> simp [none]
  | trimHorizon =>
      cases saved : checkpoint.get? shard.id with
      | some sequence =>
          have covered : Covered (.ofShards shards) checkpoint shard :=
            covered_iff.mpr (.inl (saved ▸ rfl))
          simp [OpensAt, covered]
      | none =>
          simp only [OpensAt, uncovered_iff_stays saved, and_true]
          rw [and_comm]
          refine and_congr_left fun _ => or_congr Iff.rfl ?_
          exact and_iff_left opens
  | afterSequence sequence =>
      cases saved : checkpoint.get? shard.id with
      | none => simp [OpensAt, saved]
      | some other =>
          simp only [OpensAt, saved, Option.some.injEq, Position.afterSequence.injEq]
          constructor
          · rintro ⟨rfl, apart, bare⟩
            refine ⟨⟨?_, (stays_iff saved).mpr ⟨apart, bare⟩⟩, rfl⟩
            -- The shard covers itself, so its parent hands over.
            rcases Lineage.root_or_child rooted with root | ⟨parent, listed, _, link⟩
            · exact .inr root
            · exact .inl ⟨parent, listed, (Lineage.isChild_iff.mp link).2.1,
                .inl ⟨shard, link, covered_iff.mpr (.inl (saved ▸ rfl))⟩⟩
          · rintro ⟨⟨_, stays⟩, rfl⟩
            exact ⟨rfl, (stays_iff saved).mp stays⟩

/-- Where no root is opened only the tips have a declared position. -/
theorem opensAt_iff_of_closed (distinct : (shards.map Shard.id).Nodup)
    (closed : ¬ RootOpens (.ofShards shards) checkpoint policy)
    (rooted : (Lineage.ofShards shards).Rooted shard) (position : Position) :
    OpensAt (.ofShards shards) checkpoint policy shard position ↔
      position = .latest ∧ (Lineage.ofShards shards).children shard.id = [] := by
  have bare : ∀ {other}, (Lineage.ofShards shards).Rooted other →
      ¬ Covered (.ofShards shards) checkpoint other :=
    fun otherRooted covered => closed (rootOpens_of_covered otherRooted covered)
  cases position with
  | atSequence sequence => simp [OpensAt]
  | latest =>
      have newest : policy = .newest := by
        cases policy with
        | oldest => exact absurd (.inr rfl) closed
        | newest => rfl
      simp only [OpensAt, newest, true_and]
      exact and_iff_right fun root member => bare (rooted_of_mem_roots member)
  | afterSequence sequence =>
      simp only [OpensAt, reduceCtorEq, false_and, iff_false]
      rintro ⟨saved, _⟩
      exact bare rooted (covered_iff.mpr (.inl (saved ▸ rfl)))
  | trimHorizon =>
      simp only [OpensAt, reduceCtorEq, false_and, iff_false]
      rintro ⟨_, ⟨named, namedListed, names, handsOver⟩ | ⟨_, opens⟩⟩
      · rcases Lineage.root_or_child rooted with root | ⟨parent, listed, parentRooted, link⟩
        · exact Lineage.not_named_of_root root namedListed names
        · rw [Lineage.named_parent_eq distinct listed link namedListed names] at handsOver
          exact bare parentRooted (HandsOver.covered handsOver)
      · exact closed opens

/-- A start opens a rooted shard at its declared position, and only there. -/
theorem position?_iff_opensAt (distinct : (shards.map Shard.id).Nodup)
    (rooted : (Lineage.ofShards shards).Rooted shard) (position : Position) :
    (atStart (.ofShards shards) checkpoint policy).position? shard.id = some position ↔
      OpensAt (.ofShards shards) checkpoint policy shard position := by
  by_cases opens : RootOpens (.ofShards shards) checkpoint policy
  · rw [opensAt_iff_of_opens opens rooted, ← opened_iff distinct opens rooted]
    exact position?_iff_of_opens distinct opens
  · rw [opensAt_iff_of_closed distinct opens rooted]
    exact position?_iff_of_closed distinct opens rooted

/-- A start looks up no entry but those of rooted shards. -/
theorem atStart_congr {other : Checkpoint}
    (same : ∀ shard, (Lineage.ofShards shards).Rooted shard →
      other.get? shard.id = checkpoint.get? shard.id) (policy : StartPolicy) :
    atStart (.ofShards shards) other policy = atStart (.ofShards shards) checkpoint policy := by
  have swept : coverAll (.ofShards shards) other (Lineage.ofShards shards).roots =
      coverAll (.ofShards shards) checkpoint (Lineage.ofShards shards).roots :=
    sweep_congr (fun root member => cover_congr _ fun lower below =>
      same lower ⟨root, member, below⟩) _
  unfold atStart
  rw [swept]

/-- Lists of the same shards declare the same positions. -/
theorem opensAt_congr {shuffled : List Shard} (same : ∀ shard, shard ∈ shuffled ↔ shard ∈ shards)
    (shard : Shard) (position : Position) :
    OpensAt (.ofShards shuffled) checkpoint policy shard position ↔
      OpensAt (.ofShards shards) checkpoint policy shard position := by
  have links := Lineage.isChild_congr same
  have covered : ∀ other, Covered (.ofShards shuffled) checkpoint other ↔
      Covered (.ofShards shards) checkpoint other := by
    intro other
    unfold Covered Lineage.Below
    rw [links]
  have listed : ∀ other, other ∈ (Lineage.ofShards shuffled).shards ↔
      other ∈ (Lineage.ofShards shards).shards := same
  cases position with
  | afterSequence sequence =>
      unfold OpensAt Lineage.StrictlyBelow
      rw [links]
  | trimHorizon =>
      simp only [OpensAt, covered, Lineage.mem_children_congr same, listed,
        Lineage.mem_roots_congr same]
  | latest =>
      simp only [OpensAt, covered, Lineage.mem_roots_congr same, List.eq_nil_iff_forall_not_mem,
        Lineage.mem_children_congr same]
  | atSequence sequence => exact Iff.rfl

/-- Only rooted shards have a position. -/
theorem position?_of_unrooted (distinct : (shards.map Shard.id).Nodup) {id : ShardId}
    (unrooted : ∀ shard, (Lineage.ofShards shards).Rooted shard → shard.id ≠ id) :
    (atStart (.ofShards shards) checkpoint policy).position? id = none := by
  rw [position?_eq_none_iff]
  intro opened
  obtain ⟨shard, rooted, same⟩ := rooted_of_opened distinct opened
  exact unrooted shard rooted same

/-- What a start opens is a rooted shard at its declared position. -/
theorem opensAt_of_mem (distinct : (shards.map Shard.id).Nodup) {entry : Assignment}
    (member : entry ∈ (atStart (.ofShards shards) checkpoint policy).entries) :
    ∃ shard, (Lineage.ofShards shards).Rooted shard ∧ shard.id = entry.shard ∧
      OpensAt (.ofShards shards) checkpoint policy shard entry.position := by
  have sound := (atStart_adds distinct checkpoint policy).sound
  obtain ⟨shard, rooted, same⟩ := rooted_of_opened distinct (List.mem_map_of_mem member)
  refine ⟨shard, rooted, same, (position?_iff_opensAt distinct rooted _).mp ?_⟩
  rw [sound.position?_eq_some_iff, same]
  exact member

/--
A start opens every rooted shard exactly where its entry, the entries below it, the family of its
parent and the policy say, and nothing else. So entries of shards that no root reaches change
nothing, and the order of the shard list changes no position.
-/
theorem start_opens_iff (distinct : (shards.map Shard.id).Nodup) (checkpoint : Checkpoint)
    (policy : StartPolicy) :
    let lineage := Lineage.ofShards shards
    let start := atStart lineage checkpoint policy
    (∀ shard, lineage.Rooted shard → ∀ position,
        start.position? shard.id = some position ↔
          OpensAt lineage checkpoint policy shard position) ∧
      (∀ entry ∈ start.entries, ∃ shard, lineage.Rooted shard ∧ shard.id = entry.shard ∧
        OpensAt lineage checkpoint policy shard entry.position) ∧
      (∀ other : Checkpoint,
        (∀ shard, lineage.Rooted shard → other.get? shard.id = checkpoint.get? shard.id) →
          atStart lineage other policy = start) ∧
      ∀ shuffled : List Shard, shuffled.Perm shards → ∀ id,
        (atStart (.ofShards shuffled) checkpoint policy).position? id = start.position? id := by
  intro lineage start
  refine ⟨fun shard rooted => position?_iff_opensAt distinct rooted,
    fun entry member => opensAt_of_mem distinct member,
    fun other same => atStart_congr same policy, fun shuffled permuted id => ?_⟩
  · have same : ∀ shard, shard ∈ shuffled ↔ shard ∈ shards := fun _ => permuted.mem_iff
    have shuffledDistinct : (shuffled.map Shard.id).Nodup :=
      (permuted.map Shard.id).nodup_iff.mpr distinct
    by_cases rooted : ∃ shard, (Lineage.ofShards shards).Rooted shard ∧ shard.id = id
    · obtain ⟨shard, rooted, rfl⟩ := rooted
      apply Option.ext
      intro position
      rw [position?_iff_opensAt distinct rooted, ← opensAt_congr same,
        position?_iff_opensAt shuffledDistinct ((Lineage.rooted_congr same shard).mpr rooted)]
    · have unrooted : ∀ shard, (Lineage.ofShards shards).Rooted shard → shard.id ≠ id :=
        fun shard reached named => rooted ⟨shard, reached, named⟩
      rw [position?_of_unrooted distinct unrooted,
        position?_of_unrooted shuffledDistinct fun shard reached =>
          unrooted shard ((Lineage.rooted_congr same shard).mp reached)]

/-- With one entry at a leaf, the leaf resumes after it and the other line begins with its oldest
record; an entry of an unlisted shard adds nothing, and the reversed list opens the same. -/
theorem splitTwice_opens :
    let lineage := Lineage.ofShards splitTwice
    let checkpoint := Checkpoint.empty.record "D" "410"
    let start := atStart lineage checkpoint .newest
    (splitTwice.map Shard.id).Nodup ∧ lineage.Rooted splitTwice[2] ∧
      lineage.Rooted splitTwice[3] ∧ start.position? "C" = some .trimHorizon ∧
      start.position? "D" = some (.afterSequence "410") ∧
      atStart lineage (checkpoint.record "Z" "1") .newest = start ∧
      (atStart (.ofShards splitTwice.reverse) checkpoint .newest).position? "D" =
        some (.afterSequence "410") := by
  intro lineage checkpoint start
  have distinct : (splitTwice.map Shard.id).Nodup := by decide
  have root : splitTwice[0] ∈ lineage.roots := by decide
  have first : lineage.IsChild splitTwice[0] splitTwice[1] := by
    unfold Lineage.IsChild
    decide
  have second : lineage.IsChild splitTwice[0] splitTwice[2] := by
    unfold Lineage.IsChild
    decide
  have leaf : lineage.IsChild splitTwice[1] splitTwice[3] := by
    unfold Lineage.IsChild
    decide
  have secondRooted : lineage.Rooted splitTwice[2] := ⟨_, root, .single second⟩
  have leafRooted : lineage.Rooted splitTwice[3] := ⟨_, root, .tail (.single first) leaf⟩
  have uncovered : ¬ Covered lineage checkpoint splitTwice[2] := by
    rintro ⟨saved, below, entry⟩
    rcases Relation.reflTransGen_iff_eq_or_transGen.mp below with rfl | further
    · revert entry
      decide +kernel
    · exact Lineage.not_strictlyBelow_of_childless (by decide) further
  have covered : Covered lineage checkpoint splitTwice[1] :=
    ⟨splitTwice[3], .single leaf, by decide +kernel⟩
  obtain ⟨opens, _, unreached, shuffled⟩ := start_opens_iff distinct checkpoint .newest
  have opensSecond : start.position? "C" = some .trimHorizon :=
    (opens splitTwice[2] secondRooted .trimHorizon).mpr
      ⟨uncovered, .inl ⟨splitTwice[0], by decide, rfl, .inl ⟨_, first, covered⟩⟩⟩
  have opensLeaf : start.position? "D" = some (.afterSequence "410") :=
    (opens splitTwice[3] leafRooted (.afterSequence "410")).mpr ⟨by decide +kernel, by decide,
      fun lower below => absurd below (Lineage.not_strictlyBelow_of_childless (by decide))⟩
  refine ⟨distinct, secondRooted, leafRooted, opensSecond, opensLeaf, ?_, ?_⟩
  · refine unreached _ fun shard rooted => ?_
    have listed : shard.id ∈ splitTwice.map Shard.id :=
      List.mem_map_of_mem (Lineage.listed_of_rooted rooted)
    have apart : "Z" ≠ shard.id := by
      rintro same
      rw [← same] at listed
      revert listed
      decide
    rw [Checkpoint.get?_record, if_neg apart]
  · exact (shuffled _ (List.reverse_perm _) "D").trans opensLeaf

end Assignments
end ShardedStream
