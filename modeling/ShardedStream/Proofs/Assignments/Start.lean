import ShardedStream.Proofs.Assignments.Cover
import ShardedStream.Proofs.Lineage.Tips

/-!
The meaning of a start and of a succession.
Which shards are opened, and where, is said by the covered shards alone.
-/

namespace ShardedStream
namespace Assignments

variable {shards : List Shard} {lineage : Lineage} {checkpoint : Checkpoint}

/-- An uncovered root opens at the beginning when another is covered or the policy says so. -/
def RootOpens (lineage : Lineage) (checkpoint : Checkpoint) (policy : StartPolicy) : Prop :=
  (∃ root ∈ lineage.roots, Covered lineage checkpoint root) ∨ policy = .oldest

/-- These are the decisions at the start of a stream. -/
def Starts (lineage : Lineage) (checkpoint : Checkpoint) (policy : StartPolicy)
    (entry : Assignment) : Prop :=
  (∃ root ∈ lineage.roots, Decides lineage checkpoint root entry) ∨
    (RootOpens lineage checkpoint policy ∧ ∃ root ∈ lineage.roots,
      ¬ Covered lineage checkpoint root ∧ entry = ⟨root.id, .trimHorizon⟩) ∨
    (¬ RootOpens lineage checkpoint policy ∧ ∃ root ∈ lineage.roots,
      ∃ tip ∈ lineage.tipsBelow root.id, entry = ⟨tip.id, .latest⟩)

/-- These are the decisions after the end of a shard. -/
def Succeeds (lineage : Lineage) (checkpoint : Checkpoint) (finished : ShardId)
    (entry : Assignment) : Prop :=
  ∃ child ∈ lineage.children finished, Decides lineage checkpoint child entry ∨
    (¬ Covered lineage checkpoint child ∧ entry = ⟨child.id, .trimHorizon⟩)

/-- The policy adds its decisions root by root. -/
theorem openRoots_adds (lineage : Lineage) (policy : StartPolicy) (roots : List Shard)
    {made : Assignments} (sound : made.Sound) :
    Adds made (roots.foldl (openRoot lineage policy) made) fun entry => ∃ root ∈ roots,
      (policy = .oldest ∧ entry = ⟨root.id, .trimHorizon⟩) ∨
        (policy = .newest ∧ ∃ tip ∈ lineage.tipsBelow root.id, entry = ⟨tip.id, .latest⟩) := by
  induction roots generalizing made with
  | nil => exact (Adds.refl sound).congr fun entry => by simp
  | cons root roots inductionHypothesis =>
      have first : Adds made (openRoot lineage policy made root) fun entry =>
          (policy = .oldest ∧ entry = ⟨root.id, .trimHorizon⟩) ∨
            (policy = .newest ∧ ∃ tip ∈ lineage.tipsBelow root.id, entry = ⟨tip.id, .latest⟩) := by
        cases policy with
        | oldest => exact (adds_assign sound _ _).congr fun entry => by simp
        | newest => exact (adds_assignAll sound _ _).congr fun entry => by simp
      exact (first.trans (inductionHypothesis first.sound)).congr fun entry => by simp

/-- The children of a finished shard add their decisions one by one. -/
theorem succeed_adds {walk : Shard → Assignments → Bool × Assignments} (covers : Shard → Bool)
    (decides : Shard → Assignment → Prop) (children : List Shard)
    (each : ∀ child ∈ children, ∀ made, made.Sound →
      (walk child made).1 = covers child ∧ Adds made (walk child made).2 (decides child))
    {made : Assignments} (sound : made.Sound) :
    Adds made (children.foldl (succeed walk) made) fun entry => ∃ child ∈ children,
      decides child entry ∨ (covers child = false ∧ entry = ⟨child.id, .trimHorizon⟩) := by
  induction children generalizing made with
  | nil => exact (Adds.refl sound).congr fun entry => by simp
  | cons child children inductionHypothesis =>
      obtain ⟨walked, adds⟩ := each child List.mem_cons_self made sound
      have first : Adds made (succeed walk made child) fun entry =>
          decides child entry ∨ (covers child = false ∧ entry = ⟨child.id, .trimHorizon⟩) := by
        simp only [succeed, walked]
        cases covered : covers child with
        | true => exact adds.congr fun entry => by simp
        | false =>
            exact (adds.trans (adds_assign adds.sound _ _)).congr fun entry => by simp
      exact (first.trans (inductionHypothesis
        (fun other member => each other (List.mem_cons_of_mem _ member)) first.sound)).congr
          fun entry => by simp

theorem rooted_of_mem_roots {root : Shard} (member : root ∈ lineage.roots) : lineage.Rooted root :=
  ⟨root, member, .refl⟩

theorem rooted_child {parent child : Shard} (rooted : lineage.Rooted parent)
    (link : lineage.IsChild parent child) : lineage.Rooted child := by
  obtain ⟨root, member, below⟩ := rooted
  exact ⟨root, member, below.tail link⟩

/-- Sorting adds nothing. -/
theorem Adds.inOrderOf {made later : Assignments} {chosen : Assignment → Prop}
    (adds : Adds made later chosen) (lineage : Lineage) :
    Adds made (later.inOrderOf lineage) chosen where
  sound := adds.sound.inOrderOf lineage
  keeps := fun entry member => mem_inOrderOf.mpr (adds.keeps entry member)
  only := fun entry member => adds.only entry (mem_inOrderOf.mp member)
  every := fun entry chosen => mem_shards_inOrderOf.mpr (adds.every entry chosen)

open scoped Classical in
/-- The sweep of the roots keeps back the uncovered ones. -/
theorem coverAll_roots (distinct : (shards.map Shard.id).Nodup) (checkpoint : Checkpoint) :
    (coverAll (.ofShards shards) checkpoint (Lineage.ofShards shards).roots).1 =
        (Lineage.ofShards shards).roots.filter
          (fun root => !decide (Covered (.ofShards shards) checkpoint root)) ∧
      Adds empty (coverAll (.ofShards shards) checkpoint (Lineage.ofShards shards).roots).2
        fun entry => ∃ root ∈ (Lineage.ofShards shards).roots,
          Decides (.ofShards shards) checkpoint root entry :=
  sweep_adds _ _ _ (fun _ member _ sound =>
    cover_adds _ ((rooted_of_mem_roots member).endsWithin distinct) sound) sound_empty

/-- A start makes its decisions and no others. -/
theorem atStart_adds (distinct : (shards.map Shard.id).Nodup) (checkpoint : Checkpoint)
    (policy : StartPolicy) :
    Adds empty (atStart (.ofShards shards) checkpoint policy)
      (Starts (.ofShards shards) checkpoint policy) := by
  classical
  refine Adds.inOrderOf ?_ _
  have swept := coverAll_roots distinct checkpoint
  generalize coverAll (.ofShards shards) checkpoint (Lineage.ofShards shards).roots = made
    at swept ⊢
  unfold Starts
  generalize Lineage.ofShards shards = lineage at swept ⊢
  obtain ⟨kept, added⟩ := swept
  by_cases covered : ∃ root ∈ lineage.roots, Covered lineage checkpoint root
  · have opens : RootOpens lineage checkpoint policy := .inl covered
    have less : made.1.length < lineage.roots.length := by
      rw [kept, List.length_filter_lt_length_iff_exists]
      simpa using covered
    rw [if_neg (Nat.ne_of_lt less)]
    refine (added.trans (adds_assignAll added.sound _ _)).congr fun entry => or_congr_right ?_
    rw [kept]
    simp [opens, and_assoc]
  · have bare : ∀ root ∈ lineage.roots, ¬ Covered lineage checkpoint root :=
      fun root member rootCovered => covered ⟨root, member, rootCovered⟩
    have all : made.1 = lineage.roots := by
      rw [kept, List.filter_eq_self]
      exact fun root member => by simpa using bare root member
    rw [all, if_pos rfl]
    refine (added.trans (openRoots_adds lineage policy _ added.sound)).congr fun entry =>
      or_congr_right ?_
    cases policy with
    | oldest =>
        have opens : RootOpens lineage checkpoint .oldest := .inr rfl
        simp only [opens, true_and, not_true_eq_false, false_and, or_false, reduceCtorEq]
        exact exists_congr fun root => and_congr_right fun member => by simp [bare root member]
    | newest =>
        have closed : ¬ RootOpens lineage checkpoint .newest := by
          rintro (rootCovered | other)
          · exact covered rootCovered
          · cases other
        simp [closed]

/-- Once a root is covered the policy has no say. -/
theorem atStart_of_covered (distinct : (shards.map Shard.id).Nodup)
    (covered : ∃ root ∈ (Lineage.ofShards shards).roots,
      Covered (.ofShards shards) checkpoint root) (policy : StartPolicy) :
    atStart (.ofShards shards) checkpoint policy =
      ((coverAll (.ofShards shards) checkpoint (Lineage.ofShards shards).roots).2.assignAll
        (coverAll (.ofShards shards) checkpoint (Lineage.ofShards shards).roots).1
        .trimHorizon).inOrderOf (.ofShards shards) := by
  have less : (coverAll (.ofShards shards) checkpoint (Lineage.ofShards shards).roots).1.length <
      (Lineage.ofShards shards).roots.length := by
    rw [(coverAll_roots distinct checkpoint).1, List.length_filter_lt_length_iff_exists]
    simpa using covered
  unfold atStart
  dsimp only
  rw [if_neg (Nat.ne_of_lt less)]

open scoped Classical in
/-- A succession makes its decisions and no others. -/
theorem afterEnd_adds (checkpoint : Checkpoint) {finished : ShardId}
    (ends : ∀ child ∈ (Lineage.ofShards shards).children finished,
      (Lineage.ofShards shards).EndsWithin shards.length child) :
    Adds empty (afterEnd (.ofShards shards) finished checkpoint)
      (Succeeds (.ofShards shards) checkpoint finished) := by
  refine Adds.inOrderOf ?_ _
  refine (succeed_adds (fun child => decide (Covered (.ofShards shards) checkpoint child))
    (Decides (.ofShards shards) checkpoint) _ (fun child link made sound =>
      cover_adds _ (ends child link) sound) sound_empty).congr fun entry => ?_
  simp [Succeeds]

/-- Every shard with a decision below it is covered. -/
theorem Decides.covered {shard : Shard} {entry : Assignment}
    (decides : Decides lineage checkpoint shard entry) : Covered lineage checkpoint shard := by
  induction decides with
  | deeper link rest inductionHypothesis => exact inductionHypothesis.above (.single link)
  | fresh link uncovered handsOver => exact handsOver.covered
  | resumed resumes => exact resumes.covered

/-- The decisions of a succession agree with the checkpoint. -/
theorem Succeeds.agrees {finished : ShardId} {entry : Assignment}
    (succeeds : Succeeds lineage checkpoint finished entry) : Agrees checkpoint entry := by
  obtain ⟨child, _, decides | ⟨uncovered, rfl⟩⟩ := succeeds
  · exact decides.agrees
  · exact agrees_trimHorizon (get?_eq_none_of_uncovered uncovered)

/-- The decisions of a start agree with the checkpoint unless the policy opens the tips. -/
theorem Starts.agrees {policy : StartPolicy} {entry : Assignment}
    (opens : RootOpens lineage checkpoint policy)
    (starts : Starts lineage checkpoint policy entry) : Agrees checkpoint entry := by
  rcases starts with ⟨root, _, decides⟩ | ⟨_, root, _, uncovered, rfl⟩ | ⟨closed, _⟩
  · exact decides.agrees
  · exact agrees_trimHorizon (get?_eq_none_of_uncovered uncovered)
  · exact absurd opens closed

/-- Where the policy opens the tips, every decision is for the newest records. -/
theorem Starts.latest {policy : StartPolicy} {entry : Assignment}
    (closed : ¬ RootOpens lineage checkpoint policy)
    (starts : Starts lineage checkpoint policy entry) : entry.position = .latest := by
  rcases starts with ⟨root, member, decides⟩ | ⟨opens, _⟩ | ⟨_, root, _, tip, _, rfl⟩
  · exact absurd (.inl ⟨root, member, decides.covered⟩) closed
  · exact absurd opens closed
  · rfl

/-- The entries of a start are its decisions. -/
theorem mem_atStart (distinct : (shards.map Shard.id).Nodup) (checkpoint : Checkpoint)
    (policy : StartPolicy) (entry : Assignment) :
    entry ∈ (atStart (.ofShards shards) checkpoint policy).entries ↔
      Starts (.ofShards shards) checkpoint policy entry := by
  refine (atStart_adds distinct checkpoint policy).mem_iff (fun first second one other same => ?_) _
  by_cases opens : RootOpens (.ofShards shards) checkpoint policy
  · exact (one.agrees opens).unique (other.agrees opens) same
  · have position := (one.latest opens).trans (other.latest opens).symm
    obtain ⟨_, _⟩ := first
    obtain ⟨_, _⟩ := second
    cases same
    cases position
    rfl

/-- The entries of a succession are its decisions. -/
theorem mem_afterEnd (checkpoint : Checkpoint) {finished : ShardId}
    (ends : ∀ child ∈ (Lineage.ofShards shards).children finished,
      (Lineage.ofShards shards).EndsWithin shards.length child) (entry : Assignment) :
    entry ∈ (afterEnd (.ofShards shards) finished checkpoint).entries ↔
      Succeeds (.ofShards shards) checkpoint finished entry :=
  (afterEnd_adds checkpoint ends).mem_iff
    (fun _ _ one other same => one.agrees.unique other.agrees same) entry

end Assignments
end ShardedStream
