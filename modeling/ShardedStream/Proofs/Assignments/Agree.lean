import ShardedStream.Proofs.Assignments.Cover

/-!
Decisions agree with the checkpoint on every list of shards.
Duplicate names, orphans and cycles make a list malformed, but no shard with an entry is ever opened
anywhere else than after its entry, unless the policy opens the newest records.
-/

namespace ShardedStream
namespace Assignments

variable {lineage : Lineage} {checkpoint : Checkpoint}

/-- All decisions made so far agree with the checkpoint. -/
def AllAgree (checkpoint : Checkpoint) (made : Assignments) : Prop :=
  ∀ entry ∈ made.entries, Agrees checkpoint entry

theorem allAgree_empty (checkpoint : Checkpoint) : AllAgree checkpoint empty :=
  fun _ member => absurd member List.not_mem_nil

/-- An assigned shard adds at most its own decision. -/
theorem mem_assign {made : Assignments} {shard : ShardId} {position : Position}
    {entry : Assignment} (member : entry ∈ (made.assign shard position).entries) :
    entry ∈ made.entries ∨ entry = ⟨shard, position⟩ := by
  unfold assign at member
  split at member
  · exact .inl member
  · rcases List.mem_append.mp member with before | new
    · exact .inl before
    · exact .inr (List.mem_singleton.mp new)

theorem mem_assignAll {made : Assignments} {shards : List Shard} {position : Position}
    {entry : Assignment} (member : entry ∈ (made.assignAll shards position).entries) :
    entry ∈ made.entries ∨ ∃ shard ∈ shards, entry = ⟨shard.id, position⟩ := by
  induction shards generalizing made with
  | nil => exact .inl member
  | cons shard shards inductionHypothesis =>
      rcases inductionHypothesis member with before | ⟨other, here, rfl⟩
      · rcases mem_assign before with before | rfl
        · exact .inl before
        · exact .inr ⟨shard, List.mem_cons_self, rfl⟩
      · exact .inr ⟨other, List.mem_cons_of_mem _ here, rfl⟩

namespace AllAgree

variable {made : Assignments}

theorem assign (agree : AllAgree checkpoint made) {shard : ShardId} {position : Position}
    (own : Agrees checkpoint ⟨shard, position⟩) :
    AllAgree checkpoint (made.assign shard position) := by
  intro entry member
  rcases mem_assign member with before | rfl
  · exact agree entry before
  · exact own

/-- Shards without entries may all begin at the beginning. -/
theorem assignAll (agree : AllAgree checkpoint made) {shards : List Shard}
    (bare : ∀ shard ∈ shards, checkpoint.get? shard.id = none) :
    AllAgree checkpoint (made.assignAll shards .trimHorizon) := by
  intro entry member
  rcases mem_assignAll member with before | ⟨shard, here, rfl⟩
  · exact agree entry before
  · exact agrees_trimHorizon (bare shard here)

end AllAgree

/-- A walk agrees when its decisions do and the shards it finds uncovered have no entry. -/
def WalkAgrees (checkpoint : Checkpoint) (walk : Shard → Assignments → Bool × Assignments) : Prop :=
  ∀ shard made, AllAgree checkpoint made →
    AllAgree checkpoint (walk shard made).2 ∧
      ((walk shard made).1 = false → checkpoint.get? shard.id = none)

/-- A sweep with such a walk keeps back shards without entries. -/
theorem WalkAgrees.sweep {walk : Shard → Assignments → Bool × Assignments}
    (agrees : WalkAgrees checkpoint walk) (shards : List Shard) {made : Assignments}
    (agree : AllAgree checkpoint made) :
    AllAgree checkpoint (Assignments.sweep walk shards made).2 ∧
      (Assignments.sweep walk shards made).1.Sublist shards ∧
      ∀ shard ∈ (Assignments.sweep walk shards made).1, checkpoint.get? shard.id = none := by
  induction shards generalizing made with
  | nil => exact ⟨agree, List.Sublist.refl _, fun _ member => absurd member List.not_mem_nil⟩
  | cons shard shards inductionHypothesis =>
      obtain ⟨walked, uncovered⟩ := agrees shard made agree
      obtain ⟨swept, kept, bare⟩ := inductionHypothesis walked
      simp only [Assignments.sweep]
      cases covers : (walk shard made).1 with
      | true => exact ⟨swept, kept.cons _, bare⟩
      | false =>
          refine ⟨swept, kept.cons_cons _, fun other member => ?_⟩
          rcases List.mem_cons.mp member with rfl | rest
          · exact uncovered covers
          · exact bare other rest

/-- The walk of a start and of a succession agrees, however deep it may go. -/
theorem cover_walkAgrees (lineage : Lineage) (checkpoint : Checkpoint) (fuel : Nat) :
    WalkAgrees checkpoint (cover lineage checkpoint fuel) := by
  induction fuel with
  | zero => exact fun shard made agree => ⟨agree, fun uncovered => by cases uncovered⟩
  | succ fuel inductionHypothesis =>
      intro shard made agree
      obtain ⟨swept, kept, bare⟩ :=
        inductionHypothesis.sweep (lineage.children shard.id) agree
      simp only [cover]
      split
      · exact ⟨swept.assignAll bare, fun uncovered => by cases uncovered⟩
      · rename_i all
        rw [kept.eq_of_length_le (Nat.not_lt.mp all)] at bare
        cases saved : checkpoint.get? shard.id with
        | none => exact ⟨swept, fun _ => rfl⟩
        | some sequence =>
            dsimp only
            split
            · exact ⟨swept.assignAll bare, fun uncovered => by cases uncovered⟩
            · exact ⟨swept.assign (agrees_afterSequence saved), fun uncovered => by
                cases uncovered⟩

/-- Every decision of a succession agrees with the checkpoint. -/
theorem afterEnd_agrees (lineage : Lineage) (finished : ShardId) (checkpoint : Checkpoint) :
    AllAgree checkpoint (afterEnd lineage finished checkpoint) := by
  have walk := cover_walkAgrees lineage checkpoint (depthBound lineage)
  have folded : ∀ (children : List Shard) (made : Assignments), AllAgree checkpoint made →
      AllAgree checkpoint
        (children.foldl (succeed (cover lineage checkpoint (depthBound lineage))) made) := by
    intro children
    induction children with
    | nil => exact fun made agree => agree
    | cons child children inductionHypothesis =>
        intro made agree
        refine inductionHypothesis _ ?_
        obtain ⟨walked, uncovered⟩ := walk child made agree
        unfold succeed
        dsimp only
        split
        · exact walked
        · rename_i bare
          exact walked.assign (agrees_trimHorizon (uncovered (Bool.eq_false_of_not_eq_true bare)))
  exact fun entry member => folded _ _ (allAgree_empty _) entry (mem_inOrderOf.mp member)

/-- Every decision of a start agrees with the checkpoint or is for the newest records. -/
theorem atStart_agrees (lineage : Lineage) (checkpoint : Checkpoint) (policy : StartPolicy) :
    ∀ entry ∈ (atStart lineage checkpoint policy).entries,
      Agrees checkpoint entry ∨ entry.position = .latest := by
  obtain ⟨swept, _, bare⟩ := (cover_walkAgrees lineage checkpoint (depthBound lineage)).sweep
    lineage.roots (allAgree_empty _)
  have folded : ∀ (roots : List Shard) (made : Assignments),
      (∀ root ∈ roots, checkpoint.get? root.id = none) →
      (∀ entry ∈ made.entries, Agrees checkpoint entry ∨ entry.position = .latest) →
      ∀ entry ∈ (roots.foldl (openRoot lineage policy) made).entries,
        Agrees checkpoint entry ∨ entry.position = .latest := by
    intro roots
    induction roots with
    | nil => exact fun made _ agree => agree
    | cons root roots inductionHypothesis =>
        intro made rootsBare agree
        refine inductionHypothesis _
          (fun other member => rootsBare other (List.mem_cons_of_mem _ member)) ?_
        intro entry member
        cases policy with
        | oldest =>
            rcases mem_assign member with before | rfl
            · exact agree entry before
            · exact .inl (agrees_trimHorizon (rootsBare root List.mem_cons_self))
        | newest =>
            rcases mem_assignAll member with before | ⟨tip, _, rfl⟩
            · exact agree entry before
            · exact .inr rfl
  intro entry member
  unfold atStart at member
  have unsorted := mem_inOrderOf.mp member
  split at unsorted
  · exact folded _ _ bare (fun entry member => .inl (swept entry member)) entry unsorted
  · exact .inl (swept.assignAll bare entry unsorted)

end Assignments
end ShardedStream
