import ShardedStream.Proofs.Assignments.Entries
import ShardedStream.Proofs.Lineage.Descent

/-!
The meaning of the walk over a line of descent.
A walk that ends says whether its shard is covered, and the decisions below it depend only on the
covered shards and on the entries of the checkpoint.
-/

namespace ShardedStream
namespace Assignments

/-- A shard is covered when it or a shard below it has an entry. -/
def Covered (lineage : Lineage) (checkpoint : Checkpoint) (shard : Shard) : Prop :=
  ∃ saved, lineage.Below shard saved ∧ (checkpoint.get? saved.id).isSome = true

/-- A shard is consumed when its entry is its ending sequence number. -/
def Consumed (checkpoint : Checkpoint) (shard : Shard) : Prop :=
  ∃ sequence, checkpoint.get? shard.id = some sequence ∧ shard.endsAt sequence = true

/-- A shard hands over when one of its children is covered or it is consumed. -/
def HandsOver (lineage : Lineage) (checkpoint : Checkpoint) (shard : Shard) : Prop :=
  (∃ child, lineage.IsChild shard child ∧ Covered lineage checkpoint child) ∨
    Consumed checkpoint shard

/-- A shard resumes after its entry when it has not been read to its end and nothing below it. -/
def ResumesAfter (lineage : Lineage) (checkpoint : Checkpoint) (shard : Shard)
    (sequence : SequenceNumber) : Prop :=
  checkpoint.get? shard.id = some sequence ∧ ¬ HandsOver lineage checkpoint shard

/-- These are the decisions of a walk from a shard. -/
inductive Decides (lineage : Lineage) (checkpoint : Checkpoint) : Shard → Assignment → Prop where
  | deeper {shard child : Shard} {entry : Assignment} (link : lineage.IsChild shard child)
      (rest : Decides lineage checkpoint child entry) : Decides lineage checkpoint shard entry
  | fresh {shard child : Shard} (link : lineage.IsChild shard child)
      (uncovered : ¬ Covered lineage checkpoint child)
      (handsOver : HandsOver lineage checkpoint shard) :
      Decides lineage checkpoint shard ⟨child.id, .trimHorizon⟩
  | resumed {shard : Shard} {sequence : SequenceNumber}
      (resumes : ResumesAfter lineage checkpoint shard sequence) :
      Decides lineage checkpoint shard ⟨shard.id, .afterSequence sequence⟩

/-- A shard resumes after its entry, and at the beginning without one. -/
def resumeOf (checkpoint : Checkpoint) (shard : ShardId) : Position :=
  match checkpoint.get? shard with
  | some sequence => .afterSequence sequence
  | none => .trimHorizon

/-- A decision agrees with the checkpoint about where its shard resumes. -/
def Agrees (checkpoint : Checkpoint) (entry : Assignment) : Prop :=
  entry.position = resumeOf checkpoint entry.shard

variable {lineage : Lineage} {checkpoint : Checkpoint}

theorem agrees_trimHorizon {shard : ShardId} (bare : checkpoint.get? shard = none) :
    Agrees checkpoint ⟨shard, .trimHorizon⟩ := by
  simp only [Agrees, resumeOf, bare]

theorem agrees_afterSequence {shard : ShardId} {sequence : SequenceNumber}
    (saved : checkpoint.get? shard = some sequence) :
    Agrees checkpoint ⟨shard, .afterSequence sequence⟩ := by
  simp only [Agrees, resumeOf, saved]

/-- A covered shard has an entry or a covered child. -/
theorem covered_iff {shard : Shard} :
    Covered lineage checkpoint shard ↔
      (checkpoint.get? shard.id).isSome = true ∨
        ∃ child, lineage.IsChild shard child ∧ Covered lineage checkpoint child := by
  constructor
  · rintro ⟨saved, below, entry⟩
    rcases Relation.ReflTransGen.cases_head below with rfl | ⟨child, link, rest⟩
    · exact .inl entry
    · exact .inr ⟨child, link, saved, rest, entry⟩
  · rintro (entry | ⟨child, link, saved, below, entry⟩)
    · exact ⟨shard, .refl, entry⟩
    · exact ⟨saved, .head link below, entry⟩

/-- What covers a shard covers every shard above it. -/
theorem Covered.above {top shard : Shard} (below : lineage.Below top shard)
    (covered : Covered lineage checkpoint shard) : Covered lineage checkpoint top := by
  obtain ⟨saved, rest, entry⟩ := covered
  exact ⟨saved, below.trans rest, entry⟩

theorem get?_eq_none_of_uncovered {shard : Shard}
    (uncovered : ¬ Covered lineage checkpoint shard) : checkpoint.get? shard.id = none := by
  rw [← Option.not_isSome_iff_eq_none]
  exact fun entry => uncovered (covered_iff.mpr (.inl entry))

/-- An empty checkpoint covers nothing. -/
theorem not_covered_empty (lineage : Lineage) (shard : Shard) : ¬ Covered lineage .empty shard := by
  rintro ⟨saved, _, entry⟩
  rw [Checkpoint.get?_empty] at entry
  cases entry

theorem Consumed.covered {shard : Shard} (consumed : Consumed checkpoint shard) :
    Covered lineage checkpoint shard := by
  obtain ⟨sequence, entry, _⟩ := consumed
  exact covered_iff.mpr (.inl (entry ▸ rfl))

/-- A covered shard hands over or resumes. -/
theorem Covered.handsOver_or_resumes {shard : Shard} (covered : Covered lineage checkpoint shard) :
    HandsOver lineage checkpoint shard ∨
      ∃ sequence, ResumesAfter lineage checkpoint shard sequence := by
  by_cases handsOver : HandsOver lineage checkpoint shard
  · exact .inl handsOver
  · rcases covered_iff.mp covered with entry | children
    · obtain ⟨sequence, entry⟩ := Option.isSome_iff_exists.mp entry
      exact .inr ⟨sequence, entry, handsOver⟩
    · exact absurd (.inl children) handsOver

/-- What hands over is covered. -/
theorem HandsOver.covered {shard : Shard} (handsOver : HandsOver lineage checkpoint shard) :
    Covered lineage checkpoint shard := by
  rcases handsOver with children | consumed
  · exact covered_iff.mpr (.inr children)
  · exact consumed.covered

/-- Handing over stops once on the way down. -/
theorem stays_child {parent child : Shard} (stays : ¬ HandsOver lineage checkpoint parent)
    (link : lineage.IsChild parent child) : ¬ HandsOver lineage checkpoint child :=
  fun handsOver => stays (.inl ⟨child, link, handsOver.covered⟩)

theorem stays_below {top shard : Shard} (stays : ¬ HandsOver lineage checkpoint top)
    (below : lineage.Below top shard) : ¬ HandsOver lineage checkpoint shard := by
  induction below with
  | refl => exact stays
  | tail _ link inductionHypothesis => exact stays_child inductionHypothesis link

theorem ResumesAfter.covered {shard : Shard} {sequence : SequenceNumber}
    (resumes : ResumesAfter lineage checkpoint shard sequence) :
    Covered lineage checkpoint shard :=
  covered_iff.mpr (.inl (resumes.1 ▸ rfl))

/-- Every decision of a walk agrees with the checkpoint. -/
theorem Decides.agrees {shard : Shard} {entry : Assignment}
    (decides : Decides lineage checkpoint shard entry) : Agrees checkpoint entry := by
  induction decides with
  | deeper link rest inductionHypothesis => exact inductionHypothesis
  | fresh link uncovered handsOver =>
      exact agrees_trimHorizon (get?_eq_none_of_uncovered uncovered)
  | resumed resumes => exact agrees_afterSequence resumes.1

/-- Decisions that agree with one checkpoint agree with one another. -/
theorem Agrees.unique {first second : Assignment} (firstAgrees : Agrees checkpoint first)
    (secondAgrees : Agrees checkpoint second) (same : first.shard = second.shard) :
    first = second := by
  obtain ⟨shard, firstPosition⟩ := first
  obtain ⟨_, secondPosition⟩ := second
  subst same
  rw [show firstPosition = resumeOf checkpoint shard from firstAgrees,
    show secondPosition = resumeOf checkpoint shard from secondAgrees]

/-- A sweep keeps back the uncovered shards and adds the decisions of every walk. -/
theorem sweep_adds {walk : Shard → Assignments → Bool × Assignments} (covers : Shard → Bool)
    (decides : Shard → Assignment → Prop) (shards : List Shard)
    (each : ∀ shard ∈ shards, ∀ made, made.Sound →
      (walk shard made).1 = covers shard ∧ Adds made (walk shard made).2 (decides shard))
    {made : Assignments} (sound : made.Sound) :
    (sweep walk shards made).1 = shards.filter (fun shard => !covers shard) ∧
      Adds made (sweep walk shards made).2 fun entry => ∃ shard ∈ shards, decides shard entry := by
  induction shards generalizing made with
  | nil => exact ⟨rfl, (Adds.refl sound).congr fun entry => by simp⟩
  | cons shard shards inductionHypothesis =>
      obtain ⟨walked, adds⟩ := each shard List.mem_cons_self made sound
      obtain ⟨kept, added⟩ := inductionHypothesis
        (fun other member => each other (List.mem_cons_of_mem _ member)) adds.sound
      refine ⟨?_, (adds.trans added).congr fun entry => by simp⟩
      simp only [sweep]
      rw [walked, kept, List.filter_cons]
      cases covers shard <;> rfl

/-- A shard that hands over opens its uncovered children at the beginning. -/
theorem decides_of_handsOver {shard : Shard} (handsOver : HandsOver lineage checkpoint shard)
    (entry : Assignment) :
    Decides lineage checkpoint shard entry ↔
      (∃ child ∈ lineage.children shard.id, Decides lineage checkpoint child entry) ∨
        ∃ child ∈ lineage.children shard.id, ¬ Covered lineage checkpoint child ∧
          entry = ⟨child.id, .trimHorizon⟩ := by
  constructor
  · intro decides
    cases decides with
    | deeper link rest => exact .inl ⟨_, link, rest⟩
    | fresh link uncovered _ => exact .inr ⟨_, link, uncovered, rfl⟩
    | resumed resumes => exact absurd handsOver resumes.2
  · rintro (⟨child, link, rest⟩ | ⟨child, link, uncovered, rfl⟩)
    · exact .deeper link rest
    · exact .fresh link uncovered handsOver

/-- A shard that does not hand over decides at most on itself. -/
theorem decides_of_not_handsOver {shard : Shard} (stays : ¬ HandsOver lineage checkpoint shard)
    (entry : Assignment) :
    Decides lineage checkpoint shard entry ↔
      (∃ child ∈ lineage.children shard.id, Decides lineage checkpoint child entry) ∨
        ∃ sequence, checkpoint.get? shard.id = some sequence ∧
          entry = ⟨shard.id, .afterSequence sequence⟩ := by
  constructor
  · intro decides
    cases decides with
    | deeper link rest => exact .inl ⟨_, link, rest⟩
    | fresh _ _ handsOver => exact absurd handsOver stays
    | resumed resumes => exact .inr ⟨_, resumes.1, rfl⟩
  · rintro (⟨child, link, rest⟩ | ⟨sequence, saved, rfl⟩)
    · exact .deeper link rest
    · exact .resumed ⟨saved, stays⟩

open scoped Classical in
/-- A sweep keeps back fewer children than there are exactly when one of them is covered. -/
theorem length_uncovered_lt_iff {children : List Shard} :
    (children.filter fun child => !decide (Covered lineage checkpoint child)).length <
        children.length ↔
      ∃ child ∈ children, Covered lineage checkpoint child := by
  rw [List.length_filter_lt_length_iff_exists]
  simp only [Bool.not_eq_true', decide_eq_false_iff_not, not_not]

open scoped Classical in
/-- A walk that ends finds out whether its shard is covered and makes its decisions. -/
theorem cover_adds (depth : Nat) {shard : Shard} (ends : lineage.EndsWithin depth shard)
    {made : Assignments} (sound : made.Sound) :
    (cover lineage checkpoint depth shard made).1 = decide (Covered lineage checkpoint shard) ∧
      Adds made (cover lineage checkpoint depth shard made).2
        (Decides lineage checkpoint shard) := by
  induction depth generalizing shard made with
  | zero => exact ends.elim
  | succ depth inductionHypothesis =>
      obtain ⟨kept, added⟩ := @sweep_adds (cover lineage checkpoint depth)
        (fun child => decide (Covered lineage checkpoint child))
        (Decides lineage checkpoint) (lineage.children shard.id)
        (fun child link made sound => inductionHypothesis (ends child link) sound) made sound
      have shorter := @length_uncovered_lt_iff lineage checkpoint (lineage.children shard.id)
      rw [← kept] at shorter
      simp only [cover]
      by_cases childCovered : ∃ child ∈ lineage.children shard.id, Covered lineage checkpoint child
      · have handsOver : HandsOver lineage checkpoint shard := .inl childCovered
        rw [if_pos (shorter.mpr childCovered)]
        refine ⟨(decide_eq_true handsOver.covered).symm, (added.trans
          (adds_assignAll added.sound _ _)).congr fun entry => ?_⟩
        rw [decides_of_handsOver handsOver, kept]
        simp [and_assoc]
      · rw [if_neg fun less => childCovered (shorter.mp less)]
        have uncovered : ∀ child ∈ lineage.children shard.id,
            ¬ Covered lineage checkpoint child :=
          fun child link covered => childCovered ⟨child, link, covered⟩
        cases saved : checkpoint.get? shard.id with
        | none =>
            have bare : ¬ Covered lineage checkpoint shard := by
              rw [covered_iff, saved]
              exact fun covered => childCovered (covered.resolve_left Bool.false_ne_true)
            refine ⟨(decide_eq_false bare).symm, added.congr fun entry => ?_⟩
            rw [decides_of_not_handsOver fun handsOver => bare handsOver.covered, saved]
            simp
        | some sequence =>
            have covered : Covered lineage checkpoint shard := covered_iff.mpr (.inl (saved ▸ rfl))
            by_cases ended : shard.endsAt sequence
            · have handsOver : HandsOver lineage checkpoint shard := .inr ⟨sequence, saved, ended⟩
              simp only [if_pos ended]
              refine ⟨(decide_eq_true covered).symm, (added.trans
                (adds_assignAll added.sound _ _)).congr fun entry => ?_⟩
              rw [decides_of_handsOver handsOver]
              refine or_congr_right (exists_congr fun child => and_congr_right fun link => ?_)
              simp [uncovered child link]
            · have stays : ¬ HandsOver lineage checkpoint shard := by
                rintro (children | ⟨other, same, consumed⟩)
                · exact childCovered children
                · rw [saved] at same
                  exact ended (Option.some.inj same ▸ consumed)
              simp only [if_neg ended]
              refine ⟨(decide_eq_true covered).symm, (added.trans
                (adds_assign added.sound _ _)).congr fun entry => ?_⟩
              rw [decides_of_not_handsOver stays, saved]
              simp

end Assignments
end ShardedStream
