import ShardedStream.Proofs.Assignments.Agree

/-!
What every decision on a listed shard preserves.
Starts and successions are made of such decisions alone, whatever the names and parents of the
listed shards are. So only listed shards are opened, and each of them once.
-/

namespace ShardedStream

variable {shards : List Shard} {checkpoint : Checkpoint}

/-- Whatever stands at a place of a list is listed. -/
theorem Lineage.listed_of_atPlaces {places : List Nat} {shard : Shard}
    (member : shard ∈ (ofShards shards).atPlaces places) : shard ∈ shards := by
  obtain ⟨place, _, found⟩ := List.mem_filterMap.mp member
  exact List.mem_of_getElem? found

/-- A walk down to the tips meets listed shards alone. -/
theorem Lineage.listed_of_walkTips (fuel : Nat) (stack : List ShardId) {leaves : List Shard}
    (listed : ∀ shard ∈ leaves, shard ∈ shards) :
    ∀ shard ∈ (ofShards shards).walkTips fuel stack leaves, shard ∈ shards := by
  induction fuel generalizing stack leaves with
  | zero => exact listed
  | succ fuel inductionHypothesis =>
      cases stack with
      | nil => exact listed
      | cons id stack =>
          rw [walkTips]
          split
          · exact inductionHypothesis _ listed
          · refine inductionHypothesis _ fun shard member => ?_
            rcases List.mem_append.mp member with before | new
            · exact listed shard before
            · obtain ⟨place, _, found⟩ := Option.bind_eq_some_iff.mp (Option.mem_toList.mp new)
              exact List.mem_of_getElem? found

namespace Assignments

/-- Every decision on a listed shard preserves this. -/
def Lasts (shards : List Shard) (Keeps : Assignments → Prop) : Prop :=
  ∀ made, Keeps made → ∀ shard ∈ shards, ∀ position, Keeps (made.assign shard.id position)

namespace Lasts

variable {Keeps : Assignments → Prop} {made : Assignments}
  {walk : Shard → Assignments → Bool × Assignments}

theorem assignAll (lasts : Lasts shards Keeps) (keeps : Keeps made) {chosen : List Shard}
    (here : ∀ shard ∈ chosen, shard ∈ shards) (position : Position) :
    Keeps (made.assignAll chosen position) := by
  induction chosen generalizing made with
  | nil => exact keeps
  | cons shard chosen inductionHypothesis =>
      obtain ⟨own, others⟩ := List.forall_mem_cons.mp here
      exact inductionHypothesis (lasts made keeps shard own position) others

/-- A sweep preserves what its walk preserves, and it keeps back some of its shards. -/
theorem sweep (walks : ∀ shard ∈ shards, ∀ made, Keeps made → Keeps (walk shard made).2)
    {chosen : List Shard} (here : ∀ shard ∈ chosen, shard ∈ shards) (keeps : Keeps made) :
    Keeps (Assignments.sweep walk chosen made).2 ∧
      ∀ shard ∈ (Assignments.sweep walk chosen made).1, shard ∈ shards := by
  induction chosen generalizing made with
  | nil => exact ⟨keeps, fun _ member => absurd member List.not_mem_nil⟩
  | cons shard chosen inductionHypothesis =>
      obtain ⟨own, others⟩ := List.forall_mem_cons.mp here
      obtain ⟨swept, kept⟩ := inductionHypothesis others (walks shard own made keeps)
      simp only [Assignments.sweep]
      split
      · exact ⟨swept, kept⟩
      · exact ⟨swept, List.forall_mem_cons.mpr ⟨own, kept⟩⟩

theorem cover (lasts : Lasts shards Keeps) (checkpoint : Checkpoint) (fuel : Nat) :
    ∀ shard ∈ shards, ∀ made, Keeps made →
      Keeps (cover (.ofShards shards) checkpoint fuel shard made).2 := by
  induction fuel with
  | zero => exact fun shard here made keeps => keeps
  | succ fuel inductionHypothesis =>
      intro shard here made keeps
      have children : ∀ child ∈ (Lineage.ofShards shards).children shard.id, child ∈ shards :=
        fun child => Lineage.listed_of_atPlaces
      obtain ⟨swept, kept⟩ := sweep inductionHypothesis children keeps
      simp only [Assignments.cover]
      split
      · exact lasts.assignAll swept kept _
      · split
        · exact swept
        · split
          · exact lasts.assignAll swept children _
          · exact lasts _ swept shard here _

/-- A succession sorts decisions that preserve it. -/
theorem afterEnd (lasts : Lasts shards Keeps) (keeps : Keeps empty) (finished : ShardId)
    (checkpoint : Checkpoint) :
    ∃ made, Keeps made ∧ Assignments.afterEnd (.ofShards shards) finished checkpoint =
      made.inOrderOf (.ofShards shards) := by
  have walks := lasts.cover checkpoint (depthBound (.ofShards shards))
  have folded : ∀ (children : List Shard), (∀ child ∈ children, child ∈ shards) →
      ∀ made, Keeps made → Keeps (children.foldl (succeed (Assignments.cover (.ofShards shards)
        checkpoint (depthBound (.ofShards shards)))) made) := by
    intro children
    induction children with
    | nil => exact fun _ made keeps => keeps
    | cons child children inductionHypothesis =>
        intro here made keeps
        obtain ⟨own, others⟩ := List.forall_mem_cons.mp here
        refine inductionHypothesis others _ ?_
        have walked := walks child own made keeps
        simp only [succeed]
        split
        · exact walked
        · exact lasts _ walked child own _
  exact ⟨_, folded _ (fun child => Lineage.listed_of_atPlaces) _ keeps, rfl⟩

/-- So does a start. -/
theorem atStart (lasts : Lasts shards Keeps) (keeps : Keeps empty) (checkpoint : Checkpoint)
    (policy : StartPolicy) :
    ∃ made, Keeps made ∧ Assignments.atStart (.ofShards shards) checkpoint policy =
      made.inOrderOf (.ofShards shards) := by
  have roots : ∀ root ∈ (Lineage.ofShards shards).roots, root ∈ shards :=
    fun root => Lineage.listed_of_atPlaces
  obtain ⟨swept, kept⟩ :=
    sweep (lasts.cover checkpoint (depthBound (.ofShards shards))) roots keeps
  have folded : ∀ (roots : List Shard), (∀ root ∈ roots, root ∈ shards) →
      ∀ made, Keeps made → Keeps (roots.foldl (openRoot (.ofShards shards) policy) made) := by
    intro roots
    induction roots with
    | nil => exact fun _ made keeps => keeps
    | cons root roots inductionHypothesis =>
        intro here made keeps
        obtain ⟨own, others⟩ := List.forall_mem_cons.mp here
        refine inductionHypothesis others _ ?_
        cases policy with
        | oldest => exact lasts made keeps root own _
        | newest =>
            exact lasts.assignAll keeps (Lineage.listed_of_walkTips _ _
              fun _ member => absurd member List.not_mem_nil) _
  refine ⟨_, ?_, rfl⟩
  split
  · exact folded _ kept _ swept
  · exact lasts.assignAll swept kept _

end Lasts

/-- All shards decided on so far are listed. -/
def AllListed (shards : List Shard) (made : Assignments) : Prop :=
  ∀ entry ∈ made.entries, entry.shard ∈ shards.map Shard.id

theorem allListed_lasts (shards : List Shard) : Lasts shards (AllListed shards) := by
  intro made listed shard here position entry member
  rcases mem_assign member with before | rfl
  · exact listed entry before
  · exact List.mem_map_of_mem here

theorem sound_lasts (shards : List Shard) : Lasts shards Sound :=
  fun _ sound shard _ position => (adds_assign sound shard.id position).sound

/-- A succession decides on listed shards alone. -/
theorem afterEnd_listed (shards : List Shard) (finished : ShardId) (checkpoint : Checkpoint) :
    AllListed shards (afterEnd (.ofShards shards) finished checkpoint) := by
  obtain ⟨made, listed, same⟩ := (allListed_lasts shards).afterEnd
    (fun _ member => absurd member List.not_mem_nil) finished checkpoint
  exact fun entry member => listed entry (mem_inOrderOf.mp (same ▸ member))

/-- A start decides on listed shards alone. -/
theorem atStart_listed (shards : List Shard) (checkpoint : Checkpoint) (policy : StartPolicy) :
    AllListed shards (atStart (.ofShards shards) checkpoint policy) := by
  obtain ⟨made, listed, same⟩ := (allListed_lasts shards).atStart
    (fun _ member => absurd member List.not_mem_nil) checkpoint policy
  exact fun entry member => listed entry (mem_inOrderOf.mp (same ▸ member))

/-- A succession decides on every shard once at most. -/
theorem afterEnd_sound (shards : List Shard) (finished : ShardId) (checkpoint : Checkpoint) :
    (afterEnd (.ofShards shards) finished checkpoint).Sound := by
  obtain ⟨made, sound, same⟩ := (sound_lasts shards).afterEnd sound_empty finished checkpoint
  exact same ▸ sound.inOrderOf _

/-- A start decides on every shard once at most. -/
theorem atStart_sound (shards : List Shard) (checkpoint : Checkpoint) (policy : StartPolicy) :
    (atStart (.ofShards shards) checkpoint policy).Sound := by
  obtain ⟨made, sound, same⟩ := (sound_lasts shards).atStart sound_empty checkpoint policy
  exact same ▸ sound.inOrderOf _

end Assignments
end ShardedStream
