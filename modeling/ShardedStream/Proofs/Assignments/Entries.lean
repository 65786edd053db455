import Mathlib.Data.List.Nodup
import ShardedStream.Assignments.Cover

/-!
Entries of assignments.
The decided shards are the shards of the entries, each once, and every operation adds to the entries
or removes from them as a set of decisions would.
-/

namespace ShardedStream
namespace Assignments

/-- The decided shards are exactly the shards of the entries, and no shard has two. -/
structure Sound (made : Assignments) : Prop where
  distinct : made.shards.Nodup
  decided : ∀ shard, made.decided.contains shard = true ↔ shard ∈ made.shards

theorem mem_shards {made : Assignments} {shard : ShardId} :
    shard ∈ made.shards ↔ ∃ position, ⟨shard, position⟩ ∈ made.entries := by
  rw [shards, List.mem_map]
  constructor
  · rintro ⟨⟨_, position⟩, member, rfl⟩
    exact ⟨position, member⟩
  · rintro ⟨position, member⟩
    exact ⟨_, member, rfl⟩

theorem sound_empty : empty.Sound :=
  ⟨List.nodup_nil, fun shard => by simp [empty, shards]⟩

/-- The only entry for a shard gives its position. -/
theorem Sound.position?_eq_some_iff {made : Assignments} (sound : made.Sound) {shard : ShardId}
    {position : Position} :
    made.position? shard = some position ↔ ⟨shard, position⟩ ∈ made.entries := by
  rw [position?, Option.map_eq_some_iff]
  constructor
  · rintro ⟨entry, found, rfl⟩
    have same : entry.shard = shard := by simpa using List.find?_some found
    rw [← same]
    exact List.mem_of_find?_eq_some found
  · intro member
    obtain ⟨entry, found⟩ := Option.isSome_iff_exists.mp
      (List.find?_isSome (p := fun entry => entry.shard == shard).mpr
        ⟨_, member, beq_self_eq_true shard⟩)
    have same : entry.shard = shard := by simpa using List.find?_some found
    have entryMember := List.mem_of_find?_eq_some found
    rw [List.inj_on_of_nodup_map sound.distinct entryMember member same] at found
    exact ⟨_, found, rfl⟩

/-- A shard without an entry has no position. -/
theorem position?_eq_none_iff {made : Assignments} {shard : ShardId} :
    made.position? shard = none ↔ shard ∉ made.shards := by
  rw [position?, Option.map_eq_none_iff, List.find?_eq_none, mem_shards, not_exists]
  constructor
  · intro absent position member
    exact absent _ member (beq_self_eq_true shard)
  · intro absent entry member same
    exact absent entry.position (by rwa [← eq_of_beq same])

theorem isSome_position?_iff {made : Assignments} {shard : ShardId} :
    (made.position? shard).isSome = true ↔ shard ∈ made.shards := by
  rw [Option.isSome_iff_ne_none, ne_eq, position?_eq_none_iff, not_not]

/-- These are the decisions that one set of assignments adds to another. -/
structure Adds (made later : Assignments) (chosen : Assignment → Prop) : Prop where
  sound : later.Sound
  keeps : ∀ entry ∈ made.entries, entry ∈ later.entries
  only : ∀ entry ∈ later.entries, entry ∈ made.entries ∨ chosen entry
  every : ∀ entry, chosen entry → entry.shard ∈ later.shards

namespace Adds

variable {made next later : Assignments} {first second : Assignment → Prop}

theorem keeps_shards (adds : Adds made later first) {shard : ShardId}
    (member : shard ∈ made.shards) : shard ∈ later.shards := by
  obtain ⟨position, here⟩ := mem_shards.mp member
  exact mem_shards.mpr ⟨position, adds.keeps _ here⟩

/-- Nothing added is nothing chosen. -/
theorem refl (sound : made.Sound) : Adds made made fun _ => False :=
  ⟨sound, fun _ member => member, fun _ member => .inl member, fun _ => False.elim⟩

theorem trans (before : Adds made next first) (after : Adds next later second) :
    Adds made later fun entry => first entry ∨ second entry where
  sound := after.sound
  keeps := fun entry member => after.keeps entry (before.keeps entry member)
  only := fun entry member => by
    rcases after.only entry member with early | chosen
    · exact (before.only entry early).imp_right .inl
    · exact .inr (.inr chosen)
  every := fun entry chosen => by
    rcases chosen with early | late
    · exact after.keeps_shards (before.every entry early)
    · exact after.every entry late

theorem congr (adds : Adds made later first) (same : ∀ entry, first entry ↔ second entry) :
    Adds made later second where
  sound := adds.sound
  keeps := adds.keeps
  only := fun entry member => (adds.only entry member).imp_right (same entry).mp
  every := fun entry chosen => adds.every entry ((same entry).mpr chosen)

/-- Decisions that never disagree about a shard are all entries. -/
theorem mem_iff (adds : Adds empty later first)
    (agree : ∀ one other, first one → first other → one.shard = other.shard → one = other)
    (entry : Assignment) : entry ∈ later.entries ↔ first entry := by
  have chosenOnly : ∀ entry ∈ later.entries, first entry := fun entry member =>
    (adds.only entry member).resolve_left List.not_mem_nil
  constructor
  · exact chosenOnly entry
  · intro chosen
    obtain ⟨position, member⟩ := mem_shards.mp (adds.every entry chosen)
    rw [agree entry _ chosen (chosenOnly _ member) rfl]
    exact member

end Adds

/-- One decision is added unless the shard has one. -/
theorem adds_assign {made : Assignments} (sound : made.Sound) (shard : ShardId)
    (position : Position) :
    Adds made (made.assign shard position) fun entry => entry = ⟨shard, position⟩ := by
  unfold assign
  by_cases known : made.decided.contains shard
  · rw [if_pos known]
    refine ⟨sound, fun _ member => member, fun _ member => .inl member, ?_⟩
    rintro _ rfl
    exact (sound.decided shard).mp known
  · rw [if_neg known]
    have fresh : shard ∉ made.shards := fun member => known ((sound.decided shard).mpr member)
    refine ⟨⟨?_, fun other => ?_⟩, fun _ member => List.mem_append_left _ member, ?_, ?_⟩
    · simp only [shards, List.map_append, List.map_cons, List.map_nil]
      exact List.nodup_append'.mpr ⟨sound.distinct, List.nodup_singleton _,
        List.disjoint_singleton.mpr fresh⟩
    · rw [Std.ExtTreeSet.contains_insert, Bool.or_eq_true, sound.decided other, beq_iff_eq,
        Std.LawfulEqCmp.compare_eq_iff_eq, or_comm]
      simp only [shards, List.map_append, List.map_cons, List.map_nil, List.mem_append,
        List.mem_singleton, eq_comm (a := other)]
    · intro entry member
      simpa using member
    · rintro _ rfl
      simp [shards]

/-- Every listed shard is assigned. -/
theorem adds_assignAll {made : Assignments} (sound : made.Sound) (shards : List Shard)
    (position : Position) :
    Adds made (made.assignAll shards position) fun entry =>
      ∃ shard ∈ shards, entry = ⟨shard.id, position⟩ := by
  induction shards generalizing made with
  | nil => exact (Adds.refl sound).congr fun entry => by simp
  | cons shard shards inductionHypothesis =>
      have first := adds_assign sound shard.id position
      exact (first.trans (inductionHypothesis first.sound)).congr fun entry => by simp

/-- Sorting keeps the entries. -/
theorem mem_inOrderOf {made : Assignments} {lineage : Lineage} {entry : Assignment} :
    entry ∈ (made.inOrderOf lineage).entries ↔ entry ∈ made.entries :=
  List.mem_mergeSort

theorem mem_shards_inOrderOf {made : Assignments} {lineage : Lineage} {shard : ShardId} :
    shard ∈ (made.inOrderOf lineage).shards ↔ shard ∈ made.shards := by
  simp only [mem_shards, mem_inOrderOf]

theorem Sound.inOrderOf {made : Assignments} (sound : made.Sound) (lineage : Lineage) :
    (made.inOrderOf lineage).Sound where
  distinct := ((List.mergeSort_perm _ _).map Assignment.shard).nodup_iff.mpr sound.distinct
  decided := fun shard => by
    rw [mem_shards_inOrderOf]
    exact sound.decided shard

/-- Only the skipped shards lose their entries. -/
theorem mem_without {made : Assignments} {skip : Std.ExtTreeSet ShardId} {entry : Assignment} :
    entry ∈ (made.without skip).entries ↔
      entry ∈ made.entries ∧ skip.contains entry.shard = false := by
  rw [without, List.mem_filter, Bool.not_eq_true']

end Assignments
end ShardedStream
