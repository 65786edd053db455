import ShardedStream.Proofs.Reader.Succession

/-!
How a reader without a checkpoint unfolds a stream that is always described alike.
It tracks the roots first, and the children of a shard when the shard is done: a tracked shard has
only finished shards above it, and below it nothing is tracked until it is finished.
-/

namespace ShardedStream
namespace Reader

/-- The tracked shards are the upper part of the lineage, and the finished ones its inside. -/
structure Unfolds (shards : List Shard) (reader : Reader) : Prop where
  listed : ∀ id ∈ reader.ids, ∃ shard ∈ shards, shard.id = id
  saved : ∀ id, (reader.checkpoint.get? id).isSome = true → id ∈ reader.ids
  fresh : reader.initialized = false → reader.shards = []
  roots : reader.initialized = true → ∀ root ∈ (Lineage.ofShards shards).roots,
    root.id ∈ reader.ids
  parents : ∀ parent child, (Lineage.ofShards shards).IsChild parent child →
    child.id ∈ reader.ids → reader.IsDone parent.id
  children : ∀ parent child, (Lineage.ofShards shards).IsChild parent child →
    reader.IsDone parent.id → child.id ∈ reader.ids

variable {shards : List Shard} {reader later : Reader}

/-- A new reader tracks nothing and has nothing saved. -/
theorem unfolds_ofSettings (shards : List Shard) {settings : ReaderSettings}
    (unsaved : settings.checkpoint = .empty) : Unfolds shards (ofSettings settings) where
  listed := fun _ member => absurd member List.not_mem_nil
  saved := fun id entry => by
    rw [ofSettings, unsaved, Checkpoint.get?_empty] at entry
    cases entry
  fresh := fun _ => rfl
  roots := fun started => by cases started
  parents := fun _ _ _ member => absurd member List.not_mem_nil
  children := fun _ _ _ done => absurd done.mem_ids List.not_mem_nil

namespace Unfolds

/-- Every shard above a tracked one is done. -/
theorem done_above (unfolds : Unfolds shards reader) {top shard : Shard}
    (below : (Lineage.ofShards shards).StrictlyBelow top shard) (member : shard.id ∈ reader.ids) :
    reader.IsDone top.id := by
  induction below with
  | single link => exact unfolds.parents _ _ link member
  | tail _ link inductionHypothesis =>
      exact inductionHypothesis (unfolds.parents _ _ link member).mem_ids

/-- Nothing is saved at or below a shard that is not tracked. -/
theorem not_covered (unfolds : Unfolds shards reader) {shard : Shard}
    (untracked : shard.id ∉ reader.ids) :
    ¬ Assignments.Covered (.ofShards shards) reader.checkpoint shard := by
  rintro ⟨saved, below, entry⟩
  have member := unfolds.saved saved.id entry
  rcases Relation.reflTransGen_iff_eq_or_transGen.mp below with same | strictly
  · exact untracked (same ▸ member)
  · exact untracked (unfolds.done_above strictly member).mem_ids

/-- Below a shard that is not done nothing is tracked. -/
theorem untracked_child (unfolds : Unfolds shards reader) (indexed : reader.Indexed)
    {tracked : Tracked} (member : tracked ∈ reader.shards) (unfinished : tracked.phase ≠ .done)
    {parent child : Shard} (same : parent.id = tracked.id)
    (link : (Lineage.ofShards shards).IsChild parent child) : child.id ∉ reader.ids := by
  intro known
  exact indexed.not_isDone member unfinished (same ▸ unfolds.parents parent child link known)

/-- A tracked shard that is not done, or that is not tracked, covers nothing through a child. -/
theorem not_covered_child (unfolds : Unfolds shards reader) (indexed : reader.Indexed)
    {tracked : Tracked} (member : tracked ∈ reader.shards) (unfinished : tracked.phase ≠ .done)
    {parent child : Shard} (same : parent.id = tracked.id)
    (link : (Lineage.ofShards shards).IsChild parent child) :
    ¬ Assignments.Covered (.ofShards shards) reader.checkpoint child :=
  unfolds.not_covered (unfolds.untracked_child indexed member unfinished same link)

/-- A reader is initialized once it tracks something. -/
theorem initialized (unfolds : Unfolds shards reader) {id : ShardId} (member : id ∈ reader.ids) :
    reader.initialized = true := by
  by_contra unready
  rw [Bool.not_eq_true] at unready
  rw [ids, unfolds.fresh unready] at member
  exact List.not_mem_nil member

/-- Handing out a record of a tracked shard saves an entry for it. -/
theorem handOut (unfolds : Unfolds shards reader) {delivery : Delivery}
    (known : delivery.shard ∈ reader.ids) : Unfolds shards (reader.handOut delivery) where
  listed := unfolds.listed
  saved := fun id entry => by
    rw [Reader.handOut, Checkpoint.get?_record] at entry
    split at entry
    · rename_i same
      exact same ▸ known
    · exact unfolds.saved id entry
  fresh := unfolds.fresh
  roots := unfolds.roots
  parents := unfolds.parents
  children := unfolds.children

/-- What tracks the same shards and has finished the same ones unfolds alike. -/
theorem congr (unfolds : Unfolds shards reader) (rests : Rests reader later) :
    Unfolds shards later where
  listed := fun id member => unfolds.listed id (rests.ids ▸ member)
  saved := fun id entry => by
    rw [rests.ids]
    exact unfolds.saved id (rests.checkpoint ▸ entry)
  fresh := fun unready => by
    have none := unfolds.fresh (rests.initialized ▸ unready)
    have ids := rests.ids
    rw [Reader.ids, Reader.ids, none] at ids
    exact List.map_eq_nil_iff.mp ids
  roots := fun ready root member => by
    rw [rests.ids]
    exact unfolds.roots (rests.initialized ▸ ready) root member
  parents := fun parent child link member => by
    rw [rests.done]
    exact unfolds.parents parent child link (rests.ids ▸ member)
  children := fun parent child link finished => by
    rw [rests.ids]
    exact unfolds.children parent child link ((rests.done _).mp finished)

/-- The start of an untouched reader tracks the roots. -/
theorem opening (unfolds : Unfolds shards reader) (indexed : reader.Indexed)
    (distinct : (shards.map Shard.id).Nodup) (oldest : reader.settings.policy = .oldest)
    (unready : reader.initialized = false) : Unfolds shards (reader.opening shards) := by
  have bare := unfolds.fresh unready
  have unsaved : reader.checkpoint = .empty := by
    ext id : 1
    rw [Checkpoint.get?_empty, ← Option.not_isSome_iff_eq_none]
    intro entry
    have member := unfolds.saved id entry
    rw [ids, bare] at member
    exact List.not_mem_nil member
  have tracks := indexed.track
    (Assignments.atStart (.ofShards shards) reader.checkpoint reader.settings.policy)
  have mem_ids_iff : ∀ id, id ∈ (reader.opening shards).ids ↔
      ∃ root ∈ (Lineage.ofShards shards).roots, root.id = id := by
    intro id
    rw [← Assignments.opened_unsaved_iff distinct, ← unsaved, ← oldest, Assignments.mem_shards]
    constructor
    · intro member
      rw [ids, Reader.opening, tracks.shards, bare, List.nil_append, List.map_map] at member
      obtain ⟨entry, here, rfl⟩ := List.mem_map.mp member
      exact ⟨entry.position, (tracks.chosen entry here).1⟩
    · rintro ⟨position, member⟩
      exact tracks.every _ member
  have none_done : ∀ id, ¬ (reader.opening shards).IsDone id := by
    rintro id ⟨tracked, member, _, done⟩
    rw [Reader.opening, tracks.shards, bare, List.nil_append] at member
    obtain ⟨entry, _, rfl⟩ := List.mem_map.mp member
    cases done
  refine ⟨fun id member => ?_, fun id entry => ?_, fun ready => ?_, fun _ root member => ?_,
    fun parent child link member => ?_, fun parent child link done => absurd done (none_done _)⟩
  · obtain ⟨root, rootMember, same⟩ := (mem_ids_iff id).mp member
    exact ⟨root, (Lineage.mem_roots.mp rootMember).1, same⟩
  · rw [Reader.opening, tracks.rest, unsaved, Checkpoint.get?_empty] at entry
    cases entry
  · cases ready
  · exact (mem_ids_iff root.id).mpr ⟨root, member, rfl⟩
  · obtain ⟨root, rootMember, same⟩ := (mem_ids_iff child.id).mp member
    rw [← Lineage.eq_of_id_eq distinct (Lineage.mem_roots.mp rootMember).1
      (Lineage.isChild_iff.mp link).1 same] at link
    exact absurd link (Lineage.not_isChild_root rootMember)

/-- The successors of an exhausted shard are all its children. -/
theorem mem_successors_iff (unfolds : Unfolds shards reader) (indexed : reader.Indexed)
    (distinct : (shards.map Shard.id).Nodup) (acyclic : (Lineage.ofShards shards).Acyclic)
    {tracked : Tracked} (member : tracked ∈ reader.shards) (ended : tracked.phase = .exhausted)
    {finished : Shard} (listed : finished ∈ shards) (same : finished.id = tracked.id)
    {id : ShardId} :
    (∃ entry ∈ (reader.successors tracked.id shards).entries, entry.shard = id) ↔
      ∃ child, (Lineage.ofShards shards).IsChild finished child ∧ child.id = id := by
  have unfinished : tracked.phase ≠ .done := by
    rw [ended]
    exact Phase.noConfusion
  have uncovered : ∀ child, (Lineage.ofShards shards).IsChild finished child →
      ¬ Assignments.Covered (.ofShards shards) reader.checkpoint child :=
    fun child link => unfolds.not_covered_child indexed member unfinished same link
  rw [← same]
  constructor
  · rintro ⟨entry, chosen, rfl⟩
    have opened : entry.shard ∈
        (Assignments.afterEnd (.ofShards shards) finished.id reader.checkpoint).shards :=
      List.mem_map_of_mem (Assignments.mem_without.mp chosen).1
    obtain ⟨position, child, link, decides | ⟨_, equal⟩⟩ :=
      (Assignments.mem_shards_afterEnd distinct (acyclic.rooted listed)).mp opened
    · exact absurd decides.covered (uncovered child link)
    · exact ⟨child, link, (congrArg Assignment.shard equal).symm⟩
  · rintro ⟨child, link, rfl⟩
    exact mem_successors indexed distinct acyclic link listed (uncovered child link)
      (unfolds.untracked_child indexed member unfinished same link)

/-- A shard that is done has all its children tracked. -/
theorem succeed (unfolds : Unfolds shards reader) (indexed : reader.Indexed)
    (distinct : (shards.map Shard.id).Nodup) (acyclic : (Lineage.ofShards shards).Acyclic)
    {tracked : Tracked} (member : tracked ∈ reader.shards) (ended : tracked.phase = .exhausted)
    (follows : Follows reader tracked.id (some .done)
      (reader.successors tracked.id shards).entries later) : Unfolds shards later := by
  obtain ⟨finished, listed, same⟩ := unfolds.listed tracked.id (List.mem_map_of_mem member)
  have successors : ∀ id, (∃ entry ∈ (reader.successors tracked.id shards).entries,
      entry.shard = id) ↔
        ∃ child, (Lineage.ofShards shards).IsChild finished child ∧ child.id = id :=
    fun _ => unfolds.mem_successors_iff indexed distinct acyclic member ended listed same
  have done_iff : ∀ id, later.IsDone id ↔ id = tracked.id ∨ reader.IsDone id :=
    fun _ => follows.isDone_finished_iff member
  refine ⟨fun id here => ?_, fun id entry => ?_, fun unready => ?_, fun _ root here => ?_,
    fun parent child link here => ?_, fun parent child link done => ?_⟩
  · rcases follows.mem_ids_iff.mp here with before | new
    · exact unfolds.listed id before
    · obtain ⟨child, link, childSame⟩ := (successors id).mp new
      exact ⟨child, (Lineage.isChild_iff.mp link).1, childSame⟩
  · exact follows.ids_prefix.subset (unfolds.saved id (follows.checkpoint ▸ entry))
  · rw [follows.initialized, unfolds.initialized (List.mem_map_of_mem member)] at unready
    cases unready
  · exact follows.ids_prefix.subset
      (unfolds.roots (unfolds.initialized (List.mem_map_of_mem member)) root here)
  · rw [done_iff]
    rcases follows.mem_ids_iff.mp here with before | new
    · exact .inr (unfolds.parents parent child link before)
    · obtain ⟨other, otherLink, otherSame⟩ := (successors child.id).mp new
      rw [Lineage.eq_of_id_eq distinct (Lineage.isChild_iff.mp otherLink).1
        (Lineage.isChild_iff.mp link).1 otherSame] at otherLink
      have named := (Lineage.isChild_iff.mp otherLink).2.1
      rw [(Lineage.isChild_iff.mp link).2.1, same] at named
      exact .inl (Option.some.inj named)
  · rw [follows.mem_ids_iff]
    rcases (done_iff parent.id).mp done with own | before
    · refine .inr ((successors child.id).mpr ⟨child, ?_, rfl⟩)
      rw [Lineage.IsChild, same, ← own]
      exact link
    · exact .inl (unfolds.children parent child link before)

/-- Once an initialized reader has no active shard left, every shard of the stream is done. -/
theorem done_of_inactive (unfolds : Unfolds shards reader)
    (acyclic : (Lineage.ofShards shards).Acyclic) (ready : reader.initialized = true)
    (inactive : reader.activeShards = []) {shard : Shard} (listed : shard ∈ shards) :
    reader.IsDone shard.id := by
  have done : ∀ id ∈ reader.ids, reader.IsDone id := by
    intro id known
    obtain ⟨tracked, member, rfl⟩ := mem_ids.mp known
    refine ⟨tracked, member, rfl, ?_⟩
    by_contra unfinished
    have active : tracked.id ∈ reader.activeShards :=
      List.mem_map_of_mem
        (List.mem_filter.mpr ⟨member, by simpa [Tracked.isActive] using unfinished⟩)
    rw [inactive] at active
    exact List.not_mem_nil active
  obtain ⟨root, rootMember, below⟩ := acyclic.rooted listed
  clear listed
  induction below with
  | refl => exact done _ (unfolds.roots ready root rootMember)
  | tail _ link inductionHypothesis =>
      exact done _ (unfolds.children _ _ link inductionHypothesis)

end Unfolds

end Reader
end ShardedStream
