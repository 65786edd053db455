import ShardedStream.Proofs.Reader.Index

/-!
What becomes of a reader.
An applied outcome moves one shard into another phase and tracks the shards that it brings; nothing
that happens to a reader removes or moves a shard that is tracked.
-/

namespace ShardedStream

/-- A tracked shard restarts after its entry, or at its start before it has one. -/
def Tracked.resume (tracked : Tracked) (checkpoint : Checkpoint) : Position :=
  match checkpoint.get? tracked.id with
  | some sequence => .afterSequence sequence
  | none => tracked.start

/-- Without a new phase a shard stays in its own. -/
def Tracked.enter (tracked : Tracked) (phase : Option Phase) : Tracked :=
  { tracked with phase := phase.getD tracked.phase }

@[simp] theorem Tracked.enter_none (tracked : Tracked) : tracked.enter none = tracked := rfl

/-- This is the phase that a transition brings to a shard that resumes at a position. -/
def Transition.phase? (resume : Position) : Transition → Option Phase
  | .continued next => some (.reading next)
  | .exhausted => some .exhausted
  | .throttled token => token.map .reading
  | .expired => some (.waiting resume)
  | .noIterator => none
  | .successorsKnown _ => some .done
  | .successorsUnknown => none
  | .idle => none

/-- These are the decisions that a transition brings. -/
def Transition.entries : Transition → List Assignment
  | .successorsKnown assignments => assignments.entries
  | _ => []

namespace Reader

variable {reader : Reader}

theorem resumesAt?_eq (indexed : reader.Indexed) {tracked : Tracked}
    (member : tracked ∈ reader.shards) :
    reader.resumesAt? tracked.id = some (tracked.resume reader.checkpoint) := by
  rw [resumesAt?, indexed.tracked?_eq_some_iff.mpr ⟨member, rfl⟩]
  rfl

/-- A shard is done when it is tracked and its successors are. -/
def IsDone (reader : Reader) (shard : ShardId) : Prop :=
  ∃ tracked ∈ reader.shards, tracked.id = shard ∧ tracked.phase = .done

theorem IsDone.mem_ids {shard : ShardId} (done : reader.IsDone shard) : shard ∈ reader.ids := by
  obtain ⟨tracked, member, same, _⟩ := done
  exact Reader.mem_ids.mpr ⟨tracked, member, same⟩

/-- A tracked shard in another phase is not done. -/
theorem Indexed.not_isDone (indexed : reader.Indexed) {tracked : Tracked}
    (member : tracked ∈ reader.shards) (unfinished : tracked.phase ≠ .done) :
    ¬ reader.IsDone tracked.id := by
  rintro ⟨other, otherMember, same, done⟩
  rw [indexed.eq_of_id_eq otherMember member same] at done
  exact unfinished done

/-- The shard enters a phase, and the new shards among the entries are put last. -/
structure Follows (reader : Reader) (shard : ShardId) (phase : Option Phase)
    (entries : List Assignment) (later : Reader) : Prop where
  indexed : later.Indexed
  shards : ∃ added : List Assignment,
    later.shards = (reader.shards.map fun tracked =>
      if tracked.id = shard then tracked.enter phase else tracked) ++ added.map .ofAssignment ∧
    ∀ entry ∈ added, entry ∈ entries ∧ entry.shard ∉ reader.ids
  every : ∀ entry ∈ entries, entry.shard ∈ later.ids
  settings : later.settings = reader.settings
  checkpoint : later.checkpoint = reader.checkpoint
  initialized : later.initialized = reader.initialized

/-- Nothing is followed by nothing. -/
theorem follows_refl (indexed : reader.Indexed) (shard : ShardId) :
    Follows reader shard none [] reader := by
  refine ⟨indexed, ⟨[], ?_, fun _ member => absurd member List.not_mem_nil⟩,
    fun _ member => absurd member List.not_mem_nil, rfl, rfl, rfl⟩
  simp

theorem modifyTracked_rest (shard : ShardId) (change : Tracked → Tracked) :
    (reader.modifyTracked shard change).settings = reader.settings ∧
      (reader.modifyTracked shard change).checkpoint = reader.checkpoint ∧
      (reader.modifyTracked shard change).initialized = reader.initialized := by
  unfold modifyTracked
  split <;> exact ⟨rfl, rfl, rfl⟩

theorem follows_setPhase (indexed : reader.Indexed) (shard : ShardId) (phase : Phase) :
    Follows reader shard (some phase) [] (reader.setPhase shard phase) := by
  obtain ⟨settings, checkpoint, initialized⟩ := reader.modifyTracked_rest shard
    fun tracked => { tracked with phase }
  refine ⟨indexed.modifyTracked shard fun _ => rfl,
    ⟨[], ?_, fun _ member => absurd member List.not_mem_nil⟩,
    fun _ member => absurd member List.not_mem_nil, settings, checkpoint, initialized⟩
  rw [setPhase, indexed.shards_modifyTracked, List.map_nil, List.append_nil]
  rfl

/-- A tracked shard becomes done where it stands, and the new shards come last. -/
theorem shards_finish (indexed : reader.Indexed) {shard : ShardId} (known : shard ∈ reader.ids)
    (assignments : Assignments) :
    ((reader.track assignments).2.setPhase shard .done).shards =
      (reader.shards.map fun tracked =>
        if tracked.id = shard then tracked.enter (some .done) else tracked) ++
          (reader.track assignments).1.map .ofAssignment := by
  have tracks := indexed.track assignments
  have added : ∀ tracked ∈ (reader.track assignments).1.map Tracked.ofAssignment,
      (if tracked.id = shard then tracked.enter (some .done) else tracked) = tracked := by
    intro tracked member
    obtain ⟨entry, chosen, rfl⟩ := List.mem_map.mp member
    refine if_neg fun same => (tracks.chosen entry chosen).2 ?_
    rwa [← same] at known
  rw [setPhase, tracks.indexed.shards_modifyTracked, tracks.shards, List.map_append]
  exact congrArg _ ((List.map_congr_left added).trans (List.map_id _))

/-- The successors of a tracked shard are tracked before it is done. -/
theorem follows_successors (indexed : reader.Indexed) {shard : ShardId}
    (known : shard ∈ reader.ids) (assignments : Assignments) :
    Follows reader shard (some .done) assignments.entries
      ((reader.track assignments).2.setPhase shard .done) := by
  have tracks := indexed.track assignments
  obtain ⟨settings, checkpoint, initialized⟩ := (reader.track assignments).2.modifyTracked_rest
    shard fun tracked => { tracked with phase := .done }
  refine ⟨tracks.indexed.modifyTracked shard fun _ => rfl,
    ⟨_, shards_finish indexed known assignments, tracks.chosen⟩,
    fun entry member => ?_, ?_, ?_, ?_⟩
  · obtain ⟨tracked, here, same⟩ := mem_ids.mp (tracks.every entry member)
    refine mem_ids.mpr ⟨if tracked.id = shard then tracked.enter (some .done) else tracked, ?_, ?_⟩
    · rw [setPhase, tracks.indexed.shards_modifyTracked]
      exact List.mem_map_of_mem here
    · split
      · exact same
      · exact same
  · exact settings.trans (by rw [tracks.rest])
  · exact checkpoint.trans (by rw [tracks.rest])
  · exact initialized.trans (by rw [tracks.rest])

/-- Every transition brings its phase and its decisions. -/
theorem follows_follow (indexed : reader.Indexed) {shard : ShardId} (known : shard ∈ reader.ids)
    (resume : Position) (transition : Transition) :
    Follows reader shard (transition.phase? resume) transition.entries
      (reader.follow shard resume transition).2 := by
  cases transition with
  | continued next => exact follows_setPhase indexed shard _
  | exhausted => exact follows_setPhase indexed shard _
  | throttled token =>
      cases token with
      | none => exact follows_refl indexed shard
      | some token => exact follows_setPhase indexed shard _
  | expired => exact follows_setPhase indexed shard _
  | noIterator => exact follows_refl indexed shard
  | successorsKnown assignments => exact follows_successors indexed known assignments
  | successorsUnknown => exact follows_refl indexed shard
  | idle => exact follows_refl indexed shard

theorem noteLag_eq (outcome : Outcome) :
    reader.noteLag outcome = { reader with lag := (reader.noteLag outcome).lag } := by
  unfold noteLag
  split <;> rfl

/-- The outcome of a tracked shard moves that shard. -/
theorem follows_apply (indexed : reader.Indexed) {tracked : Tracked}
    (member : tracked ∈ reader.shards) {outcome : Outcome} (own : outcome.shard = tracked.id) :
    Follows reader tracked.id (outcome.transition.phase? (tracked.resume reader.checkpoint))
      outcome.transition.entries (reader.apply outcome).2 := by
  have noted : (reader.noteLag outcome).Indexed := by
    rw [noteLag_eq]
    exact indexed
  have known : outcome.shard ∈ (reader.noteLag outcome).ids := by
    rw [noteLag_eq, own]
    exact List.mem_map_of_mem member
  have follows := follows_follow noted known (tracked.resume reader.checkpoint) outcome.transition
  have applied : (reader.apply outcome).2 = ((reader.noteLag outcome).follow outcome.shard
      (tracked.resume reader.checkpoint) outcome.transition).2 := by
    rw [apply, own, resumesAt?_eq indexed member]
  rw [applied, ← own]
  have shards : (reader.noteLag outcome).shards = reader.shards := by rw [noteLag_eq]
  have settings : (reader.noteLag outcome).settings = reader.settings := by rw [noteLag_eq]
  have checkpoint : (reader.noteLag outcome).checkpoint = reader.checkpoint := by rw [noteLag_eq]
  have initialized : (reader.noteLag outcome).initialized = reader.initialized := by
    rw [noteLag_eq]
  refine ⟨follows.indexed, ?_, follows.every, follows.settings.trans settings,
    follows.checkpoint.trans checkpoint, follows.initialized.trans initialized⟩
  have moved := follows.shards
  rwa [ids, shards] at moved

/-- The records of an outcome are to be handed out for its shard. -/
theorem deliveries_apply (indexed : reader.Indexed) {tracked : Tracked}
    (member : tracked ∈ reader.shards) {outcome : Outcome} (own : outcome.shard = tracked.id) :
    (reader.apply outcome).1.deliveries = outcome.records.map (Delivery.mk tracked.id) := by
  rw [apply, own, resumesAt?_eq indexed member]

/-- An outcome for a shard that is not tracked changes nothing. -/
theorem apply_of_not_mem (indexed : reader.Indexed) {outcome : Outcome}
    (unknown : outcome.shard ∉ reader.ids) : reader.apply outcome = (.nothing, reader) := by
  rw [apply, resumesAt?, indexed.tracked?_eq_none unknown]
  rfl

namespace Follows

variable {shard : ShardId} {phase : Option Phase} {entries : List Assignment} {later : Reader}

/-- Whatever is tracked afterwards was tracked before or is new. -/
theorem mem (follows : Follows reader shard phase entries later) {tracked : Tracked}
    (member : tracked ∈ later.shards) :
    (∃ old ∈ reader.shards, tracked = if old.id = shard then old.enter phase else old) ∨
      ∃ entry ∈ entries, entry.shard ∉ reader.ids ∧ tracked = .ofAssignment entry := by
  obtain ⟨added, shards, chosen⟩ := follows.shards
  rw [shards] at member
  rcases List.mem_append.mp member with before | new
  · obtain ⟨old, here, rfl⟩ := List.mem_map.mp before
    exact .inl ⟨old, here, rfl⟩
  · obtain ⟨entry, here, rfl⟩ := List.mem_map.mp new
    exact .inr ⟨entry, (chosen entry here).1, (chosen entry here).2, rfl⟩

/-- A tracked shard is kept, in the new phase if it is the one. -/
theorem keeps (follows : Follows reader shard phase entries later) {tracked : Tracked}
    (member : tracked ∈ reader.shards) :
    (if tracked.id = shard then tracked.enter phase else tracked) ∈ later.shards := by
  obtain ⟨added, shards, _⟩ := follows.shards
  rw [shards]
  exact List.mem_append_left _ (List.mem_map.mpr ⟨tracked, member, rfl⟩)

/-- New shards come last. -/
theorem ids_prefix (follows : Follows reader shard phase entries later) :
    reader.ids <+: later.ids := by
  obtain ⟨added, shards, _⟩ := follows.shards
  refine ⟨added.map Assignment.shard, ?_⟩
  have same : ∀ tracked ∈ reader.shards,
      (if tracked.id = shard then tracked.enter phase else tracked).id = tracked.id :=
    fun tracked _ => by split <;> rfl
  rw [ids, ids, shards, List.map_append, List.map_map, List.map_map]
  exact congrArg₂ _ (List.map_congr_left same).symm rfl

/-- Only the tracked shards and the new ones are tracked afterwards. -/
theorem mem_ids_iff (follows : Follows reader shard phase entries later) {other : ShardId} :
    other ∈ later.ids ↔ other ∈ reader.ids ∨ ∃ entry ∈ entries, entry.shard = other := by
  constructor
  · intro member
    obtain ⟨tracked, here, same⟩ := mem_ids.mp member
    rcases follows.mem here with ⟨old, oldMember, rfl⟩ | ⟨entry, chosen, _, rfl⟩
    · refine .inl (mem_ids.mpr ⟨old, oldMember, ?_⟩)
      rw [← same]
      split <;> rfl
    · exact .inr ⟨entry, chosen, same⟩
  · rintro (member | ⟨entry, chosen, rfl⟩)
    · exact follows.ids_prefix.subset member
    · exact follows.every entry chosen

/-- A shard is done afterwards when it was moved there or was done before. -/
theorem isDone_iff (follows : Follows reader shard phase entries later) {other : ShardId} :
    later.IsDone other ↔ ∃ old ∈ reader.shards, old.id = other ∧
      (if old.id = shard then old.enter phase else old).phase = .done := by
  constructor
  · rintro ⟨tracked, member, same, done⟩
    rcases follows.mem member with ⟨old, oldMember, rfl⟩ | ⟨entry, _, _, rfl⟩
    · refine ⟨old, oldMember, ?_, done⟩
      rw [← same]
      split <;> rfl
    · cases done
  · rintro ⟨old, member, same, done⟩
    refine ⟨_, follows.keeps member, ?_, done⟩
    rw [← same]
    split <;> rfl

end Follows

/-- What a reader tracks, has finished and has saved stays as it is. -/
structure Rests (reader later : Reader) : Prop where
  ids : later.ids = reader.ids
  done : ∀ id, later.IsDone id ↔ reader.IsDone id
  checkpoint : later.checkpoint = reader.checkpoint
  initialized : later.initialized = reader.initialized

theorem Rests.refl (reader : Reader) : Rests reader reader := ⟨rfl, fun _ => Iff.rfl, rfl, rfl⟩

/-- A reader rests when its shard neither becomes done nor brings others. -/
theorem Follows.rests {later : Reader} (indexed : reader.Indexed) {tracked : Tracked}
    (member : tracked ∈ reader.shards) {phase : Option Phase}
    (same : (tracked.enter phase).phase = .done ↔ tracked.phase = .done)
    (follows : Follows reader tracked.id phase [] later) : Rests reader later := by
  have ids : later.ids = reader.ids := by
    obtain ⟨added, moved, chosen⟩ := follows.shards
    cases added with
    | nil =>
        rw [Reader.ids, Reader.ids, moved, List.map_nil, List.append_nil, List.map_map]
        exact List.map_congr_left fun old _ => by simp only [Function.comp]; split <;> rfl
    | cons entry added => exact absurd (chosen entry List.mem_cons_self).1 List.not_mem_nil
  refine ⟨ids, fun id => ?_, follows.checkpoint, follows.initialized⟩
  rw [follows.isDone_iff, IsDone]
  refine exists_congr fun old => and_congr_right fun oldMember => and_congr_right fun _ => ?_
  split
  · rename_i own
    rw [indexed.eq_of_id_eq oldMember member own]
    exact same
  · exact Iff.rfl

/-- A reader rests when a shard that is not done restarts. -/
theorem restartAt_rests (indexed : reader.Indexed) {tracked : Tracked}
    (member : tracked ∈ reader.shards) (unfinished : tracked.phase ≠ .done)
    (position : Position) : Rests reader (reader.restartAt tracked.id position) := by
  obtain ⟨_, checkpoint, initialized⟩ := reader.modifyTracked_rest tracked.id
    fun tracked => { tracked with phase := .waiting position, start := position }
  refine ⟨indexed.ids_modifyTracked tracked.id fun _ => rfl, fun id => ?_, checkpoint, initialized⟩
  rw [IsDone, Reader.restartAt, indexed.shards_modifyTracked]
  constructor
  · rintro ⟨moved, here, same, done⟩
    obtain ⟨old, oldMember, rfl⟩ := List.mem_map.mp here
    split at done
    · cases done
    · rename_i other
      rw [if_neg other] at same
      exact ⟨old, oldMember, same, done⟩
  · rintro ⟨old, oldMember, same, done⟩
    have other : old.id ≠ tracked.id := by
      intro own
      exact indexed.not_isDone member unfinished ⟨old, oldMember, own, done⟩
    refine ⟨old, List.mem_map.mpr ⟨old, oldMember, ?_⟩, same, done⟩
    rw [if_neg other]

/-- A shard whose successors are known is done besides the others. -/
theorem Follows.isDone_finished_iff {later : Reader} {tracked : Tracked}
    (member : tracked ∈ reader.shards) {entries : List Assignment}
    (follows : Follows reader tracked.id (some .done) entries later) {id : ShardId} :
    later.IsDone id ↔ id = tracked.id ∨ reader.IsDone id := by
  rw [follows.isDone_iff]
  constructor
  · rintro ⟨old, oldMember, oldSame, done⟩
    split at done
    · rename_i own
      exact .inl (oldSame.symm.trans own)
    · exact .inr ⟨old, oldMember, oldSame, done⟩
  · rintro (rfl | ⟨old, oldMember, oldSame, done⟩)
    · exact ⟨tracked, member, rfl, by rw [if_pos rfl]; rfl⟩
    · refine ⟨old, oldMember, oldSame, ?_⟩
      split
      · rfl
      · exact done

/-- These are all the ways in which a reader changes. -/
inductive Change : Reader → Reader → Prop where
  | prepared (reader : Reader) (assignments : Assignments) :
      Change reader { (reader.track assignments).2 with initialized := true }
  | applied (reader : Reader) (outcome : Outcome) : Change reader (reader.apply outcome).2
  | handedOut (reader : Reader) (delivery : Delivery) : Change reader (reader.handOut delivery)
  | restarted (reader : Reader) (shard : ShardId) (position : Position) :
      Change reader (reader.restartAt shard position)
  | pruned (reader : Reader) (shard : ShardId) : Change reader (reader.prune shard).2

/-- A reader is what becomes of a new one. -/
def Reached (settings : ReaderSettings) : Reader → Prop :=
  Relation.ReflTransGen Change (ofSettings settings)

/-- Pruning changes nothing but the checkpoint. -/
theorem prune_eq (shard : ShardId) :
    (reader.prune shard).2 = { reader with checkpoint := (reader.prune shard).2.checkpoint } := by
  unfold prune
  split <;> rfl

/-- A change keeps the index right, and tracked shards where they are. -/
theorem Change.indexed {later : Reader} (change : Change reader later)
    (indexed : reader.Indexed) : later.Indexed ∧ reader.ids <+: later.ids := by
  cases change with
  | prepared assignments =>
      have tracks := indexed.track assignments
      refine ⟨tracks.indexed, (reader.track assignments).1.map Assignment.shard, ?_⟩
      rw [ids, ids, tracks.shards, List.map_append, List.map_map]
      rfl
  | applied outcome =>
      by_cases known : outcome.shard ∈ reader.ids
      · obtain ⟨tracked, member, same⟩ := mem_ids.mp known
        have follows := follows_apply indexed member same.symm
        exact ⟨follows.indexed, follows.ids_prefix⟩
      · rw [apply_of_not_mem indexed known]
        exact ⟨indexed, List.prefix_refl _⟩
  | handedOut delivery => exact ⟨indexed, List.prefix_refl _⟩
  | restarted shard position =>
      have same : (reader.restartAt shard position).ids = reader.ids :=
        indexed.ids_modifyTracked shard fun _ => rfl
      rw [same]
      exact ⟨indexed.modifyTracked shard fun _ => rfl, List.prefix_refl _⟩
  | pruned shard =>
      rw [prune_eq]
      exact ⟨indexed, List.prefix_refl _⟩

/-- No change touches the settings. -/
theorem Change.settings {later : Reader} (change : Change reader later)
    (indexed : reader.Indexed) : later.settings = reader.settings := by
  cases change with
  | prepared assignments =>
      change (reader.track assignments).2.settings = reader.settings
      rw [(indexed.track assignments).rest]
  | applied outcome =>
      by_cases known : outcome.shard ∈ reader.ids
      · obtain ⟨tracked, member, same⟩ := mem_ids.mp known
        exact (follows_apply indexed member same.symm).settings
      · rw [apply_of_not_mem indexed known]
  | handedOut delivery => rfl
  | restarted shard position => exact (reader.modifyTracked_rest shard _).1
  | pruned shard => rw [prune_eq]

/-- No change undoes the initialization. -/
theorem Change.initialized {later : Reader} (change : Change reader later)
    (indexed : reader.Indexed) (ready : reader.initialized = true) : later.initialized = true := by
  cases change with
  | prepared assignments => rfl
  | applied outcome =>
      by_cases known : outcome.shard ∈ reader.ids
      · obtain ⟨tracked, member, same⟩ := mem_ids.mp known
        exact (follows_apply indexed member same.symm).initialized.trans ready
      · rw [apply_of_not_mem indexed known]
        exact ready
  | handedOut delivery => exact ready
  | restarted shard position => exact (reader.modifyTracked_rest shard _).2.2.trans ready
  | pruned shard =>
      rw [prune_eq]
      exact ready

/-- A reader that is not initialized tracks nothing. -/
def Fresh (reader : Reader) : Prop := reader.initialized = false → reader.shards = []

/-- A change initializes the reader or leaves an untouched one untouched. -/
theorem Change.fresh {later : Reader} (change : Change reader later) (indexed : reader.Indexed)
    (fresh : reader.Fresh) : later.Fresh := by
  cases change with
  | prepared assignments => exact fun unready => by cases unready
  | applied outcome =>
      by_cases known : outcome.shard ∈ reader.ids
      · obtain ⟨tracked, member, same⟩ := mem_ids.mp known
        intro unready
        rw [(follows_apply indexed member same.symm).initialized] at unready
        rw [fresh unready] at member
        exact absurd member List.not_mem_nil
      · rw [apply_of_not_mem indexed known]
        exact fresh
  | handedOut delivery => exact fresh
  | restarted shard position =>
      intro unready
      obtain ⟨_, _, initialized⟩ := reader.modifyTracked_rest shard
        fun tracked => { tracked with phase := .waiting position, start := position }
      have none := fresh (initialized ▸ unready)
      rw [restartAt, indexed.shards_modifyTracked, none, List.map_nil]
  | pruned shard =>
      rw [prune_eq]
      exact fresh

/-- Every reader has a right index. -/
theorem Reached.indexed {settings : ReaderSettings} (reached : Reached settings reader) :
    reader.Indexed := by
  induction reached with
  | refl => exact indexed_ofSettings settings
  | tail _ change inductionHypothesis => exact (change.indexed inductionHypothesis).1

end Reader
end ShardedStream
