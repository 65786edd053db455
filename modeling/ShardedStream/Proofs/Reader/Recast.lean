import ShardedStream.Reader.Apply

/-!
Readers that track the same shards.
A reader asks with its stream and its batch size and with nothing else of its settings. It moves its
tracked shards without a look at its settings, and looks up one entry of its checkpoint at most, so
what an outcome does to them is the same under other settings and with other entries.
-/

namespace ShardedStream
namespace Reader

/-- A read depends on the batch size alone. -/
theorem readFrom_congr (reader other : Reader)
    (size : other.settings.batchSize = reader.settings.batchSize) (shard : ShardId) (token : Token)
    (fresh : Bool) : other.readFrom shard token fresh = reader.readFrom shard token fresh := by
  obtain ⟨⟨stream, policy, initial, retry, batchSize, monitoring⟩, _, _, _, _, _⟩ := other
  obtain rfl : batchSize = reader.settings.batchSize := size
  refine congrArg (Dialogue.ask _) (funext fun settled => ?_)
  rcases settled with fault | _ | batch
  · cases fault <;> rfl
  · rfl
  · rfl

/-- An iterator is asked for by stream. -/
theorem openAndRead_congr (reader other : Reader)
    (stream : other.settings.stream = reader.settings.stream)
    (size : other.settings.batchSize = reader.settings.batchSize) (shard : ShardId)
    (position : Position) :
    other.openAndRead shard position = reader.openAndRead shard position := by
  have reads := readFrom_congr reader other size shard
  obtain ⟨⟨named, policy, initial, retry, batchSize, monitoring⟩, _, _, _, _, _⟩ := other
  obtain rfl : named = reader.settings.stream := stream
  refine congrArg (Dialogue.ask _) (funext fun settled => ?_)
  rcases settled with fault | _ | token
  · cases fault <;> rfl
  · rfl
  · exact congrArg (Dialogue.tell _) (reads token true)

/-- The same tracked shards under other settings and with another checkpoint. -/
def recast (settings : ReaderSettings → ReaderSettings) (saving : Checkpoint → Checkpoint)
    (reader : Reader) : Reader :=
  { reader with settings := settings reader.settings, checkpoint := saving reader.checkpoint }

variable (reader : Reader) (settings : ReaderSettings → ReaderSettings)
  (saving : Checkpoint → Checkpoint)

theorem recast_modifyTracked (shard : ShardId) (change : Tracked → Tracked) :
    (reader.recast settings saving).modifyTracked shard change =
      (reader.modifyTracked shard change).recast settings saving := by
  unfold modifyTracked
  simp only [recast]
  split <;> rfl

theorem recast_setPhase (shard : ShardId) (phase : Phase) :
    (reader.recast settings saving).setPhase shard phase =
      (reader.setPhase shard phase).recast settings saving :=
  recast_modifyTracked reader settings saving shard _

theorem recast_trackOne (added : List Assignment) (assignment : Assignment) :
    trackOne (added, reader.recast settings saving) assignment =
      ((trackOne (added, reader) assignment).1,
        (trackOne (added, reader) assignment).2.recast settings saving) := by
  have same : (reader.recast settings saving).index = reader.index := rfl
  unfold trackOne
  simp only [same]
  cases reader.index.contains assignment.shard <;> rfl

/-- The same shards come to be tracked. -/
theorem recast_track (assignments : Assignments) :
    (reader.recast settings saving).track assignments =
      ((reader.track assignments).1, (reader.track assignments).2.recast settings saving) := by
  suffices all : ∀ (entries added : List Assignment) (reader : Reader),
      entries.foldl trackOne (added, reader.recast settings saving) =
        ((entries.foldl trackOne (added, reader)).1,
          (entries.foldl trackOne (added, reader)).2.recast settings saving) from
    all assignments.entries [] reader
  intro entries
  induction entries with
  | nil => exact fun added reader => rfl
  | cons entry entries inductionHypothesis =>
      intro added reader
      rw [List.foldl_cons, recast_trackOne, inductionHypothesis]
      rfl

theorem recast_noteLag (outcome : Outcome) :
    (reader.recast settings saving).noteLag outcome =
      (reader.noteLag outcome).recast settings saving := by
  unfold noteLag
  split <;> rfl

theorem recast_follow (shard : ShardId) (resume : Position) (transition : Transition) :
    (reader.recast settings saving).follow shard resume transition =
      ((reader.follow shard resume transition).1,
        (reader.follow shard resume transition).2.recast settings saving) := by
  cases transition with
  | throttled token =>
      cases token with
      | none => rfl
      | some token => simp only [follow, recast_setPhase]
  | _ => simp only [follow, recast_setPhase, recast_track]

/-- An outcome has the same effect when its shard resumes at the same position. -/
theorem recast_apply {outcome : Outcome}
    (resumes : (reader.recast settings saving).resumesAt? outcome.shard =
      reader.resumesAt? outcome.shard) :
    (reader.recast settings saving).apply outcome =
      ((reader.apply outcome).1, (reader.apply outcome).2.recast settings saving) := by
  unfold apply
  rw [resumes]
  cases reader.resumesAt? outcome.shard with
  | none => rfl
  | some resume => simp only [recast_noteLag, recast_follow]

end Reader
end ShardedStream
