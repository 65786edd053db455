import ShardedStream.Proofs.Reader.Recast
import ShardedStream.Proofs.World.Wake

/-!
Readers that differ in how they are watched.
How a reader is monitored is fixed when it is created and never looked at again, so two readers that
differ in this alone ask, report and become the same.
-/

namespace ShardedStream

variable {σ α β : Type}

/-- The same reader, monitored in another way. -/
def Reader.watchedBy (reader : Reader) (monitoring : MonitorSettings) : Reader :=
  { reader with settings := { reader.settings with monitoring } }

namespace Reader

variable (reader : Reader) (monitoring : MonitorSettings)

@[simp] theorem watchedBy_plan :
    (reader.watchedBy monitoring).settings.retry.plan = reader.settings.retry.plan := rfl

@[simp] theorem watchedBy_tracked? (shard : ShardId) :
    (reader.watchedBy monitoring).tracked? shard = reader.tracked? shard := rfl

theorem watchedBy_lookUpSuccessors (shard : ShardId) :
    (reader.watchedBy monitoring).lookUpSuccessors shard = reader.lookUpSuccessors shard := by
  refine congrArg (Dialogue.ask _) (funext fun settled => ?_)
  rcases settled with fault | _ | shards
  · rfl
  · rfl
  · rfl

@[simp] theorem watchedBy_step (shard : ShardId) :
    (reader.watchedBy monitoring).step shard = reader.step shard := by
  have reads := readFrom_congr reader (reader.watchedBy monitoring) rfl
  have opens := openAndRead_congr reader (reader.watchedBy monitoring) rfl rfl
  simp only [step, watchedBy_tracked?, reads, opens, watchedBy_lookUpSuccessors]

@[simp] theorem watchedBy_restartAt (shard : ShardId) (position : Position) :
    (reader.watchedBy monitoring).restartAt shard position =
      (reader.restartAt shard position).watchedBy monitoring :=
  recast_modifyTracked reader ({ · with monitoring }) id shard _

@[simp] theorem watchedBy_prune (shard : ShardId) :
    (reader.watchedBy monitoring).prune shard =
      ((reader.prune shard).1, (reader.prune shard).2.watchedBy monitoring) := by
  have same : (reader.watchedBy monitoring).isReading shard = reader.isReading shard := rfl
  unfold prune
  rw [same]
  cases reader.isReading shard <;> rfl

/-- The same shards come to be tracked. -/
@[simp] theorem watchedBy_track (assignments : Assignments) :
    (reader.watchedBy monitoring).track assignments =
      ((reader.track assignments).1, (reader.track assignments).2.watchedBy monitoring) :=
  recast_track reader ({ · with monitoring }) id assignments

/-- An applied outcome has the same effect. -/
@[simp] theorem watchedBy_apply (outcome : Outcome) :
    (reader.watchedBy monitoring).apply outcome =
      ((reader.apply outcome).1, (reader.apply outcome).2.watchedBy monitoring) :=
  recast_apply reader ({ · with monitoring }) id rfl

end Reader

/-- What a dialogue comes to is computed from its value at the end. -/
theorem World.converse_andThen_done (service : Service σ) (plan : Nat → RetryPlan)
    (dialogue : Dialogue α) (value : α → β) (world : World σ) :
    world.converse service plan (dialogue.andThen fun ending => .done (value ending)) =
      ((world.converse service plan dialogue).1.map value,
        (world.converse service plan dialogue).2) := by
  induction dialogue generalizing world with
  | done ending => rfl
  | tell report next inductionHypothesis => exact inductionHypothesis (world.report report)
  | ask request next inductionHypothesis =>
      simp only [Dialogue.andThen, World.converse_ask_eq]
      cases (world.settle service plan request).1 with
      | none => rfl
      | some settled => exact inductionHypothesis settled _

theorem Dialogue.reportAll_andThen_done (reports : List Report) (value : α) (next : α → β) :
    ((Dialogue.reportAll reports).andThen fun _ => Dialogue.done value).andThen
        (fun ending => .done (next ending)) =
      (Dialogue.reportAll reports).andThen fun _ => .done (next value) := by
  rw [Dialogue.andThen_assoc]
  rfl

/-- A preparation asks the same and leads to the same reader. -/
theorem Reader.watchedBy_prepare (reader : Reader) (monitoring : MonitorSettings) :
    (reader.watchedBy monitoring).prepare = reader.prepare.andThen fun prepared =>
      .done (prepared.map fun reader? => reader?.map fun reader =>
        reader.watchedBy monitoring) := by
  unfold prepare
  have ready : (reader.watchedBy monitoring).initialized = reader.initialized := rfl
  rw [ready]
  cases reader.initialized with
  | true => rfl
  | false =>
      refine congrArg (Dialogue.ask _) (funext fun settled => ?_)
      rcases settled with fault | _ | shards
      · rfl
      · rfl
      · have tracked := watchedBy_track reader monitoring
          (Assignments.atStart (.ofShards shards) reader.checkpoint reader.settings.policy)
        refine Eq.trans ?_ (Dialogue.reportAll_andThen_done _ _ _).symm
        let opened (tracked : List Assignment × Reader) : Except ReaderError (Option Reader) :=
          .ok (some { tracked.2 with initialized := true })
        exact congrArg (fun tracked =>
          (Dialogue.reportAll (assignedReports tracked.1)).andThen fun _ =>
            Dialogue.done (opened tracked)) tracked

end ShardedStream
