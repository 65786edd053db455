import ShardedStream.Proofs.Reader.Step

/-!
What a reader makes of the outcomes of its operations.
Each dialogue asks one question at a time, so what it comes to is a function of how the operation
behind each question has ended.
-/

namespace ShardedStream

variable {σ : Type}

/-- A read brings a batch, or a void token, or nothing for this pass, or it fails. -/
def readResult (shard : ShardId) (token : Token) (fresh : Bool) :
    Except RetryFailure Batch → Except ReaderError Outcome
  | .ok batch => .ok (.ofBatch shard batch)
  | .error (.fatal fault) =>
    if fault.isNotFound then .ok (.ofBatch shard .ended)
    else if fault.isExpiredIterator then .ok (.bare shard .expired)
    else .error (.client fault)
  | .error _ => .ok (.bare shard (.throttled (if fresh then some token else none)))

/-- Without an iterator a shard is gone, or it waits for the next pass, or the step fails. -/
def unopenedResult (shard : ShardId) : RetryFailure → Except ReaderError Outcome
  | .fatal fault =>
    if fault.isNotFound then .ok (.bare shard .exhausted) else .error (.client fault)
  | _ => .ok (.bare shard .noIterator)

/-- A description brings the successors; a stream that is not found is looked up again later. -/
def lookUpResult (reader : Reader) (shard : ShardId) :
    Except RetryFailure (List Shard) → Except ReaderError Outcome
  | .ok shards => .ok (.bare shard (.successorsKnown (reader.successors shard shards)))
  | .error (.fatal fault) =>
    if fault.isNotFound then .ok (.bare shard .successorsUnknown) else .error (.client fault)
  | .error _ => .ok (.bare shard .successorsUnknown)

/-- A description opens a reader; a stream that is not found is described again later. -/
def prepareResult (reader : Reader) :
    Except RetryFailure (List Shard) → Except ReaderError (Option Reader)
  | .ok shards => .ok (some (reader.opening shards))
  | .error (.fatal fault) => if fault.isNotFound then .ok none else .error (.client fault)
  | .error _ => .ok none

/-- These are the reports of a preparation that has asked for a description. -/
def prepareReports (reader : Reader) : Except RetryFailure (List Shard) → List Report
  | .ok shards => Reader.assignedReports (reader.track
      (Assignments.atStart (.ofShards shards) reader.checkpoint reader.settings.policy)).1
  | .error (.fatal fault) =>
    if fault.isNotFound then [.notice (.streamNotDescribed reader.settings.stream)] else []
  | .error _ => [.notice (.streamNotDescribed reader.settings.stream)]

/-- These are the outcomes of a read that does not fail. -/
inductive ReadsAs (shard : ShardId) (token : Token) (fresh : Bool) :
    Except RetryFailure Batch → Outcome → Prop where
  | batch (batch : Batch) : ReadsAs shard token fresh (.ok batch) (.ofBatch shard batch)
  | gone (detail : String) :
      ReadsAs shard token fresh (.error (.fatal (.resourceNotFound detail)))
        (.ofBatch shard .ended)
  | expired :
      ReadsAs shard token fresh (.error (.fatal .expiredIterator)) (.bare shard .expired)
  | exhausted (budget : Duration) :
      ReadsAs shard token fresh (.error (.exhausted budget))
        (.bare shard (.throttled (if fresh then some token else none)))
  | interrupted :
      ReadsAs shard token fresh (.error .interrupted)
        (.bare shard (.throttled (if fresh then some token else none)))

theorem readsAs_of_readResult {shard : ShardId} {token : Token} {fresh : Bool}
    {answer : Except RetryFailure Batch} {outcome : Outcome}
    (result : readResult shard token fresh answer = .ok outcome) :
    ReadsAs shard token fresh answer outcome := by
  rcases answer with (budget | _ | fault) | batch
  · cases result
    exact .exhausted budget
  · cases result
    exact .interrupted
  · cases fault with
    | resourceNotFound detail =>
        cases result
        exact .gone detail
    | expiredIterator =>
        cases result
        exact .expired
    | _ => cases result
  · cases result
    exact .batch batch

/-- These are the outcomes of a visit that opens no iterator and does not fail. -/
inductive UnopenedAs (shard : ShardId) : RetryFailure → Outcome → Prop where
  | gone (detail : String) :
      UnopenedAs shard (.fatal (.resourceNotFound detail)) (.bare shard .exhausted)
  | exhausted (budget : Duration) :
      UnopenedAs shard (.exhausted budget) (.bare shard .noIterator)
  | interrupted : UnopenedAs shard .interrupted (.bare shard .noIterator)

theorem unopenedAs_of_unopenedResult {shard : ShardId} {failure : RetryFailure}
    {outcome : Outcome} (result : unopenedResult shard failure = .ok outcome) :
    UnopenedAs shard failure outcome := by
  rcases failure with budget | _ | fault
  · cases result
    exact .exhausted budget
  · cases result
    exact .interrupted
  · cases fault with
    | resourceNotFound detail =>
        cases result
        exact .gone detail
    | _ => cases result

/-- A lookup that does not fail brings the successors, or leaves them unknown. -/
inductive LooksUpAs (reader : Reader) (shard : ShardId) :
    Except RetryFailure (List Shard) → Outcome → Prop where
  | known (shards : List Shard) :
      LooksUpAs reader shard (.ok shards)
        (.bare shard (.successorsKnown (reader.successors shard shards)))
  | unknown (failure : RetryFailure) :
      LooksUpAs reader shard (.error failure) (.bare shard .successorsUnknown)

theorem looksUpAs_of_lookUpResult {reader : Reader} {shard : ShardId}
    {answer : Except RetryFailure (List Shard)} {outcome : Outcome}
    (result : lookUpResult reader shard answer = .ok outcome) :
    LooksUpAs reader shard answer outcome := by
  rcases answer with (_ | _ | fault) | shards
  · cases result
    exact .unknown _
  · cases result
    exact .unknown _
  · cases fault with
    | resourceNotFound detail =>
        cases result
        exact .unknown _
    | _ => cases result
  · cases result
    exact .known shards

namespace Reader

variable {service : Service σ} {plan : Nat → RetryPlan} {reader : Reader} {world later : World σ}

theorem converse_readFrom {shard : ShardId} {token : Token} {fresh : Bool}
    {answer : Except RetryFailure Batch}
    (asked : world.settle service plan (.readRecords token reader.settings.batchSize) =
      (some (Request.settle (.readRecords token reader.settings.batchSize) answer), later)) :
    world.converse service plan (reader.readFrom shard token fresh) =
      (some (readResult shard token fresh answer), later) := by
  simp only [readFrom, Dialogue.request, Dialogue.bind_eq, Dialogue.andThen, World.converse, asked]
  rcases answer with (_ | _ | fault) | batch
  · rfl
  · rfl
  · cases fault <;> rfl
  · rfl

theorem converse_openAndRead {shard : ShardId} {position : Position} {token : Token}
    (asked : world.settle service plan (.openIterator reader.settings.stream shard position) =
      (some (.ok (some token)), later)) :
    world.converse service plan (reader.openAndRead shard position) =
      (later.report (.event ⟨shard, .iterator .acquired none⟩)).converse service plan
        (reader.readFrom shard token true) := by
  simp only [openAndRead, Dialogue.request, Dialogue.bind_eq, Dialogue.andThen, World.converse,
    asked]
  rfl

theorem converse_unopened {shard : ShardId} {position : Position} {failure : RetryFailure}
    (asked : world.settle service plan (.openIterator reader.settings.stream shard position) =
      (some (Request.settle (.openIterator reader.settings.stream shard position)
        (.error failure)), later)) :
    world.converse service plan (reader.openAndRead shard position) =
      (some (unopenedResult shard failure), later) := by
  simp only [openAndRead, Dialogue.request, Dialogue.bind_eq, Dialogue.andThen, World.converse,
    asked]
  rcases failure with _ | _ | fault
  · rfl
  · rfl
  · cases fault <;> rfl

theorem converse_lookUpSuccessors {shard : ShardId} {answer : Except RetryFailure (List Shard)}
    (asked : world.settle service plan (.listShards reader.settings.stream) =
      (some (Request.settle (.listShards reader.settings.stream) answer), later)) :
    world.converse service plan (reader.lookUpSuccessors shard) =
      (some (lookUpResult reader shard answer), later) := by
  simp only [lookUpSuccessors, Dialogue.request, Dialogue.bind_eq, Dialogue.andThen,
    World.converse, asked]
  rcases answer with (_ | _ | fault) | shards
  · rfl
  · rfl
  · cases fault <;> rfl
  · rfl

/-- A reader that is initialized asks nothing. -/
theorem converse_prepared (ready : reader.initialized = true) (world : World σ) :
    world.converse service plan reader.prepare = (some (.ok (some reader)), world) := by
  rw [prepare, if_pos ready]
  rfl

theorem converse_prepare {answer : Except RetryFailure (List Shard)}
    (fresh : reader.initialized = false)
    (asked : world.settle service plan (.listShards reader.settings.stream) =
      (some (Request.settle (.listShards reader.settings.stream) answer), later)) :
    world.converse service plan reader.prepare =
      (some (prepareResult reader answer), later.reportAll (prepareReports reader answer)) := by
  simp only [prepare, fresh, Bool.false_eq_true, if_false, Dialogue.request, Dialogue.bind_eq,
    Dialogue.andThen, World.converse, asked]
  rcases answer with (_ | _ | fault) | shards
  · rfl
  · rfl
  · cases fault <;> rfl
  · exact converse_reportAll _ _ _

end Reader
end ShardedStream
