import ShardedStream.Dialogue
import ShardedStream.Reader.Basic

/-!
Steps: what a reader asks for one shard, and the outcome that it makes of the answers.
A step changes nothing; its outcome is applied later.
-/

namespace ShardedStream

/-- What a step found out about a shard. -/
inductive Transition where
  /-- The shard goes on with the next token. -/
  | continued (next : Token)
  /-- The shard has no more records. -/
  | exhausted
  /-- The read gave up for this pass; a token that is new is kept. -/
  | throttled (token : Option Token)
  /-- The iterator is void. -/
  | expired
  | noIterator
  /-- The shards to read after this one. -/
  | successorsKnown (assignments : Assignments)
  /-- The stream could not be described in this pass. -/
  | successorsUnknown
  /-- There is nothing left to do. -/
  | idle

/-- The outcome of a step, with the records that it read. -/
structure Outcome where
  shard : ShardId
  records : List Record
  lag : Option Int
  transition : Transition

/-- An outcome without records. -/
def Outcome.bare (shard : ShardId) (transition : Transition) : Outcome :=
  ⟨shard, [], none, transition⟩

/-- The outcome of a read: a batch without a next token is the last one. -/
def Outcome.ofBatch (shard : ShardId) (batch : Batch) : Outcome :=
  ⟨shard, batch.records, some batch.lag,
    match batch.next with
    | some next => .continued next
    | none => .exhausted⟩

namespace Reader

/-- Reads one batch; a token that came to nothing is worth keeping only when it is `fresh`. -/
def readFrom (reader : Reader) (shard : ShardId) (token : Token) (fresh : Bool) :
    Dialogue (Except ReaderError Outcome) := do
  match ← Dialogue.request (.readRecords token reader.settings.batchSize) with
  | .ok (some batch) => pure (.ok (.ofBatch shard batch))
  | .ok none => pure (.ok (.bare shard (.throttled (if fresh then some token else none))))
  | .error fault =>
    if fault.isExpiredIterator then pure (.ok (.bare shard .expired))
    else pure (.error (.client fault))

/-- Asks for an iterator and reads from it; a shard that is gone has nothing left to read. -/
def openAndRead (reader : Reader) (shard : ShardId) (position : Position) :
    Dialogue (Except ReaderError Outcome) := do
  match ← Dialogue.request (.openIterator reader.settings.stream shard position) with
  | .ok (some token) =>
    Dialogue.report (.event ⟨shard, .iterator .acquired none⟩)
    reader.readFrom shard token true
  | .ok none => pure (.ok (.bare shard .noIterator))
  | .error fault =>
    if fault.isNotFound then pure (.ok (.bare shard .exhausted))
    else pure (.error (.client fault))

/-- Looks up the successors of a shard that has been read to its end. -/
def lookUpSuccessors (reader : Reader) (shard : ShardId) :
    Dialogue (Except ReaderError Outcome) := do
  match ← Dialogue.request (.listShards reader.settings.stream) with
  | .ok (some shards) =>
    let successors := Assignments.afterEnd (.ofShards shards) shard reader.checkpoint
    pure (.ok (.bare shard (.successorsKnown (successors.without reader.trackedShards))))
  | .ok none => pure (.ok (.bare shard .successorsUnknown))
  | .error fault => pure (.error (.client fault))

/-- The step of a shard depends on its phase. -/
def step (reader : Reader) (shard : ShardId) : Dialogue (Except ReaderError Outcome) :=
  match reader.tracked? shard with
  | none => pure (.error (.unknownShard shard))
  | some tracked =>
    match tracked.phase with
    | .waiting position => reader.openAndRead shard position
    | .reading token => reader.readFrom shard token false
    | .exhausted => reader.lookUpSuccessors shard
    | .done => pure (.ok (.bare shard .idle))

/-- The events that announce newly tracked shards. -/
def assignedReports (added : List Assignment) : List Report :=
  added.map fun assignment =>
    .event ⟨assignment.shard, .shard .assigned (some assignment.position.text)⟩

/--
Describes the stream and decides where to start, once. Without a description the answer is `none`,
and the next pass tries again.
-/
def prepare (reader : Reader) : Dialogue (Except ReaderError (Option Reader)) := do
  if reader.initialized then pure (.ok (some reader))
  else
    match ← Dialogue.request (.listShards reader.settings.stream) with
    | .ok (some shards) =>
      let assignments :=
        Assignments.atStart (.ofShards shards) reader.checkpoint reader.settings.policy
      let tracked := reader.track assignments
      Dialogue.reportAll (assignedReports tracked.1)
      pure (.ok (some { tracked.2 with initialized := true }))
    | .ok none =>
      Dialogue.report (.notice (.streamNotDescribed reader.settings.stream))
      pure (.ok none)
    | .error fault => pure (.error (.client fault))

end Reader

end ShardedStream
