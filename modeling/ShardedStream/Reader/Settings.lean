import ShardedStream.Checkpoint
import ShardedStream.Monitor
import ShardedStream.Reader.Error
import ShardedStream.Retry
import ShardedStream.Text.Blank

/-!
Configuration of a reader, and the conditions under which a reader accepts it.
-/

namespace ShardedStream

/-- The settings of retried operations, and what chance draws for their pauses. -/
structure RetrySettings where
  budget : Duration
  initialBackoff : Duration
  maxBackoff : Duration
  jitter : Float
  /-- One draw for each attempt of an operation; the calls before an operation tell which one it is. -/
  draws : Nat → Nat → Float

/-- Ten seconds for an operation, with pauses from a tenth of a second to five seconds. -/
def RetrySettings.standard : RetrySettings :=
  ⟨.ofMillis 10000, .ofMillis 100, .ofMillis 5000, 0.0, fun _ _ => 0.0⟩

/-- Pauses double from one attempt to the next. -/
def RetrySettings.exponential (settings : RetrySettings) : Exponential :=
  .ofSettings settings.initialBackoff settings.maxBackoff 2.0 settings.jitter

/-- The plan of an operation after so many calls. Only what is drawn tells operations apart. -/
def RetrySettings.plan (settings : RetrySettings) (calls : Nat) : RetryPlan :=
  ⟨settings.budget, settings.exponential.backoff (settings.draws calls)⟩

structure ReaderSettings where
  stream : String
  policy : StartPolicy
  /-- Where an earlier run stopped. -/
  checkpoint : Checkpoint
  retry : RetrySettings
  /-- How many records one read may return. -/
  batchSize : Int
  monitoring : MonitorSettings

namespace ReaderSettings

/-- The service accepts no larger limit. -/
def maxBatchSize : Int := 10000

/-- A reader of the stream from its oldest records on, without monitoring. -/
def ofStream (stream : String) : ReaderSettings :=
  ⟨stream, .oldest, .empty, .standard, 100, .standard⟩

/-- The first checkpoint entry that lacks its shard or its number. -/
def emptyEntry? (settings : ReaderSettings) : Option ShardId :=
  (settings.checkpoint.toList.find? fun entry => entry.1.isEmpty || entry.2.isEmpty).map Prod.fst

/-- The first fault of a configuration, in a fixed order of checks. -/
def check (settings : ReaderSettings) : Except ReaderError Unit :=
  if Text.isAllBlank settings.stream then
    .error (.configuration "stream name is empty")
  else if settings.batchSize < 1 || maxBatchSize < settings.batchSize then
    .error (.configuration ("batch size " ++ Int.repr settings.batchSize ++ " outside 1..=" ++
      Int.repr maxBatchSize))
  else if settings.retry.budget.isZero then
    .error (.configuration "operation timeout must be positive")
  else
    match settings.emptyEntry? with
    | some shard =>
      .error (.configuration ("empty initial offset entry for shard '" ++ shard ++ "'"))
    | none => .ok ()

end ReaderSettings

end ShardedStream
