import ShardedStream.Duration
import ShardedStream.Position
import ShardedStream.Reader.Error

/-!
Notices for the operator: what the reader finds worth a warning.
-/

namespace ShardedStream

inductive Notice where
  /-- An attempt was throttled, and the next one comes after the delay. -/
  | throttled (attempt : Nat) (delay : Duration) (fault : Fault)
  /-- An operation used up its time without an answer. -/
  | budgetExhausted (operation : String) (budget : Duration)
  /-- The stream could not be described, so its shards are still unknown. -/
  | streamNotDescribed (stream : String)
  /-- An iterator expired; the next one will start at the position. -/
  | iteratorExpired (shard : ShardId) (position : Position)
  /-- A pass ended with an error. -/
  | passAborted (error : ReaderError)
  deriving DecidableEq, Repr

inductive NoticeLevel where
  | warning
  | error
  deriving DecidableEq, Repr

/-- Only an aborted pass is an error. -/
def Notice.level : Notice → NoticeLevel
  | .passAborted _ => .error
  | _ => .warning

def Notice.message : Notice → String
  | .throttled _ _ _ => "Operation throttled, retrying after delay"
  | .budgetExhausted _ _ => "Operation budget exhausted, giving up until next pass"
  | .streamNotDescribed _ => "Stream not described, retrying next pass"
  | .iteratorExpired _ _ => "Shard iterator expired, reissuing on next pass"
  | .passAborted _ => "Pass aborted"

/-- The named details; durations count whole milliseconds. -/
def Notice.fields : Notice → List (String × String)
  | .throttled attempt delay fault =>
    [("attempt", Nat.repr attempt), ("delay_ms", Nat.repr delay.wholeMillis),
      ("error", fault.message)]
  | .budgetExhausted operation budget =>
    [("operation", operation), ("budget_ms", Nat.repr budget.wholeMillis)]
  | .streamNotDescribed stream => [("stream", stream)]
  | .iteratorExpired shard position => [("shard_id", shard), ("position", position.text)]
  | .passAborted error => [("error", error.message)]

end ShardedStream
