import ShardedStream.Fault
import ShardedStream.Position
import ShardedStream.Record

/-!
The three calls of a stream service, and services as machines that answer them.
-/

namespace ShardedStream

/-- The answer to a call, and how many milliseconds it takes to arrive. -/
structure Reply (α : Type) where
  result : Except Fault α
  latency : Nat

/-- A call to the service. -/
inductive Request where
  /-- Describes all shards of the stream, open and closed. -/
  | listShards (stream : String)
  /-- Asks for an iterator that starts at the position. -/
  | openIterator (stream : String) (shard : ShardId) (position : Position)
  /-- Reads at most `limit` records from an iterator. -/
  | readRecords (token : Token) (limit : Int)
  deriving DecidableEq, Repr, Inhabited

/-- What a call returns when it succeeds. -/
@[reducible] def Request.Answer : Request → Type
  | .listShards _ => List Shard
  | .openIterator _ _ _ => Token
  | .readRecords _ _ => Batch

/-- The service's name for the call. -/
def Request.operation : Request → String
  | .listShards _ => "describe_stream"
  | .openIterator _ _ _ => "get_shard_iterator"
  | .readRecords _ _ => "get_records"

/--
A service takes its answer, and changes its state, at the moment it is called; a caller that does
not wait for the answer has still used it up.
-/
structure Service (σ : Type) where
  call : (request : Request) → (time : Nat) → σ → Reply request.Answer × σ

/-- One try of a call. It has no result when the answer was not waited for. -/
structure Attempt (α : Type) where
  start : Nat
  stop : Nat
  result : Option (Except Fault α)

end ShardedStream
