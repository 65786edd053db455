import ShardedStream.Fault
import ShardedStream.Shard

/-!
What can go wrong for a caller of the reader.
-/

namespace ShardedStream

inductive ReaderError where
  /-- A service call failed for good. -/
  | client (fault : Fault)
  /-- The reader cannot work with its configuration. -/
  | configuration (detail : String)
  /-- The shard is not tracked. -/
  | unknownShard (shard : ShardId)
  deriving DecidableEq, Repr, Inhabited

def ReaderError.message : ReaderError → String
  | .client fault => fault.message
  | .configuration detail => "Configuration error: " ++ detail
  | .unknownShard shard => "Unknown shard: " ++ shard

end ShardedStream
