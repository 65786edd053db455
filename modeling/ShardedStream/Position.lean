import ShardedStream.Shard

/-!
Starting positions of iterators, and the policy for shards without a saved position.
-/

namespace ShardedStream

/-- Where an iterator of a shard begins. -/
inductive Position where
  /-- Before the oldest record still kept. -/
  | trimHorizon
  /-- Past the newest record. -/
  | latest
  /-- Just past the record with this number. -/
  | afterSequence (sequence : SequenceNumber)
  /-- Just before the record with this number. -/
  | atSequence (sequence : SequenceNumber)
  deriving DecidableEq, Repr, Inhabited

/-- The service's word for the kind of position. -/
def Position.kind : Position → String
  | .trimHorizon => "TRIM_HORIZON"
  | .latest => "LATEST"
  | .afterSequence _ => "AFTER_SEQUENCE_NUMBER"
  | .atSequence _ => "AT_SEQUENCE_NUMBER"

/-- The sequence number that the position refers to. -/
def Position.sequence? : Position → Option SequenceNumber
  | .trimHorizon => none
  | .latest => none
  | .afterSequence sequence => some sequence
  | .atSequence sequence => some sequence

/-- The kind of position, followed by its sequence number in parentheses. -/
def Position.text (position : Position) : String :=
  match position.sequence? with
  | some sequence => position.kind ++ "(" ++ sequence ++ ")"
  | none => position.kind

/-- How a stream is opened when nothing is saved for any of its shards. -/
inductive StartPolicy where
  /-- Read everything still kept. -/
  | oldest
  /-- Read only what is written from now on. -/
  | newest
  deriving DecidableEq, Repr, Inhabited

end ShardedStream
