/-!
Shards of a stream.
A shard that has been split or merged away carries its ending sequence number.
-/

namespace ShardedStream

/-- A shard is known by the name the service gives it. -/
abbrev ShardId := String

/-- The service orders the records of one shard by opaque sequence numbers. -/
abbrev SequenceNumber := String

/-- One shard as the service describes it at one moment. -/
structure Shard where
  id : ShardId
  parent : Option ShardId
  startSequence : SequenceNumber
  endSequence : Option SequenceNumber
  deriving DecidableEq, Repr, Inhabited

/-- A closed shard takes no more records. -/
def Shard.isClosed (shard : Shard) : Bool := shard.endSequence.isSome

/-- A shard is consumed at its ending sequence number and nowhere else. -/
def Shard.endsAt (shard : Shard) (sequence : SequenceNumber) : Bool :=
  shard.endSequence == some sequence

theorem Shard.endsAt_iff (shard : Shard) (sequence : SequenceNumber) :
    shard.endsAt sequence = true ↔ shard.endSequence = some sequence := by
  simp [endsAt]

/-- Only a closed shard is ever consumed. -/
theorem Shard.isClosed_of_endsAt {shard : Shard} {sequence : SequenceNumber}
    (consumed : shard.endsAt sequence = true) : shard.isClosed = true := by
  simp [isClosed, (shard.endsAt_iff sequence).mp consumed]

end ShardedStream
