import ShardedStream.Shard

/-!
Records and the batches that a read returns.
-/

namespace ShardedStream

/-- An iterator token stands for a place in one shard. -/
abbrev Token := String

/-- A time of arrival: whole seconds since the epoch, rounded down, and the nanoseconds after. -/
structure Arrival where
  seconds : Int
  nanos : Nat
  deriving DecidableEq, Repr, Inhabited

/-- The time at `seconds` and `nanos`, where a whole second of nanoseconds carries over. -/
def Arrival.ofParts (seconds : Int) (nanos : Nat) : Arrival :=
  ⟨seconds + (nanos / 1000000000 : Nat), nanos % 1000000000⟩

/-- One data record of a shard. -/
structure Record where
  sequence : SequenceNumber
  key : String
  data : List UInt8
  arrival : Option Arrival
  deriving DecidableEq, Repr, Inhabited

/-- The answer to one read; without a next token the shard is closed and fully read. -/
structure Batch where
  records : List Record
  next : Option Token
  lag : Int
  deriving DecidableEq, Repr, Inhabited

/-- A shard that is gone reads as an empty last batch. -/
def Batch.ended : Batch := ⟨[], none, 0⟩

/-- A record handed out by the reader, with the shard it came from. -/
structure Delivery where
  shard : ShardId
  record : Record
  deriving DecidableEq, Repr, Inhabited

end ShardedStream
