/-!
Monitoring events: what a reader tells its observers about single shards.
-/

namespace ShardedStream

/-- A turn in the life of a shard. -/
inductive ShardEvent where
  /-- The shard has been given a starting position. -/
  | assigned
  /-- The shard has returned its last record. -/
  | exhausted
  /-- The successors of the shard are being read, or it has none. -/
  | completed
  deriving DecidableEq, Repr, Inhabited

/-- A turn in the life of an iterator. -/
inductive IteratorEvent where
  | acquired
  /-- The iterator is void and will be asked for again. -/
  | expired
  /-- No iterator could be had in this pass. -/
  | unavailable
  deriving DecidableEq, Repr, Inhabited

inductive EventKind where
  | shard (event : ShardEvent) (detail : Option String)
  | iterator (event : IteratorEvent) (detail : Option String)
  /-- A batch of `count` records that ended `lag` milliseconds behind the tip. -/
  | batchRead (count : Nat) (lag : Int)
  /-- An operation gave up for this pass. -/
  | throttled (operation : String)
  deriving DecidableEq, Repr, Inhabited

structure Event where
  shard : String
  kind : EventKind
  deriving DecidableEq, Repr, Inhabited

/-- A short stable name. -/
def Event.name (event : Event) : String :=
  match event.kind with
  | .shard .assigned _ => "shard_assigned"
  | .shard .exhausted _ => "shard_exhausted"
  | .shard .completed _ => "shard_completed"
  | .iterator .acquired _ => "iterator_acquired"
  | .iterator .expired _ => "iterator_expired"
  | .iterator .unavailable _ => "iterator_unavailable"
  | .batchRead count _ => "batch_read_" ++ Nat.repr count
  | .throttled operation => "throttled_" ++ operation

end ShardedStream
