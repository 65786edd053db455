import ShardedStream.Assignments.Cover
import ShardedStream.Reader.Settings
import ShardedStream.Record

/-!
The state of a reader: which shards it tracks, how far it has read each of them, and what it has
handed out.
-/

namespace ShardedStream

/-- How far a tracked shard has been read. -/
inductive Phase where
  /-- The shard has no iterator; one will be asked for at the position. -/
  | waiting (position : Position)
  /-- The shard has a live iterator. -/
  | reading (token : Token)
  /-- The shard has been read to its end, and its successors are not known. -/
  | exhausted
  /-- The shard has been read to its end, and its successors are tracked. -/
  | done
  deriving DecidableEq, Repr, Inhabited

/-- A shard that is being read; before its first record it restarts at `start`. -/
structure Tracked where
  id : ShardId
  phase : Phase
  start : Position
  deriving DecidableEq, Repr, Inhabited

def Tracked.ofAssignment (assignment : Assignment) : Tracked :=
  ⟨assignment.shard, .waiting assignment.position, assignment.position⟩

/-- A shard is active until it is done. -/
def Tracked.isActive (tracked : Tracked) : Bool := tracked.phase != .done

/-- The shards stand in the order in which they came to be tracked. -/
structure Reader where
  settings : ReaderSettings
  checkpoint : Checkpoint
  shards : List Tracked
  index : Std.ExtTreeMap ShardId Nat
  initialized : Bool
  lag : Std.ExtTreeMap ShardId Int

namespace Reader

/-- A reader continues from the checkpoint of its configuration. -/
def ofSettings (settings : ReaderSettings) : Reader :=
  ⟨settings, settings.checkpoint, [], ∅, false, ∅⟩

def create (settings : ReaderSettings) : Except ReaderError Reader :=
  settings.check.map fun _ => ofSettings settings

def tracked? (reader : Reader) (shard : ShardId) : Option Tracked :=
  reader.index[shard]?.bind fun place => reader.shards[place]?

/-- Changes a tracked shard where the index says that it stands. -/
def modifyTracked (reader : Reader) (shard : ShardId) (change : Tracked → Tracked) :
    Reader :=
  match reader.index[shard]? with
  | some place => { reader with shards := reader.shards.modify place change }
  | none => reader

def setPhase (reader : Reader) (shard : ShardId) (phase : Phase) : Reader :=
  reader.modifyTracked shard fun tracked => { tracked with phase }

/-- The shards that are still read, in order. -/
def activeShards (reader : Reader) : List ShardId :=
  (reader.shards.filter Tracked.isActive).map Tracked.id

/-- A shard that is tracked already keeps its place and position. -/
def trackOne (added : List Assignment × Reader) (assignment : Assignment) :
    List Assignment × Reader :=
  let reader := added.2
  if reader.index.contains assignment.shard then added
  else
    (added.1 ++ [assignment],
      { reader with
        index := reader.index.insert assignment.shard reader.shards.length
        shards := reader.shards ++ [.ofAssignment assignment] })

/-- Tracks the shards that are new, and returns their assignments. -/
def track (reader : Reader) (assignments : Assignments) : List Assignment × Reader :=
  assignments.entries.foldl trackOne ([], reader)

/-- The shards that are tracked, whatever their phase. -/
def trackedShards (reader : Reader) : Std.ExtTreeSet ShardId :=
  .ofList reader.index.keys

/-- Where the next iterator of a tracked shard starts. -/
def resumesAt? (reader : Reader) (shard : ShardId) : Option Position :=
  (reader.tracked? shard).map fun tracked =>
    match reader.checkpoint.get? shard with
    | some sequence => .afterSequence sequence
    | none => tracked.start

/-- Drops the iterator of a shard and restarts it at the position. -/
def restartAt (reader : Reader) (shard : ShardId) (position : Position) : Reader :=
  reader.modifyTracked shard fun tracked =>
    { tracked with phase := .waiting position, start := position }

/-- Notes that a record has been handed out. -/
def handOut (reader : Reader) (delivery : Delivery) : Reader :=
  { reader with
    checkpoint := reader.checkpoint.record delivery.shard delivery.record.sequence }

/-- Whether the shard is tracked and not done. -/
def isReading (reader : Reader) (shard : ShardId) : Bool :=
  (reader.tracked? shard).any Tracked.isActive

/-- Forgets and returns the saved number of a shard, unless the shard is still read. -/
def prune (reader : Reader) (shard : ShardId) : Option SequenceNumber × Reader :=
  if reader.isReading shard then (none, reader)
  else
    (reader.checkpoint.get? shard,
      { reader with checkpoint := reader.checkpoint.erase shard })

end Reader

end ShardedStream
