import ShardedStream.Json.Parse
import ShardedStream.Json.Print
import ShardedStream.Position
import ShardedStream.Checkpoint

/-!
Stored forms. A checkpoint is a JSON object from shards to sequence numbers. A position or a policy
is named by a string, or by an object of one member that holds what the position refers to.
-/

namespace ShardedStream

/-- A name alone may also be written as the one member of an object, with nothing in it. -/
def Json.bareName? : Json → Option String
  | .string name => some name
  | .object [(name, .null)] => some name
  | _ => none

def Position.toJson : Position → Json
  | .trimHorizon => .string "TrimHorizon"
  | .latest => .string "Latest"
  | .afterSequence sequence => .object [("AfterSequenceNumber", .string sequence)]
  | .atSequence sequence => .object [("AtSequenceNumber", .string sequence)]

def Position.ofJson? : Json → Option Position
  | .object [("AfterSequenceNumber", .string sequence)] => some (.afterSequence sequence)
  | .object [("AtSequenceNumber", .string sequence)] => some (.atSequence sequence)
  | value =>
    match value.bareName? with
    | some "TrimHorizon" => some .trimHorizon
    | some "Latest" => some .latest
    | _ => none

def StartPolicy.toJson : StartPolicy → Json
  | .oldest => .string "Oldest"
  | .newest => .string "Newest"

def StartPolicy.ofJson? (value : Json) : Option StartPolicy :=
  match value.bareName? with
  | some "Oldest" => some .oldest
  | some "Newest" => some .newest
  | _ => none

def Checkpoint.toJson (checkpoint : Checkpoint) : Json :=
  .object (checkpoint.toList.map fun entry => (entry.1, .string entry.2))

/-- An entry of a stored checkpoint holds a string. -/
def Checkpoint.entry? : String × Json → Option (ShardId × SequenceNumber)
  | (shard, .string sequence) => some (shard, sequence)
  | _ => none

def Checkpoint.ofJson? : Json → Option Checkpoint
  | .object members => (members.mapM entry?).map Checkpoint.ofList
  | _ => none

/-- Reads the stored form of a position. -/
def Position.load? (text : String) : Option Position := (Json.parse text).bind Position.ofJson?

def Position.store (position : Position) : String := position.toJson.print

/-- Reads the stored form of a policy. -/
def StartPolicy.load? (text : String) : Option StartPolicy :=
  (Json.parse text).bind StartPolicy.ofJson?

def StartPolicy.store (policy : StartPolicy) : String := policy.toJson.print

/-- Reads the stored form of a checkpoint. -/
def Checkpoint.load? (text : String) : Option Checkpoint :=
  (Json.parse text).bind Checkpoint.ofJson?

def Checkpoint.store (checkpoint : Checkpoint) : String := checkpoint.toJson.print

/-- Takes up a stored checkpoint, and says whether the text could be read. -/
def Checkpoint.reload (checkpoint : Checkpoint) (text : String) : Bool × Checkpoint :=
  match load? text with
  | some stored => (true, stored)
  | none => (false, checkpoint)

end ShardedStream
