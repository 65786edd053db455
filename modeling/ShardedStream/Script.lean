import ShardedStream.Pass

/-!
A scripted service: queues of replies, one for descriptions and two for each shard. A call without a
scripted reply gets a harmless one at once. The service issues its own tokens and remembers which
shard every token belongs to.
-/

namespace ShardedStream

/-- A batch as a script gives it; an open one gets a newly issued token. -/
structure ScriptedBatch where
  records : List Record
  isOpen : Bool
  lag : Int
  deriving DecidableEq, Repr, Inhabited

structure Script where
  /-- The shards that an unscripted description names. -/
  description : List Shard
  descriptions : List (Reply (List Shard))
  iterators : Std.ExtTreeMap ShardId (List (Reply Token))
  batches : Std.ExtTreeMap ShardId (List (Reply ScriptedBatch))
  owners : Std.ExtTreeMap Token ShardId
  /-- How many tokens have been issued. -/
  issued : Nat
  /-- The shard and the limit of each read on a known token. -/
  reads : List (ShardId × Int)

/-- A reply that comes at once. -/
def Reply.now {α : Type} (result : Except Fault α) : Reply α := ⟨result, 0⟩

namespace Script

/-- A service with nothing scripted. -/
def describing (shards : List Shard) : Script := ⟨shards, [], ∅, ∅, ∅, 0, []⟩

def describe (script : Script) (shards : List Shard) : Script :=
  { script with description := shards }

def queueDescriptions (script : Script) (replies : List (Reply (List Shard))) : Script :=
  { script with descriptions := script.descriptions ++ replies }

def queueIterators (script : Script) (shard : ShardId) (replies : List (Reply Token)) : Script :=
  { script with
    iterators := script.iterators.insert shard (script.iterators.getD shard [] ++ replies) }

def queueBatches (script : Script) (shard : ShardId) (replies : List (Reply ScriptedBatch)) :
    Script :=
  { script with batches := script.batches.insert shard (script.batches.getD shard [] ++ replies) }

/-- The token belongs to the shard from now on. -/
def register (script : Script) (token : Token) (shard : ShardId) : Script :=
  { script with owners := script.owners.insert token shard }

/-- A token names its shard and how many tokens were issued before. -/
def tokenText (shard : ShardId) (number : Nat) : Token :=
  shard ++ "-iterator-" ++ Nat.repr number

/-- Issues the next token for a shard. -/
def issue (script : Script) (shard : ShardId) : Token × Script :=
  let token := tokenText shard script.issued
  (token, { script.register token shard with issued := script.issued + 1 })

def answerList (script : Script) : Reply (List Shard) × Script :=
  match script.descriptions with
  | reply :: rest => (reply, { script with descriptions := rest })
  | [] => (.now (.ok script.description), script)

def answerIterator (script : Script) (shard : ShardId) : Reply Token × Script :=
  match script.iterators.getD shard [] with
  | reply :: rest =>
    let script := { script with iterators := script.iterators.insert shard rest }
    match reply.result with
    | .ok token => (reply, script.register token shard)
    | .error _ => (reply, script)
  | [] =>
    let issued := script.issue shard
    (.now (.ok issued.1), issued.2)

/-- Turns a scripted batch into an answer. -/
def complete (script : Script) (shard : ShardId) (batch : ScriptedBatch) : Batch × Script :=
  if batch.isOpen then
    let issued := script.issue shard
    (⟨batch.records, some issued.1, batch.lag⟩, issued.2)
  else (⟨batch.records, none, batch.lag⟩, script)

def answerRead (script : Script) (token : Token) (limit : Int) : Reply Batch × Script :=
  match script.owners[token]? with
  | none => (.now (.error (.invalidArgument ("unknown iterator " ++ token))), script)
  | some shard =>
    let script := { script with reads := script.reads ++ [(shard, limit)] }
    match script.batches.getD shard [] with
    | reply :: rest =>
      let script := { script with batches := script.batches.insert shard rest }
      match reply.result with
      | .ok batch =>
        let completed := script.complete shard batch
        (⟨.ok completed.1, reply.latency⟩, completed.2)
      | .error fault => (⟨.error fault, reply.latency⟩, script)
    | [] =>
      let completed := script.complete shard ⟨[], true, 0⟩
      (.now (.ok completed.1), completed.2)

def service : Service Script where
  call request _ script :=
    match request with
    | .listShards _ => script.answerList
    | .openIterator _ shard _ => script.answerIterator shard
    | .readRecords token limit => script.answerRead token limit

/-- The shards that scripted descriptions name, one description after the other. -/
def shardsIn (replies : List (Reply (List Shard))) : List Shard :=
  replies.flatMap fun reply =>
    match reply.result with
    | .ok shards => shards
    | .error _ => []

/-- No more shards than these are named by all further descriptions together. -/
def shardBound (script : Script) : Nat :=
  script.description.length + (shardsIn script.descriptions).length

/-- The records of scripted batches, in order. -/
def recordsIn (replies : List (Reply ScriptedBatch)) : List Record :=
  replies.flatMap fun reply =>
    match reply.result with
    | .ok batch => batch.records
    | .error _ => []

/-- No more records than these are still scripted. -/
def recordBound (script : Script) : Nat :=
  (script.batches.toList.flatMap fun entry => recordsIn entry.2).length

/--
Enough turns for a whole pass: it visits each shard at most twice, and there are no more shards than
those tracked and those still to be described.
-/
def turns (script : Script) (reader : Reader) : Nat :=
  2 * (reader.shards.length + script.shardBound) + script.recordBound + 4

/-- Runs one whole pass over a scripted service. -/
def runPass (reader : Reader) (world : World Script) :
    Option (Except ReaderError (List Delivery)) × Reader × World Script :=
  reader.runPass service (world.service.turns reader) world

/-- Takes at most `count` items of a pass over a scripted service. -/
def streamPass (count : Nat) (reader : Reader) (world : World Script) :
    List (Except ReaderError Delivery) × Reader × World Script :=
  reader.streamPass service (world.service.turns reader) count world

/-- The next record of a pass over a scripted service. -/
def nextWithin (patience : Option Nat) (session : Session Script) :
    Option (Except ReaderError (Option Delivery)) × Session Script :=
  session.nextWithin service (session.world.service.turns session.reader) patience

end Script

end ShardedStream
