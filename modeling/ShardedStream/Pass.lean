import ShardedStream.Reader.Apply
import ShardedStream.World

/-!
Passes: one sweep over the tracked shards, record by record.
A record counts as handed out at the moment it is returned. Closing a pass early is safe, because
the records that were fetched and not returned are fetched again.
-/

namespace ShardedStream

/-- The shards still to visit, and the records still to hand out. -/
structure Pass where
  queue : List ShardId
  buffer : List Delivery
  started : Bool
  finished : Bool
  deriving DecidableEq, Repr, Inhabited

def Pass.fresh : Pass := ⟨[], [], false, false⟩

/-- A reader in the middle of a pass. -/
structure Session (σ : Type) where
  reader : Reader
  pass : Pass
  world : World σ

/-- What one turn of a pass comes to. -/
inductive Progress where
  /-- A record is handed out. -/
  | delivered (delivery : Delivery)
  /-- Every shard has had its turn. -/
  | ended
  | failed (error : ReaderError)
  /-- The caller stopped waiting for the service. -/
  | unanswered
  /-- The pass has moved on without a record. -/
  | moved
  deriving DecidableEq, Repr

variable {σ : Type}

namespace Session

def start (reader : Reader) (world : World σ) : Session σ := ⟨reader, .fresh, world⟩

/-- Ends the pass with an error. -/
def fail (session : Session σ) (error : ReaderError) : Progress × Session σ :=
  (.failed error,
    { session with
      pass := { session.pass with finished := true }
      world := session.world.notify [.passAborted error] })

def plan (session : Session σ) : Nat → RetryPlan := session.reader.settings.retry.plan

/-- Opens the pass: it visits every shard that is active once the reader is initialized. -/
def enter (service : Service σ) (session : Session σ) : Progress × Session σ :=
  let session := { session with pass := { session.pass with started := true } }
  match session.world.converse service session.plan session.reader.prepare with
  | (none, world) => (.unanswered, { session with world })
  | (some (.ok (some reader)), world) =>
    (.moved, ⟨reader, { session.pass with queue := reader.activeShards }, world⟩)
  | (some (.ok none), world) =>
    (.moved, { session with pass := { session.pass with finished := true }, world })
  | (some (.error error), world) => fail { session with world } error

/-- Takes an applied outcome into the pass. -/
def absorb (session : Session σ) (shard : ShardId) (outcome : Outcome) : Session σ :=
  let applied := session.reader.apply outcome
  let queue := if applied.1.revisit then shard :: session.pass.queue else session.pass.queue
  ⟨applied.2,
    { session.pass with
      queue := queue ++ applied.1.newShards
      buffer := session.pass.buffer ++ applied.1.deliveries },
    session.world.reportAll applied.1.reports⟩

/-- Visits one shard that has been taken off the queue. -/
def visit (service : Service σ) (session : Session σ) (shard : ShardId) :
    Progress × Session σ :=
  match session.world.converse service session.plan (session.reader.step shard) with
  | (none, world) => (.unanswered, { session with world })
  | (some (.ok outcome), world) => (.moved, absorb { session with world } shard outcome)
  | (some (.error error), world) => fail { session with world } error

/--
One turn. Records that wait are handed out first; a shard leaves the queue before the service is
called for it.
-/
def advance (service : Service σ) (session : Session σ) : Progress × Session σ :=
  match session.pass.buffer with
  | delivery :: rest =>
    (.delivered delivery,
      { session with
        reader := session.reader.handOut delivery
        pass := { session.pass with buffer := rest } })
  | [] =>
    if session.pass.finished then (.ended, session)
    else if !session.pass.started then session.enter service
    else
      match session.pass.queue with
      | [] => (.ended, { session with pass := { session.pass with finished := true } })
      | shard :: queue =>
        visit service { session with pass := { session.pass with queue } } shard

/--
The next record, nothing when the pass is over, or an error. The result is `none` when the caller
stopped waiting, or when the pass took more turns than the fuel allows.
-/
def next (service : Service σ) :
    Nat → Session σ → Option (Except ReaderError (Option Delivery)) × Session σ
  | 0, session => (none, session)
  | fuel + 1, session =>
    match session.advance service with
    | (.delivered delivery, session) => (some (.ok (some delivery)), session)
    | (.ended, session) => (some (.ok none), session)
    | (.failed error, session) => (some (.error error), session)
    | (.unanswered, session) => (none, session)
    | (.moved, session) => next service fuel session

/-- Waits only so many milliseconds for the next record. -/
def nextWithin (service : Service σ) (fuel : Nat) (patience : Option Nat)
    (session : Session σ) : Option (Except ReaderError (Option Delivery)) × Session σ :=
  let answered := next service fuel { session with world := session.world.limitTo patience }
  (answered.1, { answered.2 with world := answered.2.world.limitTo none })

/-- Ends the pass: a shard with records left to hand out restarts at the first of them. -/
def close (session : Session σ) : Reader × World σ :=
  match session.pass.buffer.head? with
  | some delivery =>
    (session.reader.restartAt delivery.shard (.atSequence delivery.record.sequence),
      session.world)
  | none => (session.reader, session.world)

/-- At most `count` items of the pass as a stream, which ends with the first error. -/
def items (service : Service σ) (fuel : Nat) :
    Nat → Session σ → List (Except ReaderError Delivery) × Session σ
  | 0, session => ([], session)
  | count + 1, session =>
    match session.next service fuel with
    | (some (.ok (some delivery)), session) =>
      let rest := items service fuel count session
      (.ok delivery :: rest.1, rest.2)
    | (some (.ok none), session) => ([], session)
    | (some (.error error), session) => ([.error error], session)
    | (none, session) => ([], session)

/--
The records of the whole pass. On an error those collected so far are given up, though they count
as handed out. The result is `none` when the pass is not over after `count` calls.
-/
def collect (service : Service σ) (fuel : Nat) :
    Nat → Session σ → Option (Except ReaderError (List Delivery)) × Session σ
  | 0, session => (none, session)
  | count + 1, session =>
    match session.next service fuel with
    | (some (.ok (some delivery)), session) =>
      let rest := collect service fuel count session
      (rest.1.map fun result => result.map (delivery :: ·), rest.2)
    | (some (.ok none), session) => (some (.ok []), session)
    | (some (.error error), session) => (some (.error error), session)
    | (none, session) => (none, session)

end Session

namespace Reader

/-- Runs one whole pass. -/
def runPass (service : Service σ) (fuel : Nat) (reader : Reader) (world : World σ) :
    Option (Except ReaderError (List Delivery)) × Reader × World σ :=
  let collected := (Session.start reader world).collect service fuel fuel
  (collected.1, collected.2.close)

/-- Takes at most `count` items of one pass as a stream, and closes it. -/
def streamPass (service : Service σ) (fuel count : Nat) (reader : Reader) (world : World σ) :
    List (Except ReaderError Delivery) × Reader × World σ :=
  let taken := (Session.start reader world).items service fuel count
  (taken.1, taken.2.close)

/-- One step for a shard, outside of any pass. -/
def stepIn (service : Service σ) (reader : Reader) (shard : ShardId) (world : World σ) :
    Option (Except ReaderError Outcome) × World σ :=
  world.converse service reader.settings.retry.plan (reader.step shard)

/-- Applies an outcome and passes on what it reports. -/
def applyIn (reader : Reader) (outcome : Outcome) (world : World σ) :
    Effect × Reader × World σ :=
  let applied := reader.apply outcome
  (applied.1, applied.2, world.reportAll applied.1.reports)

end Reader

end ShardedStream
