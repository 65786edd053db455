import ShardedStream.Dialogue
import ShardedStream.Monitor
import ShardedStream.Retry

/-!
The surroundings of a reader: time, the shutdown signal, the service, the observer of events, and
the record of calls and notices. Every question of a dialogue becomes one retried operation.
-/

namespace ShardedStream

/-- One retried operation in the record: its attempts, and its outcome if it was waited for. -/
structure Exchange where
  request : Request
  attempts : List (Attempt request.Answer)
  outcome : Option (Except RetryFailure request.Answer)

/-- The instants at which the service was called for an operation. -/
def Exchange.calls (exchange : Exchange) : List (Nat × Request) :=
  exchange.attempts.map fun attempt => (attempt.start, exchange.request)

structure World (σ : Type) where
  clock : Clock
  signal : Signal
  service : σ
  monitor : Monitor
  exchanges : List Exchange
  notices : List Notice

variable {σ α : Type}

/--
How the outcome of an operation settles its question. A stream that is not found stays open, and a
shard that is not found reads as ended; only an iterator reports it.
-/
def Request.settle (request : Request) (outcome : Except RetryFailure request.Answer) :
    Settled request :=
  match outcome with
  | .ok answer => .ok (some answer)
  | .error (.exhausted _) => .ok none
  | .error .interrupted => .ok none
  | .error (.fatal fault) =>
    if fault.isNotFound then
      match request with
      | .listShards _ => .ok none
      | .openIterator _ _ _ => .error fault
      | .readRecords _ _ => .ok (some Batch.ended)
    else .error fault

/-- Only an operation that used up its budget is worth a notice. -/
def Request.settleNotices (request : Request) (outcome : Except RetryFailure α) : List Notice :=
  match outcome with
  | .error (.exhausted budget) => [.budgetExhausted request.operation budget]
  | _ => []

namespace World

/-- A world in which nothing has happened yet. -/
def start (service : σ) (monitor : Monitor) : World σ :=
  ⟨.start, .silent, service, monitor, [], []⟩

/-- Every call of the service so far, with its time. -/
def calls (world : World σ) : List (Nat × Request) := world.exchanges.flatMap Exchange.calls

def notify (world : World σ) (notices : List Notice) : World σ :=
  { world with notices := world.notices ++ notices }

def emit (world : World σ) (event : Event) : World σ :=
  { world with monitor := world.monitor.emit event }

def report (world : World σ) : Report → World σ
  | .event event => world.emit event
  | .notice notice => world.notify [notice]

def reportAll (world : World σ) (reports : List Report) : World σ := reports.foldl report world

/--
Runs one question to its end with a fresh count of attempts. Every operation has its own plan, which
is told by the calls before it.
-/
def settle (service : Service σ) (plan : Nat → RetryPlan) (request : Request) (world : World σ) :
    Option (Settled request) × World σ :=
  let retried := retry (plan world.calls.length) world.signal (service.call request) 0
    world.clock world.service
  let world := { world with
    clock := retried.clock
    service := retried.state
    exchanges := world.exchanges ++ [⟨request, retried.made, retried.outcome⟩]
    notices := world.notices ++ retried.notices }
  match retried.outcome with
  | none => (none, world)
  | some outcome => (some (request.settle outcome), world.notify (request.settleNotices outcome))

/-- Carries on a dialogue; without a value its caller has stopped waiting. -/
def converse (service : Service σ) (plan : Nat → RetryPlan) :
    Dialogue α → World σ → Option α × World σ
  | .done value, world => (some value, world)
  | .tell report next, world => converse service plan next (world.report report)
  | .ask request next, world =>
    match world.settle service plan request with
    | (none, world) => (none, world)
    | (some settled, world) => converse service plan (next settled) world

/-- Sets how many more milliseconds the caller waits. -/
def limitTo (world : World σ) (patience : Option Nat) : World σ :=
  { world with clock :=
    { world.clock with limit := patience.map fun patience => world.clock.now + patience } }

/-- Lets time pass. -/
def sleep (world : World σ) (millis : Nat) : World σ :=
  { world with clock := (world.clock.wait (world.clock.now + millis)).2 }

/-- Schedules an act of the signal's sender that many milliseconds from now. -/
def planSignal (world : World σ) (delay : Nat) (act : SignalAct) : World σ :=
  { world with signal := world.signal.plan (world.clock.now + delay) act }

/-- The observer takes out the events that wait. -/
def drainEvents (world : World σ) : World σ := { world with monitor := world.monitor.drain }

/-- How many milliseconds an observer waits for events that it expects. -/
def eventPatience : Nat := 5000

/--
The observer waits until it has seen events of all these names. No event comes while nobody reads,
so it either has them already or waits in vain.
-/
def awaitEvents (world : World σ) (names : List String) : Option Bool × World σ :=
  let drained := world.drainEvents
  match drained.monitor.channel with
  | none => (none, drained)
  | some channel =>
    if names.all channel.hasSeen then (some true, drained)
    else (some false, drained.sleep eventPatience)

end World

end ShardedStream
