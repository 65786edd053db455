import ShardedStream.Event

/-!
The channel between a reader and the observer of its events.
The reader never waits for the observer: an event that finds no room is lost.
-/

namespace ShardedStream

structure MonitorSettings where
  enabled : Bool
  channelSize : Nat
  deriving DecidableEq, Repr, Inhabited

/-- Monitoring is off, with room for a thousand events once it is on. -/
def MonitorSettings.standard : MonitorSettings := ⟨false, 1000⟩

/-- This is what the receiver of events does. -/
inductive ReceiverAct where
  /-- It takes out everything that waits. -/
  | drain
  /-- It goes away. -/
  | leave
  deriving DecidableEq, Repr, Inhabited

/-- What a receiver does first, and then after each event. -/
abbrev ReceiverPlan := List (List ReceiverAct)

/-- A bounded channel, with the events that its receiver has taken out so far. -/
structure Channel where
  capacity : Nat
  waiting : List Event
  received : List Event
  hasReceiver : Bool
  deriving DecidableEq, Repr, Inhabited

namespace Channel

/-- A channel has room for one event at least. -/
def ofSize (size : Nat) : Channel := ⟨Nat.max size 1, [], [], true⟩

/-- An event is kept when somebody may still receive it and there is room. -/
def emit (channel : Channel) (event : Event) : Channel :=
  if channel.hasReceiver && channel.waiting.length < channel.capacity then
    { channel with waiting := channel.waiting ++ [event] }
  else channel

/-- The receiver takes out everything that waits. -/
def drain (channel : Channel) : Channel :=
  { channel with waiting := [], received := channel.received ++ channel.waiting }

/-- The receiver goes away. -/
def close (channel : Channel) : Channel :=
  { channel with waiting := [], hasReceiver := false }

def receive (channel : Channel) : ReceiverAct → Channel
  | .drain => channel.drain
  | .leave => channel.close

/-- Whether an event of this name has been received. -/
def hasSeen (channel : Channel) (name : String) : Bool :=
  channel.received.any fun event => event.name == name

/-- How many received events have a name that begins so. -/
def countNamed (channel : Channel) (beginning : String) : Nat :=
  channel.received.countP fun event => beginning.toList.isPrefixOf event.name.toList

/-- What waits never exceeds the room. -/
theorem emit_within (channel : Channel) (event : Event)
    (within : channel.waiting.length ≤ channel.capacity) :
    (channel.emit event).waiting.length ≤ (channel.emit event).capacity := by
  unfold emit
  split
  · rename_i room
    simp only [Bool.and_eq_true, decide_eq_true_eq] at room
    simp only [List.length_append, List.length_singleton]
    omega
  · exact within

end Channel

/-- The observed side of a reader; without a channel nothing is kept. -/
structure Monitor where
  channel : Option Channel
  /-- What the receiver does of itself, after each of the next events. -/
  plan : ReceiverPlan
  deriving DecidableEq, Repr, Inhabited

namespace Monitor

def off : Monitor := ⟨none, []⟩

def ofSettings (settings : MonitorSettings) : Monitor :=
  if settings.enabled then ⟨some (.ofSize settings.channelSize), []⟩ else off

/-- The receiver acts on its channel. -/
def receive (monitor : Monitor) (acts : List ReceiverAct) : Monitor :=
  { monitor with channel := monitor.channel.map fun channel => acts.foldl Channel.receive channel }

/-- An event is emitted, and before the next one the receiver does what it is about to do. -/
def emit (monitor : Monitor) (event : Event) : Monitor :=
  receive ⟨monitor.channel.map fun channel => channel.emit event, monitor.plan.tail⟩
    (monitor.plan.headD [])

def drain (monitor : Monitor) : Monitor := monitor.receive [.drain]

/-- The receiver sets about its plan at once. -/
def attend (monitor : Monitor) (plan : ReceiverPlan) : Monitor :=
  { monitor.receive (plan.headD []) with plan := plan.tail }

/-- The receiver does all that is left of its plan. -/
def dismiss (monitor : Monitor) : Monitor :=
  { monitor.receive monitor.plan.flatten with plan := [] }

end Monitor

end ShardedStream
