import ShardedStream.Proofs.Monitor.Loss
import ShardedStream.Proofs.World.Wake

/-!
The log of an observer.
While its receiver is there, a channel that never fills lets in every event, and what the receiver
has got is followed by what waits.
-/

namespace ShardedStream

namespace Channel

variable {channel later : Channel} {event : Event}

/-- What the receiver has got, and then what it will find. -/
def log (channel : Channel) : List Event := channel.received ++ channel.waiting

/-- The receiver takes out some of the events that wait, in order. -/
def Takes (channel later : Channel) : Prop :=
  later.capacity = channel.capacity ∧ later.hasReceiver = channel.hasReceiver ∧
    channel.received <+: later.received ∧ later.log = channel.log

/-- A channel with room left after an event had room before it. -/
theorem accepts_of_emit (room : (channel.emit event).accepts = true) :
    channel.accepts = true := by
  rw [emit_eq] at room
  by_cases accepts : channel.accepts = true
  · exact accepts
  · rwa [if_neg accepts] at room

theorem log_emit (accepts : channel.accepts = true) :
    (channel.emit event).log = channel.log ++ [event] := by
  rw [emit_eq, if_pos accepts, log, log, List.append_assoc]

/-- Drains only move events from what waits to what the receiver has got. -/
theorem log_foldl_receive {acts : List ReceiverAct} (drains : ∀ act ∈ acts, act = .drain)
    (channel : Channel) : (acts.foldl receive channel).log = channel.log := by
  induction acts generalizing channel with
  | nil => rfl
  | cons act acts inductionHypothesis =>
      obtain ⟨rfl, later⟩ := List.forall_mem_cons.mp drains
      exact (inductionHypothesis later channel.drain).trans (List.append_nil _)

end Channel

namespace Monitor

variable {monitor later : Monitor} {event : Event} {events : List Event}

def log (monitor : Monitor) : List Event := (monitor.channel.map Channel.log).getD []

/-- There is a channel with room left, and its receiver is there. -/
def accepts (monitor : Monitor) : Bool := monitor.channel.any Channel.accepts

/-- Each of these events finds room in the channel, and after it the receiver does nothing but drain
the channel. -/
def Keeps (monitor : Monitor) : List Event → Prop
  | [] => True
  | event :: events => monitor.accepts = true ∧ (∀ act ∈ monitor.plan.headD [], act = .drain) ∧
    (monitor.emit event).Keeps events

/-- The receiver takes out some of the events that wait, in order. -/
def Takes (monitor later : Monitor) : Prop :=
  match monitor.channel, later.channel with
  | some channel, some later => channel.Takes later
  | _, _ => False

/-- Nothing is lost from the log when the receiver takes out events. -/
theorem Takes.log (takes : monitor.Takes later) : later.log = monitor.log := by
  unfold Takes at takes
  split at takes
  · rename_i found foundLater
    rw [Monitor.log, Monitor.log, found, foundLater]
    exact takes.2.2.2
  · exact takes.elim

theorem log_emit (accepts : monitor.accepts = true)
    (drains : ∀ act ∈ monitor.plan.headD [], act = .drain) :
    (monitor.emit event).log = monitor.log ++ [event] := by
  obtain ⟨channel, plan⟩ := monitor
  cases channel with
  | none => cases accepts
  | some channel =>
      exact (Channel.log_foldl_receive drains _).trans (Channel.log_emit accepts)

/-- Events that are all kept are added to the log. -/
theorem Keeps.log (keeps : monitor.Keeps events) :
    (monitor.emitAll events).log = monitor.log ++ events := by
  induction events generalizing monitor with
  | nil => exact (List.append_nil _).symm
  | cons event events inductionHypothesis =>
      obtain ⟨accepts, drains, rest⟩ := keeps
      refine (inductionHypothesis rest).trans ?_
      rw [log_emit accepts drains, List.append_assoc]
      rfl

/-- Without a plan the receiver does nothing of itself. -/
theorem emit_idle (idle : monitor.plan = []) (event : Event) :
    monitor.emit event = ⟨monitor.channel.map fun channel => channel.emit event, []⟩ := by
  obtain ⟨channel, plan⟩ := monitor
  obtain rfl : plan = [] := idle
  cases channel <;> rfl

theorem plan_emitAll (idle : monitor.plan = []) (events : List Event) :
    (monitor.emitAll events).plan = [] := by
  induction events generalizing monitor with
  | nil => exact idle
  | cons event events inductionHypothesis =>
      exact inductionHypothesis (congrArg plan (emit_idle idle event))

/-- A monitor with room left had room before. -/
theorem accepts_of_emitAll (idle : monitor.plan = [])
    (room : (monitor.emitAll events).accepts = true) : monitor.accepts = true := by
  induction events generalizing monitor with
  | nil => exact room
  | cons event events inductionHypothesis =>
      have next := emit_idle idle event
      have between := inductionHypothesis (congrArg plan next) room
      rw [next] at between
      obtain ⟨channel, plan⟩ := monitor
      cases channel with
      | none => cases between
      | some channel => exact Channel.accepts_of_emit between

/-- A monitor with room left has kept every event, if the receiver never did anything. -/
theorem keeps_of_room (idle : monitor.plan = [])
    (room : (monitor.emitAll events).accepts = true) : monitor.Keeps events := by
  induction events generalizing monitor with
  | nil => trivial
  | cons event events inductionHypothesis =>
      refine ⟨accepts_of_emitAll idle room, by simp [idle], ?_⟩
      exact inductionHypothesis (congrArg plan (emit_idle idle event)) room

/-- The receiver has got some events and does nothing more, and others wait. -/
def resting (room : Nat) (received waiting : List Event) : Monitor :=
  ⟨some ⟨room, waiting, received, true⟩, []⟩

theorem accepts_resting {room : Nat} {waiting : List Event} (fits : waiting.length < room)
    (received : List Event) : (resting room received waiting).accepts = true :=
  decide_eq_true fits

/-- Events for which there is room wait behind the others. -/
theorem resting_emitAll {room : Nat} {received waiting : List Event}
    (fits : waiting.length + events.length ≤ room) :
    (resting room received waiting).emitAll events =
      resting room received (waiting ++ events) := by
  induction events generalizing waiting with
  | nil => exact congrArg (resting room received) (List.append_nil waiting).symm
  | cons event events inductionHypothesis =>
      rw [List.length_cons] at fits
      have less : waiting.length < room := by omega
      have accepts : Channel.accepts ⟨room, waiting, received, true⟩ = true := decide_eq_true less
      have next : (resting room received waiting).emit event =
          resting room received (waiting ++ [event]) := by
        rw [emit_idle rfl, resting, Option.map_some, Channel.emit_eq, if_pos accepts]
        rfl
      refine (congrArg (emitAll · events) next).trans ?_
      rw [inductionHypothesis, List.append_assoc, List.singleton_append]
      rw [List.length_append, List.length_singleton]
      omega

/-- Nothing is in the log of a new monitor. -/
theorem log_ofSettings (settings : MonitorSettings) : (ofSettings settings).log = [] := by
  unfold ofSettings
  split <;> rfl

end Monitor
end ShardedStream
