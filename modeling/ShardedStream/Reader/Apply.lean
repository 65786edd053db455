import ShardedStream.Reader.Step

/-!
Application of outcomes: the one place where a shard changes its phase.
The checkpoint does not move here; it follows the records as they are handed out.
-/

namespace ShardedStream

/-- What an applied outcome means for the pass that produced it. -/
structure Effect where
  /-- The records to hand out, in the order of the service. -/
  deliveries : List Delivery
  /-- The shards that are tracked from now on. -/
  newShards : List ShardId
  /-- The shard needs another step to look up its successors. -/
  revisit : Bool
  reports : List Report
  deriving DecidableEq, Repr

def Effect.nothing : Effect := ⟨[], [], false, []⟩

namespace Reader

/-- Notes how far a shard is behind. -/
def noteLag (reader : Reader) (outcome : Outcome) : Reader :=
  match outcome.lag with
  | some lag => { reader with lag := reader.lag.insert outcome.shard lag }
  | none => reader

/-- A batch is announced by its size and lag. -/
def lagReports (outcome : Outcome) : List Report :=
  match outcome.lag with
  | some lag => [.event ⟨outcome.shard, .batchRead outcome.records.length lag⟩]
  | none => []

/-- What a transition does to a tracked shard that resumes at `resume`. -/
def follow (reader : Reader) (shard : ShardId) (resume : Position) :
    Transition → Effect × Reader
  | .continued next => (.nothing, reader.setPhase shard (.reading next))
  | .exhausted =>
    (⟨[], [], true, [.event ⟨shard, .shard .exhausted none⟩]⟩,
      reader.setPhase shard .exhausted)
  | .throttled token =>
    (⟨[], [], false, [.event ⟨shard, .throttled "get_records"⟩]⟩,
      match token with
      | some token => reader.setPhase shard (.reading token)
      | none => reader)
  | .expired =>
    (⟨[], [], false,
        [.notice (.iteratorExpired shard resume), .event ⟨shard, .iterator .expired none⟩]⟩,
      reader.setPhase shard (.waiting resume))
  | .noIterator =>
    (⟨[], [], false, [.event ⟨shard, .iterator .unavailable none⟩]⟩, reader)
  | .successorsKnown assignments =>
    let tracked := reader.track assignments
    let newShards := tracked.1.map Assignment.shard
    (⟨[], newShards, false,
        assignedReports tracked.1 ++
          [.event ⟨shard, .shard .completed
            (some (Nat.repr newShards.length ++ " successors"))⟩]⟩,
      tracked.2.setPhase shard .done)
  | .successorsUnknown => (.nothing, reader)
  | .idle => (.nothing, reader)

/-- Applies an outcome; one for a shard that is not tracked changes nothing. -/
def apply (reader : Reader) (outcome : Outcome) : Effect × Reader :=
  match reader.resumesAt? outcome.shard with
  | none => (.nothing, reader)
  | some resume =>
    let followed := (reader.noteLag outcome).follow outcome.shard resume outcome.transition
    ({ followed.1 with
        deliveries := outcome.records.map (Delivery.mk outcome.shard)
        reports := lagReports outcome ++ followed.1.reports },
      followed.2)

end Reader

end ShardedStream
