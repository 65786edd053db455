import ShardedStream.Proofs.Reader.Consult
import ShardedStream.Proofs.Reader.Effect
import ShardedStream.Proofs.Session.Life
import ShardedStream.Proofs.Session.Queue

/-!
The stops of a pass.
A pass stops at one shard after the other. It visits a shard once, and once more right afterwards if
the first visit has read the shard to its end; no two operations of a stop are of one kind.
-/

namespace ShardedStream

/-- A visit to a shard: the operations that it made, and what its step came to. -/
structure Visit where
  shard : ShardId
  made : List Exchange
  result : Option (Except ReaderError Outcome)

/-- These are the records that a visit has fetched, for its shard. -/
def Visit.deliveries (visit : Visit) : List Delivery :=
  (visit.made.flatMap Exchange.records).map (Delivery.mk visit.shard)

variable {σ : Type}

/-- The visit that the next turn makes, if it makes one. -/
def Session.visit? (service : Service σ) (session : Session σ) : Option Visit :=
  match session.pass with
  | ⟨shard :: _, [], true, false⟩ =>
    let stepped := session.world.converse service session.plan (session.reader.step shard)
    some ⟨shard, stepped.2.exchanges.drop session.world.exchanges.length, stepped.1⟩
  | _ => none

/-- A turn makes no visit unless nothing waits and a shard is next. -/
theorem Session.visit?_eq_none {service : Service σ} {session : Session σ}
    (busy : ∀ shard rest, session.pass ≠ ⟨shard :: rest, [], true, false⟩) :
    session.visit? service = none := by
  unfold Session.visit?
  split
  · rename_i shard rest same
    exact absurd same (busy shard rest)
  · rfl

/-- A turn visits the first shard of the queue when nothing waits. -/
theorem Session.visit?_eq_some {service : Service σ} {reader : Reader} {shard : ShardId}
    {rest : List ShardId} {world : World σ} {made : List Exchange}
    (exchanges : (world.converse service reader.settings.retry.plan
      (reader.step shard)).2.exchanges = world.exchanges ++ made) :
    Session.visit? service ⟨reader, ⟨shard :: rest, [], true, false⟩, world⟩ =
      some ⟨shard, made,
        (world.converse service reader.settings.retry.plan (reader.step shard)).1⟩ := by
  simp only [visit?, plan, exchanges, List.drop_left]

namespace Life

/-- The life of a reader from the start of a pass on. -/
def ofReader (reader : Reader) (world : World σ) : Life σ := ⟨.start reader world, [], []⟩

/-- Only a turn makes a visit. -/
def visited (service : Service σ) (life : Life σ) : Act → List Visit
  | .turn => (life.session.visit? service).toList
  | .close => []
  | .surround _ _ _ => []

/-- All visits of a run, in order. -/
def visits (service : Service σ) : List Act → Life σ → List Visit
  | [], _ => []
  | act :: acts, life => life.visited service act ++ visits service acts (life.perform service act)

end Life

/-- Everything that a pass does for one shard. -/
structure Stop where
  shard : ShardId
  visits : List Visit

namespace Stop

/-- These are the operations of a stop, in order. -/
def made (stop : Stop) : List Exchange := stop.visits.flatMap Visit.made

/-- These are the records that a stop has fetched. -/
def deliveries (stop : Stop) : List Delivery := stop.visits.flatMap Visit.deliveries

/-- A shard is visited, with each kind of operation made once at most, however often it is tried. -/
structure Once (stop : Stop) : Prop where
  begun : stop.visits ≠ []
  own : ∀ visit ∈ stop.visits, visit.shard = stop.shard
  once : (stop.made.map fun exchange => exchange.request.operation).Nodup
  opens : ∀ exchange ∈ stop.made, ∀ stream shard position,
    exchange.request = .openIterator stream shard position → shard = stop.shard

/-- The records of a stop are one batch, just as its read was answered, or there are none. -/
inductive Whole (stop : Stop) : Prop where
  | nothing (none : stop.deliveries = [])
  | batch {token : Token} {limit : Int} {attempts : List (Attempt Batch)} {batch : Batch}
      (read : (⟨.readRecords token limit, attempts, some (.ok batch)⟩ : Exchange) ∈ stop.made)
      (all : stop.deliveries = batch.records.map (Delivery.mk stop.shard))

/-- All records of a stop are for its shard. -/
theorem Once.deliveries_eq {stop : Stop} (once : stop.Once) :
    stop.deliveries = (stop.made.flatMap Exchange.records).map (Delivery.mk stop.shard) := by
  have own : ∀ visit ∈ stop.visits, visit.deliveries =
      (visit.made.flatMap Exchange.records).map (Delivery.mk stop.shard) := fun visit member => by
    rw [Visit.deliveries, once.own visit member]
  rw [Stop.deliveries, List.flatMap_congr own, ← List.map_flatMap, Stop.made, List.flatMap_assoc]

/-- A stop that reads only once brings one batch at most. -/
theorem Once.whole {stop : Stop} (once : stop.Once) : stop.Whole := by
  by_cases brought : ∃ exchange ∈ stop.made, exchange.records ≠ []
  · obtain ⟨exchange, member, some⟩ := brought
    obtain ⟨token, limit, attempts, batch, rfl, records⟩ := Exchange.reads_of_records some
    refine .batch member ?_
    obtain ⟨before, after, split⟩ := List.append_of_mem member
    have distinct := once.once
    rw [split, List.map_append, List.map_cons, List.nodup_middle, List.nodup_cons,
      ← List.map_append] at distinct
    -- Any other operation that brings records would be a second read.
    have others : ∀ other ∈ before ++ after, other.records = [] := by
      intro other here
      by_contra some
      obtain ⟨_, _, _, _, rfl, _⟩ := Exchange.reads_of_records some
      exact distinct.1 (List.mem_map.mpr ⟨_, here, rfl⟩)
    have none : before.flatMap Exchange.records = [] ∧ after.flatMap Exchange.records = [] := by
      rw [← List.append_eq_nil_iff, ← List.flatMap_append]
      exact List.flatMap_eq_nil_iff.mpr others
    rw [once.deliveries_eq, split, List.flatMap_append, List.flatMap_cons, none.1, none.2,
      List.nil_append, List.append_nil, records]
  · simp only [not_exists, not_and, not_not] at brought
    exact .nothing (by rw [once.deliveries_eq, List.flatMap_eq_nil_iff.mpr brought, List.map_nil])

/-- The shard of the stop has not been looked up. -/
def Unlisted (stop : Stop) : Prop :=
  ∀ exchange ∈ stop.made, exchange.request.operation ≠ "describe_stream"

variable {reader : Reader} {tracked : Tracked} {made : List Exchange}
  {result : Option (Except ReaderError Outcome)}

/-- A first visit makes a stop. -/
theorem once_single (consults : reader.Consults tracked made) :
    Once ⟨tracked.id, [⟨tracked.id, made, result⟩]⟩ where
  begun := List.cons_ne_nil _ _
  own := fun visit member => by rw [List.mem_singleton.mp member]
  once := by
    rw [Stop.made, List.flatMap_singleton]
    exact consults.once
  opens := fun exchange member stream shard position opened => by
    rw [Stop.made, List.flatMap_singleton] at member
    exact consults.opens member opened

/-- A shard that has just been read to its end is visited again, and looked up. -/
theorem Once.again {stop : Stop} (once : stop.Once) (unlisted : stop.Unlisted)
    (own : tracked.id = stop.shard) (ended : tracked.phase = .exhausted)
    (consults : reader.Consults tracked made) :
    Once ⟨stop.shard, stop.visits ++ [⟨stop.shard, made, result⟩]⟩ := by
  have all : Stop.made ⟨stop.shard, stop.visits ++ [⟨stop.shard, made, result⟩]⟩ =
      stop.made ++ made := by
    rw [Stop.made, List.flatMap_append, List.flatMap_singleton, Stop.made]
  refine ⟨List.append_ne_nil_of_left_ne_nil once.begun _, fun visit member => ?_, ?_,
    fun exchange member stream shard position opened => ?_⟩
  · rcases List.mem_append.mp member with before | last
    · exact once.own visit before
    · rw [List.mem_singleton.mp last]
  · rw [all, List.map_append]
    refine once.once.append consults.once ?_
    intro operation before again
    obtain ⟨first, firstMember, rfl⟩ := List.mem_map.mp before
    obtain ⟨second, secondMember, same⟩ := List.mem_map.mp again
    exact unlisted first firstMember
      (same.symm.trans ((consults.lists_iff secondMember).mpr ended))
  · rw [all] at member
    rcases List.mem_append.mp member with before | last
    · exact once.opens exchange before stream shard position opened
    · exact (consults.opens last opened).trans own

end Stop

/-- A pass goes on to the next shard, or it visits the last one again to look it up. -/
inductive Awaits (reader : Reader) : List Stop → List ShardId → List ShardId → Prop where
  | next (stops : List Stop) (waiting : List ShardId) : Awaits reader stops waiting waiting
  | again {before : List Stop} {last : Stop} {waiting : List ShardId} {tracked : Tracked}
      {visit : Visit} {outcome : Outcome} (member : tracked ∈ reader.shards)
      (own : tracked.id = last.shard) (ended : tracked.phase = .exhausted)
      (unlisted : last.Unlisted) (latest : last.visits.getLast? = some visit)
      (came : visit.result = some (.ok outcome)) :
      Awaits reader (before ++ [last]) waiting (last.shard :: waiting)

/--
The visits of a pass are its stops, in the order of the active shards that it has found when it
opened, and then of the shards that have come to be tracked since.
-/
structure Route (entered reader : Reader) (visits : List Visit) (queue : List ShardId)
    (stops : List Stop) (waiting new : List ShardId) : Prop where
  visits : visits = stops.flatMap Stop.visits
  once : ∀ stop ∈ stops, stop.Once
  tracked : reader.ids = entered.ids ++ new
  order : stops.map Stop.shard ++ waiting = entered.activeShards ++ new
  queued : Awaits reader stops waiting queue

namespace Route

variable {entered reader : Reader} {visits : List Visit} {shard : ShardId}
  {queue rest waiting new : List ShardId} {stops : List Stop} {tracked : Tracked}
  {made : List Exchange} {result : Option (Except ReaderError Outcome)}

/-- A pass that has just been opened has all active shards before it. -/
theorem opened (entered : Reader) : Route entered entered [] entered.activeShards []
    entered.activeShards [] :=
  ⟨rfl, fun _ member => absurd member List.not_mem_nil, (List.append_nil _).symm,
    (List.append_nil _).symm, .next _ _⟩

/-- A visit takes its shard off the queue, and is part of the last stop. -/
theorem visited (route : Route entered reader visits (tracked.id :: rest) stops waiting new)
    (indexed : reader.Indexed) (member : tracked ∈ reader.shards)
    (consults : reader.Consults tracked made) (result : Option (Except ReaderError Outcome)) :
    ∃ before last, last.shard = tracked.id ∧
      (tracked.phase ≠ .exhausted → last.Unlisted) ∧
      last.visits.getLast? = some ⟨tracked.id, made, result⟩ ∧
      Route entered reader (visits ++ [⟨tracked.id, made, result⟩]) rest (before ++ [last]) rest
        new := by
  obtain ⟨whole, once, ids, order, queued⟩ := route
  generalize split : tracked.id :: rest = queue at queued
  cases queued with
  | next =>
      subst split
      refine ⟨stops, ⟨tracked.id, [⟨tracked.id, made, result⟩]⟩, rfl, fun unended => ?_, rfl,
        ?_, ?_, ids, ?_, .next _ _⟩
      · intro exchange here listed
        rw [Stop.made, List.flatMap_singleton] at here
        exact unended ((consults.lists_iff here).mp listed)
      · rw [whole, List.flatMap_append, List.flatMap_singleton]
      · intro stop here
        rcases List.mem_append.mp here with old | last
        · exact once stop old
        · rw [List.mem_singleton.mp last]
          exact Stop.once_single consults
      · rw [List.map_append, List.append_assoc]
        exact order
  | @again before last _ other _ _ otherMember own ended unlisted _ _ =>
      obtain ⟨same, rfl⟩ := List.cons.inj split
      obtain rfl := indexed.eq_of_id_eq otherMember member (own.trans same.symm)
      refine ⟨before, ⟨last.shard, last.visits ++ [⟨last.shard, made, result⟩]⟩, own.symm,
        fun unended => absurd ended unended, ?_, ?_, ?_, ids, ?_, .next _ _⟩
      · rw [own]
        exact List.getLast?_concat
      · simp only [whole, own, List.flatMap_append, List.flatMap_singleton, List.append_assoc]
      · intro stop here
        rcases List.mem_append.mp here with old | again
        · exact once stop (List.mem_append_left _ old)
        · rw [List.mem_singleton.mp again]
          exact (once last (List.mem_append_right _ List.mem_cons_self)).again unlisted own ended
            consults
      · rw [← order, List.map_append, List.map_append]
        rfl

/-- Only the phases of the tracked shards matter. -/
theorem congr {later : Reader} (route : Route entered reader visits queue stops waiting new)
    (shards : later.shards = reader.shards) :
    Route entered later visits queue stops waiting new := by
  obtain ⟨whole, once, ids, order, queued⟩ := route
  refine ⟨whole, once, (congrArg (List.map Tracked.id) shards).trans ids, order, ?_⟩
  cases queued with
  | next => exact .next _ _
  | again member own ended unlisted latest came =>
      exact .again (shards ▸ member) own ended unlisted latest came

/-- All shards that are still to be visited are tracked. -/
theorem known (route : Route entered reader visits queue stops waiting new) {id : ShardId}
    (member : id ∈ queue) : id ∈ reader.ids := by
  have ahead : ∀ id ∈ waiting, id ∈ reader.ids := by
    intro id here
    have listed : id ∈ entered.activeShards ++ new :=
      route.order ▸ List.mem_append_right _ here
    rw [route.tracked]
    rcases List.mem_append.mp listed with active | added
    · exact List.mem_append_left _ (Session.mem_ids_of_active active)
    · exact List.mem_append_right _ added
  cases route.queued with
  | next => exact ahead id member
  | again here own _ _ _ _ =>
      rcases List.mem_cons.mp member with rfl | later
      · exact Reader.mem_ids.mpr ⟨_, here, own⟩
      · exact ahead id later

/-- No two stops are for one shard, and no shard of a stop is still to be visited. -/
theorem distinct (route : Route entered reader visits queue stops waiting new)
    (indexed : reader.Indexed) : (stops.map Stop.shard ++ waiting).Nodup := by
  have active : entered.activeShards.Sublist entered.ids :=
    List.filter_sublist.map Tracked.id
  rw [route.order]
  refine (active.append_right new).nodup ?_
  rw [← route.tracked]
  exact indexed.distinct

/-- Every visit is for the shard of its stop. -/
theorem stopped (route : Route entered reader visits queue stops waiting new) {visit : Visit}
    (member : visit ∈ visits) : ∃ stop ∈ stops, visit ∈ stop.visits ∧ visit.shard = stop.shard := by
  rw [route.visits] at member
  obtain ⟨stop, here, made⟩ := List.mem_flatMap.mp member
  exact ⟨stop, here, made, (route.once stop here).own visit made⟩

/-- Every shard that has been visited is tracked. -/
theorem visited_known (route : Route entered reader visits queue stops waiting new)
    {visit : Visit} (member : visit ∈ visits) : visit.shard ∈ reader.ids := by
  obtain ⟨stop, here, -, own⟩ := route.stopped member
  have listed : visit.shard ∈ entered.activeShards ++ new := by
    rw [← route.order, own]
    exact List.mem_append_left _ (List.mem_map_of_mem here)
  rw [route.tracked]
  rcases List.mem_append.mp listed with active | added
  · exact List.mem_append_left _ (Session.mem_ids_of_active active)
  · exact List.mem_append_right _ added

/-- When the latest visit came to nothing, no shard of the queue has been visited. -/
theorem unreached (route : Route entered reader visits queue stops waiting new)
    (indexed : reader.Indexed) {latest : Visit} (last : visits.getLast? = some latest)
    (failed : ∀ outcome, latest.result ≠ some (.ok outcome)) {shard : ShardId}
    (queued : shard ∈ queue) : ∀ visit ∈ visits, visit.shard ≠ shard := by
  have apart := (List.nodup_append.mp (route.distinct indexed)).2.2
  have whole := route.visits
  cases route.queued with
  | next =>
      intro visit member
      obtain ⟨stop, here, -, own⟩ := route.stopped member
      rw [own]
      exact apart _ (List.mem_map_of_mem here) shard queued
  | @again before stop _ _ visit outcome _ _ _ _ latestVisit came =>
      rw [whole, List.flatMap_append, List.flatMap_singleton, List.getLast?_append, latestVisit]
        at last
      obtain rfl := Option.some.inj last
      exact absurd came (failed outcome)

/-- Shards that come to be tracked are put last. -/
theorem brings {later : Reader} {added : List ShardId}
    (route : Route entered reader visits rest stops rest new)
    (ids : later.ids = reader.ids ++ added)
    (queued : Awaits later stops (rest ++ added) queue) :
    Route entered later visits queue stops (rest ++ added) (new ++ added) where
  visits := route.visits
  once := route.once
  tracked := by rw [ids, route.tracked, List.append_assoc]
  order := by rw [← List.append_assoc, route.order, List.append_assoc]
  queued := queued

end Route
end ShardedStream
