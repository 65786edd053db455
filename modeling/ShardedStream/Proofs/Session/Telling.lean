import ShardedStream.Proofs.Reader.Story
import ShardedStream.Proofs.Session.Deed
import ShardedStream.Proofs.Session.Stop

/-!
What a turn tells the observer.
A turn that prepares its reader announces the first shards, and a visit announces what its outcome
brings. Everything else tells of a new iterator at most. It tells the same whoever observes it.
-/

namespace ShardedStream

variable {σ : Type}

/-- The batch that a visit has applied. -/
def Visit.batch? (visit : Visit) : Option (Nat × Int) :=
  match visit.result with
  | some (.ok outcome) => outcome.batch?
  | _ => none

theorem Visit.batch?_of_result {visit : Visit} {outcome : Outcome}
    (applied : visit.result = some (.ok outcome)) : visit.batch? = outcome.batch? := by
  rw [batch?, applied]

/-- The batches that have been applied to one shard, in order. -/
def batchesOf (shard : ShardId) (visits : List Visit) : List (Nat × Int) :=
  (visits.filter fun visit => visit.shard = shard).filterMap Visit.batch?

@[simp] theorem batchesOf_append (shard : ShardId) (first second : List Visit) :
    batchesOf shard (first ++ second) = batchesOf shard first ++ batchesOf shard second := by
  rw [batchesOf, List.filter_append, List.filterMap_append]
  rfl

theorem batchesOf_own (visit : Visit) : batchesOf visit.shard [visit] = visit.batch?.toList := by
  cases batch : visit.batch? <;> simp [batchesOf, batch]

theorem batchesOf_other {shard : ShardId} {visit : Visit} (apart : visit.shard ≠ shard) :
    batchesOf shard [visit] = [] := by
  simp [batchesOf, apart]

/-- A visit that applies nothing has no batch for any shard. -/
theorem batchesOf_unread {visit? : Option Visit} (unread : visit?.bind Visit.batch? = none)
    (shard : ShardId) : batchesOf shard visit?.toList = [] := by
  cases visit? with
  | none => rfl
  | some visit =>
      by_cases own : visit.shard = shard
      · rw [← own]
        exact (batchesOf_own visit).trans (congrArg Option.toList unread)
      · exact batchesOf_other own

/-- There is nothing to ask for a shard that is not tracked. -/
theorem Reader.converse_untracked {reader : Reader} (indexed : reader.Indexed) {shard : ShardId}
    (unknown : shard ∉ reader.ids) (service : Service σ) (plan : Nat → RetryPlan) (world : World σ) :
    world.converse service plan (reader.step shard) =
      (some (.error (.unknownShard shard)), world) := by
  rw [step, indexed.tracked?_eq_none unknown]
  rfl

namespace Session

/-- This is what one turn tells, and what comes of the reader. -/
inductive Tells (service : Service σ) (session : Session σ) : List Event → Session σ → Prop where
  | handsOut {delivery : Delivery} {rest : List Delivery}
      (held : session.pass.buffer = delivery :: rest)
      (unread : (session.visit? service).bind Visit.batch? = none) :
      Tells service session []
        { session with
          reader := session.reader.handOut delivery
          pass := { session.pass with buffer := rest } }
  | stays {shard : ShardId} {events : List Event} {later : Session σ}
      (acquires : Reader.Acquires shard events)
      (waits : events ≠ [] → ∃ tracked ∈ session.reader.shards, tracked.id = shard ∧
        ∃ position, tracked.phase = .waiting position)
      (reader : later.reader = session.reader)
      (unread : (session.visit? service).bind Visit.batch? = none)
      (described : session.reader.shards = [] →
        later.world.descriptions = session.world.descriptions) :
      Tells service session events later
  | opens {shards : List Shard} {later : Session σ} (fresh : session.reader.initialized = false)
      (became : later.reader = session.reader.opening shards)
      (unread : (session.visit? service).bind Visit.batch? = none)
      (described : later.world.descriptions = session.world.descriptions ++ [shards]) :
      Tells service session (assignedEvents (session.reader.openedBy shards)) later
  | applies {tracked : Tracked} {outcome : Outcome} {visit : Visit} {between : World σ}
      {acquired : List Event} {later : Session σ} (member : tracked ∈ session.reader.shards)
      (steps : session.reader.Steps service tracked session.world outcome between)
      (acquires : Reader.Acquires tracked.id acquired)
      (waits : acquired ≠ [] → ∃ position, tracked.phase = .waiting position)
      (became : later.reader = (session.reader.apply outcome).2)
      (visited : session.visit? service = some visit) (own : visit.shard = tracked.id)
      (applied : visit.result = some (.ok outcome)) :
      Tells service session (acquired ++ session.reader.eventsOf outcome) later

variable {service : Service σ} {session : Session σ}

/-- A turn without a question tells nothing. -/
theorem tells_nothing {later : Session σ} (reader : later.reader = session.reader)
    (unread : (session.visit? service).bind Visit.batch? = none)
    (described : later.world.descriptions = session.world.descriptions) :
    Tells service session [] later :=
  .stays (Reader.Acquires.nothing : Reader.Acquires "" []) (fun told => absurd rfl told) reader
    unread fun _ => described

/-- A pass that opens announces the shards that it assigns. -/
theorem enter_tells (unread : (session.visit? service).bind Visit.batch? = none) :
    ∃ events, Tells service session events (session.enter service).2 ∧
      (session.enter service).2.world.monitor = session.world.monitor.emitAll events := by
  have told := session.reader.prepare_tells service session.reader.settings.retry.plan
    session.world
  unfold enter
  simp only [plan]
  generalize session.world.converse service session.reader.settings.retry.plan
    session.reader.prepare = conversed at told ⊢
  obtain ⟨answer, after⟩ := conversed
  rcases answer with _ | error | _ | prepared
  · cases told with
    | fails monitor _ described => exact ⟨[], tells_nothing rfl unread described, monitor⟩
  · cases told with
    | fails monitor _ described => exact ⟨[], tells_nothing rfl unread described, monitor⟩
  · cases told with
    | fails monitor _ described => exact ⟨[], tells_nothing rfl unread described, monitor⟩
  · cases told with
    | already monitor _ described => exact ⟨[], tells_nothing rfl unread described, monitor⟩
    | fails _ unprepared _ => exact absurd rfl (unprepared prepared)
    | opens fresh monitor described => exact ⟨_, .opens fresh rfl unread described, monitor⟩

/-- A visit tells of its iterator, and of what it applies. -/
theorem visit_tells (indexed : session.reader.Indexed) {shard : ShardId} {rest : List ShardId}
    (due : session.pass = ⟨shard :: rest, [], true, false⟩) :
    ∃ events,
      Tells service session events
        (visit service { session with pass := { session.pass with queue := rest } } shard).2 ∧
      (visit service { session with pass := { session.pass with queue := rest } }
        shard).2.world.monitor = session.world.monitor.emitAll events := by
  obtain ⟨acquired, acquires, told, waits⟩ := session.reader.step_monitor service
    session.plan shard indexed session.world
  have visited : ∃ made, session.visit? service = some ⟨shard, made,
      (session.world.converse service session.plan (session.reader.step shard)).1⟩ := by
    rw [visit?, due]
    exact ⟨_, rfl⟩
  have undescribed : session.reader.shards = [] →
      (session.world.converse service session.plan (session.reader.step shard)).2.descriptions =
        session.world.descriptions := fun none => by
    have unknown : shard ∉ session.reader.ids := by
      rw [Reader.ids, none]
      exact List.not_mem_nil
    rw [Reader.converse_untracked indexed unknown]
  unfold visit
  simp only [plan] at told visited undescribed ⊢
  generalize asked : session.world.converse service session.reader.settings.retry.plan
    (session.reader.step shard) = conversed at told visited undescribed ⊢
  obtain ⟨answer, after⟩ := conversed
  obtain ⟨made, visited⟩ := visited
  dsimp only at told visited undescribed
  rcases answer with _ | error | outcome
  · exact ⟨acquired, .stays acquires waits rfl (by rw [visited]; rfl) undescribed, told⟩
  · exact ⟨acquired, .stays acquires waits rfl (by rw [visited]; rfl) undescribed, told⟩
  · obtain ⟨tracked, member, rfl, steps⟩ := Reader.step_steps indexed asked
    refine ⟨_, .applies member steps acquires (fun some => ?_) rfl visited rfl rfl, ?_⟩
    · obtain ⟨other, here, same, waiting⟩ := waits some
      rwa [← indexed.eq_of_id_eq here member same]
    · simp only [absorb, World.reportAll_monitor, told, Monitor.emitAll_append,
        Reader.events_apply indexed member steps.shard]

/-- Every turn tells one of these. -/
theorem advance_tells (service : Service σ) (indexed : session.reader.Indexed) :
    ∃ events, Tells service session events (session.advance service).2 ∧
      (session.advance service).2.world.monitor = session.world.monitor.emitAll events := by
  obtain ⟨reader, ⟨queue, buffer, started, finished⟩, world⟩ := session
  cases buffer with
  | cons delivery rest =>
      exact ⟨[], .handsOut rfl (by rw [visit?_eq_none fun _ _ => by rintro ⟨⟩]; rfl), rfl⟩
  | nil =>
      cases finished with
      | true =>
          have unread : visit? service ⟨reader, ⟨queue, [], started, true⟩, world⟩ = none :=
            visit?_eq_none fun _ _ => by rintro ⟨⟩
          rw [advance_finished rfl rfl]
          exact ⟨[], tells_nothing rfl (by rw [unread]; rfl) rfl, rfl⟩
      | false =>
          cases started with
          | false =>
              rw [advance_unstarted rfl rfl rfl]
              exact enter_tells (by rw [visit?_eq_none fun _ _ => by rintro ⟨⟩]; rfl)
          | true =>
              cases queue with
              | nil =>
                  have unread : visit? service ⟨reader, ⟨[], [], true, false⟩, world⟩ = none :=
                    visit?_eq_none fun _ _ => by rintro ⟨⟩
                  rw [advance_drained rfl rfl rfl rfl]
                  exact ⟨[], tells_nothing rfl (by rw [unread]; rfl) rfl, rfl⟩
              | cons shard rest =>
                  rw [advance_queued rfl rfl rfl rfl]
                  exact visit_tells indexed rfl

/-- The same session with another observer. -/
def observed (session : Session σ) (monitor : Monitor) : Session σ :=
  { session with world := { session.world with monitor } }

/-- A turn tells the same events to any observer, and differs in nothing else. -/
theorem advance_observed (service : Service σ) (session : Session σ) :
    ∃ events, ∀ monitor, (session.observed monitor).advance service =
      ((session.advance service).1,
        (session.advance service).2.observed (monitor.emitAll events)) := by
  obtain ⟨progress, reader, pass, wake, ran⟩ := advance_leaves service session
  have own : session.advance service = _ :=
    ran session.reader.settings.monitoring session.world ⟨rfl, rfl, rfl, rfl⟩
  refine ⟨wake.events, fun monitor => ?_⟩
  rw [own]
  exact ran session.reader.settings.monitoring { session.world with monitor } ⟨rfl, rfl, rfl, rfl⟩

/-- The next visit does not depend on the observer. -/
theorem visit?_observed (service : Service σ) (session : Session σ) (monitor : Monitor) :
    (session.observed monitor).visit? service = session.visit? service := by
  obtain ⟨reader, pass, world⟩ := session
  simp only [visit?, observed, plan]
  split
  · rename_i shard _
    obtain ⟨answer, wake, ran⟩ := World.converse_leaves service reader.settings.retry.plan
      (reader.step shard) world
    have own := ran world ⟨rfl, rfl, rfl, rfl⟩
    have other := ran { world with monitor } ⟨rfl, rfl, rfl, rfl⟩
    simp only at own other
    rw [own, other]
    rfl
  · rfl

end Session
end ShardedStream
