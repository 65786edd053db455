import ShardedStream.Proofs.Assignments.Ending
import ShardedStream.Proofs.Reader.Succession
import ShardedStream.Proofs.Script.Turns
import ShardedStream.Proofs.Session.Abort

/-!
Passes over a scripted service are sweeps that end.
A caller who waits is told everything within finitely many turns. Only scripted descriptions are
resolved on the way, and the shards have their turns in order, each of them one stop at most.
-/

namespace ShardedStream

open Script

variable {reader : Reader} {world between later : World Script}

/-- One world comes after another, and all descriptions between them were to be answered. -/
structure Reveals (world later : World Script) : Prop where
  wanes : Wanes world.service later.service
  described : ∃ more, later.descriptions = world.descriptions ++ more ∧
    ∀ shards ∈ more, shards ∈ world.service.snapshots

namespace Reveals

/-- Nothing is revealed while the service and the record stay as they are. -/
theorem silent (service : later.service = world.service)
    (descriptions : later.descriptions = world.descriptions) : Reveals world later :=
  ⟨service ▸ .refl _, [], descriptions.trans (List.append_nil _).symm,
    fun _ member => absurd member List.not_mem_nil⟩

theorem trans (first : Reveals world between) (second : Reveals between later) :
    Reveals world later := by
  obtain ⟨wanes, more, described, scripted⟩ := first
  obtain ⟨wanesLater, others, describedLater, scriptedLater⟩ := second
  refine ⟨wanes.trans wanesLater, more ++ others, ?_, fun shards member => ?_⟩
  · rw [describedLater, described, List.append_assoc]
  · rcases List.mem_append.mp member with before | after
    · exact scripted shards before
    · exact wanes.snapshots.subset (scriptedLater shards after)

end Reveals

/-- A question reveals what it is answered. -/
theorem World.settle_reveals (plan : Nat → RetryPlan) (request : Request) (world : World Script) :
    Reveals world (world.settle Script.service plan request).2 := by
  obtain ⟨outcome, concludes, -, described⟩ :=
    settle_concludes Script.service plan request world
  refine ⟨wanes_of_leads (Service.leads_of_call concludes.leads), _, described, ?_⟩
  generalize (world.settle Script.service plan request).2.service = state at concludes
  cases concludes with
  | @answered asked time answer leads said =>
      have before := wanes_of_leads (Service.leads_of_call leads)
      intro shards member
      exact before.snapshots.subset
        (((Script.calls request time asked).spends answer said).described shards member)
  | refused _ _ _ => exact fun _ member => absurd member List.not_mem_nil
  | exhausted _ => exact fun _ member => absurd member List.not_mem_nil
  | interrupted _ => exact fun _ member => absurd member List.not_mem_nil
  | abandoned _ => exact fun _ member => absurd member List.not_mem_nil

/-- A dialogue reveals what its questions are answered. -/
theorem World.converse_reveals {α : Type} (plan : Nat → RetryPlan) (dialogue : Dialogue α)
    (world : World Script) : Reveals world (world.converse Script.service plan dialogue).2 :=
  converse_relates Reveals (fun _ => .silent rfl rfl) Reveals.trans
    (fun world report => .silent (report_service world report) (report_descriptions world report))
    (fun world request => settle_reveals plan request world) dialogue world

/-- So does a turn of a pass. -/
theorem Session.advance_reveals (session : Session Script) :
    Reveals session.world (session.advance Script.service).2.world := by
  obtain ⟨α, dialogue, conversed⟩ := advance_conversed Script.service session
  refine (session.world.converse_reveals session.plan dialogue).trans (.silent conversed.service ?_)
  rw [World.descriptions, conversed.exchanges, World.descriptions]

namespace Life

/-- So do passes, whatever goes on around them. -/
theorem run_reveals (acts : List Act) (life : Life Script) :
    Reveals life.session.world (life.run Script.service acts).session.world := by
  have preserves : ∀ (now : Life Script) (act : Act), Reveals life.session.world now.session.world →
      Reveals life.session.world (now.perform Script.service act).session.world := by
    intro now act reveals
    cases act with
    | turn => exact reveals.trans (Session.advance_reveals now.session)
    | close =>
        refine reveals.trans (.silent ?_ ?_)
        · exact congrArg World.service (Session.close_world now.session)
        · exact congrArg World.descriptions (Session.close_world now.session)
    | surround clock signal monitor => exact reveals.trans (.silent rfl rfl)
  exact run_preserves preserves acts (.silent rfl rfl)

end Life

namespace Script

/-- A caller who waits has the whole pass after so many turns. -/
structure Ends (reader : Reader) (world : World Script) (turns : Nat)
    (error : Option ReaderError) (visits : List Visit) (last : Life Script) : Prop where
  /-- More fuel and more calls would change nothing. -/
  items : ∀ fuel ≥ turns, ∀ count ≥ turns, reader.streamPass service fuel count world =
    (Session.wholeItems last.handedOut error, last.session.close)
  within : turns ≤ world.service.turns reader
  empty : last.session.pass.buffer = []
  /-- A pass without an error has come to all its shards. -/
  visited : error = none → last.session.pass.queue = []
  /-- An error is one of the preparation or of the last visit. -/
  failed : ∀ failure, error = some failure →
    ∃ prepared, StoppedBy reader failure prepared visits last.session.reader

/-- No pass goes on for ever. -/
theorem exists_ends (world : World Script) (indexed : reader.Indexed)
    (waits : world.clock.limit = none) :
    let pass := Life.ofReader reader world
    ∃ turns error, Ends reader world turns error
      (pass.visits service (List.replicate turns .turn))
      (pass.run service (List.replicate turns .turn)) := by
  intro pass
  obtain ⟨turns, deliveries, error, later, within, drains⟩ :=
    pass_drains reader world indexed waits
  obtain ⟨advanced, handed⟩ := pass.run_drains drains
  have acts : List.replicate (turns + 1) Act.turn = List.replicate turns .turn ++ [.turn] :=
    List.replicate_succ'
  have last : (pass.run service (List.replicate (turns + 1) .turn)).session = later := by
    rw [acts, Life.run_append]
    exact congrArg Prod.snd advanced
  have all : (pass.run service (List.replicate (turns + 1) .turn)).handedOut = deliveries := by
    rw [acts, Life.run_append, Life.run_cons, Life.run_nil, Life.perform, Life.turn, advanced,
      Session.lastTurn_silent, handed]
    exact List.append_nil _
  refine ⟨turns + 1, error, ?_, within, ?_, ?_, ?_⟩
  · intro fuel enough count many
    rw [Reader.streamPass, drains.items enough many, last, all]
  · rw [last]
    exact drains.buffer_eq_nil
  · rintro rfl
    rw [last]
    exact drains.queue_eq_nil fun _ => rfl
  · rintro failure rfl
    have unclosed : .close ∉ List.replicate turns Act.turn := by
      simp [List.mem_replicate]
    obtain ⟨prepared, passing⟩ := Life.ofReader_passing service indexed world unclosed
    obtain ⟨prepared, stopped, -⟩ := (passing.aborted indexed advanced later.world.clock
      later.world.signal later.world.monitor).stopped
    rw [last, acts, Life.visits_append]
    refine ⟨prepared, ?_⟩
    simpa [Life.visits, Life.visited] using stopped

/-- A pass has come so far in its one sweep. -/
structure OneSweep (reader : Reader) (world : World Script) (visits : List Visit)
    (now : Life Script) : Prop where
  /-- Nothing is asked but in the preparation of the pass and in its visits. -/
  inSweep : ∃ prepared, InSweep reader prepared visits now.handedOut now.session ∧
    now.session.world.exchanges = world.exchanges ++ (prepared ++ visits.flatMap Visit.made)
  /-- Resolution ends over everything that has been described on the way. -/
  resolves : ∃ described, now.session.world.descriptions = world.descriptions ++ described ∧
    ∀ shards ∈ described, Assignments.Resolves shards
  /-- Whoever waits from now on comes to the end of the pass. -/
  ends : now.session.world.clock.limit = none → ∃ turns deliveries error later,
    now.session.Drains service turns deliveries error later

/--
A pass over a scripted service with acyclic descriptions is one sweep. It ends for a caller who
waits. As long as it is not closed, its stops are in order: first those at the shards that were
active, as they are tracked, then those at the shards that it has brought. No shard has two stops,
no stop makes two operations of one kind, and its records are one batch as the service answered it.
-/
theorem pass_sweeps {settings : ReaderSettings} (reached : Reader.Reached settings reader)
    (world : World Script) (waits : world.clock.limit = none)
    (distinct : ∀ shards ∈ world.service.snapshots, (shards.map Shard.id).Nodup)
    (acyclic : ∀ shards ∈ world.service.snapshots, (Lineage.ofShards shards).Acyclic) :
    let pass := Life.ofReader reader world
    (∃ turns error, Ends reader world turns error
        (pass.visits service (List.replicate turns .turn))
        (pass.run service (List.replicate turns .turn))) ∧
      ∀ acts, .close ∉ acts →
        OneSweep reader world (pass.visits service acts) (pass.run service acts) := by
  intro pass
  refine ⟨exists_ends world reached.indexed waits, fun acts unclosed => ?_⟩
  obtain ⟨prepared, passing⟩ := Life.ofReader_passing service reached.indexed world unclosed
  obtain ⟨-, described, all, scripted⟩ := Life.run_reveals acts pass
  refine ⟨⟨prepared, passing.stage.inSweep, passing.recorded⟩,
    ⟨described, all, fun shards member => ?_⟩, fun waitsNow => ?_⟩
  · exact Assignments.resolves_of_acyclic (distinct shards (scripted shards member))
      (acyclic shards (scripted shards member))
  · obtain ⟨turns, deliveries, error, later, -, drains⟩ :=
      (pass.run service acts).session.drains (passing.stage.indexed reached.indexed) waitsNow
    exact ⟨turns, deliveries, error, later, drains⟩

/-- The split shard has two records and the half has one. -/
def splitRecords : Script :=
  (describing Reader.splitOnce)
    |>.queueBatches "A"
      [.now (.ok ⟨[⟨"110", "key", [], none⟩, ⟨"120", "key", [], none⟩], false, 0⟩)]
    |>.queueBatches "B" [.now (.ok ⟨[⟨"210", "key", [], none⟩], true, 0⟩)]

/-- The half is read in the pass that has finished the split shard, after it. -/
theorem splitRecords_sweeps :
    let reader := Reader.ofSettings (.ofStream "stream")
    let world := World.start splitRecords .off
    let pass := Life.ofReader reader world
    (streamPass 9 reader world).1 = [.ok ⟨"A", "110", "key", [], none⟩,
        .ok ⟨"A", "120", "key", [], none⟩, .ok ⟨"B", "210", "key", [], none⟩] ∧
      (pass.visits service (List.replicate 8 .turn)).map Visit.shard = ["A", "A", "B"] ∧
      (∃ turns error, Ends reader world turns error
        (pass.visits service (List.replicate turns .turn))
        (pass.run service (List.replicate turns .turn))) ∧
      ∀ acts, .close ∉ acts →
        OneSweep reader world (pass.visits service acts) (pass.run service acts) := by
  have only : ∀ shards ∈ splitRecords.snapshots, shards = Reader.splitOnce := by
    decide +kernel
  refine ⟨by decide +kernel, by decide +kernel,
    pass_sweeps .refl (.start splitRecords .off) rfl ?_ ?_⟩
  · intro shards member
    rw [only shards member]
    decide
  · intro shards member
    rw [only shards member]
    exact Reader.splitOnce_acyclic

end Script
end ShardedStream
