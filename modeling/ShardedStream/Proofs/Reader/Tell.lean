import ShardedStream.Proofs.Reader.Answer
import ShardedStream.Proofs.World.Wake

/-!
What a dialogue tells the observer.
Questions tell nothing. A step tells of an iterator that it has got, and a preparation of the shards
that it has assigned.
-/

namespace ShardedStream

/-- The observer hears of events alone. -/
def Report.event? : Report → Option Event
  | .event told => some told
  | .notice _ => none

/-- The events that announce newly tracked shards. -/
def assignedEvents (added : List Assignment) : List Event :=
  added.map fun assignment =>
    ⟨assignment.shard, .shard .assigned (some assignment.position.text)⟩

theorem filterMap_assignedReports (added : List Assignment) :
    (Reader.assignedReports added).filterMap Report.event? = assignedEvents added := by
  rw [Reader.assignedReports, List.filterMap_map, assignedEvents, ← List.filterMap_eq_map]
  rfl

namespace World

variable {σ α : Type} {service : Service σ} {plan : Nat → RetryPlan} {world : World σ}

theorem reportAll_monitor (world : World σ) (reports : List Report) :
    (world.reportAll reports).monitor =
      world.monitor.emitAll (reports.filterMap Report.event?) := by
  induction reports generalizing world with
  | nil => rfl
  | cons report reports inductionHypothesis =>
      cases report with
      | event told => exact inductionHypothesis (world.emit told)
      | notice notice => exact inductionHypothesis (world.notify [notice])

theorem settle_monitor (service : Service σ) (plan : Nat → RetryPlan) (request : Request)
    (world : World σ) : (world.settle service plan request).2.monitor = world.monitor := by
  unfold settle
  dsimp only
  split <;> rfl

/-- Whatever a dialogue tells that asks first, it tells it once its question has been settled. -/
theorem converse_ask_monitor (Kept : Monitor → Prop) {request : Request}
    {next : Settled request → Dialogue α} (unanswered : Kept world.monitor)
    (rest : ∀ settled (later : World σ), later.monitor = world.monitor →
      Kept (later.converse service plan (next settled)).2.monitor) :
    Kept (world.converse service plan (.ask request next)).2.monitor := by
  have same := settle_monitor service plan request world
  rw [converse_ask_eq]
  split
  · rwa [same]
  · exact rest _ _ same

end World

namespace Reader

variable {σ : Type} (service : Service σ) (plan : Nat → RetryPlan) (reader : Reader) (shard : ShardId)

theorem readFrom_monitor (token : Token) (fresh : Bool) (world : World σ) :
    (world.converse service plan (reader.readFrom shard token fresh)).2.monitor =
      world.monitor := by
  refine World.converse_ask_monitor (· = world.monitor) rfl fun settled later same => ?_
  rcases settled with fault | _ | batch
  · simp only [Dialogue.andThen]
    split <;> exact same
  · exact same
  · exact same

theorem lookUpSuccessors_monitor (world : World σ) :
    (world.converse service plan (reader.lookUpSuccessors shard)).2.monitor = world.monitor := by
  refine World.converse_ask_monitor (· = world.monitor) rfl fun settled later same => ?_
  rcases settled with fault | _ | shards <;> exact same

/-- This may be told while an iterator is asked for. -/
inductive Acquires (shard : ShardId) : List Event → Prop where
  | nothing : Acquires shard []
  | iterator : Acquires shard [⟨shard, .iterator .acquired none⟩]

theorem openAndRead_monitor (position : Position) (world : World σ) :
    ∃ events, Acquires shard events ∧
      (world.converse service plan (reader.openAndRead shard position)).2.monitor =
        world.monitor.emitAll events := by
  refine World.converse_ask_monitor
    (fun monitor => ∃ events, Acquires shard events ∧ monitor = world.monitor.emitAll events)
    ⟨[], .nothing, rfl⟩ fun settled later same => ?_
  rcases settled with fault | _ | token
  · simp only [Dialogue.andThen]
    split <;> exact ⟨[], .nothing, same⟩
  · exact ⟨[], .nothing, same⟩
  · refine ⟨_, .iterator, (readFrom_monitor service plan reader shard token true _).trans ?_⟩
    rw [← same]
    rfl

/-- A step tells nothing unless its shard waits for an iterator. -/
theorem step_monitor (indexed : reader.Indexed) (world : World σ) :
    ∃ events, Acquires shard events ∧
      (world.converse service plan (reader.step shard)).2.monitor = world.monitor.emitAll events ∧
      (events ≠ [] → ∃ tracked ∈ reader.shards, tracked.id = shard ∧
        ∃ position, tracked.phase = .waiting position) := by
  unfold step
  split
  · exact ⟨[], .nothing, rfl, fun told => absurd rfl told⟩
  · rename_i tracked found
    obtain ⟨member, own⟩ := indexed.tracked?_eq_some_iff.mp found
    split
    · rename_i position waiting
      obtain ⟨events, acquires, told⟩ :=
        openAndRead_monitor service plan reader shard position world
      exact ⟨events, acquires, told, fun _ => ⟨tracked, member, own, position, waiting⟩⟩
    · exact ⟨[], .nothing, readFrom_monitor service plan reader shard _ _ _,
        fun told => absurd rfl told⟩
    · exact ⟨[], .nothing, lookUpSuccessors_monitor service plan reader shard _,
        fun told => absurd rfl told⟩
    · exact ⟨[], .nothing, rfl, fun told => absurd rfl told⟩

/-- These are the shards that a description opens. -/
def openedBy (reader : Reader) (shards : List Shard) : List Assignment :=
  (reader.track (Assignments.atStart (.ofShards shards) reader.checkpoint
    reader.settings.policy)).1

/-- They are put last, and nothing else changes but that the reader is initialized. -/
theorem tracks_opening {reader : Reader} (indexed : reader.Indexed) (shards : List Shard) :
    (reader.opening shards).Indexed ∧
      (reader.opening shards).shards =
        reader.shards.map id ++ (reader.openedBy shards).map .ofAssignment ∧
      (∀ entry ∈ reader.openedBy shards, entry.shard ∉ reader.ids) ∧
      (reader.opening shards).lag = reader.lag := by
  have tracks := indexed.track
    (Assignments.atStart (.ofShards shards) reader.checkpoint reader.settings.policy)
  refine ⟨tracks.indexed, ?_, fun entry member => (tracks.chosen entry member).2, ?_⟩
  · rw [List.map_id]
    exact tracks.shards
  · rw [opening, tracks.rest]

/-- This is what a preparation tells. -/
inductive PrepareTells (world : World σ) :
    Option (Except ReaderError (Option Reader)) → World σ → Prop where
  | already {later : World σ} (monitor : later.monitor = world.monitor)
      (ready : reader.initialized = true) (described : later.descriptions = world.descriptions) :
      PrepareTells world (some (.ok (some reader))) later
  | fails {result : Option (Except ReaderError (Option Reader))} {later : World σ}
      (monitor : later.monitor = world.monitor)
      (unprepared : ∀ prepared, result ≠ some (.ok (some prepared)))
      (described : later.descriptions = world.descriptions) : PrepareTells world result later
  | opens {shards : List Shard} {later : World σ} (fresh : reader.initialized = false)
      (monitor : later.monitor = world.monitor.emitAll (assignedEvents (reader.openedBy shards)))
      (described : later.descriptions = world.descriptions ++ [shards]) :
      PrepareTells world (some (.ok (some (reader.opening shards)))) later

theorem prepare_tells (world : World σ) :
    reader.PrepareTells world (world.converse service plan reader.prepare).1
      (world.converse service plan reader.prepare).2 := by
  cases ready : reader.initialized with
  | true =>
      rw [converse_prepared ready]
      exact .already rfl ready rfl
  | false =>
      obtain ⟨outcome, _, settled, described⟩ := World.settle_concludes service plan
        (.listShards reader.settings.stream) world
      have monitor := World.settle_monitor service plan (.listShards reader.settings.stream) world
      generalize asked : world.settle service plan (.listShards reader.settings.stream) = answered
        at settled described monitor
      obtain ⟨_, later⟩ := answered
      dsimp only at settled described monitor
      subst settled
      rcases outcome with _ | answer
      · have abandoned : world.converse service plan reader.prepare = (none, later) := by
          simp only [prepare, ready, Bool.false_eq_true, if_false, Dialogue.request,
            Dialogue.bind_eq, Dialogue.andThen, World.converse, asked, Option.map_none]
        have undescribed := described.trans (List.append_nil _)
        rw [abandoned]
        exact .fails monitor (fun _ same => by cases same) undescribed
      · rw [converse_prepare ready asked]
        rcases answer with failure | shards
        · have undescribed := described.trans (List.append_nil _)
          rcases failure with budget | _ | fault
          · exact .fails monitor (fun _ same => by cases same) undescribed
          · exact .fails monitor (fun _ same => by cases same) undescribed
          · cases fault <;> exact .fails monitor (fun _ same => by cases same) undescribed
        · refine .opens ready ?_ ?_
          · rw [World.reportAll_monitor, monitor, prepareReports, filterMap_assignedReports,
              openedBy]
          · rw [World.reportAll_descriptions]
            exact described

end Reader
end ShardedStream
