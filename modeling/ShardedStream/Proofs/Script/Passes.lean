import ShardedStream.Proofs.Script.Finish

/-!
Passes in a row.
Over a script that can be read to its end, finitely many drained passes finish the whole stream, and
whatever passes follow leave the reader and its surroundings as they are.
-/

namespace ShardedStream

open Script

variable {shards : List Shard} {names : ShardId → Token → Prop} {original : Script}
  {handed deliveries : List Delivery} {error : Option ReaderError} {turns : Nat}
  {session later : Session Script} {reader : Reader} {world : World Script}

namespace Session

theorem Onward.trans {between : Session Script} (first : Onward session between)
    (second : Onward between later) : Onward session later :=
  ⟨second.descriptions.trans first.descriptions,
    fun id => (second.replies id).trans (first.replies id),
    fun ready => second.ready (first.ready ready),
    fun id done => second.done id (first.done id done)⟩

/-- A pass over an initialized reader asks nothing before it visits the active shards. -/
theorem advance_start (ready : reader.initialized = true) (world : World Script) :
    (Session.start reader world).advance service =
      (.moved, (Session.start reader world).enterWith reader world) := by
  rw [advance_unstarted rfl rfl rfl, enter]
  simp only [start, Reader.converse_prepared ready]
  rfl

namespace Completing

/-- A drained pass does not fail, and it hands out all that it has read. -/
theorem drain (completing : session.Completing shards original handed)
    (distinct : (shards.map Shard.id).Nodup) (acyclic : (Lineage.ofShards shards).Acyclic)
    (drains : Drains service turns session deliveries error later) :
    error = none ∧ Onward session later ∧ later.pass.buffer = [] ∧
      later.Completing shards original (handed ++ deliveries) := by
  induction drains generalizing handed with
  | ended advanced =>
      obtain ⟨_, onward, next⟩ := completing.advance distinct acyclic advanced
      have advances := completing.regular.advances
      rw [advanced] at advances
      refine ⟨rfl, onward, ?_, next⟩
      cases advances with
      | stays empty _ => exact empty
      | drained empty _ _ _ => exact empty
  | failed advanced =>
      exact absurd rfl ((completing.advance distinct acyclic advanced).1 _)
  | moved advanced _ inductionHypothesis =>
      obtain ⟨_, onward, next⟩ := completing.advance distinct acyclic advanced
      obtain ⟨none, rest, empty, last⟩ := inductionHypothesis next
      exact ⟨none, onward.trans rest, empty, by simpa [Progress.delivery?] using last⟩
  | handsOut advanced _ inductionHypothesis =>
      obtain ⟨_, onward, next⟩ := completing.advance distinct acyclic advanced
      obtain ⟨none, rest, empty, last⟩ := inductionHypothesis next
      exact ⟨none, onward.trans rest, empty, by simpa [Progress.delivery?] using last⟩

/-- A pass that opens after a drained one goes on where that one stopped. -/
theorem restart (completing : session.Completing shards original handed)
    (empty : session.pass.buffer = []) :
    (Session.start session.reader session.world).Completing shards original handed where
  regular := completing.regular.restart
  unfolds := completing.unfolds
  oldest := completing.oldest
  described := completing.described
  benign := completing.benign
  records := fun shard listed => by
    have records := completing.records shard listed
    rwa [empty] at records
  leaves := completing.leaves

/-- A pass whose next turn does something has less left to do in the end. -/
theorem less_of_due (completing : session.Completing shards original handed)
    (distinct : (shards.map Shard.id).Nodup) (acyclic : (Lineage.ofShards shards).Acyclic)
    (due : session.Due) (drains : Drains service turns session deliveries error later) :
    later.toDo shards < session.toDo shards := by
  have first : ∀ {progress : Progress} {between : Session Script},
      session.advance service = (progress, between) →
      between.toDo shards < session.toDo shards ∧
        between.Completing shards original (handed ++ progress.delivery?.toList) := by
    intro progress between advanced
    obtain ⟨_, onward, next⟩ := completing.advance distinct acyclic advanced
    have advances := completing.regular.advances
    rw [advanced] at advances
    exact ⟨onward.toDo_lt (completing.proceeds due advances), next⟩
  cases drains with
  | ended advanced => exact (first advanced).1
  | failed advanced => exact (first advanced).1
  | moved advanced rest =>
      obtain ⟨less, next⟩ := first advanced
      exact Nat.lt_of_le_of_lt (next.drain distinct acyclic rest).2.1.toDo_le less
  | handsOut advanced rest =>
      obtain ⟨less, next⟩ := first advanced
      exact Nat.lt_of_le_of_lt (next.drain distinct acyclic rest).2.1.toDo_le less

/-- A pass has less left to do in the end, unless no shard is active when it begins. -/
theorem pass_less (completing : (Session.start reader world).Completing shards original handed)
    (distinct : (shards.map Shard.id).Nodup) (acyclic : (Lineage.ofShards shards).Acyclic)
    (unfinished : reader.initialized = true → reader.activeShards ≠ [])
    (drains : Drains service turns (Session.start reader world) deliveries error later) :
    later.toDo shards < (Session.start reader world).toDo shards := by
  cases ready : reader.initialized with
  | false => exact completing.less_of_due distinct acyclic ⟨rfl, rfl, .inl ⟨rfl, ready⟩⟩ drains
  | true =>
      have advanced := advance_start ready world
      obtain ⟨_, onward, next⟩ := completing.advance distinct acyclic advanced
      have due : ((Session.start reader world).enterWith reader world).Due := by
        refine ⟨rfl, rfl, .inr ⟨rfl, ?_⟩⟩
        cases active : reader.activeShards with
        | nil => exact absurd active (unfinished ready)
        | cons id rest =>
            obtain ⟨tracked, member, rfl⟩ :=
              List.mem_map.mp (active ▸ List.mem_cons_self (a := id))
            obtain ⟨known, awake⟩ := List.mem_filter.mp member
            refine ⟨tracked, rest, active, known, fun done => ?_⟩
            rw [Tracked.isActive, done] at awake
            cases awake
      cases drains with
      | ended other =>
          rw [advanced] at other
          cases other
      | failed other =>
          rw [advanced] at other
          cases other
      | moved other rest =>
          rw [advanced] at other
          obtain rfl := (Prod.mk.inj other).2
          exact Nat.lt_of_lt_of_le (next.less_of_due distinct acyclic due rest) onward.toDo_le
      | handsOut other _ =>
          rw [advanced] at other
          cases other

end Completing

end Session

namespace Script

/-- A pass over a reader without active shards makes no call and hands out nothing. -/
theorem runPass_inactive (ready : reader.initialized = true) (inactive : reader.activeShards = [])
    (world : World Script) : runPass reader world = (some (.ok []), reader, world) := by
  have last : ((Session.start reader world).enterWith reader world).advance service =
      (.ended, { (Session.start reader world).enterWith reader world with
        pass := ⟨[], [], true, true⟩ }) := by
    simp only [Session.advance, Session.enterWith, Session.start, Pass.fresh, inactive]
    rfl
  have drains := Session.Drains.moved (Session.advance_start ready world) (.ended last)
  have enough : 1 < world.service.turns reader := by
    rw [turns]
    omega
  rw [runPass, Reader.runPass, drains.collect enough enough]
  rfl

/-- Whole passes one after the other, with their results. -/
def runPasses : Nat → Reader → World Script →
    List (Option (Except ReaderError (List Delivery))) × Reader × World Script
  | 0, reader, world => ([], reader, world)
  | count + 1, reader, world =>
    let passed := runPass reader world
    let rest := runPasses count passed.2.1 passed.2.2
    (passed.1 :: rest.1, rest.2)

theorem runPasses_inactive (ready : reader.initialized = true)
    (inactive : reader.activeShards = []) (world : World Script) (count : Nat) :
    runPasses count reader world = (List.replicate count (some (.ok [])), reader, world) := by
  induction count with
  | zero => rfl
  | succ count inductionHypothesis =>
      rw [runPasses, runPass_inactive ready inactive world]
      simp only [inductionHypothesis]
      rfl

end Script

namespace Session.Completing

/-- One pass after the other finishes the stream. -/
theorem exists_passes (distinct : (shards.map Shard.id).Nodup)
    (acyclic : (Lineage.ofShards shards).Acyclic)
    (completing : (Session.start reader world).Completing shards original handed) :
    ∃ count, ∃ results : List (List Delivery), ∃ last lastWorld, runPasses count reader world =
        (results.map fun records => some (.ok records), last, lastWorld) ∧
      (Session.start last lastWorld).Completing shards original (handed ++ results.flatten) ∧
      last.initialized = true ∧ last.activeShards = [] := by
  induction left : (Session.start reader world).toDo shards using Nat.strongRecOn
    generalizing reader world handed with
  | ind left inductionHypothesis =>
      by_cases finished : reader.initialized = true ∧ reader.activeShards = []
      · exact ⟨0, [], reader, world, rfl, by simpa using completing, finished⟩
      · obtain ⟨turns, records, error, later, drains, passed⟩ :=
          runPass_drains reader world completing.regular.indexed completing.regular.patient.limit
        obtain ⟨rfl, _, empty, next⟩ := completing.drain distinct acyclic drains
        have less := completing.pass_less distinct acyclic
          (fun ready inactive => finished ⟨ready, inactive⟩) drains
        obtain ⟨count, results, last, lastWorld, ran, completed, idle⟩ :=
          inductionHypothesis _ (left ▸ less) (next.restart empty) rfl
        refine ⟨count + 1, records :: results, last, lastWorld, ?_, ?_, idle⟩
        · rw [runPasses, passed, close_of_empty empty, ran]
          rfl
        · rw [List.flatten_cons, ← List.append_assoc]
          exact completed

end Session.Completing

namespace Script

/-- Everything is still scripted before the first pass. -/
theorem completing_start {settings : ReaderSettings} {script : Script}
    (oldest : settings.policy = .oldest) (unsaved : settings.checkpoint = .empty)
    (completable : Completable shards script) (monitor : Monitor) :
    (Session.start (.ofSettings settings) (.start script monitor)).Completing shards script [] where
  regular := Session.regular_start settings completable.named monitor
  unfolds := Reader.unfolds_ofSettings shards unsaved
  oldest := oldest
  described := fun _ member => absurd member List.not_mem_nil
  benign := completable.benign
  records := fun _ _ => rfl
  leaves := completable.runsOut

/--
Over a script that can be read to its end, a reader from the oldest records on finishes every shard
of an acyclic stream within finitely many drained passes. None of them fails, together they hand out
exactly the scripted records of each shard in their order, and later passes change nothing: they
make no call and hand out nothing.
-/
theorem passes_complete {settings : ReaderSettings} {script : Script}
    (oldest : settings.policy = .oldest) (unsaved : settings.checkpoint = .empty)
    (distinct : (shards.map Shard.id).Nodup) (acyclic : (Lineage.ofShards shards).Acyclic)
    (completable : Completable shards script) (monitor : Monitor) :
    ∃ count, ∃ results : List (List Delivery), ∃ last lastWorld,
      runPasses count (.ofSettings settings) (.start script monitor) =
          (results.map fun records => some (.ok records), last, lastWorld) ∧
        (∀ shard ∈ shards, last.IsDone shard.id ∧
          recordsOf shard.id results.flatten = recordsIn (script.batches.getD shard.id [])) ∧
        ∀ more, runPasses more last lastWorld =
          (List.replicate more (some (.ok [])), last, lastWorld) := by
  obtain ⟨count, results, last, lastWorld, ran, completing, ready, inactive⟩ :=
    (completing_start oldest unsaved completable monitor).exists_passes distinct acyclic
  refine ⟨count, results, last, lastWorld, ran, fun shard listed => ?_,
    runPasses_inactive ready inactive lastWorld⟩
  have done := completing.unfolds.done_of_inactive acyclic ready inactive listed
  refine ⟨done, ?_⟩
  obtain ⟨tracked, member, same, finished⟩ := done
  have leaves := completing.leaves shard listed
  rw [show (Session.start last lastWorld).reader.hasEnded shard.id = true from
    Reader.hasEnded_iff.mpr ⟨tracked, member, same, by rw [finished]; rfl⟩] at leaves
  have nothing : lastWorld.service.batches.getD shard.id [] = [] := leaves
  have records := completing.records shard listed
  simpa [Session.start, Pass.fresh, nothing, recordsIn] using records

/-- The stream is unknown and throttled at first, and so are the shards that it is split into. -/
def troubledSplit : Script :=
  ((describing Reader.splitOnce).queueDescriptions
      [.now (.error (.throughputExceeded "describe")), .now (.error (.resourceNotFound "stream"))])
    |>.queueIterators "B" [⟨.error (.throughputExceeded "open"), 20000⟩]
    |>.queueBatches "A" [.now (.ok ⟨[⟨"110", "key", [], none⟩], true, 5⟩),
      .now (.error .expiredIterator), .now (.error (.throughputExceeded "read")),
      .now (.ok ⟨[⟨"120", "key", [], none⟩], false, 0⟩)]
    |>.queueBatches "B" [.now (.error .expiredIterator),
      .now (.ok ⟨[⟨"210", "key", [], none⟩], false, 0⟩)]

theorem troubledSplit_completable : Completable Reader.splitOnce troubledSplit := by
  have iterators : ∀ shard, troubledSplit.iterators.getD shard [] =
      if "B" = shard then [⟨.error (.throughputExceeded "open"), 20000⟩] else [] := by
    intro shard
    simp [troubledSplit, describing, queueDescriptions, queueIterators, queueBatches,
      Std.ExtTreeMap.getD_insert]
  have refused : ∀ shard, ∀ reply ∈ troubledSplit.iterators.getD shard [],
      reply.result = .error (.throughputExceeded "open") := by
    intro shard reply member
    rw [iterators] at member
    split at member
    · rw [List.mem_singleton.mp member]
    · exact absurd member List.not_mem_nil
  refine ⟨⟨rfl, ?_, ?_, fun shard reply member fault failed => ?_⟩, ?_, ?_⟩
  · simp [troubledSplit, describing, queueDescriptions, queueIterators, queueBatches, Reply.now]
  · simp [troubledSplit, describing, queueDescriptions, queueIterators, queueBatches, Reply.now,
      Fault.isThrottling, Fault.isNotFound]
  · rw [refused shard reply member] at failed
    cases failed
    rfl
  · intro shard listed
    rcases List.mem_pair.mp listed with rfl | rfl
    · exact .goesOn _ _ (.expires (.throttles _ (.closes _ _)))
    · exact .expires (.closes _ _)
  · rintro first second token (⟨number, rfl⟩ | ⟨reply, member, answered⟩)
      (⟨other, same⟩ | ⟨reply, member, answered⟩)
    · exact tokenText_shard same
    all_goals
      rw [refused _ reply member] at answered
      cases answered

/-- Both shards are read to their ends, whatever goes wrong in between. -/
theorem troubledSplit_complete :
    ∃ count, ∃ results : List (List Delivery), ∃ last lastWorld,
      runPasses count (.ofSettings (.ofStream "stream")) (.start troubledSplit .off) =
          (results.map fun records => some (.ok records), last, lastWorld) ∧
        last.IsDone "A" ∧ last.IsDone "B" ∧
        (recordsOf "A" results.flatten).map Record.sequence = ["110", "120"] ∧
        (recordsOf "B" results.flatten).map Record.sequence = ["210"] ∧
        ∀ more, runPasses more last lastWorld =
          (List.replicate more (some (.ok [])), last, lastWorld) := by
  obtain ⟨count, results, last, lastWorld, ran, complete, idle⟩ :=
    passes_complete (show (ReaderSettings.ofStream "stream").policy = .oldest from rfl) rfl
      (by decide) Reader.splitOnce_acyclic troubledSplit_completable .off
  obtain ⟨upperDone, upperRecords⟩ :=
    complete ⟨"A", none, "100", some "199"⟩ List.mem_cons_self
  obtain ⟨lowerDone, lowerRecords⟩ :=
    complete ⟨"B", some "A", "200", none⟩ (List.mem_cons_of_mem _ List.mem_cons_self)
  refine ⟨count, results, last, lastWorld, ran, upperDone, lowerDone, ?_, ?_, idle⟩
  · exact congrArg _ upperRecords
  · exact congrArg _ lowerRecords

end Script
end ShardedStream
