import ShardedStream.Proofs.Reader.Apply
import ShardedStream.Proofs.World.Settle

/-!
What a step comes to.
The outcome of a step is fixed by the phase of its shard and by how the service settles its
questions.
-/

namespace ShardedStream

/-- These are the phases of a shard that has been read from and is not done. -/
def Phase.HasRead : Phase → Prop
  | .waiting _ => False
  | .reading _ => True
  | .exhausted => True
  | .done => False

theorem Phase.HasRead.ne_done {phase : Phase} (read : phase.HasRead) : phase ≠ .done := by
  rintro rfl
  exact read

namespace Reader

variable {σ α : Type} {service : Service σ} {plan : Nat → RetryPlan} {reader : Reader}
  {world later : World σ}

/-- This is what a read from a token comes to. -/
inductive Reads (service : Service σ) (reader : Reader) (shard : ShardId) (token : Token)
    (fresh : Bool) (world : World σ) : Outcome → World σ → Prop where
  | batch {batch : Batch} {later : World σ}
      (settles : Settles service (.readRecords token reader.settings.batchSize) world
        (.ok (some batch)) later) :
      Reads service reader shard token fresh world (.ofBatch shard batch) later
  | postponed {later : World σ}
      (settles : Settles service (.readRecords token reader.settings.batchSize) world
        (.ok none) later) :
      Reads service reader shard token fresh world
        (.bare shard (.throttled (if fresh then some token else none))) later
  | expired {later : World σ}
      (settles : Settles service (.readRecords token reader.settings.batchSize) world
        (.error .expiredIterator) later) :
      Reads service reader shard token fresh world (.bare shard .expired) later

/-- These are the decisions about the successors of a shard in a list of shards. -/
def successors (reader : Reader) (shard : ShardId) (shards : List Shard) : Assignments :=
  (Assignments.afterEnd (.ofShards shards) shard reader.checkpoint).without reader.trackedShards

/-- This is what a step for a tracked shard comes to. -/
inductive Steps (service : Service σ) (reader : Reader) (tracked : Tracked) (world : World σ) :
    Outcome → World σ → Prop where
  | opened {position : Position} {token : Token} {between later : World σ} {outcome : Outcome}
      (waiting : tracked.phase = .waiting position)
      (settles : Settles service (.openIterator reader.settings.stream tracked.id position) world
        (.ok (some token)) between)
      (reads : Reads service reader tracked.id token true
        (between.report (.event ⟨tracked.id, .iterator .acquired none⟩)) outcome later) :
      Steps service reader tracked world outcome later
  | unopened {position : Position} {later : World σ}
      (waiting : tracked.phase = .waiting position)
      (settles : Settles service (.openIterator reader.settings.stream tracked.id position) world
        (.ok none) later) :
      Steps service reader tracked world (.bare tracked.id .noIterator) later
  | missing {position : Position} {fault : Fault} {later : World σ}
      (waiting : tracked.phase = .waiting position) (notFound : fault.isNotFound = true)
      (settles : Settles service (.openIterator reader.settings.stream tracked.id position) world
        (.error fault) later) :
      Steps service reader tracked world (.bare tracked.id .exhausted) later
  | read {token : Token} {later : World σ} {outcome : Outcome}
      (reading : tracked.phase = .reading token)
      (reads : Reads service reader tracked.id token false world outcome later) :
      Steps service reader tracked world outcome later
  | described {shards : List Shard} {later : World σ} (ended : tracked.phase = .exhausted)
      (settles : Settles service (.listShards reader.settings.stream) world (.ok (some shards))
        later) :
      Steps service reader tracked world
        (.bare tracked.id (.successorsKnown (reader.successors tracked.id shards))) later
  | undescribed {later : World σ} (ended : tracked.phase = .exhausted)
      (settles : Settles service (.listShards reader.settings.stream) world (.ok none) later) :
      Steps service reader tracked world (.bare tracked.id .successorsUnknown) later
  | idle (finished : tracked.phase = .done) :
      Steps service reader tracked world (.bare tracked.id .idle) world

/-- A read that does not fail comes to a batch, to nothing, or to a void token. -/
theorem readFrom_reads {shard : ShardId} {token : Token} {fresh : Bool} {outcome : Outcome}
    (ended : world.converse service plan (reader.readFrom shard token fresh) =
      (some (.ok outcome), later)) :
    Reads service reader shard token fresh world outcome later := by
  obtain ⟨settled, between, settles, rest⟩ := World.converse_ask ended
  rcases settled with fault | _ | batch
  · simp only [Dialogue.andThen] at rest
    by_cases expired : fault.isExpiredIterator
    · rw [if_pos expired] at rest
      obtain rfl : fault = .expiredIterator := by
        cases fault <;> first | rfl | cases expired
      cases rest
      exact .expired settles
    · rw [if_neg expired] at rest
      cases rest
  · cases rest
    exact .postponed settles
  · cases rest
    exact .batch settles

theorem openAndRead_steps {tracked : Tracked} {position : Position} {outcome : Outcome}
    (waiting : tracked.phase = .waiting position)
    (ended : world.converse service plan (reader.openAndRead tracked.id position) =
      (some (.ok outcome), later)) :
    Steps service reader tracked world outcome later := by
  obtain ⟨settled, between, settles, rest⟩ := World.converse_ask ended
  rcases settled with fault | _ | token
  · simp only [Dialogue.andThen] at rest
    by_cases notFound : fault.isNotFound
    · rw [if_pos notFound] at rest
      cases rest
      exact .missing waiting notFound settles
    · rw [if_neg notFound] at rest
      cases rest
  · cases rest
    exact .unopened waiting settles
  · exact .opened waiting settles (readFrom_reads rest)

theorem lookUpSuccessors_steps {tracked : Tracked} {outcome : Outcome}
    (exhausted : tracked.phase = .exhausted)
    (ended : world.converse service plan (reader.lookUpSuccessors tracked.id) =
      (some (.ok outcome), later)) :
    Steps service reader tracked world outcome later := by
  obtain ⟨settled, between, settles, rest⟩ := World.converse_ask ended
  rcases settled with fault | _ | shards
  · cases rest
  · cases rest
    exact .undescribed exhausted settles
  · cases rest
    exact .described exhausted settles

/-- A step that does not fail is one of the tracked shard's steps. -/
theorem step_steps (indexed : reader.Indexed) {shard : ShardId} {outcome : Outcome}
    (ended : world.converse service plan (reader.step shard) = (some (.ok outcome), later)) :
    ∃ tracked ∈ reader.shards, tracked.id = shard ∧
      Steps service reader tracked world outcome later := by
  unfold step at ended
  split at ended
  · cases ended
  · rename_i tracked found
    obtain ⟨member, rfl⟩ := indexed.tracked?_eq_some_iff.mp found
    refine ⟨tracked, member, rfl, ?_⟩
    cases phase : tracked.phase with
    | waiting position =>
        rw [phase] at ended
        exact openAndRead_steps phase ended
    | reading token =>
        rw [phase] at ended
        exact .read phase (readFrom_reads ended)
    | exhausted =>
        rw [phase] at ended
        exact lookUpSuccessors_steps phase ended
    | done =>
        rw [phase] at ended
        cases ended
        exact .idle phase

/-- A read moves the world on. -/
theorem Reads.precedes {shard : ShardId} {token : Token} {fresh : Bool} {outcome : Outcome}
    (reads : Reads service reader shard token fresh world outcome later) :
    world.Precedes service later := by
  cases reads with
  | batch settles => exact World.precedes_of_settles settles
  | postponed settles => exact World.precedes_of_settles settles
  | expired settles => exact World.precedes_of_settles settles

/-- A step moves the world on. -/
theorem Steps.precedes {tracked : Tracked} {outcome : Outcome}
    (steps : Steps service reader tracked world outcome later) : world.Precedes service later := by
  cases steps with
  | opened _ settles reads =>
      refine (World.precedes_of_settles settles).trans ?_
      exact (World.Precedes.refl _ |>.reported (World.report_service _ _)
        (World.report_descriptions _ _)).trans reads.precedes
  | unopened _ settles => exact World.precedes_of_settles settles
  | missing _ _ settles => exact World.precedes_of_settles settles
  | read _ reads => exact reads.precedes
  | described _ settles => exact World.precedes_of_settles settles
  | undescribed _ settles => exact World.precedes_of_settles settles
  | idle _ => exact .refl world

/-- An outcome names the shard of its step. -/
theorem Reads.shard {shard : ShardId} {token : Token} {fresh : Bool} {outcome : Outcome}
    (reads : Reads service reader shard token fresh world outcome later) :
    outcome.shard = shard := by
  cases reads <;> rfl

theorem Steps.shard {tracked : Tracked} {outcome : Outcome}
    (steps : Steps service reader tracked world outcome later) : outcome.shard = tracked.id := by
  cases steps with
  | opened _ _ reads => exact reads.shard
  | read _ reads => exact reads.shard
  | unopened _ _ => rfl
  | missing _ _ _ => rfl
  | described _ _ => rfl
  | undescribed _ _ => rfl
  | idle _ => rfl

/-- There is nothing left to do for a shard that is done. -/
theorem Steps.eq_idle {tracked : Tracked} {outcome : Outcome}
    (steps : Steps service reader tracked world outcome later) (finished : tracked.phase = .done) :
    outcome = .bare tracked.id .idle := by
  cases steps with
  | idle _ => rfl
  | opened other _ _ => cases finished.symm.trans other
  | unopened other _ => cases finished.symm.trans other
  | missing other _ _ => cases finished.symm.trans other
  | read other _ => cases finished.symm.trans other
  | described other _ => cases finished.symm.trans other
  | undescribed other _ => cases finished.symm.trans other

/-- Only a batch brings records, and it leaves its shard with a token or at its end. -/
theorem Reads.hasRead {shard : ShardId} {token : Token} {fresh : Bool} {outcome : Outcome}
    (reads : Reads service reader shard token fresh world outcome later) :
    outcome.records = [] ∨ ∀ tracked resume,
      (Tracked.enter tracked (outcome.transition.phase? resume)).phase.HasRead := by
  cases reads with
  | @batch batch _ settles =>
      refine .inr fun tracked resume => ?_
      obtain ⟨records, next, lag⟩ := batch
      cases next with
      | none => trivial
      | some token => trivial
  | postponed settles => exact .inl rfl
  | expired settles => exact .inl rfl

theorem Steps.hasRead {tracked : Tracked} {outcome : Outcome}
    (steps : Steps service reader tracked world outcome later) :
    outcome.records = [] ∨ ∀ resume,
      (tracked.enter (outcome.transition.phase? resume)).phase.HasRead := by
  cases steps with
  | opened _ _ reads => exact reads.hasRead.imp_right fun entered => entered tracked
  | read _ reads => exact reads.hasRead.imp_right fun entered => entered tracked
  | unopened _ _ => exact .inl rfl
  | missing _ _ _ => exact .inl rfl
  | described _ _ => exact .inl rfl
  | undescribed _ _ => exact .inl rfl
  | idle _ => exact .inl rfl

/-- A read brings no decisions, and it finishes no shard. -/
theorem Reads.quiet {shard : ShardId} {token : Token} {fresh : Bool} {outcome : Outcome}
    (reads : Reads service reader shard token fresh world outcome later) :
    outcome.transition.entries = [] ∧
      ∀ resume, outcome.transition.phase? resume ≠ some .done := by
  cases reads with
  | @batch batch _ settles =>
      obtain ⟨records, next, lag⟩ := batch
      cases next with
      | none => exact ⟨rfl, fun resume => by simp [Outcome.ofBatch, Transition.phase?]⟩
      | some token => exact ⟨rfl, fun resume => by simp [Outcome.ofBatch, Transition.phase?]⟩
  | postponed settles =>
      cases fresh with
      | true => exact ⟨rfl, fun resume => by simp [Outcome.bare, Transition.phase?]⟩
      | false => exact ⟨rfl, fun resume => by simp [Outcome.bare, Transition.phase?]⟩
  | expired settles => exact ⟨rfl, fun resume => by simp [Outcome.bare, Transition.phase?]⟩

/-- Only successors finish a shard or bring decisions, and a finished shard stays finished. -/
theorem Steps.quiet_or_described {tracked : Tracked} {outcome : Outcome}
    (steps : Steps service reader tracked world outcome later) :
    (outcome.transition.entries = [] ∧ ∀ resume,
        ((tracked.enter (outcome.transition.phase? resume)).phase = .done ↔
          tracked.phase = .done)) ∨
      ∃ shards, tracked.phase = .exhausted ∧
        Settles service (.listShards reader.settings.stream) world (.ok (some shards)) later ∧
        outcome = .bare tracked.id (.successorsKnown (reader.successors tracked.id shards)) := by
  have unfinished : ∀ {phase : Option Phase}, tracked.phase ≠ .done → phase ≠ some .done →
      ((tracked.enter phase).phase = .done ↔ tracked.phase = .done) := by
    intro phase unread other
    cases phase with
    | none => exact Iff.rfl
    | some phase =>
        exact ⟨fun done => absurd (congrArg some done) other, fun done => absurd done unread⟩
  cases steps with
  | opened waiting _ reads =>
      exact .inl ⟨reads.quiet.1, fun resume =>
        unfinished (by rw [waiting]; exact Phase.noConfusion) (reads.quiet.2 resume)⟩
  | unopened waiting _ => exact .inl ⟨rfl, fun resume => Iff.rfl⟩
  | missing waiting _ _ =>
      exact .inl ⟨rfl, fun resume =>
        unfinished (by rw [waiting]; exact Phase.noConfusion)
          (by simp [Outcome.bare, Transition.phase?])⟩
  | read reading reads =>
      exact .inl ⟨reads.quiet.1, fun resume =>
        unfinished (by rw [reading]; exact Phase.noConfusion) (reads.quiet.2 resume)⟩
  | @described shards _ ended settles => exact .inr ⟨shards, ended, settles, rfl⟩
  | undescribed ended _ => exact .inl ⟨rfl, fun resume => Iff.rfl⟩
  | idle finished => exact .inl ⟨rfl, fun resume => Iff.rfl⟩

/-- A reader that has tracked where to start is initialized. -/
def opening (reader : Reader) (shards : List Shard) : Reader :=
  { (reader.track (Assignments.atStart (.ofShards shards) reader.checkpoint
      reader.settings.policy)).2 with initialized := true }

/-- This is what the preparation of a pass comes to. -/
inductive Prepares (service : Service σ) (reader : Reader) (world : World σ) :
    Option Reader → World σ → Prop where
  | already (initialized : reader.initialized = true) :
      Prepares service reader world (some reader) world
  | described {shards : List Shard} {later : World σ} {reports : List Report}
      (fresh : reader.initialized = false)
      (settles : Settles service (.listShards reader.settings.stream) world (.ok (some shards))
        later) :
      Prepares service reader world (some (reader.opening shards)) (later.reportAll reports)
  | undescribed {later : World σ} {report : Report} (fresh : reader.initialized = false)
      (settles : Settles service (.listShards reader.settings.stream) world (.ok none) later) :
      Prepares service reader world none (later.report report)

/-- A preparation changes the reader in one way at most. -/
theorem Prepares.change {prepared : Reader}
    (prepares : Prepares service reader world (some prepared) later) :
    prepared = reader ∨ Change reader prepared := by
  cases prepares with
  | already _ => exact .inl rfl
  | described _ _ => exact .inr (.prepared _ _)

/-- A preparation moves the world on. -/
theorem Prepares.precedes {prepared : Option Reader}
    (prepares : Prepares service reader world prepared later) : world.Precedes service later := by
  cases prepares with
  | already _ => exact .refl world
  | described _ settles =>
      exact (World.precedes_of_settles settles).reported (World.reportAll_service _ _)
        (World.reportAll_descriptions _ _)
  | undescribed _ settles =>
      exact (World.precedes_of_settles settles).reported (World.report_service _ _)
        (World.report_descriptions _ _)

/-- Reports in a row are reported at once. -/
theorem converse_reportAll (reports : List Report) (next : Dialogue α) (world : World σ) :
    world.converse service plan ((Dialogue.reportAll reports).andThen fun _ => next) =
      (world.reportAll reports).converse service plan next := by
  induction reports generalizing world with
  | nil => rfl
  | cons report reports inductionHypothesis => exact inductionHypothesis (world.report report)

/-- A preparation that does not fail describes the stream, once. -/
theorem prepare_prepares {prepared : Option Reader}
    (ended : world.converse service plan reader.prepare = (some (.ok prepared), later)) :
    Prepares service reader world prepared later := by
  unfold prepare at ended
  cases initialized : reader.initialized with
  | true =>
      rw [initialized, if_pos rfl] at ended
      cases ended
      exact .already initialized
  | false =>
      rw [initialized, if_neg (by decide)] at ended
      obtain ⟨settled, between, settles, rest⟩ := World.converse_ask ended
      rcases settled with fault | _ | shards
      · cases rest
      · cases rest
        exact .undescribed initialized settles
      · simp only [Dialogue.andThen, Dialogue.bind_eq] at rest
        rw [converse_reportAll] at rest
        cases rest
        exact .described initialized settles

end Reader
end ShardedStream
