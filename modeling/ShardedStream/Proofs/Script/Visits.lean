import ShardedStream.Proofs.Reader.Answer
import ShardedStream.Proofs.Script.Calls

/-!
Visits of a reader to a scripted service.
For a patient caller a visit always comes to something, and what it comes to is drawn from the
script of the visited shard, or from the scripted descriptions once the shard has been read.
-/

namespace ShardedStream

variable {names : ShardId → Token → Prop} {plan : RetryPlan} {world later : World Script}

namespace Script

/-- A description has been drawn from the scripted ones. -/
structure Describes (plan : RetryPlan) (stream : String) (world : World Script)
    (answer : Except RetryFailure (List Shard)) (later : World Script) : Prop where
  drawn : ∃ drawn, (plan.draw world.service.descriptions).outcome = some drawn ∧
    Matches (fun shards scripted => shards = scripted.getD world.service.description) answer drawn
  became : later.service =
    { world.service with descriptions := (plan.draw world.service.descriptions).state }
  asked : world.Asked (.listShards stream) (plan.draw world.service.descriptions).made.length
    answer later

/-- An iterator has been drawn from the script of its shard. -/
structure Opens (names : ShardId → Token → Prop) (plan : RetryPlan) (stream : String)
    (shard : ShardId) (position : Position) (world : World Script)
    (answer : Except RetryFailure Token) (later : World Script) : Prop where
  drawn : ∃ drawn, (plan.draw (world.service.iterators.getD shard [])).outcome = some drawn ∧
    Matches (fun token _ => names shard token ∧ later.service.owners[token]? = some shard)
      answer drawn
  keeps : Keeps names shard world.service later.service
  batches : later.service.batches = world.service.batches
  left : later.service.iterators.getD shard [] =
    (plan.draw (world.service.iterators.getD shard [])).state
  asked : world.Asked (.openIterator stream shard position)
    (plan.draw (world.service.iterators.getD shard [])).made.length answer later

/-- A batch has been drawn from the script of its shard. -/
structure Receives (names : ShardId → Token → Prop) (plan : RetryPlan) (shard : ShardId)
    (token : Token) (limit : Int) (world : World Script) (answer : Except RetryFailure Batch)
    (later : World Script) : Prop where
  drawn : ∃ drawn, (plan.draw (world.service.batches.getD shard [])).outcome = some drawn ∧
    Matches (fun batch scripted =>
      Completes names shard later.service (scripted.getD ⟨[], true, 0⟩) batch) answer drawn
  keeps : Keeps names shard world.service later.service
  iterators : later.service.iterators = world.service.iterators
  own : names shard token
  owned : later.service.owners[token]? = some shard
  left : later.service.batches.getD shard [] =
    (plan.draw (world.service.batches.getD shard [])).state
  asked : world.Asked (.readRecords token limit)
    (plan.draw (world.service.batches.getD shard [])).made.length answer later

theorem settle_describes (plan : Nat → RetryPlan) (stream : String) (patient : world.Patient) :
    ∃ answer later, world.settle service plan (.listShards stream) =
        (some (Request.settle (.listShards stream) answer), later) ∧
      Describes (plan world.calls.length) stream world answer later := by
  have start : world.service =
      { world.service with descriptions := world.service.descriptions } := rfl
  obtain ⟨answer, drawn, later, settled, outcome, fits, became, asked⟩ :=
    World.settle_draws (listShards_imitates world.service stream) plan patient start
  exact ⟨answer, later, settled, ⟨drawn, outcome, fits⟩, became, asked⟩

theorem settle_opens (named : Named names world.service) (plan : Nat → RetryPlan) (stream : String)
    (shard : ShardId) (position : Position) (patient : world.Patient) :
    ∃ answer later, world.settle service plan (.openIterator stream shard position) =
        (some (Request.settle (.openIterator stream shard position) answer), later) ∧
      Opens names (plan world.calls.length) stream shard position world answer later := by
  obtain ⟨answer, drawn, later, settled, outcome, fits, ⟨keeps, batches, left⟩, asked⟩ :=
    World.settle_draws (openIterator_imitates named stream shard position) plan patient
      ⟨.refl names shard world.service, rfl, rfl⟩
  exact ⟨answer, later, settled, ⟨drawn, outcome, fits⟩, keeps, batches, left, asked⟩

theorem settle_receives (named : Named names world.service) (plan : Nat → RetryPlan)
    {shard : ShardId} {token : Token} (own : names shard token) (owned : world.service.owners[token]? = some shard)
    (limit : Int) (patient : world.Patient) :
    ∃ answer later, world.settle service plan (.readRecords token limit) =
        (some (Request.settle (.readRecords token limit) answer), later) ∧
      Receives names (plan world.calls.length) shard token limit world answer later := by
  obtain ⟨answer, drawn, later, settled, outcome, fits, ⟨keeps, iterators, owned, left⟩, asked⟩ :=
    World.settle_draws (readRecords_imitates named token limit shard own) plan patient
      ⟨.refl names shard world.service, rfl, owned, rfl⟩
  exact ⟨answer, later, settled, ⟨drawn, outcome, fits⟩, keeps, iterators, own, owned, left, asked⟩

/-- A description uses up descriptions alone. -/
theorem Describes.keeps {stream : String} {answer : Except RetryFailure (List Shard)}
    (describes : Describes plan stream world answer later) (names : ShardId → Token → Prop)
    (only : ShardId) : Keeps names only world.service later.service := by
  obtain ⟨drawn, _, draws⟩ := plan.draw_draws world.service.descriptions
  have same := Keeps.refl names only world.service
  rw [describes.became]
  exact ⟨rfl, draws.suffix, same.iterators, same.batches, same.ownIterators, same.ownBatches,
    same.owners⟩

/-- An answered read from a token leaves the shard with a token of its own, if with any. -/
theorem Receives.token {shard : ShardId} {token next : Token} {limit : Int} {batch : Batch}
    (receives : Receives names plan shard token limit world (.ok batch) later)
    (goesOn : batch.next = some next) :
    names shard next ∧ later.service.owners[next]? = some shard := by
  obtain ⟨drawn, _, fits⟩ := receives.drawn
  cases fits with
  | value completes =>
      generalize Option.getD _ _ = scripted at completes
      cases completes with
      | goesOn own owned =>
          obtain rfl := Option.some.inj goesOn
          exact ⟨own, owned⟩
      | ends => cases goesOn

/-- A shard that goes on reading after a read does so from a token of its own. -/
theorem Receives.reading {shard : ShardId} {token next : Token} {limit : Int} {fresh : Bool}
    {answer : Except RetryFailure Batch} {outcome : Outcome} {resume : Position}
    (receives : Receives names plan shard token limit world answer later)
    (result : readResult shard token fresh answer = .ok outcome)
    (reads : outcome.transition.phase? resume = some (.reading next)) :
    names shard next ∧ later.service.owners[next]? = some shard := by
  cases readsAs_of_readResult result with
  | batch batch =>
      obtain ⟨records, following, lag⟩ := batch
      cases following with
      | none => cases reads
      | some following =>
          cases reads
          exact receives.token rfl
  | gone _ => cases reads
  | expired => cases reads
  | exhausted _ =>
      cases fresh <;> cases reads
      exact ⟨receives.own, receives.owned⟩
  | interrupted =>
      cases fresh <;> cases reads
      exact ⟨receives.own, receives.owned⟩

end Script

open Script

/-- This is what a visit to a tracked shard comes to. -/
inductive Visits (names : ShardId → Token → Prop) (reader : Reader) (tracked : Tracked)
    (world : World Script) : Except ReaderError Outcome → World Script → Prop where
  | opened {position : Position} {token : Token} {between later : World Script}
      {answer : Except RetryFailure Batch} (waiting : tracked.phase = .waiting position)
      (opens : Opens names (reader.settings.retry.plan world.calls.length)
        reader.settings.stream tracked.id position world (.ok token) between)
      (receives : Receives names (reader.settings.retry.plan between.calls.length) tracked.id
        token reader.settings.batchSize
        (between.report (.event ⟨tracked.id, .iterator .acquired none⟩)) answer later) :
      Visits names reader tracked world (readResult tracked.id token true answer) later
  | unopened {position : Position} {failure : RetryFailure} {later : World Script}
      (waiting : tracked.phase = .waiting position)
      (opens : Opens names (reader.settings.retry.plan world.calls.length)
        reader.settings.stream tracked.id position world (.error failure) later) :
      Visits names reader tracked world (unopenedResult tracked.id failure) later
  | read {token : Token} {answer : Except RetryFailure Batch} {later : World Script}
      (reading : tracked.phase = .reading token)
      (receives : Receives names (reader.settings.retry.plan world.calls.length) tracked.id
        token reader.settings.batchSize world answer later) :
      Visits names reader tracked world (readResult tracked.id token false answer) later
  | lookedUp {answer : Except RetryFailure (List Shard)} {later : World Script}
      (ended : tracked.phase = .exhausted)
      (describes : Describes (reader.settings.retry.plan world.calls.length)
        reader.settings.stream world answer later) :
      Visits names reader tracked world (lookUpResult reader tracked.id answer) later
  | idle (finished : tracked.phase = .done) :
      Visits names reader tracked world (.ok (.bare tracked.id .idle)) world

/-- A tracked shard reads from a token of its own, if from any. -/
def Tracked.Owns (names : ShardId → Token → Prop) (script : Script) (tracked : Tracked) : Prop :=
  ∀ token, tracked.phase = .reading token →
    names tracked.id token ∧ script.owners[token]? = some tracked.id

variable {reader : Reader}

/-- A step for a tracked shard is a visit. -/
theorem step_visits (indexed : reader.Indexed) (named : Named names world.service)
    (patient : world.Patient) {tracked : Tracked} (member : tracked ∈ reader.shards)
    (owns : tracked.Owns names world.service) :
    ∃ result later, world.converse service reader.settings.retry.plan (reader.step tracked.id) =
        (some result, later) ∧ Visits names reader tracked world result later := by
  unfold Reader.step
  rw [indexed.tracked?_eq_some_iff.mpr ⟨member, rfl⟩]
  simp only
  cases phase : tracked.phase with
  | waiting position =>
      obtain ⟨answer, between, settled, opens⟩ := settle_opens named reader.settings.retry.plan
        reader.settings.stream tracked.id position patient
      cases answer with
      | error failure => exact ⟨_, _, Reader.converse_unopened settled, .unopened phase opens⟩
      | ok token =>
          obtain ⟨drawn, _, fits⟩ := opens.drawn
          cases fits with
          | value own =>
              have announced := between.report_service
                (.event ⟨tracked.id, .iterator .acquired none⟩)
              obtain ⟨answer, later, read, receives⟩ := settle_receives
                (announced.symm ▸ opens.keeps.named named) reader.settings.retry.plan own.1
                (announced.symm ▸ own.2) reader.settings.batchSize (opens.asked.patient.report _)
              exact ⟨_, _, (Reader.converse_openAndRead settled).trans
                (Reader.converse_readFrom read), .opened phase opens receives⟩
  | reading token =>
      obtain ⟨own, owned⟩ := owns token phase
      obtain ⟨answer, later, read, receives⟩ := settle_receives named reader.settings.retry.plan
        own owned reader.settings.batchSize patient
      exact ⟨_, _, Reader.converse_readFrom read, .read phase receives⟩
  | exhausted =>
      obtain ⟨answer, later, settled, describes⟩ := settle_describes reader.settings.retry.plan
        reader.settings.stream patient
      exact ⟨_, _, Reader.converse_lookUpSuccessors settled, .lookedUp phase describes⟩
  | done => exact ⟨_, _, rfl, .idle phase⟩

namespace Visits

variable {tracked : Tracked} {result : Except ReaderError Outcome}

theorem patient (visits : Visits names reader tracked world result later)
    (patient : world.Patient) : later.Patient := by
  cases visits with
  | opened _ _ receives => exact receives.asked.patient
  | unopened _ opens => exact opens.asked.patient
  | read _ receives => exact receives.asked.patient
  | lookedUp _ describes => exact describes.asked.patient
  | idle _ => exact patient

/-- A visit uses up descriptions and the script of its own shard. -/
theorem keeps (visits : Visits names reader tracked world result later) :
    Keeps names tracked.id world.service later.service := by
  cases visits with
  | opened _ opens receives =>
      have read := receives.keeps
      rw [World.report_service] at read
      exact opens.keeps.trans read
  | unopened _ opens => exact opens.keeps
  | read _ receives => exact receives.keeps
  | lookedUp _ describes => exact describes.keeps names tracked.id
  | idle _ => exact .refl names tracked.id world.service

/-- A shard that goes on reading after a visit reads from a token of its own. -/
theorem reading {outcome : Outcome} (visits : Visits names reader tracked world (.ok outcome) later)
    {resume : Position} {next : Token}
    (reads : outcome.transition.phase? resume = some (.reading next)) :
    names tracked.id next ∧ later.service.owners[next]? = some tracked.id := by
  generalize same : Except.ok outcome = result at visits
  cases visits with
  | opened _ _ receives => exact receives.reading same.symm reads
  | unopened _ _ => cases unopenedAs_of_unopenedResult same.symm <;> cases reads
  | read _ receives => exact receives.reading same.symm reads
  | lookedUp _ _ => cases looksUpAs_of_lookUpResult same.symm <;> cases reads
  | idle _ =>
      cases same
      cases reads

end Visits

end ShardedStream
