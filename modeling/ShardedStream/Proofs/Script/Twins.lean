import ShardedStream.Proofs.Reader.Alike
import ShardedStream.Proofs.Script.Visits

/-!
Visits to one shard in two runs.
What a visit comes to is drawn from the script of its shard. So two runs that have the same of it
left see the same, at whatever times and with whatever tokens, and a visit to another shard takes
nothing from it.
-/

namespace ShardedStream

open Script

namespace RetrySettings

variable {settings : RetrySettings}

/-- Chance tells no operation from another one: there is no jitter, or all draws are the same. -/
def PausesAlike (settings : RetrySettings) : Prop :=
  ¬ settings.exponential.jitter > 0.0 ∨
    ∀ calls, settings.draws calls = settings.draws 0

theorem PausesAlike.plan_eq (alike : settings.PausesAlike) (calls : Nat) :
    settings.plan calls = settings.plan 0 := by
  rw [plan, plan]
  rcases alike with steady | same
  · refine congrArg (RetryPlan.mk settings.budget) (funext fun attempt => ?_)
    simp only [Exponential.backoff, Exponential.delay, if_neg steady]
  · rw [same calls]

end RetrySettings

/-- Only an iterator is asked for a shard by name. -/
def Request.opens? : Request → Option ShardId
  | .listShards _ => none
  | .openIterator _ shard _ => some shard
  | .readRecords _ _ => none

namespace World

/-- The requests for an iterator of a shard, in order. -/
def openings {σ : Type} (world : World σ) (shard : ShardId) : List Request :=
  world.requests.filter fun request => request.opens? == some shard

/-- Two runs have the same of the script of a shard left, and have asked the same for it. -/
structure SameFor (shard : ShardId) (first second : World Script) : Prop where
  iterators : second.service.iterators.getD shard [] = first.service.iterators.getD shard []
  batches : second.service.batches.getD shard [] = first.service.batches.getD shard []
  openings : second.openings shard = first.openings shard

variable {shard : ShardId} {first second third : World Script}

theorem SameFor.refl (shard : ShardId) (world : World Script) : SameFor shard world world :=
  ⟨rfl, rfl, rfl⟩

theorem SameFor.symm (same : SameFor shard first second) : SameFor shard second first :=
  ⟨same.iterators.symm, same.batches.symm, same.openings.symm⟩

theorem SameFor.trans (same : SameFor shard first second) (next : SameFor shard second third) :
    SameFor shard first third :=
  ⟨next.iterators.trans same.iterators, next.batches.trans same.batches,
    next.openings.trans same.openings⟩

/-- Reports ask nothing. -/
theorem sameFor_reportAll (shard : ShardId) (world : World Script) (reports : List Report) :
    SameFor shard world (world.reportAll reports) := by
  refine ⟨?_, ?_, ?_⟩
  · rw [reportAll_service]
  · rw [reportAll_service]
  · rw [openings, reportAll_requests, openings]

theorem sameFor_report (shard : ShardId) (world : World Script) (report : Report) :
    SameFor shard world (world.report report) := sameFor_reportAll shard world [report]

/-- A retried operation asks as often as it has attempts. -/
theorem Asked.openings {request : Request} {attempts : Nat} {later : World Script}
    {outcome : Except RetryFailure request.Answer}
    (asked : first.Asked request attempts outcome later) (shard : ShardId) :
    later.openings shard = first.openings shard ++
      if request.opens? = some shard then List.replicate attempts request else [] := by
  rw [World.openings, World.openings, asked.requests, List.filter_append, List.filter_replicate]
  simp only [beq_iff_eq]

/-- An operation on something else opens no iterator of the shard. -/
theorem Asked.openings_other {request : Request} {attempts : Nat} {later : World Script}
    {outcome : Except RetryFailure request.Answer}
    (asked : first.Asked request attempts outcome later) (other : request.opens? ≠ some shard) :
    later.openings shard = first.openings shard := by
  rw [asked.openings, if_neg other, List.append_nil]

/-- An operation on no shard by name opens none. -/
theorem Asked.openings_silent {request : Request} {attempts : Nat} {later : World Script}
    {outcome : Except RetryFailure request.Answer}
    (asked : first.Asked request attempts outcome later) (silent : request.opens? = none) :
    later.openings shard = first.openings shard :=
  asked.openings_other (by rw [silent]; exact (Option.some_ne_none shard).symm)

theorem openings_report (world : World Script) (report : Report) (shard : ShardId) :
    (world.report report).openings shard = world.openings shard := by
  rw [World.openings, World.openings, World.report_requests]

end World

open World (SameFor)

variable {names otherNames : ShardId → Token → Prop} {plan : RetryPlan} {stream : String}
  {shard other : ShardId} {world later otherWorld otherLater : World Script}

/-- Results that match the same are matched by each other. -/
theorem Matches.twin {ε α β γ : Type} {fits : α → γ → Prop} {otherFits : β → γ → Prop}
    {alike : α → β → Prop} {first : Except ε α} {second : Except ε β} {origin : Except ε γ}
    (matched : Matches fits first origin) (otherMatched : Matches otherFits second origin)
    (twin : ∀ one another source, fits one source → otherFits another source →
      alike one another) : Matches alike first second := by
  cases matched with
  | value fit =>
      cases otherMatched with
      | value otherFit => exact .value (twin _ _ _ fit otherFit)
  | failure error =>
      cases otherMatched with
      | failure _ => exact .failure error

/-- Two batches bring the same records, and both or neither of them are the last. -/
structure Batch.Alike (first second : Batch) : Prop where
  records : second.records = first.records
  lag : second.lag = first.lag
  goesOn : second.next.isSome = first.next.isSome

namespace Script

/-- Completions of one scripted batch differ in their tokens only. -/
theorem Completes.alike {script otherScript : Script} {scripted : ScriptedBatch}
    {batch otherBatch : Batch} (completes : Completes names shard script scripted batch)
    (otherCompletes : Completes otherNames shard otherScript scripted otherBatch) :
    batch.Alike otherBatch := by
  cases completes with
  | goesOn _ _ =>
      cases otherCompletes with
      | goesOn _ _ => exact ⟨rfl, rfl, rfl⟩
  | ends =>
      cases otherCompletes with
      | ends => exact ⟨rfl, rfl, rfl⟩

/-- Openings that draw from the same script come to the same. -/
theorem Opens.twin {position : Position} {answer otherAnswer : Except RetryFailure Token}
    (opens : Opens names plan stream shard position world answer later)
    (twin : Opens otherNames plan stream shard position otherWorld otherAnswer otherLater)
    (same : SameFor shard world otherWorld) :
    Matches (fun _ _ => True) answer otherAnswer ∧ SameFor shard later otherLater := by
  obtain ⟨drawn, outcome, fits⟩ := opens.drawn
  obtain ⟨otherDrawn, otherOutcome, otherFits⟩ := twin.drawn
  rw [same.iterators, outcome] at otherOutcome
  obtain rfl := Option.some.inj otherOutcome
  refine ⟨fits.twin otherFits fun _ _ _ _ _ => trivial, ?_, ?_, ?_⟩
  · rw [opens.left, twin.left, same.iterators]
  · rw [opens.batches, twin.batches, same.batches]
  · rw [opens.asked.openings, twin.asked.openings, same.openings, same.iterators]

/-- Reads that draw from the same script come to the same, whatever their tokens. -/
theorem Receives.twin {token otherToken : Token} {limit : Int}
    {answer otherAnswer : Except RetryFailure Batch}
    (receives : Receives names plan shard token limit world answer later)
    (twin : Receives otherNames plan shard otherToken limit otherWorld otherAnswer otherLater)
    (same : SameFor shard world otherWorld) :
    Matches Batch.Alike answer otherAnswer ∧ SameFor shard later otherLater := by
  obtain ⟨drawn, outcome, fits⟩ := receives.drawn
  obtain ⟨otherDrawn, otherOutcome, otherFits⟩ := twin.drawn
  rw [same.batches, outcome] at otherOutcome
  obtain rfl := Option.some.inj otherOutcome
  refine ⟨fits.twin otherFits fun _ _ _ => Completes.alike, ?_, ?_, ?_⟩
  · rw [receives.iterators, twin.iterators, same.iterators]
  · rw [receives.left, twin.left, same.batches]
  · rw [receives.asked.openings_silent rfl, twin.asked.openings_silent rfl, same.openings]

/-- Without scripted descriptions the shards of the script are described, and nothing is used up. -/
theorem Describes.unscripted {answer : Except RetryFailure (List Shard)}
    (describes : Describes plan stream world answer later)
    (none : world.service.descriptions = []) :
    answer = .ok world.service.description ∧ later.service = world.service := by
  obtain ⟨drawn, outcome, fits⟩ := describes.drawn
  have draws := RetryPlan.draws_of_draw outcome
  have became := describes.became
  rw [none] at draws became
  generalize (plan.draw ([] : List (Reply (List Shard)))).state = left at draws became
  cases draws
  refine ⟨?_, ?_⟩
  · cases fits with
    | value fit => exact congrArg _ fit
  · rw [became, ← none]

end Script

/-- The outcome is the same as itself. -/
theorem Outcome.Alike.refl (outcome : Outcome) : outcome.Alike outcome :=
  ⟨rfl, rfl, rfl, rfl, rfl, fun _ => rfl⟩

/-- Lookups that bring the same entries do the same. -/
theorem Outcome.Alike.ofSuccessors {first second : Assignments} (shard : ShardId)
    (same : second.entries = first.entries) :
    (Outcome.bare shard (.successorsKnown first)).Alike (.bare shard (.successorsKnown second)) :=
  ⟨rfl, rfl, rfl, rfl, same, fun _ => rfl⟩

/-- Batches that are alike have outcomes that are. -/
theorem Batch.Alike.ofBatch {batch otherBatch : Batch} (alike : batch.Alike otherBatch)
    (shard : ShardId) : (Outcome.ofBatch shard batch).Alike (.ofBatch shard otherBatch) := by
  obtain ⟨records, next, lag⟩ := batch
  obtain ⟨otherRecords, otherNext, otherLag⟩ := otherBatch
  obtain ⟨rfl, rfl, goesOn⟩ := alike
  cases next with
  | none =>
      cases otherNext with
      | none => exact .refl _
      | some _ => cases goesOn
  | some _ =>
      cases otherNext with
      | none => cases goesOn
      | some _ => exact ⟨rfl, rfl, rfl, rfl, rfl, fun _ => rfl⟩

/-- Answers that are alike have results that are. -/
theorem readResult_alike {answer otherAnswer : Except RetryFailure Batch}
    (alike : Matches Batch.Alike answer otherAnswer) (shard : ShardId) (token otherToken : Token)
    (fresh : Bool) :
    Matches Outcome.Alike (readResult shard token fresh answer)
      (readResult shard otherToken fresh otherAnswer) := by
  have throttled : Outcome.Alike (.bare shard (.throttled (if fresh then some token else none)))
      (.bare shard (.throttled (if fresh then some otherToken else none))) := by
    cases fresh with
    | true => exact ⟨rfl, rfl, rfl, rfl, rfl, fun _ => rfl⟩
    | false => exact .refl _
  cases alike with
  | value alike => exact .value (alike.ofBatch shard)
  | failure failure =>
      rcases failure with _ | _ | fault
      · exact .value throttled
      · exact .value throttled
      · simp only [readResult]
        split
        · exact .value (.refl _)
        · split
          · exact .value (.refl _)
          · exact .failure _

theorem unopenedResult_alike (shard : ShardId) (failure : RetryFailure) :
    Matches Outcome.Alike (unopenedResult shard failure) (unopenedResult shard failure) := by
  cases unopenedResult shard failure with
  | ok outcome => exact .value (.refl outcome)
  | error error => exact .failure error

/-- Phases that look alike are the same, unless both of them read. -/
theorem Phase.of_tokenless {first second : Phase} (same : second.tokenless = first.tokenless) :
    (∃ token other, first = .reading token ∧ second = .reading other) ∨
      second = first ∧ ∀ token, first ≠ .reading token := by
  cases first <;> cases second <;> simp_all [Phase.tokenless]

namespace Visits

variable {reader otherReader : Reader} {tracked twin : Tracked} {outcome : Outcome}
  {result otherResult : Except ReaderError Outcome}

/-- A visit takes nothing from another shard and asks nothing for it. -/
theorem sameFor_other (visits : Visits names reader tracked world result later)
    (apart : shard ≠ tracked.id) : SameFor shard world later := by
  refine ⟨visits.keeps.iterators_getD apart, visits.keeps.batches_getD apart, ?_⟩
  have unopened : ∀ position,
      (Request.openIterator reader.settings.stream tracked.id position).opens? ≠ some shard :=
    fun _ same => apart (Option.some.inj same).symm
  cases visits with
  | opened _ opens receives =>
      rw [receives.asked.openings_silent rfl, World.openings_report,
        opens.asked.openings_other (unopened _)]
  | unopened _ opens => exact opens.asked.openings_other (unopened _)
  | read _ receives => exact receives.asked.openings_silent rfl
  | lookedUp _ describes => exact describes.asked.openings_silent rfl
  | idle _ => rfl

/-- What a visit comes to depends on the phase of its shard. -/
def ComesTo (names : ShardId → Token → Prop) (reader : Reader) (shard : ShardId)
    (world : World Script) (result : Except ReaderError Outcome) (later : World Script) :
    Phase → Prop
  | .waiting position =>
    (∃ token between answer,
      Opens names (reader.settings.retry.plan 0) reader.settings.stream shard position world
        (.ok token) between ∧
      Receives names (reader.settings.retry.plan 0) shard token reader.settings.batchSize
        (between.report (.event ⟨shard, .iterator .acquired none⟩)) answer later ∧
      result = readResult shard token true answer) ∨
    ∃ failure,
      Opens names (reader.settings.retry.plan 0) reader.settings.stream shard position world
        (.error failure) later ∧ result = unopenedResult shard failure
  | .reading token => ∃ answer,
    Receives names (reader.settings.retry.plan 0) shard token reader.settings.batchSize world
      answer later ∧ result = readResult shard token false answer
  | .exhausted => ∃ answer,
    Describes (reader.settings.retry.plan 0) reader.settings.stream world answer later ∧
      result = lookUpResult reader shard answer
  | .done => later = world ∧ result = .ok (.bare shard .idle)

theorem comesTo (visits : Visits names reader tracked world result later)
    (pauses : reader.settings.retry.PausesAlike) :
    ComesTo names reader tracked.id world result later tracked.phase := by
  cases visits with
  | opened waiting opens receives =>
      rw [pauses.plan_eq] at opens receives
      rw [waiting]
      exact .inl ⟨_, _, _, opens, receives, rfl⟩
  | unopened waiting opens =>
      rw [pauses.plan_eq] at opens
      rw [waiting]
      exact .inr ⟨_, opens, rfl⟩
  | read reading receives =>
      rw [pauses.plan_eq] at receives
      rw [reading]
      exact ⟨_, receives, rfl⟩
  | lookedUp ended describes =>
      rw [pauses.plan_eq] at describes
      rw [ended]
      exact ⟨_, describes, rfl⟩
  | idle finished =>
      rw [finished]
      exact ⟨rfl, rfl⟩

/-- A lookup brings the successors in the list of shards. -/
theorem known (visits : Visits names reader tracked world result later)
    (ended : tracked.phase = .exhausted) (unscripted : world.service.descriptions = []) :
    result = .ok (.bare tracked.id
        (.successorsKnown (reader.successors tracked.id world.service.description))) ∧
      later.service = world.service := by
  cases visits with
  | lookedUp _ describes =>
      obtain ⟨rfl, same⟩ := describes.unscripted unscripted
      exact ⟨rfl, same⟩
  | opened waiting _ _ => cases ended.symm.trans waiting
  | unopened waiting _ => cases ended.symm.trans waiting
  | read reading _ => cases ended.symm.trans reading
  | idle finished => cases ended.symm.trans finished

/-- Two shards that wait at the same position come to the same. -/
theorem ComesTo.waiting_alike {position : Position}
    (comes : ComesTo names reader shard world result later (.waiting position))
    (otherComes : ComesTo otherNames otherReader shard otherWorld otherResult otherLater
      (.waiting position))
    (settings : otherReader.settings = reader.settings)
    (script : SameFor shard world otherWorld) :
    Matches Outcome.Alike result otherResult ∧ SameFor shard later otherLater := by
  simp only [ComesTo, settings] at comes otherComes
  rcases comes with ⟨token, between, answer, opens, receives, rfl⟩ | ⟨failure, opens, rfl⟩
  · rcases otherComes with
      ⟨otherToken, otherBetween, otherAnswer, otherOpens, otherReceives, rfl⟩ |
        ⟨otherFailure, otherOpens, rfl⟩
    · obtain ⟨_, left⟩ := opens.twin otherOpens script
      obtain ⟨answers, last⟩ := receives.twin otherReceives
        (((World.sameFor_report _ between _).symm.trans left).trans
          (World.sameFor_report _ otherBetween _))
      exact ⟨readResult_alike answers _ _ _ _, last⟩
    · cases (opens.twin otherOpens script).1
  · rcases otherComes with
      ⟨otherToken, otherBetween, otherAnswer, otherOpens, otherReceives, rfl⟩ |
        ⟨otherFailure, otherOpens, rfl⟩
    · cases (opens.twin otherOpens script).1
    · obtain ⟨failures, left⟩ := opens.twin otherOpens script
      cases failures
      exact ⟨unopenedResult_alike _ failure, left⟩

/-- Two shards that are read come to the same, whatever their tokens. -/
theorem ComesTo.reading_alike {token otherToken : Token}
    (comes : ComesTo names reader shard world result later (.reading token))
    (otherComes : ComesTo otherNames otherReader shard otherWorld otherResult otherLater
      (.reading otherToken))
    (settings : otherReader.settings = reader.settings)
    (script : SameFor shard world otherWorld) :
    Matches Outcome.Alike result otherResult ∧ SameFor shard later otherLater := by
  obtain ⟨answer, receives, rfl⟩ := comes
  obtain ⟨otherAnswer, otherReceives, rfl⟩ := otherComes
  rw [settings] at otherReceives
  obtain ⟨answers, left⟩ := receives.twin otherReceives script
  exact ⟨readResult_alike answers _ _ _ _, left⟩

/-- Two shards that have ended find the same successors in the same description. -/
theorem ComesTo.exhausted_alike
    (comes : ComesTo names reader shard world result later .exhausted)
    (otherComes : ComesTo otherNames otherReader shard otherWorld otherResult otherLater
      .exhausted)
    (script : SameFor shard world otherWorld)
    (described : otherWorld.service.description = world.service.description)
    (unscripted : world.service.descriptions = [])
    (otherUnscripted : otherWorld.service.descriptions = [])
    (successors : (otherReader.successors shard world.service.description).entries =
      (reader.successors shard world.service.description).entries) :
    Matches Outcome.Alike result otherResult ∧ SameFor shard later otherLater := by
  obtain ⟨answer, describes, rfl⟩ := comes
  obtain ⟨otherAnswer, otherDescribes, rfl⟩ := otherComes
  obtain ⟨rfl, same⟩ := describes.unscripted unscripted
  obtain ⟨rfl, otherSame⟩ := otherDescribes.unscripted otherUnscripted
  rw [described]
  refine ⟨.value (.ofSuccessors _ successors), ?_, ?_, ?_⟩
  · rw [same, otherSame, script.iterators]
  · rw [same, otherSame, script.batches]
  · rw [describes.asked.openings_silent rfl, otherDescribes.asked.openings_silent rfl,
      script.openings]

/-- Two visits to shards that look alike come to the same. -/
theorem alike (visits : Visits names reader tracked world result later)
    (others : Visits otherNames otherReader twin otherWorld otherResult otherLater)
    (settings : otherReader.settings = reader.settings)
    (pauses : reader.settings.retry.PausesAlike) (same : twin.tokenless = tracked.tokenless)
    (script : SameFor tracked.id world otherWorld)
    (described : otherWorld.service.description = world.service.description)
    (unscripted : world.service.descriptions = [])
    (otherUnscripted : otherWorld.service.descriptions = [])
    (successors : tracked.phase = .exhausted →
      (otherReader.successors tracked.id world.service.description).entries =
        (reader.successors tracked.id world.service.description).entries) :
    Matches Outcome.Alike result otherResult ∧ SameFor tracked.id later otherLater := by
  have comes := visits.comesTo pauses
  have otherComes := others.comesTo (settings.symm ▸ pauses)
  rw [Tracked.id_of_tokenless same] at otherComes
  rcases Phase.of_tokenless (Tracked.phase_of_tokenless same) with
    ⟨token, otherToken, reading, otherReading⟩ | ⟨equal, unread⟩
  · rw [reading] at comes
    rw [otherReading] at otherComes
    exact comes.reading_alike otherComes settings script
  · rw [equal] at otherComes
    cases phase : tracked.phase with
    | reading token => exact absurd phase (unread token)
    | waiting position =>
        rw [phase] at comes otherComes
        exact comes.waiting_alike otherComes settings script
    | exhausted =>
        rw [phase] at comes otherComes
        exact comes.exhausted_alike otherComes script described unscripted otherUnscripted
          (successors phase)
    | done =>
        rw [phase] at comes otherComes
        obtain ⟨rfl, rfl⟩ := comes
        obtain ⟨rfl, rfl⟩ := otherComes
        exact ⟨.value (.refl _), script⟩

end Visits

end ShardedStream
