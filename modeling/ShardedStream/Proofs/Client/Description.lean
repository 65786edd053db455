import ShardedStream.Proofs.Client.Paging
import ShardedStream.Proofs.Retry.Budget
import ShardedStream.Proofs.World.Calling

/-!
Descriptions over a client library.
Every attempt at a description is one sweep over its pages, from the first one on. What a question
for the shards comes to is the last sweep alone, and only when that has come in time to a page
without a token.
-/

namespace ShardedStream

/-- The endpoint takes its responses for pages in order, and keeps a record of the requests. -/
structure Endpoint.Serves (endpoint : Endpoint) (fetches : List Fetch) (later : Endpoint) :
    Prop where
  takes : TakesPages endpoint.pages fetches later.pages
  sent : later.sent = endpoint.sent ++ fetches.map fun fetch => (fetch.time, fetch.request)
  iterators : later.iterators = endpoint.iterators
  batches : later.batches = endpoint.batches

namespace Endpoint.Serves

variable {endpoint between later : Endpoint} {fetches rest : List Fetch}

theorem nothing (endpoint : Endpoint) : endpoint.Serves [] endpoint :=
  ⟨.nothing _, (List.append_nil _).symm, rfl, rfl⟩

theorem append (serves : endpoint.Serves fetches between) (next : between.Serves rest later) :
    endpoint.Serves (fetches ++ rest) later where
  takes := serves.takes.append next.takes
  sent := by rw [next.sent, serves.sent, List.map_append, List.append_assoc]
  iterators := next.iterators.trans serves.iterators
  batches := next.batches.trans serves.batches

end Endpoint.Serves

/-- One attempt at a description, and the pages that it fetched. -/
structure Sweep where
  attempt : Attempt (List Shard)
  fetches : List Fetch

namespace Sweep

/-- The attempt heard what its sweep has come to, unless that was too late. -/
inductive Tells (first : Sending) (cutoff : Nat) (sweep : Sweep) : Prop where
  | whole {shards : List Shard}
      (completes : Completes first sweep.attempt.start cutoff sweep.fetches shards)
      (heard : sweep.attempt.result = some (.ok shards))
  | failed {failure : SendFailure}
      (breaksOff : BreaksOff first sweep.attempt.start cutoff sweep.fetches failure)
      (heard : sweep.attempt.result = some (.error failure.fault))
  | late (cut : CutShort first sweep.attempt.start cutoff sweep.fetches)
      (unheard : sweep.attempt.result = none)

variable {first : Sending} {cutoff : Nat} {sweep : Sweep} {failure : SendFailure}

/-- An attempt has the shards of its sweep when that completes. -/
theorem Tells.ok_iff (tells : sweep.Tells first cutoff) {shards : List Shard} :
    sweep.attempt.result = some (.ok shards) ↔
      Completes first sweep.attempt.start cutoff sweep.fetches shards := by
  cases tells with
  | whole completes heard =>
      rw [heard]
      refine ⟨fun same => ?_, fun also => ?_⟩
      · cases same
        exact completes
      · rw [completes.shards_eq also]
  | failed breaksOff heard =>
      rw [heard]
      exact ⟨nofun, fun also => (also.not_breaksOff breaksOff).elim⟩
  | late cut unheard =>
      rw [unheard]
      exact ⟨nofun, fun also => (cut.not_completes also).elim⟩

/-- An attempt has the failure of its sweep when that breaks off. -/
theorem Tells.error_of_breaksOff (tells : sweep.Tells first cutoff)
    (breaksOff : BreaksOff first sweep.attempt.start cutoff sweep.fetches failure) :
    sweep.attempt.result = some (.error failure.fault) := by
  cases tells with
  | whole completes heard => exact (completes.not_breaksOff breaksOff).elim
  | failed also heard => rw [heard, also.failure_eq breaksOff]
  | late cut unheard => exact (cut.not_breaksOff breaksOff).elim

/-- An attempt that failed has the failure that broke off its sweep. -/
theorem Tells.breaksOff (tells : sweep.Tells first cutoff) {fault : Fault}
    (failed : sweep.attempt.result = some (.error fault)) :
    ∃ failure, failure.fault = fault ∧
      BreaksOff first sweep.attempt.start cutoff sweep.fetches failure := by
  cases tells with
  | whole completes heard => cases heard.symm.trans failed
  | failed breaksOff heard =>
      cases heard.symm.trans failed
      exact ⟨_, rfl, breaksOff⟩
  | late cut unheard => cases unheard.symm.trans failed

/-- An attempt has heard nothing of a sweep that was cut short. -/
theorem Tells.none_of_cutShort (tells : sweep.Tells first cutoff)
    (cut : CutShort first sweep.attempt.start cutoff sweep.fetches) :
    sweep.attempt.result = none := by
  cases tells with
  | whole completes heard => exact (cut.not_completes completes).elim
  | failed breaksOff heard => exact (cut.not_breaksOff breaksOff).elim
  | late also unheard => exact unheard

end Sweep

/-- An attempt at a description is one sweep, which starts from the first page. -/
theorem Endpoint.listShards_sweep (cutoff : Nat) (stream : String) (endpoint : Endpoint)
    {attempt : Attempt (List Shard)}
    (heard : attempt.Hears cutoff (endpoint.listShards (fun instant => instant ≤ cutoff) stream
      attempt.start).1) :
    ∃ fetches, Sweep.Tells (.listShards (some stream) none) cutoff ⟨attempt, fetches⟩ ∧
      endpoint.Serves fetches (endpoint.listShards (fun instant => instant ≤ cutoff) stream
        attempt.start).2 := by
  obtain ⟨fetches, takes, sent, later, comes⟩ :=
    Listing.ofPages_comes cutoff stream endpoint.pages none attempt.start []
  refine ⟨fetches, ?_, takes, congrArg _ sent, rfl, rfl⟩
  simp only [Attempt.Hears, listShards, Nat.add_sub_cancel' later] at heard
  cases comes with
  | whole completes said early =>
      rw [if_pos early, said] at heard
      exact .whole completes heard
  | failed breaksOff said early =>
      rw [if_pos early, said] at heard
      exact .failed breaksOff heard
  | late cut tardy =>
      rw [if_neg (Nat.not_le_of_lt tardy)] at heard
      exact .late cut heard

/-- Attempts at a description are sweeps, one after the other. -/
theorem Operation.Makes.sweeps {stream : String} {cutoff : Nat} {endpoint later : Endpoint}
    {attempts : List (Attempt (List Shard))}
    (makes : Operation.Makes
      ((Endpoint.service fun instant => instant ≤ cutoff).call (.listShards stream)) cutoff endpoint
      attempts later) :
    ∃ sweeps : List Sweep, attempts = sweeps.map Sweep.attempt ∧
      (∀ sweep ∈ sweeps, sweep.Tells (.listShards (some stream) none) cutoff) ∧
      endpoint.Serves (sweeps.flatMap Sweep.fetches) later := by
  induction makes with
  | nothing endpoint => exact ⟨[], rfl, nofun, .nothing endpoint⟩
  | @call endpoint later attempt attempts heard rest inductionHypothesis =>
      obtain ⟨sweeps, rfl, tells, served⟩ := inductionHypothesis
      obtain ⟨fetches, told, serves⟩ := endpoint.listShards_sweep cutoff stream heard
      exact ⟨⟨attempt, fetches⟩ :: sweeps, rfl, List.forall_mem_cons.mpr ⟨told, tells⟩,
        serves.append served⟩

/-- A question for the shards is answered with what its operation got, and with nothing else. -/
theorem Request.settle_listShards_eq {stream : String}
    {outcome : Except RetryFailure (List Shard)} {shards : List Shard} :
    Request.settle (.listShards stream) outcome = .ok (some shards) ↔ outcome = .ok shards := by
  cases outcome with
  | ok answer => simp [settle]
  | error failure =>
      cases failure with
      | exhausted budget => simp [settle]
      | interrupted => simp [settle]
      | fatal fault => cases missing : fault.isNotFound <;> simp [settle, missing]

/--
This is how an endpoint describes a stream to a caller that waits up to the cutoff: by whole sweeps,
each from the first page on, of which only the last one counts.
-/
structure DescribedBy (first : Sending) (cutoff : Nat) (sweeps : List Sweep)
    (outcome : Option (Except RetryFailure (List Shard))) : Prop where
  /-- A sweep reads pages up to the last one, up to a failure, or up to the cutoff. -/
  swept : ∀ sweep ∈ sweeps, sweep.Tells first cutoff
  /-- The shards are those of the last sweep, if that completed, and of no other. -/
  answered : ∀ shards, outcome = some (.ok shards) ↔ ∃ sweep, sweeps.getLast? = some sweep ∧
    Completes first sweep.attempt.start cutoff sweep.fetches shards
  /-- Only a throttled page is followed by another sweep. -/
  retried : ∀ earlier sweep next later, sweeps = earlier ++ sweep :: next :: later →
    ∃ failure, BreaksOff first sweep.attempt.start cutoff sweep.fetches failure ∧
      failure.IsThrottled
  /-- When no other sweep follows a throttled page, there is no answer. -/
  ceased : ∀ sweep failure, sweeps.getLast? = some sweep →
    BreaksOff first sweep.attempt.start cutoff sweep.fetches failure → failure.IsThrottled →
      Unanswered outcome
  /-- Any other failure is the last thing, and it is the outcome. -/
  refused : ∀ earlier sweep later failure, sweeps = earlier ++ sweep :: later →
    BreaksOff first sweep.attempt.start cutoff sweep.fetches failure → ¬ failure.IsThrottled →
      later = [] ∧ outcome = some (.error (.fatal failure.fault))
  /-- So is a page that comes too late, and then there is no answer. -/
  cut : ∀ earlier sweep later, sweeps = earlier ++ sweep :: later →
    CutShort first sweep.attempt.start cutoff sweep.fetches → later = [] ∧ Unanswered outcome

namespace DescribedBy

variable {first : Sending} {cutoff : Nat} {sweeps : List Sweep}
  {outcome : Option (Except RetryFailure (List Shard))}

/-- The last attempt belongs to the last sweep. -/
theorem lastResult?_eq (sweeps : List Sweep) :
    lastResult? (sweeps.map Sweep.attempt) = sweeps.getLast?.bind (Attempt.result ·.attempt) := by
  rw [lastResult?, List.getLast?_map, Option.bind_map]
  rfl

/-- A sweep that another one follows has met a throttled page. -/
theorem throttled_of_tries (tells : ∀ sweep ∈ sweeps, sweep.Tells first cutoff)
    (tries : Tries (sweeps.map Sweep.attempt) outcome) {earlier later : List Sweep} {sweep : Sweep}
    (split : sweeps = earlier ++ sweep :: later) :
    later = [] ∨ ∃ failure,
      BreaksOff first sweep.attempt.start cutoff sweep.fetches failure ∧ failure.IsThrottled := by
  subst split
  rcases tries.ended_or_throttled (by rw [List.map_append, List.map_cons]) with
    ended | ⟨fault, failed, throttling⟩
  · exact .inl (List.map_eq_nil_iff.mp ended)
  · obtain ⟨failure, rfl, breaksOff⟩ := (tells sweep (by simp)).breaksOff failed
    exact .inr ⟨failure, breaksOff, SendFailure.isThrottled_iff.mp throttling⟩

/-- A sweep that has met no throttled page is the last one, and its attempt the last attempt. -/
theorem last_of_tries (tells : ∀ sweep ∈ sweeps, sweep.Tells first cutoff)
    (tries : Tries (sweeps.map Sweep.attempt) outcome) {earlier later : List Sweep} {sweep : Sweep}
    (split : sweeps = earlier ++ sweep :: later)
    (final : ∀ failure, BreaksOff first sweep.attempt.start cutoff sweep.fetches failure →
      ¬ failure.IsThrottled) :
    later = [] ∧ lastResult? (sweeps.map Sweep.attempt) = sweep.attempt.result := by
  have ended : later = [] := by
    refine (throttled_of_tries tells tries split).resolve_right ?_
    rintro ⟨failure, breaksOff, throttled⟩
    exact final failure breaksOff throttled
  refine ⟨ended, ?_⟩
  rw [lastResult?_eq, split, ended, List.getLast?_concat]
  rfl

/-- Without shards and without a final failure there is no answer. -/
theorem unanswered_of_tries (tries : Tries (sweeps.map Sweep.attempt) outcome)
    (nothing : ∀ shards, lastResult? (sweeps.map Sweep.attempt) ≠ some (.ok shards))
    (passing : ∀ fault, lastResult? (sweeps.map Sweep.attempt) = some (.error fault) →
      fault.isThrottling = true) : Unanswered outcome := by
  match outcome with
  | none => trivial
  | some (.error (.exhausted _)) => trivial
  | some (.error .interrupted) => trivial
  | some (.ok shards) => exact (nothing shards (tries.ok_iff.mp rfl)).elim
  | some (.error (.fatal fault)) =>
      obtain ⟨failed, final⟩ := tries.fatal_iff.mp rfl
      rw [passing fault failed] at final
      cases final

/-- Attempts that come to an outcome describe a stream when every one of them is a sweep. -/
theorem of_tries (tells : ∀ sweep ∈ sweeps, sweep.Tells first cutoff)
    (tries : Tries (sweeps.map Sweep.attempt) outcome) :
    DescribedBy first cutoff sweeps outcome where
  swept := tells
  answered shards := by
    rw [tries.ok_iff, lastResult?_eq, Option.bind_eq_some_iff]
    refine exists_congr fun sweep => and_congr_right fun last => ?_
    exact (tells sweep (List.mem_of_getLast? last)).ok_iff
  retried earlier sweep next later split :=
    (throttled_of_tries tells tries split).resolve_left (List.cons_ne_nil _ _)
  ceased sweep failure last breaksOff throttled := by
    have result : lastResult? (sweeps.map Sweep.attempt) = some (.error failure.fault) := by
      rw [lastResult?_eq, last]
      exact (tells sweep (List.mem_of_getLast? last)).error_of_breaksOff breaksOff
    refine unanswered_of_tries tries (fun shards came => ?_) fun fault failed => ?_
    · cases came.symm.trans result
    · cases failed.symm.trans result
      exact SendFailure.isThrottled_iff.mpr throttled
  refused earlier sweep later failure split breaksOff final := by
    obtain ⟨ended, last⟩ := last_of_tries tells tries split fun other also =>
      also.failure_eq breaksOff ▸ final
    refine ⟨ended, tries.fatal_iff.mpr ⟨?_, ?_⟩⟩
    · exact last.trans ((tells sweep (by simp [split])).error_of_breaksOff breaksOff)
    · exact Bool.eq_false_iff.mpr fun throttling => final (SendFailure.isThrottled_iff.mp throttling)
  cut earlier sweep later split cut := by
    obtain ⟨ended, last⟩ := last_of_tries tells tries split fun failure breaksOff =>
      (cut.not_breaksOff breaksOff).elim
    have result : lastResult? (sweeps.map Sweep.attempt) = none :=
      last.trans ((tells sweep (by simp [split])).none_of_cutShort cut)
    refine ⟨ended, unanswered_of_tries tries (fun shards came => ?_) fun fault failed => ?_⟩
    · cases came.symm.trans result
    · cases failed.symm.trans result

end DescribedBy

/--
A description is one complete sweep of pages. Whatever an endpoint responds and however long it
takes, a question for the shards is settled by sweeps that all start from the first page. It gets
shards exactly when the last sweep has come in time to a page without a token: those of its pages,
in order. Where the caller waits and there is no signal, only lack of time keeps a throttled sweep
from being made again.
-/
theorem Endpoint.description_complete (plan : Nat → RetryPlan) (stream : String)
    (world : World Endpoint) :
    let described := world.inquire plan (.listShards stream)
    let own := plan world.calls.length
    let deadline := world.clock.now * Duration.nanosPerMilli + own.budget.nanos
    ∃ sweeps outcome,
      described.2.exchanges =
        world.exchanges ++ [⟨.listShards stream, sweeps.map Sweep.attempt, outcome⟩] ∧
      world.service.Serves (sweeps.flatMap Sweep.fetches) described.2.service ∧
      DescribedBy (.listShards (some stream) none) (own.cutoff world.clock) sweeps outcome ∧
      (∀ shards, described.1 = some (.ok (some shards)) ↔ outcome = some (.ok shards)) ∧
      (world.clock.limit = none → world.signal = .silent → sweeps.length < attemptLimit →
        Unanswered outcome → ∃ sweep, sweeps.getLast? = some sweep ∧
          own.OutOfTime deadline sweeps.length sweep.attempt) := by
  intro described own deadline
  let service := Endpoint.service fun instant => instant ≤ own.cutoff world.clock
  obtain ⟨settled, became, -, -, recorded⟩ :=
    world.settle_retried service plan (.listShards stream)
  have tries := retryUntil_tries own world.signal deadline
    (service.call (.listShards stream)) (attemptLimit - 0) 0 world.clock world.service
  have makes := retry_makes own world.signal (service.call (.listShards stream)) 0
    world.clock world.service
  obtain ⟨sweeps, attempts, tells, serves⟩ := makes.sweeps
  rw [attempts] at recorded
  refine ⟨sweeps, _, recorded, became ▸ serves, .of_tries tells ?_, fun shards => ?_,
    fun patient silent room unanswered => ?_⟩
  · exact attempts ▸ tries
  · rw [show described.1 = _ from settled, Option.map_eq_some_iff]
    constructor
    · rintro ⟨said, same, answered⟩
      rw [same, Request.settle_listShards_eq.mp answered]
    · intro same
      exact ⟨_, same, rfl⟩
  · have course := retry_course own world.signal (service.call (.listShards stream)) 0
      patient world.service
    have counted := course.counted
    rw [attempts, List.length_map, Nat.zero_add] at counted
    rw [silent] at course counted unanswered attempts
    obtain ⟨last, final, spent⟩ := course.outOfTime (counted ▸ room) unanswered
    rw [attempts, List.getLast?_map] at final
    obtain ⟨sweep, found, rfl⟩ := Option.map_eq_some_iff.mp final
    exact ⟨sweep, found, counted ▸ spent⟩

/-- A shard that has ended, one that follows on it, and a page without a list. The second page comes
after a millisecond. -/
def familyPages : List (Sent PageAnswer) :=
  [⟨.ok ⟨some [⟨"a", none, some ⟨some "100", some "199"⟩⟩], some "more"⟩, 0⟩,
    ⟨.ok ⟨some [⟨"b", some "a", some ⟨some "200", none⟩⟩, ⟨"c", some "a", none⟩], some "rest"⟩, 1⟩,
    ⟨.ok ⟨none, some ""⟩, 0⟩]

/-- An endpoint that is too busy for the second page, and then responds with all of them. -/
def busyListing : World Endpoint :=
  .start ⟨familyPages.take 1 ++ ⟨.error (.rejected (some "LimitExceededException") "slow"), 1⟩ ::
    familyPages, [], [], []⟩ .off

/-- The first page is read twice, and its shard is there once. The second attempt begins after the
pause, and has come to its end when the time is up. -/
theorem Endpoint.busyListing_complete :
    let described := busyListing.inquire (fun _ => hurried) (.listShards "stream")
    let family : List Shard := [⟨"a", none, "100", some "199"⟩, ⟨"b", some "a", "200", none⟩,
      ⟨"c", some "a", "", none⟩]
    hurried.cutoff .start = 3 ∧
      described.2.service.sent = [(0, .listShards (some "stream") none),
        (0, .listShards none (some "more")), (2, .listShards (some "stream") none),
        (2, .listShards none (some "more")), (3, .listShards none (some "rest"))] ∧
      ∃ sweeps outcome, sweeps.length = 2 ∧
        DescribedBy (.listShards (some "stream") none) 3 sweeps outcome ∧
        busyListing.service.Serves (sweeps.flatMap Sweep.fetches) described.2.service ∧
        outcome = some (.ok family) ∧ ∃ last, sweeps.getLast? = some last ∧
          Completes (.listShards (some "stream") none) last.attempt.start 3 last.fetches family := by
  intro described family
  have cutoff : hurried.cutoff .start = 3 := by decide +kernel
  have tried : (described.2.exchanges.map fun exchange => exchange.attempts.length) = [2] := by
    decide +kernel
  have answer : described.1 = some (.ok (some family)) := by decide +kernel
  obtain ⟨sweeps, outcome, recorded, serves, shown, answered, -⟩ :=
    Endpoint.description_complete (fun _ => hurried) "stream" busyListing
  have recordedHere : described.2.exchanges = _ := recorded
  rw [recordedHere] at tried
  have came : outcome = some (.ok family) := (answered family).mp answer
  have within : DescribedBy (.listShards (some "stream") none) 3 sweeps outcome := cutoff ▸ shown
  exact ⟨cutoff, by decide +kernel, sweeps, outcome, by simpa [busyListing, World.start] using tried,
    within, serves, came, (within.answered family).mp came⟩

end ShardedStream
