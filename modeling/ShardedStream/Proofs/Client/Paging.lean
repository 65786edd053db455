import Mathlib.Data.List.Chain
import Mathlib.Data.List.Forall2
import ShardedStream.Client.Endpoint

/-!
Pages of a description.
A listing is a sweep over pages: every page but the first is asked for by the token of the page
before it, as soon as that has come. It comes to the shards of its pages when the last of them has
no token; it fails with the page that failed; or a page comes too late for its caller.
-/

namespace ShardedStream

/-- A listed shard is this one. A first number that is left out reads as empty, and without a last
number the shard is open. -/
structure ShardAnswer.Gives (answer : ShardAnswer) (shard : Shard) : Prop where
  id : shard.id = answer.id
  parent : shard.parent = answer.parent
  between : ∀ range, answer.range = some range →
    shard.startSequence = range.first.getD "" ∧ shard.endSequence = range.last
  unbounded : answer.range = none → shard.startSequence = "" ∧ shard.endSequence = none

theorem ShardAnswer.gives_iff {answer : ShardAnswer} {shard : Shard} :
    answer.Gives shard ↔ shard = answer.shard := by
  obtain ⟨id, parent, range⟩ := answer
  constructor
  · rintro ⟨rfl, rfl, between, unbounded⟩
    obtain ⟨_, _, first, last⟩ := shard
    cases range with
    | none =>
        obtain ⟨rfl, rfl⟩ := unbounded rfl
        rfl
    | some range =>
        obtain ⟨rfl, rfl⟩ := between range rfl
        rfl
  · rintro rfl
    cases range with
    | none => exact ⟨rfl, rfl, nofun, fun _ => ⟨rfl, rfl⟩⟩
    | some range =>
        refine ⟨rfl, rfl, fun other same => ?_, nofun⟩
        obtain rfl : range = other := Option.some.inj same
        exact ⟨rfl, rfl⟩

/-- Every listed shard is converted on its own. -/
theorem ShardAnswer.forall₂_gives_iff {answers : List ShardAnswer} {shards : List Shard} :
    List.Forall₂ Gives answers shards ↔ shards = answers.map shard := by
  induction answers generalizing shards with
  | nil => simp
  | cons answer answers inductionHypothesis =>
      cases shards with
      | nil => simp
      | cons shard shards =>
          rw [List.forall₂_cons, inductionHypothesis, gives_iff, List.map_cons, List.cons.injEq]

/-- The service asked to slow down. -/
def SendFailure.IsThrottled (failure : SendFailure) : Prop :=
  ∃ code detail, failure = .rejected (some code) detail ∧
    code ∈ ["ProvisionedThroughputExceededException", "LimitExceededException",
      "KMSThrottlingException", "ThrottlingException"]

/-- A failure is tried again when the service asked to slow down. -/
theorem SendFailure.isThrottled_iff {failure : SendFailure} :
    failure.fault.isThrottling = true ↔ failure.IsThrottled := by
  cases failure with
  | timedOut detail => simp [fault, Fault.isThrottling, IsThrottled]
  | undelivered detail => simp [fault, Fault.isThrottling, IsThrottled]
  | rejected code detail =>
      cases code with
      | none => simp [fault, Fault.ofCode, Fault.isThrottling, IsThrottled]
      | some code =>
          have asks : IsThrottled (.rejected (some code) detail) ↔ code ∈ Fault.throttlingCodes := by
            simp [IsThrottled, Fault.throttlingCodes]
          rw [asks, fault, Fault.ofCode]
          by_cases slow : code ∈ Fault.throttlingCodes
          · have other : code ≠ "ExpiredIteratorException" := by
              rintro rfl
              simp [Fault.throttlingCodes] at slow
            rw [if_neg other, if_pos slow]
            exact iff_of_true rfl slow
          · rw [if_neg slow]
            refine iff_of_false (fun throttling => ?_) slow
            repeat' split at throttling
            all_goals cases throttling

/-- One request for a page, when it was sent, and what came of it. -/
structure Fetch where
  time : Nat
  request : Sending
  response : Sent PageAnswer

namespace Fetch

def arrival (fetch : Fetch) : Nat := fetch.time + fetch.response.duration

/-- The next page is asked for when this one has come, and if it has come in time. The request
carries the token of this page, which is not empty, and nothing else. -/
structure Continues (cutoff : Nat) (fetch next : Fetch) : Prop where
  token : ∃ page token, fetch.response.result = .ok page ∧ page.next = some token ∧ token ≠ "" ∧
    next.request = .listShards none (some token)
  inTime : fetch.arrival ≤ cutoff
  atOnce : next.time = fetch.arrival

end Fetch

/-- Pages are fetched one after the other from a first request on. -/
structure Sweeps (first : Sending) (start cutoff : Nat) (fetches : List Fetch) : Prop where
  first : ∃ response rest, fetches = ⟨start, first, response⟩ :: rest
  continues : fetches.IsChain (Fetch.Continues cutoff)

/-- A sweep came in time to a page without a token, and these are the shards of all its pages. -/
structure Completes (first : Sending) (start cutoff : Nat) (fetches : List Fetch)
    (shards : List Shard) : Prop extends Sweeps first start cutoff fetches where
  pages : ∃ earlier last,
    fetches.map (fun fetch => fetch.response.result) = (earlier ++ [last]).map .ok ∧
    (last.next = none ∨ last.next = some "") ∧
    List.Forall₂ ShardAnswer.Gives
      ((earlier ++ [last]).flatMap fun page => page.shards.getD []) shards
  inTime : ∃ fetch, fetches.getLast? = some fetch ∧ fetch.arrival ≤ cutoff

/-- A sweep came in time to a failure. -/
structure BreaksOff (first : Sending) (start cutoff : Nat) (fetches : List Fetch)
    (failure : SendFailure) : Prop extends Sweeps first start cutoff fetches where
  last : ∃ fetch, fetches.getLast? = some fetch ∧ fetch.response.result = .error failure ∧
    fetch.arrival ≤ cutoff

/-- What would have come next in a sweep came too late. -/
structure CutShort (first : Sending) (start cutoff : Nat) (fetches : List Fetch) : Prop
    extends Sweeps first start cutoff fetches where
  last : ∃ fetch, fetches.getLast? = some fetch ∧ cutoff < fetch.arrival

section Sweeps

variable {first : Sending} {start cutoff : Nat} {fetches : List Fetch} {shards : List Shard}
  {failure : SendFailure}

/-- A sweep that completes has met no failure. -/
theorem Completes.not_breaksOff (completes : Completes first start cutoff fetches shards) :
    ¬ BreaksOff first start cutoff fetches failure := by
  rintro ⟨-, fetch, found, failed, -⟩
  obtain ⟨earlier, last, pages, -, -⟩ := completes.pages
  have came : fetch.response.result ∈ (earlier ++ [last]).map Except.ok :=
    pages ▸ List.mem_map_of_mem (List.mem_of_getLast? found)
  obtain ⟨page, -, brought⟩ := List.mem_map.mp came
  cases brought.trans failed

theorem CutShort.not_completes (cut : CutShort first start cutoff fetches) :
    ¬ Completes first start cutoff fetches shards := by
  intro completes
  obtain ⟨last, found, late⟩ := cut.last
  obtain ⟨other, same, early⟩ := completes.inTime
  cases found.symm.trans same
  exact Nat.not_lt_of_le early late

theorem CutShort.not_breaksOff (cut : CutShort first start cutoff fetches) :
    ¬ BreaksOff first start cutoff fetches failure := by
  rintro ⟨-, other, same, -, early⟩
  obtain ⟨last, found, late⟩ := cut.last
  cases found.symm.trans same
  exact Nat.not_lt_of_le early late

/-- A sweep breaks off with one failure. -/
theorem BreaksOff.failure_eq {other : SendFailure}
    (breaksOff : BreaksOff first start cutoff fetches failure)
    (also : BreaksOff first start cutoff fetches other) : failure = other := by
  obtain ⟨-, fetch, found, failed, -⟩ := breaksOff
  obtain ⟨-, fetchAlso, foundAlso, failedAlso, -⟩ := also
  cases found.symm.trans foundAlso
  cases failed.symm.trans failedAlso
  rfl

/-- The shards of a sweep are told by its pages. -/
theorem Completes.shards_eq {others : List Shard}
    (completes : Completes first start cutoff fetches shards)
    (also : Completes first start cutoff fetches others) : shards = others := by
  obtain ⟨earlier, last, pages, -, given⟩ := completes.pages
  obtain ⟨earlierAlso, lastAlso, pagesAlso, -, givenAlso⟩ := also.pages
  have same := List.map_injective_iff.mpr (fun _ _ => Except.ok.inj) (pages.symm.trans pagesAlso)
  rw [ShardAnswer.forall₂_gives_iff.mp given, ShardAnswer.forall₂_gives_iff.mp givenAlso, same]

variable (fetch : Fetch) {page : PageAnswer} {token : String}

theorem Sweeps.single : Sweeps fetch.request fetch.time cutoff [fetch] :=
  ⟨⟨fetch.response, [], rfl⟩, .singleton _⟩

/-- A page without a token completes a sweep. -/
theorem Completes.single (brings : fetch.response.result = .ok page)
    (last : page.next = none ∨ page.next = some "") (early : fetch.arrival ≤ cutoff) :
    Completes fetch.request fetch.time cutoff [fetch] (page.listed.map ShardAnswer.shard) where
  toSweeps := .single fetch
  pages := ⟨[], page, by simp [brings], last, by
    simpa [PageAnswer.listed] using ShardAnswer.forall₂_gives_iff.mpr rfl⟩
  inTime := ⟨fetch, rfl, early⟩

/-- A page with a token goes before the sweep that asks with the token. -/
theorem Sweeps.cons (brings : fetch.response.result = .ok page)
    (carries : page.next = some token) (proper : token ≠ "") (early : fetch.arrival ≤ cutoff)
    (sweeps : Sweeps (.listShards none (some token)) fetch.arrival cutoff fetches) :
    Sweeps fetch.request fetch.time cutoff (fetch :: fetches) := by
  obtain ⟨⟨response, rest, rfl⟩, continues⟩ := sweeps
  refine ⟨⟨fetch.response, _, rfl⟩, .cons_cons ⟨?_, early, rfl⟩ continues⟩
  exact ⟨page, token, brings, carries, proper, rfl⟩

theorem Completes.cons (brings : fetch.response.result = .ok page)
    (carries : page.next = some token) (proper : token ≠ "") (early : fetch.arrival ≤ cutoff)
    (completes :
      Completes (.listShards none (some token)) fetch.arrival cutoff fetches shards) :
    Completes fetch.request fetch.time cutoff (fetch :: fetches)
      (page.listed.map ShardAnswer.shard ++ shards) := by
  obtain ⟨earlier, last, pages, ends, given⟩ := completes.pages
  obtain ⟨final, found, inTime⟩ := completes.inTime
  refine ⟨.cons fetch brings carries proper early completes.toSweeps,
    ⟨page :: earlier, last, by simp [brings, pages], ends, ?_⟩,
    final, by rw [List.getLast?_cons, found]; rfl, inTime⟩
  rw [ShardAnswer.forall₂_gives_iff] at given ⊢
  rw [given, List.cons_append, List.flatMap_cons, List.map_append]
  rfl

theorem BreaksOff.cons (brings : fetch.response.result = .ok page)
    (carries : page.next = some token) (proper : token ≠ "") (early : fetch.arrival ≤ cutoff)
    (breaksOff :
      BreaksOff (.listShards none (some token)) fetch.arrival cutoff fetches failure) :
    BreaksOff fetch.request fetch.time cutoff (fetch :: fetches) failure := by
  obtain ⟨last, found, fails, inTime⟩ := breaksOff.last
  exact ⟨.cons fetch brings carries proper early breaksOff.toSweeps, last,
    by rw [List.getLast?_cons, found]; rfl, fails, inTime⟩

theorem CutShort.cons (brings : fetch.response.result = .ok page)
    (carries : page.next = some token) (proper : token ≠ "") (early : fetch.arrival ≤ cutoff)
    (cut : CutShort (.listShards none (some token)) fetch.arrival cutoff fetches) :
    CutShort fetch.request fetch.time cutoff (fetch :: fetches) := by
  obtain ⟨last, found, late⟩ := cut.last
  exact ⟨.cons fetch brings carries proper early cut.toSweeps, last,
    by rw [List.getLast?_cons, found]; rfl, late⟩

end Sweeps

/-- The responses are taken in order; without one left a request does not get through. -/
structure TakesPages (responses : List (Sent PageAnswer)) (fetches : List Fetch)
    (left : List (Sent PageAnswer)) : Prop where
  taken : ∀ (place : Nat) (fetch : Fetch), fetches[place]? = some fetch →
    fetch.response = responses[place]?.getD ⟨.error (.undelivered "no response"), 0⟩
  left : left = responses.drop fetches.length

namespace TakesPages

variable {responses between left : List (Sent PageAnswer)} {fetches rest : List Fetch}

theorem nothing (responses : List (Sent PageAnswer)) : TakesPages responses [] responses :=
  ⟨by simp, rfl⟩

theorem cons (takes : TakesPages responses fetches left) (time : Nat) (request : Sending)
    (response : Sent PageAnswer) :
    TakesPages (response :: responses) (⟨time, request, response⟩ :: fetches) left := by
  refine ⟨fun place fetch found => ?_, takes.left⟩
  cases place with
  | zero =>
      cases found
      rfl
  | succ place => exact takes.taken place fetch found

/-- What is drawn afterwards goes on with the responses that are left. -/
theorem append (takes : TakesPages responses fetches between)
    (next : TakesPages between rest left) :
    TakesPages responses (fetches ++ rest) left := by
  refine ⟨fun place fetch found => ?_, ?_⟩
  · rw [List.getElem?_append] at found
    split at found
    · exact takes.taken place fetch found
    · rename_i reached
      rw [next.taken _ fetch found, takes.left, List.getElem?_drop,
        Nat.add_sub_cancel' (Nat.le_of_not_lt reached)]
  · rw [next.left, takes.left, List.drop_drop, List.length_append]

end TakesPages

namespace PageAnswer

variable {page : PageAnswer}

/-- The last page carries no token, or an empty one. -/
theorem following?_eq_none_iff :
    page.following? = none ↔ page.next = none ∨ page.next = some "" := by
  obtain ⟨shards, next⟩ := page
  cases next with
  | none => simp [following?]
  | some token => simp [following?]

theorem following?_eq_some_iff {token : String} :
    page.following? = some token ↔ page.next = some token ∧ token ≠ "" := by
  simp only [following?, Option.filter_eq_some_iff, Bool.not_eq_true', String.isEmpty_eq_false_iff,
    ne_eq]

end PageAnswer

namespace Listing

/-- A listing that goes on from the shards that it has found comes to this. -/
inductive Comes (first : Sending) (start cutoff : Nat) (found : List Shard) (fetches : List Fetch)
    (listing : Listing) : Prop where
  | whole {shards : List Shard} (completes : Completes first start cutoff fetches shards)
      (said : listing.result = .ok (found ++ shards)) (early : listing.stop ≤ cutoff)
  | failed {failure : SendFailure} (breaksOff : BreaksOff first start cutoff fetches failure)
      (said : listing.result = .error failure.fault) (early : listing.stop ≤ cutoff)
  | late (cut : CutShort first start cutoff fetches) (tardy : cutoff < listing.stop)

/-- A listing that ends with a page, or with a failure, comes to it unless that is too late. -/
theorem comes_of_last {cutoff : Nat} {found : List Shard} {listing : Listing} (fetch : Fetch)
    (stop : listing.stop = fetch.arrival)
    (early : fetch.arrival ≤ cutoff →
      Comes fetch.request fetch.time cutoff found [fetch] listing) :
    Comes fetch.request fetch.time cutoff found [fetch] listing := by
  by_cases inTime : fetch.arrival ≤ cutoff
  · exact early inTime
  · have late := Nat.lt_of_not_le inTime
    exact .late ⟨.single fetch, fetch, rfl, late⟩ (stop ▸ late)

/-- A page with a token goes before whatever the rest of a listing comes to. -/
theorem Comes.cons {cutoff : Nat} {found : List Shard} {fetches : List Fetch} {rest : Listing}
    (fetch : Fetch) {page : PageAnswer} {token : String}
    (brings : fetch.response.result = .ok page) (carries : page.next = some token)
    (proper : token ≠ "") (early : fetch.arrival ≤ cutoff) (sent : List (Nat × Sending))
    (comes : Comes (.listShards none (some token)) fetch.arrival cutoff
      (found ++ page.listed.map ShardAnswer.shard) fetches rest) :
    Comes fetch.request fetch.time cutoff found (fetch :: fetches) { rest with sent } := by
  cases comes with
  | whole completes said inTime =>
      exact .whole (.cons fetch brings carries proper early completes)
        (said.trans (by rw [List.append_assoc])) inTime
  | failed breaksOff said inTime =>
      exact .failed (.cons fetch brings carries proper early breaksOff) said inTime
  | late cut tardy => exact .late (.cons fetch brings carries proper early cut) tardy

/-- Every listing is a sweep over the pages that it has asked for. -/
theorem ofPages_comes (cutoff : Nat) (stream : String) (responses : List (Sent PageAnswer))
    (token : Option String) (now : Nat) (found : List Shard) :
    let listing := ofPages (fun instant => instant ≤ cutoff) stream responses token now found
    ∃ fetches, TakesPages responses fetches listing.left ∧
      listing.sent = fetches.map (fun fetch => (fetch.time, fetch.request)) ∧
      now ≤ listing.stop ∧
      Comes (.page stream token) now cutoff found fetches listing := by
  induction responses generalizing token now found with
  | nil =>
      let fetch : Fetch := ⟨now, .page stream token, ⟨.error (.undelivered "no response"), 0⟩⟩
      refine ⟨[fetch], ⟨fun place other there => ?_, rfl⟩, rfl, Nat.le_refl now, ?_⟩
      · obtain ⟨-, rfl⟩ : place = 0 ∧ fetch = other := by
          simpa [List.getElem?_singleton] using there
        rfl
      · exact comes_of_last fetch rfl fun early =>
          .failed ⟨.single fetch, fetch, rfl, rfl, early⟩ rfl early
  | cons response left inductionHypothesis =>
      let fetch : Fetch := ⟨now, .page stream token, response⟩
      have alone : TakesPages (response :: left) [fetch] left :=
        .cons (.nothing left) now (.page stream token) response
      have onward : now ≤ fetch.arrival := Nat.le_add_right now response.duration
      cases read : response.result with
      | error failure =>
          simp only [ofPages, read]
          refine ⟨[fetch], alone, rfl, onward, comes_of_last fetch rfl fun early => ?_⟩
          exact .failed ⟨.single fetch, fetch, rfl, read, early⟩ rfl early
      | ok page =>
          cases follows : page.following? with
          | none =>
              have ends := PageAnswer.following?_eq_none_iff.mp follows
              simp only [ofPages, read, follows]
              refine ⟨[fetch], alone, rfl, onward, comes_of_last fetch rfl fun early => ?_⟩
              exact .whole (.single fetch read ends early) rfl early
          | some next =>
              obtain ⟨carries, proper⟩ := PageAnswer.following?_eq_some_iff.mp follows
              simp only [ofPages, read, follows]
              by_cases early : now + response.duration ≤ cutoff
              · rw [if_pos (decide_eq_true early)]
                obtain ⟨fetches, takes, sent, later, comes⟩ := inductionHypothesis (some next)
                  fetch.arrival (found ++ page.listed.map ShardAnswer.shard)
                exact ⟨fetch :: fetches, takes.cons _ _ _, congrArg _ sent, onward.trans later,
                  comes.cons fetch read carries proper early _⟩
              · rw [if_neg (by simpa using early)]
                exact ⟨[fetch], alone, rfl, onward,
                  comes_of_last fetch rfl fun inTime => absurd inTime early⟩

end Listing

end ShardedStream
