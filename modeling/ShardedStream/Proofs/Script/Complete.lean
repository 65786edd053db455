import ShardedStream.Proofs.Script.Advance
import ShardedStream.Proofs.Script.Turns

/-!
Scripts that can be read to their end.
The stream is always described alike, whatever else goes wrong can be tried again, and the batches
of every shard come at once and end with one that is not open. A visit to a shard that is not
finished uses up a scripted reply or finishes the shard, and it loses no record.
-/

namespace ShardedStream
namespace Script

/-- Batches come at once, among throttling and void iterators, and only the last one is not open. -/
inductive RunsOut : List (Reply ScriptedBatch) → Prop where
  | closes (records : List Record) (lag : Int) : RunsOut [.now (.ok ⟨records, false, lag⟩)]
  | goesOn (records : List Record) (lag : Int) {rest : List (Reply ScriptedBatch)}
      (runsOut : RunsOut rest) : RunsOut (.now (.ok ⟨records, true, lag⟩) :: rest)
  | throttles (detail : String) {rest : List (Reply ScriptedBatch)} (runsOut : RunsOut rest) :
      RunsOut (.now (.error (.throughputExceeded detail)) :: rest)
  | expires {rest : List (Reply ScriptedBatch)} (runsOut : RunsOut rest) :
      RunsOut (.now (.error .expiredIterator) :: rest)

/-- This is what such a script comes to when it is drawn from. -/
inductive Yields (queue : List (Reply ScriptedBatch)) :
    Except RetryFailure (Option ScriptedBatch) → List (Reply ScriptedBatch) → Prop where
  | last {records : List Record} {lag : Int} (all : recordsIn queue = records)
      (less : 0 < queue.length) : Yields queue (.ok (some ⟨records, false, lag⟩)) []
  | more {records : List Record} {lag : Int} {left : List (Reply ScriptedBatch)}
      (runsOut : RunsOut left) (split : recordsIn queue = records ++ recordsIn left)
      (less : left.length < queue.length) :
      Yields queue (.ok (some ⟨records, true, lag⟩)) left
  | nothing {failure : RetryFailure} {left : List (Reply ScriptedBatch)}
      (harmless : failure = .fatal .expiredIterator ∨ ∃ budget, failure = .exhausted budget)
      (runsOut : RunsOut left) (same : recordsIn queue = recordsIn left)
      (less : left.length < queue.length) : Yields queue (.error failure) left

/-- A reply that brought no records may stand in front. -/
theorem Yields.after_error {fault : Fault} {queue left : List (Reply ScriptedBatch)}
    {outcome : Except RetryFailure (Option ScriptedBatch)} (yields : Yields queue outcome left) :
    Yields (.now (.error fault) :: queue) outcome left := by
  cases yields with
  | last all less => exact .last all (Nat.succ_pos _)
  | more runsOut split less => exact .more runsOut split (Nat.lt_succ_of_lt less)
  | nothing harmless runsOut same less =>
      exact .nothing harmless runsOut same (Nat.lt_succ_of_lt less)

theorem RunsOut.yields {queue left : List (Reply ScriptedBatch)}
    {outcome : Except RetryFailure (Option ScriptedBatch)} (runsOut : RunsOut queue)
    (draws : Draws queue outcome left) : Yields queue outcome left := by
  induction runsOut with
  | closes records lag =>
      cases draws with
      | answered said =>
          cases said
          exact .last (List.append_nil _) (Nat.succ_pos _)
      | refused said _ => cases said
      | late late => exact absurd rfl late
      | spent said _ => cases said
      | again said _ _ => cases said
  | goesOn records lag runsOut _ =>
      cases draws with
      | answered said =>
          cases said
          exact .more runsOut rfl (Nat.lt_succ_self _)
      | refused said _ => cases said
      | late late => exact absurd rfl late
      | spent said _ => cases said
      | again said _ _ => cases said
  | throttles detail runsOut inductionHypothesis =>
      cases draws with
      | answered said => cases said
      | refused said fatal =>
          cases said
          cases fatal
      | late late => exact absurd rfl late
      | spent _ _ => exact .nothing (.inr ⟨_, rfl⟩) runsOut rfl (Nat.lt_succ_self _)
      | again _ _ draws => exact (inductionHypothesis draws).after_error
  | expires runsOut _ =>
      cases draws with
      | answered said => cases said
      | refused said _ =>
          cases said
          exact .nothing (.inl rfl) runsOut rfl (Nat.lt_succ_self _)
      | late late => exact absurd rfl late
      | spent said throttling =>
          cases said
          cases throttling
      | again said throttling _ =>
          cases said
          cases throttling

/-- The stream is always described alike, and whatever fails may be tried again. -/
structure Benign (shards : List Shard) (script : Script) : Prop where
  description : script.description = shards
  described : ∀ reply ∈ script.descriptions, ∀ found, reply.result = .ok found → found = shards
  undescribed : ∀ reply ∈ script.descriptions, ∀ fault, reply.result = .error fault →
    fault.isThrottling = true ∨ fault.isNotFound = true
  unopened : ∀ shard, ∀ reply ∈ script.iterators.getD shard [], ∀ fault,
    reply.result = .error fault → fault.isThrottling = true

/-- A token is named for a shard when it is issued or scripted for it. -/
def Names (script : Script) (shard : ShardId) (token : Token) : Prop :=
  (∃ number, token = tokenText shard number) ∨
    ∃ reply ∈ script.iterators.getD shard [], reply.result = .ok token

/-- Every listed shard can be read to its end, and scripted tokens tell their shards apart. -/
structure Completable (shards : List Shard) (script : Script) : Prop where
  benign : Benign shards script
  runsOut : ∀ shard ∈ shards, RunsOut (script.batches.getD shard.id [])
  apart : ∀ first second token, script.Names first token → script.Names second token →
    first = second

theorem Completable.named {shards : List Shard} {script : Script}
    (completable : Completable shards script) : Named script.Names script where
  issued := fun _ number => .inl ⟨number, rfl⟩
  scripted := fun _ reply member _ said => .inr ⟨reply, member, said⟩
  apart := completable.apart

variable {shards : List Shard} {names : ShardId → Token → Prop} {only : ShardId}
  {before after : Script}

theorem Keeps.benign (keeps : Keeps names only before after) (benign : Benign shards before) :
    Benign shards after where
  description := keeps.description.trans benign.description
  described := fun reply member => benign.described reply (keeps.descriptions.subset member)
  undescribed := fun reply member => benign.undescribed reply (keeps.descriptions.subset member)
  unopened := fun shard reply member =>
    benign.unopened shard reply ((keeps.iterators_suffix shard).subset member)

/-- Nothing is scripted after the last batch, and before it the script runs out. -/
def Leaves (script : Script) (shard : ShardId) (ended : Bool) : Prop :=
  if ended then script.batches.getD shard [] = [] else RunsOut (script.batches.getD shard [])

/-- How many replies are scripted for one shard. -/
def repliesFor (script : Script) (shard : ShardId) : Nat :=
  (script.iterators.getD shard []).length + (script.batches.getD shard []).length

theorem Keeps.repliesFor_le (keeps : Keeps names only before after) (shard : ShardId) :
    after.repliesFor shard ≤ before.repliesFor shard :=
  Nat.add_le_add (keeps.iterators_suffix shard).length_le (keeps.batches_suffix shard).length_le

variable {plan : RetryPlan} {world later : World Script}

/-- The only answer to a description is the list of shards. -/
theorem Describes.answer {stream : String} {answer : Except RetryFailure (List Shard)}
    (describes : Describes plan stream world answer later)
    (benign : Benign shards world.service) :
    answer = .ok shards ∨ later.service.descriptions.length < world.service.descriptions.length ∧
      ((∃ budget, answer = .error (.exhausted budget)) ∨
        ∃ detail, answer = .error (.fatal (.resourceNotFound detail))) := by
  obtain ⟨drawn, outcome, fits⟩ := describes.drawn
  have draws := RetryPlan.draws_of_draw outcome
  cases fits with
  | @value found scripted fit =>
      left
      rw [fit]
      cases scripted with
      | none => exact congrArg _ benign.description
      | some described =>
          obtain ⟨reply, member, said⟩ := draws.answer rfl
          exact congrArg _ (benign.described reply member described said)
  | failure failure =>
      right
      refine ⟨?_, ?_⟩
      · rw [describes.became]
        rcases draws.length_lt with ⟨_, answered⟩ | less
        · cases answered
        · exact less
      · rcases draws.failure rfl with ⟨budget, rfl⟩ | ⟨reply, member, fault, said, fatal, rfl⟩
        · exact .inl ⟨budget, rfl⟩
        · rcases benign.undescribed reply member fault said with throttling | notFound
          · rw [throttling] at fatal
            cases fatal
          · cases fault with
            | resourceNotFound detail => exact .inr ⟨detail, rfl⟩
            | _ => cases notFound

/-- An iterator that is not opened has used up a scripted reply, and it may be tried again. -/
theorem Opens.failure {stream : String} {shard : ShardId} {position : Position}
    {failure : RetryFailure}
    (opens : Opens names plan stream shard position world (.error failure) later)
    (benign : Benign shards world.service) :
    (∃ budget, failure = .exhausted budget) ∧
      (later.service.iterators.getD shard []).length <
        (world.service.iterators.getD shard []).length := by
  obtain ⟨drawn, outcome, fits⟩ := opens.drawn
  have draws := RetryPlan.draws_of_draw outcome
  cases fits with
  | failure _ =>
      constructor
      · rcases draws.failure rfl with exhausted | ⟨reply, member, fault, said, fatal, rfl⟩
        · exact exhausted
        · rw [benign.unopened shard reply member fault said] at fatal
          cases fatal
      · rw [opens.left]
        rcases draws.length_lt with ⟨_, answered⟩ | less
        · cases answered
        · exact less

/-- A read from a script that runs out brings the next records and uses up their reply. -/
theorem Receives.yields {shard : ShardId} {token : Token} {limit : Int} {fresh : Bool}
    {answer : Except RetryFailure Batch}
    (receives : Receives names plan shard token limit world answer later)
    (runsOut : RunsOut (world.service.batches.getD shard [])) :
    ∃ outcome, readResult shard token fresh answer = .ok outcome ∧
      outcome.records ++ recordsIn (later.service.batches.getD shard []) =
        recordsIn (world.service.batches.getD shard []) ∧
      (later.service.batches.getD shard []).length <
        (world.service.batches.getD shard []).length ∧
      (outcome.transition = .exhausted ∧ later.service.batches.getD shard [] = [] ∨
        (∀ resume phase, outcome.transition.phase? resume = some phase → phase.isEnded = false) ∧
          RunsOut (later.service.batches.getD shard [])) := by
  obtain ⟨drawn, outcome, fits⟩ := receives.drawn
  have draws := RetryPlan.draws_of_draw outcome
  have yields := runsOut.yields draws
  rw [← receives.left] at yields
  generalize later.service.batches.getD shard [] = left at yields ⊢
  cases yields with
  | @last records lag all less =>
      cases fits with
      | value completes =>
          cases completes
          exact ⟨_, rfl, (List.append_nil _).trans all.symm, less, .inl ⟨rfl, rfl⟩⟩
  | @more records lag left runsOut split less =>
      cases fits with
      | value completes =>
          cases completes
          refine ⟨_, rfl, split.symm, less, .inr ⟨fun resume phase entered => ?_, runsOut⟩⟩
          cases entered
          rfl
  | @nothing failure left harmless runsOut same less =>
      cases fits with
      | failure _ =>
          rcases harmless with rfl | ⟨budget, rfl⟩
          · refine ⟨_, rfl, same.symm, less, .inr ⟨fun resume phase entered => ?_, runsOut⟩⟩
            cases entered
            rfl
          · refine ⟨_, rfl, same.symm, less, .inr ⟨fun resume phase entered => ?_, runsOut⟩⟩
            cases fresh <;> cases entered
            rfl

end Script
end ShardedStream
