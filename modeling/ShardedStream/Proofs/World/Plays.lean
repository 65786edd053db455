import ShardedStream.Proofs.World.Calling
import ShardedStream.Proofs.World.Conversation

/-!
Dialogues as calls.
The operations that a dialogue puts on record are calls of its service, each made in the state that
the one before has left. An operation with an answer has it from its last call.
-/

namespace ShardedStream

variable {σ α : Type}

/-- What an attempt has come to is the reply that it heard. -/
theorem Attempt.Hears.result_eq {cutoff : Nat} {attempt : Attempt α} {reply : Reply α}
    (hears : attempt.Hears cutoff reply) {result : Except Fault α}
    (came : attempt.result = some result) : reply.result = result := by
  rw [hears] at came
  split at came
  · exact Option.some.inj came
  · cases came

/-- The last attempt is a call in the state that the others have left. -/
theorem Operation.Makes.last {operation : Operation σ α} {cutoff : Nat} {state later : σ}
    {attempts : List (Attempt α)} {attempt : Attempt α}
    (makes : operation.Makes cutoff state (attempts ++ [attempt]) later) :
    ∃ between, operation.Makes cutoff state attempts between ∧
      attempt.Hears cutoff (operation attempt.start between).1 := by
  induction attempts generalizing state with
  | nil =>
      cases makes with
      | call heard _ => exact ⟨state, .nothing state, heard⟩
  | cons first attempts inductionHypothesis =>
      cases makes with
      | call heard rest =>
          obtain ⟨between, earlier, last⟩ := inductionHypothesis rest
          exact ⟨between, .call heard earlier, last⟩

/-- An operation that succeeds has the answer of its last call. -/
theorem Operation.Makes.answered {operation : Operation σ α} {cutoff : Nat} {state later : σ}
    {attempts : List (Attempt α)} {value : α}
    (makes : operation.Makes cutoff state attempts later)
    (tries : Tries attempts (some (.ok value))) :
    ∃ before attempt between, attempts = before ++ [attempt] ∧
      operation.Makes cutoff state before between ∧
      (operation attempt.start between).1.result = .ok value := by
  obtain ⟨attempt, last, came⟩ := Option.bind_eq_some_iff.mp (tries.ok_iff.mp rfl)
  obtain ⟨before, rfl⟩ := List.getLast?_eq_some_iff.mp last
  obtain ⟨between, earlier, hears⟩ := makes.last
  exact ⟨before, attempt, between, rfl, earlier, hears.result_eq came⟩

/-- These operations lead a service from one state to another, one after the other. -/
inductive Service.Plays (service : Service σ) : σ → List Exchange → σ → Prop where
  | nothing (state : σ) : service.Plays state [] state
  | operation {state between later : σ} {exchange : Exchange} {exchanges : List Exchange}
      {cutoff : Nat}
      (makes :
        Operation.Makes (service.call exchange.request) cutoff state exchange.attempts between)
      (rest : service.Plays between exchanges later) :
      service.Plays state (exchange :: exchanges) later

theorem Service.Plays.append {service : Service σ} {state between later : σ}
    {exchanges others : List Exchange} (first : service.Plays state exchanges between)
    (second : service.Plays between others later) :
    service.Plays state (exchanges ++ others) later := by
  induction first with
  | nothing state => exact second
  | operation makes _ inductionHypothesis => exact .operation makes (inductionHypothesis second)

namespace World

/-- Everything that a dialogue puts on record is called, and nothing else is. -/
theorem converse_plays (service : Service σ) (plan : Nat → RetryPlan) (dialogue : Dialogue α)
    (world : World σ) :
    ∃ made, (world.converse service plan dialogue).2.exchanges = world.exchanges ++ made ∧
      service.Plays world.service made (world.converse service plan dialogue).2.service ∧
      Conversation dialogue made (world.converse service plan dialogue).1 := by
  obtain ⟨made, exchanges, conversation⟩ := converse_conversation service plan dialogue world
  refine ⟨made, exchanges, ?_, conversation⟩
  have plays : ∃ played,
      (world.converse service plan dialogue).2.exchanges = world.exchanges ++ played ∧
        service.Plays world.service played (world.converse service plan dialogue).2.service :=
    converse_relates
      (fun before after => ∃ played, after.exchanges = before.exchanges ++ played ∧
        service.Plays before.service played after.service)
      (fun world => ⟨[], (List.append_nil _).symm, .nothing _⟩)
      (fun ⟨first, firstRecorded, firstPlays⟩ ⟨second, secondRecorded, secondPlays⟩ =>
        ⟨first ++ second, by rw [secondRecorded, firstRecorded, List.append_assoc],
          firstPlays.append secondPlays⟩)
      (fun world report => ⟨[], by rw [report_exchanges, List.append_nil], by
        rw [report_service]
        exact .nothing _⟩)
      (fun world request => by
        obtain ⟨-, became, -, -, recorded⟩ := settle_retried service plan request world
        have makes := retry_makes (plan world.calls.length) world.signal (service.call request) 0
          world.clock world.service
        rw [← became] at makes
        exact ⟨_, recorded, .operation makes (.nothing _)⟩)
      dialogue world
  obtain ⟨played, recorded, plays⟩ := plays
  -- Both tell of the same record.
  rw [exchanges] at recorded
  rwa [List.append_cancel_left recorded]

end World
end ShardedStream
