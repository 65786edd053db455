import ShardedStream.Proofs.Retry.Pace
import ShardedStream.Proofs.World.Attempts
import ShardedStream.Proofs.World.Settle

/-!
The operations of a dialogue.
What a dialogue puts on record tells what it comes to: every operation is for the next question, and
its outcome settles that question. A dialogue comes to nothing only when its caller stops waiting.
-/

namespace ShardedStream

variable {σ α : Type}

/-- A dialogue has these operations for its questions, one after the other, and comes to this. -/
inductive Conversation : Dialogue α → List Exchange → Option α → Prop where
  | done (value : α) : Conversation (.done value) [] (some value)
  | tell (report : Report) {next : Dialogue α} {made : List Exchange} {result : Option α}
      (rest : Conversation next made result) : Conversation (.tell report next) made result
  | left {request : Request} (next : Settled request → Dialogue α)
      {attempts : List (Attempt request.Answer)}
      (tried : Exchange.Tried ⟨request, attempts, none⟩) :
      Conversation (.ask request next) [⟨request, attempts, none⟩] none
  | asks {request : Request} {next : Settled request → Dialogue α}
      {attempts : List (Attempt request.Answer)} {outcome : Except RetryFailure request.Answer}
      {made : List Exchange} {result : Option α}
      (tried : Exchange.Tried ⟨request, attempts, some outcome⟩)
      (rest : Conversation (next (request.settle outcome)) made result) :
      Conversation (.ask request next) (⟨request, attempts, some outcome⟩ :: made) result

/-- The first operation is for the first question. -/
theorem Conversation.firstRequest {dialogue : Dialogue α} {made : List Exchange}
    {result : Option α} (conversation : Conversation dialogue made result) :
    made.head?.map Exchange.request = dialogue.firstRequest? := by
  induction conversation with
  | done value => rfl
  | tell report rest inductionHypothesis => exact inductionHypothesis
  | left next tried => rfl
  | asks tried rest inductionHypothesis => rfl

/-- Reports ask nothing, and leave the result to what comes after them. -/
theorem Conversation.reportAll {reports : List Report} {value : α} {made : List Exchange}
    {result : Option α}
    (conversation : Conversation ((Dialogue.reportAll reports).andThen fun _ => .done value) made
      result) : made = [] ∧ result = some value := by
  induction reports with
  | nil =>
      cases conversation
      exact ⟨rfl, rfl⟩
  | cons report reports inductionHypothesis =>
      cases conversation with
      | tell _ rest => exact inductionHypothesis rest

namespace World

/-- A dialogue puts its operations on record, and nothing else. -/
theorem converse_conversation (service : Service σ) (plan : Nat → RetryPlan) (dialogue : Dialogue α)
    (world : World σ) :
    ∃ made, (world.converse service plan dialogue).2.exchanges = world.exchanges ++ made ∧
      Conversation dialogue made (world.converse service plan dialogue).1 := by
  induction dialogue generalizing world with
  | done value => exact ⟨[], (List.append_nil _).symm, .done value⟩
  | tell report next inductionHypothesis =>
      obtain ⟨made, exchanges, conversation⟩ := inductionHypothesis (world.report report)
      rw [report_exchanges] at exchanges
      exact ⟨made, exchanges, .tell report conversation⟩
  | ask request next inductionHypothesis =>
      obtain ⟨attempts, outcome, tried, settled, exchanges⟩ :=
        settle_tried service plan request world
      unfold converse
      generalize world.settle service plan request = asked at settled exchanges
      obtain ⟨answer, between⟩ := asked
      cases settled
      cases outcome with
      | none => exact ⟨_, exchanges, .left next tried⟩
      | some outcome =>
          obtain ⟨made, later, conversation⟩ :=
            inductionHypothesis (request.settle outcome) between
          refine ⟨⟨request, attempts, some outcome⟩ :: made, ?_, .asks tried conversation⟩
          exact later.trans (by rw [exchanges, List.append_assoc]; rfl)

/-- A caller who waits gets every question settled, whenever the signal comes up. -/
theorem settle_answered (service : Service σ) (plan : Nat → RetryPlan) (request : Request)
    {world : World σ} (waits : world.clock.limit = none) :
    (world.settle service plan request).1.isSome = true ∧
      (world.settle service plan request).2.clock.limit = none := by
  obtain ⟨settled, -, clock, -, -⟩ := settle_retried service plan request world
  have course := retry_course (plan world.calls.length) world.signal (service.call request) 0
    waits world.service
  rw [settled, clock, Option.isSome_map]
  exact course.waits

/-- So every dialogue comes to its end. -/
theorem converse_answered (service : Service σ) (plan : Nat → RetryPlan) (dialogue : Dialogue α)
    {world : World σ} (waits : world.clock.limit = none) :
    (world.converse service plan dialogue).1.isSome = true ∧
      (world.converse service plan dialogue).2.clock.limit = none := by
  induction dialogue generalizing world with
  | done value => exact ⟨rfl, waits⟩
  | tell report next inductionHypothesis =>
      rw [← report_clock world report] at waits
      exact inductionHypothesis waits
  | ask request next inductionHypothesis =>
      obtain ⟨answered, waitsLater⟩ := settle_answered service plan request waits
      unfold converse
      generalize world.settle service plan request = asked at answered waitsLater
      obtain ⟨answer, between⟩ := asked
      cases answer with
      | none => cases answered
      | some settled => exact inductionHypothesis settled waitsLater

end World
end ShardedStream
