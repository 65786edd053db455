import ShardedStream.Proofs.Retry.Course
import ShardedStream.Proofs.World.Attempts

/-!
Attempts as calls.
The attempts of an operation are the calls of its service, each made in the state that the one
before has left. All of them are waited for up to the same instant, so a reply is heard exactly when
it comes by then.
-/

namespace ShardedStream

variable {σ α : Type}

/-- The attempt got this reply if that came by the cutoff, and nothing otherwise. -/
def Attempt.Hears (cutoff : Nat) (attempt : Attempt α) (reply : Reply α) : Prop :=
  attempt.result =
    if attempt.start + reply.latency ≤ cutoff then some reply.result else none

/-- These attempts are calls of the operation, one after the other. -/
inductive Operation.Makes (operation : Operation σ α) (cutoff : Nat) :
    σ → List (Attempt α) → σ → Prop where
  | nothing (state : σ) : operation.Makes cutoff state [] state
  | call {state later : σ} {attempt : Attempt α} {attempts : List (Attempt α)}
      (heard : attempt.Hears cutoff (operation attempt.start state).1)
      (rest : operation.Makes cutoff (operation attempt.start state).2 attempts later) :
      operation.Makes cutoff state (attempt :: attempts) later

/-- A reply is heard up to the timer, and as long as the caller has patience. -/
theorem awaitReply_hears (timer : Nat) (clock : Clock) (reply : Reply α) :
    (awaitReply timer clock reply).attempt.Hears (clock.cutoff timer) reply := by
  change (if (clock.wait (Nat.min (clock.now + reply.latency) timer)).1 &&
      decide (clock.now + reply.latency ≤ timer) then some reply.result else none) =
    if clock.now + reply.latency ≤ clock.cutoff timer then some reply.result else none
  by_cases early : clock.now + reply.latency ≤ timer
  · have first : Nat.min (clock.now + reply.latency) timer = clock.now + reply.latency :=
      Nat.min_eq_left early
    have heard := clock.wait_iff (Nat.le_add_right clock.now reply.latency) early
    rw [first, decide_eq_true early, Bool.and_true]
    by_cases within : clock.now + reply.latency ≤ clock.cutoff timer
    · rw [if_pos within, heard.mpr within, if_pos rfl]
    · rw [if_neg within, Bool.eq_false_iff.mpr (within ∘ heard.mp), if_neg Bool.false_ne_true]
  · have late : ¬ clock.now + reply.latency ≤ clock.cutoff timer :=
      fun within => early (within.trans (clock.cutoff_le timer))
    rw [if_neg late, decide_eq_false early, Bool.and_false, if_neg Bool.false_ne_true]

/-- A pause makes no call, and it does not move the cutoff. -/
theorem pauseThen_makes {operation : Operation σ α} {state : σ} (plan : RetryPlan)
    (signal : Signal) {remaining pause : Duration} (attempts : Nat) {clock : Clock}
    {timer : Nat} {again : Clock → Retried σ α}
    (next : ∀ wake, wake.cutoff timer = clock.cutoff timer →
      operation.Makes (clock.cutoff timer) state (again wake).made (again wake).state) :
    let paused := pauseThen plan signal remaining pause attempts clock state again
    operation.Makes (clock.cutoff timer) state paused.made paused.state := by
  intro paused
  simp only [paused, pauseThen]
  split
  · exact .nothing state
  · split
    · exact .nothing state
    · split
      · exact .nothing state
      · exact next _ (clock.cutoff_wait _ timer)

/-- The attempts of a retried operation are its calls. -/
theorem retryUntil_makes (plan : RetryPlan) (signal : Signal) (deadline : Nat)
    (operation : Operation σ α) (fuel attempts : Nat) (clock : Clock) (state : σ) :
    operation.Makes (clock.cutoff (timerOf deadline)) state
      (retryUntil plan signal deadline operation fuel attempts clock state).made
      (retryUntil plan signal deadline operation fuel attempts clock state).state := by
  induction fuel generalizing attempts clock state with
  | zero => exact .nothing state
  | succ fuel inductionHypothesis =>
      simp only [retryUntil]
      by_cases raised : signal.raisedAt clock.now
      · rw [if_pos raised]
        exact .nothing state
      · rw [if_neg raised]
        have heard := awaitReply_hears (timerOf deadline) clock (operation clock.now state).1
        have woken : (awaitReply (timerOf deadline) clock
            (operation clock.now state).1).clock.cutoff (timerOf deadline) =
              clock.cutoff (timerOf deadline) := clock.cutoff_wait _ _
        refine .call heard ?_
        simp only [Retried.after, afterAttempt]
        change operation.Makes _ (operation clock.now state).2 _ _
        split
        · exact .nothing _
        · simp only [afterFault]
          split
          · exact .nothing _
          · split
            · exact .nothing _
            · rw [← woken]
              refine pauseThen_makes plan signal _ fun wake same => ?_
              rw [← same]
              exact inductionHypothesis _ wake _
        · exact .nothing _

/-- So are those of an operation with its whole budget. -/
theorem retry_makes (plan : RetryPlan) (signal : Signal) (operation : Operation σ α)
    (attempts : Nat) (clock : Clock) (state : σ) :
    operation.Makes (plan.cutoff clock) state
      (retry plan signal operation attempts clock state).made
      (retry plan signal operation attempts clock state).state :=
  retryUntil_makes plan signal _ operation _ attempts clock state

end ShardedStream
