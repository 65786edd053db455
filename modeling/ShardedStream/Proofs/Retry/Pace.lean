import ShardedStream.Proofs.Retry.Course
import ShardedStream.Proofs.World.Attempts

/-!
The attempts of a course.
An operation answers them in turn, each one follows a pause after a throttled one, and none is left
uncounted. The signal has no part in this: it decides only whether the course goes on.
-/

namespace ShardedStream

variable {σ α : Type}

/-- The operation has answered these attempts, each from the state that the one before has left. -/
inductive Answers (operation : Operation σ α) (timer : Nat) : σ → List (Attempt α) → σ → Prop where
  | nil (state : σ) : Answers operation timer state [] state
  | cons (start : Nat) {state last : σ} {later : List (Attempt α)}
      (rest : Answers operation timer (operation start state).2 later last) :
      Answers operation timer state ((operation start state).1.attempt timer start :: later) last

/-- An attempt follows another one when that was throttled, and when the pause after it, which left
time for one more, is over. -/
structure RetryPlan.Follows (plan : RetryPlan) (deadline count : Nat)
    (attempt next : Attempt α) : Prop where
  pauses : attempt.Pauses deadline
  more : plan.TriesAgain deadline count attempt
  start : next.start = plan.wakeAfter deadline count attempt

variable {operation : Operation σ α}

/-- Every attempt is over when the timer is, and one without an answer is over just then. -/
theorem Answers.stop {timer : Nat} {state last : σ} {made : List (Attempt α)}
    (answers : Answers operation timer state made last) {attempt : Attempt α}
    (member : attempt ∈ made) :
    attempt.stop ≤ timer ∧ (attempt.result = none → attempt.stop = timer) := by
  induction answers with
  | nil _ => cases member
  | cons start rest inductionHypothesis =>
      rcases List.mem_cons.mp member with rfl | later
      · exact ⟨Reply.attempt_stop_le _, Reply.attempt_stop_eq _⟩
      · exact inductionHypothesis later

namespace Course

variable {plan : RetryPlan} {signal : Signal} {deadline count now : Nat} {state : σ}
  {retried : Retried σ α}

/-- The operation has answered the attempts of the course. -/
theorem answers (course : Course plan signal operation deadline count now state retried) :
    Answers operation (timerOf deadline) state retried.made retried.state := by
  induction course with
  | uncounted _ => exact .nil _
  | stopped _ _ => exact .nil _
  | ended _ _ _ asked _ =>
      subst asked
      exact .cons _ (.nil _)
  | again _ _ _ asked _ _ _ _ inductionHypothesis =>
      subst asked
      exact .cons _ inductionHypothesis

/-- The course has an outcome, and its caller still waits. -/
theorem waits (course : Course plan signal operation deadline count now state retried) :
    retried.outcome.isSome = true ∧ retried.clock.limit = none := by
  induction course with
  | uncounted _ => exact ⟨rfl, rfl⟩
  | stopped _ _ => exact ⟨rfl, rfl⟩
  | ended _ _ _ _ _ => exact ⟨rfl, rfl⟩
  | again _ _ _ _ _ _ _ _ inductionHypothesis => exact inductionHypothesis

/-- The course begins with its first attempt. -/
theorem start_eq (course : Course plan signal operation deadline count now state retried)
    {first : Attempt α} {later : List (Attempt α)} (split : retried.made = first :: later) :
    first.start = now := by
  cases course with
  | uncounted _ => cases split
  | stopped _ _ => cases split
  | ended _ _ _ asked _ =>
      obtain ⟨rfl, _⟩ := List.cons.inj split
      exact asked ▸ Reply.attempt_start _ _ _
  | again _ _ _ asked _ _ _ _ =>
      obtain ⟨rfl, _⟩ := List.cons.inj split
      exact asked ▸ Reply.attempt_start _ _ _

/-- Every attempt of the course has been counted. -/
theorem counted (course : Course plan signal operation deadline count now state retried) :
    retried.attempts = count + retried.made.length := by
  induction course with
  | uncounted _ => rfl
  | stopped _ _ => rfl
  | ended _ _ _ _ _ => rfl
  | again _ _ _ _ _ _ _ _ inductionHypothesis =>
      rw [inductionHypothesis, List.length_cons]
      omega

/-- Every attempt of the course but the first follows the one before it. -/
theorem follows (course : Course plan signal operation deadline count now state retried)
    {earlier later : List (Attempt α)} {attempt next : Attempt α}
    (split : retried.made = earlier ++ attempt :: next :: later) :
    plan.Follows deadline (count + earlier.length + 1) attempt next := by
  induction course generalizing earlier with
  | uncounted _ => simp [Retried.stop] at split
  | stopped _ _ => simp [Retried.stop] at split
  | ended _ _ _ _ _ => cases nothing_after_only split
  | @again count _ _ _ _ _ _ _ _ pauses _ more rest inductionHypothesis =>
      cases earlier with
      | nil =>
          obtain ⟨rfl, after⟩ := List.cons.inj split
          exact ⟨pauses, more, rest.start_eq after⟩
      | cons first earlier =>
          have follows := inductionHypothesis (List.cons.inj split).2
          rwa [Nat.add_right_comm count 1] at follows

/-- No attempt of the course starts while the signal is up. -/
theorem quiet (course : Course plan signal operation deadline count now state retried)
    {attempt : Attempt α} (member : attempt ∈ retried.made) :
    signal.raisedAt attempt.start = false := by
  induction course with
  | uncounted _ => cases member
  | stopped _ _ => cases member
  | ended _ _ quiet asked _ =>
      obtain rfl := List.mem_singleton.mp member
      rwa [asked, Reply.attempt_start]
  | again _ _ quiet asked _ _ _ _ inductionHypothesis =>
      rcases List.mem_cons.mp member with rfl | later
      · rwa [asked, Reply.attempt_start]
      · exact inductionHypothesis later

end Course

/-- A retried operation whose caller waits follows a course. -/
theorem retry_course (plan : RetryPlan) (signal : Signal) (operation : Operation σ α)
    (attempts : Nat) {clock : Clock} (patient : clock.limit = none) (state : σ) :
    Course plan signal operation (clock.now * Duration.nanosPerMilli + plan.budget.nanos) attempts
      clock.now state (retry plan signal operation attempts clock state) := by
  obtain ⟨now, limit⟩ := clock
  simp only at patient
  subst patient
  refine retryUntil_course plan signal operation _ rfl ?_ state
  simp only [timerOf, Duration.ceilMillis, Duration.nanosPerMilli]
  omega

end ShardedStream
