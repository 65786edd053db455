import ShardedStream.Proofs.Retry.Signal
import ShardedStream.Retry

/-!
The course of a retried operation.
While its caller waits, everything that can follow an attempt is one of six ends or another
attempt after a pause. The course of an operation puts these steps together; what an operation keeps
to is proved along its course.
-/

namespace ShardedStream

variable {σ α : Type}

/-- A deadline in nanoseconds, rounded up to a millisecond: its timer ends then. -/
def timerOf (deadline : Nat) : Nat := (Duration.mk deadline).ceilMillis

/-- The attempt has its answer when that comes by the timer, and else is cut off by the timer. -/
def Reply.attempt (reply : Reply α) (timer start : Nat) : Attempt α :=
  if start + reply.latency ≤ timer then ⟨start, start + reply.latency, some reply.result⟩
  else ⟨start, timer, none⟩

namespace Attempt

/-- The attempt failed, and it did so for throttling. -/
def IsThrottled (attempt : Attempt α) : Prop :=
  ∃ fault, attempt.result = some (.error fault) ∧ fault.isThrottling = true

variable {attempt : Attempt α}

/-- A success is no throttling. -/
theorem not_isThrottled_of_ok {value : α} (said : attempt.result = some (.ok value)) :
    ¬ attempt.IsThrottled := by
  rintro ⟨fault, failed, _⟩
  rw [said] at failed
  cases failed

/-- Neither is an attempt without an answer. -/
theorem not_isThrottled_of_hung (hung : attempt.result = none) : ¬ attempt.IsThrottled := by
  rintro ⟨fault, failed, _⟩
  rw [hung] at failed
  cases failed

/-- A failure is throttling when its fault says so. -/
theorem isThrottled_iff {fault : Fault} (said : attempt.result = some (.error fault)) :
    attempt.IsThrottled ↔ fault.isThrottling = true := by
  refine ⟨fun ⟨other, failed, throttling⟩ => ?_, fun throttling => ⟨fault, said, throttling⟩⟩
  rw [said] at failed
  cases failed
  exact throttling

/-- What is left of the budget after the attempt. -/
def remaining (attempt : Attempt α) (deadline : Nat) : Duration :=
  ⟨deadline - attempt.stop * Duration.nanosPerMilli⟩

/-- The attempt was throttled before the deadline, so a pause follows. -/
structure Pauses (attempt : Attempt α) (deadline : Nat) : Prop where
  throttled : attempt.IsThrottled
  early : attempt.stop * Duration.nanosPerMilli < deadline

end Attempt

namespace RetryPlan

/-- The pause after an attempt, with that attempt counted. -/
def pauseAfter (plan : RetryPlan) (deadline count : Nat) (attempt : Attempt α) : Duration :=
  plan.pause count (attempt.remaining deadline)

/-- The pause after an attempt ends here. -/
def wakeAfter (plan : RetryPlan) (deadline count : Nat) (attempt : Attempt α) : Nat :=
  attempt.stop + (plan.pauseAfter deadline count attempt).ceilMillis

/-- The pause after an attempt leaves time for another one. -/
def TriesAgain (plan : RetryPlan) (deadline count : Nat) (attempt : Attempt α) : Prop :=
  (plan.pauseAfter deadline count attempt).nanos < (attempt.remaining deadline).nanos

end RetryPlan

/-- An operation ends after this attempt, with an outcome and at an instant. -/
inductive Ends (plan : RetryPlan) (signal : Signal) (deadline count : Nat)
    (attempt : Attempt α) : Except RetryFailure α → Nat → Prop where
  | answered {value : α} (said : attempt.result = some (.ok value)) :
      Ends plan signal deadline count attempt (.ok value) attempt.stop
  | refused {fault : Fault} (said : attempt.result = some (.error fault))
      (final : fault.isThrottling = false) :
      Ends plan signal deadline count attempt (.error (.fatal fault)) attempt.stop
  | cutOff (hung : attempt.result = none) :
      Ends plan signal deadline count attempt (.error (.exhausted plan.budget)) attempt.stop
  | late (throttled : attempt.IsThrottled)
      (late : deadline ≤ attempt.stop * Duration.nanosPerMilli) :
      Ends plan signal deadline count attempt (.error (.exhausted plan.budget)) attempt.stop
  | interrupted {instant : Nat} (pauses : attempt.Pauses deadline)
      (raised : signal.firstRaised attempt.stop (plan.wakeAfter deadline count attempt) =
        some instant) :
      Ends plan signal deadline count attempt (.error .interrupted) instant
  | spent (pauses : attempt.Pauses deadline)
      (quiet : signal.firstRaised attempt.stop (plan.wakeAfter deadline count attempt) = none)
      (all : ¬ plan.TriesAgain deadline count attempt) :
      Ends plan signal deadline count attempt (.error (.exhausted plan.budget))
        (plan.wakeAfter deadline count attempt)

/--
This is what becomes of an operation that starts its next attempt at an instant, with so many
attempts counted before it. The notices on the way are left open.
-/
inductive Course (plan : RetryPlan) (signal : Signal) (operation : Operation σ α)
    (deadline : Nat) : Nat → Nat → σ → Retried σ α → Prop where
  | uncounted {count now : Nat} {state : σ} (full : attemptLimit ≤ count) :
      Course plan signal operation deadline count now state
        (.stop (some (.error (.exhausted plan.budget))) count ⟨now, none⟩ state)
  | stopped {count now : Nat} {state : σ} (room : count < attemptLimit)
      (raised : signal.raisedAt now = true) :
      Course plan signal operation deadline count now state
        (.stop (some (.error .interrupted)) count ⟨now, none⟩ state)
  | ended {count now finish : Nat} {state : σ} {attempt : Attempt α}
      {outcome : Except RetryFailure α} (notices : List Notice) (room : count < attemptLimit)
      (quiet : signal.raisedAt now = false)
      (asked : attempt = (operation now state).1.attempt (timerOf deadline) now)
      (ends : Ends plan signal deadline (count + 1) attempt outcome finish) :
      Course plan signal operation deadline count now state
        ⟨some outcome, count + 1, [attempt], notices, ⟨finish, none⟩, (operation now state).2⟩
  | again {count now : Nat} {state : σ} {attempt : Attempt α} {later : Retried σ α}
      (notices : List Notice) (room : count < attemptLimit)
      (quiet : signal.raisedAt now = false)
      (asked : attempt = (operation now state).1.attempt (timerOf deadline) now)
      (pauses : attempt.Pauses deadline)
      (quietPause : signal.firstRaised attempt.stop
        (plan.wakeAfter deadline (count + 1) attempt) = none)
      (more : plan.TriesAgain deadline (count + 1) attempt)
      (rest : Course plan signal operation deadline (count + 1)
        (plan.wakeAfter deadline (count + 1) attempt) (operation now state).2 later) :
      Course plan signal operation deadline count now state
        { later with made := attempt :: later.made, notices := notices }

theorem Reply.attempt_start (reply : Reply α) (timer start : Nat) :
    (reply.attempt timer start).start = start := by
  unfold Reply.attempt
  split <;> rfl

/-- An attempt is over when the timer is. -/
theorem Reply.attempt_stop_le (reply : Reply α) {timer start : Nat} :
    (reply.attempt timer start).stop ≤ timer := by
  unfold Reply.attempt
  split
  · assumption
  · exact le_rfl

/-- An attempt without an answer lasts until the timer. -/
theorem Reply.attempt_stop_eq (reply : Reply α) {timer start : Nat}
    (hung : (reply.attempt timer start).result = none) :
    (reply.attempt timer start).stop = timer := by
  unfold Reply.attempt at hung ⊢
  split at hung
  · cases hung
  · rename_i late
    rw [if_neg late]

/-- A caller who waits gets the attempt that the reply makes. -/
theorem awaitReply_patient (reply : Reply α) {timer now : Nat} (early : now ≤ timer) :
    awaitReply timer ⟨now, none⟩ reply =
      ⟨reply.attempt timer now, true, ⟨(reply.attempt timer now).stop, none⟩⟩ := by
  have reached : Nat.max now (Nat.min (now + reply.latency) timer) =
      Nat.min (now + reply.latency) timer :=
    Nat.max_eq_right (Nat.le_min.mpr ⟨Nat.le_add_right _ _, early⟩)
  simp only [awaitReply, Clock.wait_patient ⟨now, none⟩ _ rfl, reached, Bool.true_and,
    decide_eq_true_eq, Reply.attempt]
  by_cases inTime : now + reply.latency ≤ timer
  · rw [if_pos inTime, if_pos inTime,
      show Nat.min (now + reply.latency) timer = now + reply.latency from Nat.min_eq_left inTime]
  · rw [if_neg inTime, if_neg inTime, show Nat.min (now + reply.latency) timer = timer from
      Nat.min_eq_right (Nat.le_of_not_le inTime)]

/-- A pause that leaves time ends no later than the timer. -/
theorem RetryPlan.wakeAfter_le (plan : RetryPlan) {deadline : Nat} (count : Nat)
    {attempt : Attempt α} (pauses : attempt.Pauses deadline) :
    plan.wakeAfter deadline count attempt ≤ timerOf deadline := by
  have early := pauses.early
  have short : (plan.pauseAfter deadline count attempt).nanos ≤
      deadline - attempt.stop * Duration.nanosPerMilli := Nat.min_le_right _ _
  simp only [wakeAfter, timerOf, Duration.ceilMillis, Duration.nanosPerMilli] at early short ⊢
  omega

/-- A pause that takes all the remaining time ends with the timer. -/
theorem RetryPlan.wakeAfter_eq (plan : RetryPlan) {deadline count : Nat} {attempt : Attempt α}
    (pauses : attempt.Pauses deadline) (all : ¬ plan.TriesAgain deadline count attempt) :
    plan.wakeAfter deadline count attempt = timerOf deadline := by
  have early := pauses.early
  have whole : (plan.pauseAfter deadline count attempt).nanos =
      deadline - attempt.stop * Duration.nanosPerMilli :=
    Nat.le_antisymm (Nat.min_le_right _ _) (Nat.le_of_not_lt all)
  simp only [wakeAfter, timerOf, Duration.ceilMillis, Duration.nanosPerMilli] at early whole ⊢
  omega

section AfterAttempt

variable {plan : RetryPlan} {signal : Signal} {operation : Operation σ α}
  {deadline count now : Nat} {state : σ} {attempt : Attempt α} {again : Clock → Retried σ α}
  (room : count < attemptLimit) (quiet : signal.raisedAt now = false)
  (asked : attempt = (operation now state).1.attempt (timerOf deadline) now)
  (next : ∀ wake, wake ≤ timerOf deadline →
    Course plan signal operation deadline (count + 1) wake (operation now state).2
      (again ⟨wake, none⟩))

include room quiet asked next

/-- A pause follows the course of its operation, whatever comes after it. -/
theorem pauseThen_course (pauses : attempt.Pauses deadline) (notice : Notice) :
    Course plan signal operation deadline count now state
      (((pauseThen plan signal (attempt.remaining deadline)
        (plan.pauseAfter deadline (count + 1) attempt) (count + 1) ⟨attempt.stop, none⟩
          (operation now state).2 again).announce notice).after attempt) := by
  have wakes : attempt.stop + (plan.pauseAfter deadline (count + 1) attempt).ceilMillis =
      plan.wakeAfter deadline (count + 1) attempt := rfl
  unfold pauseThen
  simp only [wakes]
  cases heard : signal.firstRaised attempt.stop
      (plan.wakeAfter deadline (count + 1) attempt) with
  | some instant =>
      have after := (signal.raised_of_firstRaised_eq_some heard).2.1
      simp only [Clock.wait_patient ⟨attempt.stop, none⟩ instant rfl, if_true,
        show Nat.max attempt.stop instant = instant from Nat.max_eq_right after]
      exact .ended [notice] room quiet asked (.interrupted pauses heard)
  | none =>
      have woken : Nat.max attempt.stop (plan.wakeAfter deadline (count + 1) attempt) =
          plan.wakeAfter deadline (count + 1) attempt :=
        Nat.max_eq_right (Nat.le_add_right _ _)
      simp only [Clock.wait_patient ⟨attempt.stop, none⟩ _ rfl, woken, Bool.not_true,
        Bool.false_eq_true, if_false]
      by_cases all : (attempt.remaining deadline).nanos ≤
          (plan.pauseAfter deadline (count + 1) attempt).nanos
      · rw [if_pos all]
        exact .ended [notice] room quiet asked (.spent pauses heard (Nat.not_lt_of_le all))
      · rw [if_neg all]
        have rest := next _ (plan.wakeAfter_le (count + 1) pauses)
        have course := fun notices => Course.again notices room quiet asked pauses heard
          (Nat.lt_of_not_le all) rest
        exact course _

/-- So does a failed attempt. -/
theorem afterFault_course {fault : Fault} (said : attempt.result = some (.error fault)) :
    Course plan signal operation deadline count now state
      ((afterFault plan signal deadline fault (count + 1) ⟨attempt.stop, none⟩
        (operation now state).2 again).after attempt) := by
  unfold afterFault
  dsimp only
  cases throttling : fault.isThrottling with
  | false => exact .ended [] room quiet asked (.refused said throttling)
  | true =>
      have throttled := (Attempt.isThrottled_iff said).mpr throttling
      rw [Bool.not_true, if_neg Bool.false_ne_true]
      by_cases late : deadline ≤ attempt.stop * Duration.nanosPerMilli
      · rw [if_pos late]
        exact .ended [] room quiet asked (.late throttled late)
      · rw [if_neg late]
        exact pauseThen_course room quiet asked next ⟨throttled, Nat.lt_of_not_le late⟩ _

/-- So does every attempt. -/
theorem afterAttempt_course :
    Course plan signal operation deadline count now state
      ((afterAttempt plan signal deadline (count + 1) ⟨attempt, true, ⟨attempt.stop, none⟩⟩
        (operation now state).2 again).after attempt) := by
  unfold afterAttempt
  dsimp only
  cases said : attempt.result with
  | none => exact .ended [] room quiet asked (.cutOff said)
  | some result =>
      cases result with
      | ok value => exact .ended [] room quiet asked (.answered said)
      | error fault => exact afterFault_course room quiet asked next said

end AfterAttempt

/-- A retried operation follows its course. -/
theorem retryUntil_course (plan : RetryPlan) (signal : Signal) (operation : Operation σ α)
    (deadline : Nat) {fuel count : Nat} (fueled : fuel = attemptLimit - count) {now : Nat}
    (early : now ≤ timerOf deadline) (state : σ) :
    Course plan signal operation deadline count now state
      (retryUntil plan signal deadline operation fuel count ⟨now, none⟩ state) := by
  induction fuel generalizing count now state with
  | zero => exact .uncounted (by omega)
  | succ fuel inductionHypothesis =>
      have room : count < attemptLimit := by omega
      rw [retryUntil]
      cases quiet : signal.raisedAt now with
      | true =>
          rw [if_pos rfl]
          exact .stopped room quiet
      | false =>
          rw [if_neg Bool.false_ne_true]
          dsimp only
          change Course plan signal operation deadline count now state (Retried.after
            (afterAttempt _ _ _ _ (awaitReply (timerOf deadline) ⟨now, none⟩ _) _ _)
            (awaitReply (timerOf deadline) ⟨now, none⟩ _).attempt)
          rw [awaitReply_patient _ early]
          have less : fuel = attemptLimit - (count + 1) := by omega
          exact afterAttempt_course room quiet rfl fun wake due =>
            inductionHypothesis less due _

end ShardedStream
