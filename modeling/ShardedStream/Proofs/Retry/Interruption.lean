import Mathlib.Order.Bounds.Defs
import ShardedStream.Proofs.Retry.Pace

/-!
The signal in a retried operation.
An operation listens to the signal before every attempt and all through the pauses, and it returns
at the first instant at which it hears the signal. While an attempt is under way it does not listen,
and a signal that nobody gives changes nothing.
-/

namespace ShardedStream

variable {σ α : Type}

/--
An operation that has made these attempts, starting at an instant and with so many counted before,
listens to the signal at another instant: that is before an attempt, as long as there is a number
left for it, or in the pause after an attempt that was throttled.
-/
inductive RetryPlan.Listens (plan : RetryPlan) (deadline : Nat) :
    Nat → Nat → List (Attempt α) → Nat → Prop where
  | begins {count start : Nat} {made : List (Attempt α)} (room : count < attemptLimit) :
      Listens plan deadline count start made start
  | pausing {count start instant : Nat} {attempt : Attempt α} {later : List (Attempt α)}
      (pauses : attempt.Pauses deadline) (after : attempt.stop ≤ instant)
      (before : instant = attempt.stop ∨ instant < plan.wakeAfter deadline (count + 1) attempt) :
      Listens plan deadline count start (attempt :: later) instant
  | next {count start instant : Nat} {attempt : Attempt α} {later : List (Attempt α)}
      (pauses : attempt.Pauses deadline) (more : plan.TriesAgain deadline (count + 1) attempt)
      (rest : Listens plan deadline (count + 1) (plan.wakeAfter deadline (count + 1) attempt) later
        instant) :
      Listens plan deadline count start (attempt :: later) instant

/-- These are the instants at which the operation listens while the signal is up. -/
def RetryPlan.heard (plan : RetryPlan) (signal : Signal) (deadline count start : Nat)
    (made : List (Attempt α)) : Set Nat :=
  {instant | plan.Listens deadline count start made instant ∧ signal.raisedAt instant = true}

/--
A retried operation heeds the signal: it started at an instant, with so many attempts counted
before, and it has until a deadline.
-/
structure Retried.HeedsSignal (retried : Retried σ α) (plan : RetryPlan) (signal : Signal)
    (operation : Operation σ α) (deadline attempts start : Nat) (state : σ) : Prop where
  /-- No attempt starts while the signal is up. -/
  quiet : ∀ attempt ∈ retried.made, signal.raisedAt attempt.start = false
  /-- The attempts are the answers of the operation, and only the timer cuts them off. -/
  answered : Answers operation (timerOf deadline) state retried.made retried.state
  /-- The signal neither ends nor prolongs a pause that another attempt follows. -/
  followed : ∀ earlier attempt next later, retried.made = earlier ++ attempt :: next :: later →
    plan.Follows deadline (attempts + earlier.length + 1) attempt next
  /-- A success is returned, whatever the signal has been during the attempt. -/
  ok_iff : ∀ value, retried.outcome = some (.ok value) ↔
    lastResult? retried.made = some (.ok value)
  /-- So is a failure for good. -/
  fatal_iff : ∀ fault, retried.outcome = some (.error (.fatal fault)) ↔
    lastResult? retried.made = some (.error fault) ∧ fault.isThrottling = false
  /-- The operation is interrupted when it hears the signal, and not otherwise. -/
  interrupted_iff : retried.outcome = some (.error .interrupted) ↔
    (plan.heard signal deadline attempts start retried.made).Nonempty
  /-- It returns at the first instant at which it hears the signal. -/
  prompt : retried.outcome = some (.error .interrupted) →
    IsLeast (plan.heard signal deadline attempts start retried.made) retried.clock.now

variable {plan : RetryPlan} {signal : Signal} {deadline count start : Nat}
  {attempt : Attempt α} {later : List (Attempt α)}

namespace RetryPlan

/-- An operation that starts in silence hears the signal in the pause after its first attempt, or
after that pause. -/
theorem mem_heard_cons (quiet : signal.raisedAt start = false) {instant : Nat} :
    instant ∈ plan.heard signal deadline count start (attempt :: later) ↔
      attempt.Pauses deadline ∧
        (signal.raisedAt instant = true ∧ attempt.stop ≤ instant ∧
            (instant = attempt.stop ∨ instant < plan.wakeAfter deadline (count + 1) attempt) ∨
          plan.TriesAgain deadline (count + 1) attempt ∧
            instant ∈ plan.heard signal deadline (count + 1)
              (plan.wakeAfter deadline (count + 1) attempt) later) := by
  constructor
  · rintro ⟨listens, raised⟩
    cases listens with
    | begins _ =>
        rw [quiet] at raised
        cases raised
    | pausing pauses after before => exact ⟨pauses, .inl ⟨raised, after, before⟩⟩
    | next pauses more rest => exact ⟨pauses, .inr ⟨more, rest, raised⟩⟩
  · rintro ⟨pauses, ⟨raised, after, before⟩ | ⟨more, rest, raised⟩⟩
    · exact ⟨.pausing pauses after before, raised⟩
    · exact ⟨.next pauses more rest, raised⟩

/-- Nothing is heard in a pause without a signal. -/
theorem mem_heard_of_quiet (quiet : signal.raisedAt start = false)
    (quietPause : signal.firstRaised attempt.stop (plan.wakeAfter deadline (count + 1) attempt) =
      none) {instant : Nat} :
    instant ∈ plan.heard signal deadline count start (attempt :: later) ↔
      attempt.Pauses deadline ∧ plan.TriesAgain deadline (count + 1) attempt ∧
        instant ∈ plan.heard signal deadline (count + 1)
          (plan.wakeAfter deadline (count + 1) attempt) later := by
  obtain ⟨down, still⟩ := Signal.quiet_of_firstRaised_eq_none quietPause
  rw [mem_heard_cons quiet, or_iff_right]
  rintro ⟨raised, after, rfl | before⟩
  · rw [down] at raised
    cases raised
  · rw [still instant after before] at raised
    cases raised

/-- An operation that has made no attempt can have heard the signal only when it started. -/
theorem mem_heard_nil {instant : Nat} :
    instant ∈ plan.heard signal deadline count start ([] : List (Attempt α)) ↔
      count < attemptLimit ∧ instant = start ∧ signal.raisedAt start = true := by
  constructor
  · rintro ⟨⟨room⟩, raised⟩
    exact ⟨room, rfl, raised⟩
  · rintro ⟨room, rfl, raised⟩
    exact ⟨.begins room, raised⟩

end RetryPlan

/-- Either an outcome is an interruption at the first instant at which the signal was heard, or the
signal was not heard. -/
def Heeds (heard : Set Nat) (outcome : Option (Except RetryFailure α)) (finish : Nat) : Prop :=
  outcome = some (.error .interrupted) ∧ IsLeast heard finish ∨
    outcome ≠ some (.error .interrupted) ∧ ∀ instant, instant ∉ heard

/-- An attempt that ends its operation is followed by the signal when that is heard. -/
theorem Ends.heeds {outcome : Except RetryFailure α} {finish : Nat}
    (ends : Ends plan signal deadline (count + 1) attempt outcome finish)
    (quiet : signal.raisedAt start = false) :
    Heeds (plan.heard signal deadline count start [attempt]) (some outcome) finish := by
  have unheard : ¬ attempt.Pauses deadline →
      ∀ instant, instant ∉ plan.heard signal deadline count start [attempt] := fun silent _ heard =>
    silent ((RetryPlan.mem_heard_cons quiet).mp heard).1
  cases ends with
  | answered said =>
      exact .inr ⟨by simp, unheard fun pauses =>
        Attempt.not_isThrottled_of_ok said pauses.throttled⟩
  | refused said final =>
      refine .inr ⟨by simp, unheard fun pauses => ?_⟩
      have throttling := (Attempt.isThrottled_iff said).mp pauses.throttled
      rw [final] at throttling
      cases throttling
  | cutOff hung =>
      exact .inr ⟨by simp, unheard fun pauses =>
        Attempt.not_isThrottled_of_hung hung pauses.throttled⟩
  | late _ late =>
      exact .inr ⟨by simp, unheard fun pauses => Nat.not_lt_of_le late pauses.early⟩
  | interrupted pauses raised =>
      obtain ⟨up, after, before, down⟩ := Signal.raised_of_firstRaised_eq_some raised
      refine .inl ⟨rfl, (RetryPlan.mem_heard_cons quiet).mpr ⟨pauses, .inl ⟨up, after, before⟩⟩,
        fun instant heard => ?_⟩
      obtain ⟨_, ⟨heardUp, heardAfter, _⟩ | ⟨_, last⟩⟩ := (RetryPlan.mem_heard_cons quiet).mp heard
      · refine Nat.le_of_not_lt fun earlier => ?_
        rw [down instant heardAfter earlier] at heardUp
        cases heardUp
      -- The next attempt would have been due at the end of the pause, and so no earlier.
      · obtain ⟨_, rfl, _⟩ := RetryPlan.mem_heard_nil.mp last
        rcases before with rfl | before
        · exact Nat.le_add_right _ _
        · exact before.le
  | spent _ quietPause all =>
      refine .inr ⟨by simp, fun instant heard => ?_⟩
      exact all ((RetryPlan.mem_heard_of_quiet quiet quietPause).mp heard).2.1

/-- An operation is interrupted when it first hears the signal. -/
theorem Course.heeds {operation : Operation σ α} {now : Nat} {state : σ} {retried : Retried σ α}
    (course : Course plan signal operation deadline count now state retried) :
    Heeds (plan.heard signal deadline count now retried.made) retried.outcome
      retried.clock.now := by
  induction course with
  | uncounted full =>
      refine .inr ⟨by simp [Retried.stop], fun instant heard => ?_⟩
      exact Nat.not_lt_of_le full (RetryPlan.mem_heard_nil.mp heard).1
  | stopped room raised =>
      refine .inl ⟨rfl, RetryPlan.mem_heard_nil.mpr ⟨room, rfl, raised⟩, fun instant heard => ?_⟩
      exact (RetryPlan.mem_heard_nil.mp heard).2.1.ge
  | ended _ _ quiet _ ends => exact ends.heeds quiet
  | @again count now state attempt later _ _ quiet _ pauses quietPause more rest
      inductionHypothesis =>
      have same : plan.heard signal deadline count now (attempt :: later.made) =
          plan.heard signal deadline (count + 1) (plan.wakeAfter deadline (count + 1) attempt)
            later.made := Set.ext fun instant => by
        rw [RetryPlan.mem_heard_of_quiet quiet quietPause, and_iff_right pauses,
          and_iff_right more]
      exact same ▸ inductionHypothesis

/-- A signal that nobody gives is no signal. -/
theorem retryUntil_of_never (plan : RetryPlan) (deadline : Nat) (operation : Operation σ α)
    (never : ∀ entry ∈ signal.schedule, entry.2 ≠ .send true) (fuel : Nat) :
    retryUntil plan signal deadline operation fuel =
      retryUntil plan .silent deadline operation fuel := by
  induction fuel with
  | zero => rfl
  | succ fuel inductionHypothesis =>
      funext attempts clock state
      simp only [retryUntil, afterAttempt, afterFault, pauseThen, inductionHypothesis,
        Signal.raisedAt_of_never never, Signal.firstRaised_of_never never]
      rfl

/--
A retried operation heeds the signal, whatever that does while the operation goes on, and it takes
no notice of a signal that is never put up.
-/
theorem retry_heedsSignal (plan : RetryPlan) (signal : Signal) (operation : Operation σ α)
    (attempts : Nat) {clock : Clock} (patient : clock.limit = none) (state : σ) :
    (retry plan signal operation attempts clock state).HeedsSignal plan signal operation
        (clock.now * Duration.nanosPerMilli + plan.budget.nanos) attempts clock.now state ∧
      ((∀ entry ∈ signal.schedule, entry.2 ≠ .send true) →
        retry plan signal operation attempts clock state =
          retry plan .silent operation attempts clock state) := by
  have course := retry_course plan signal operation attempts patient state
  have tries : Tries (retry plan signal operation attempts clock state).made
      (retry plan signal operation attempts clock state).outcome := retryUntil_tries ..
  refine ⟨?_, fun never => congrFun₃ (retryUntil_of_never plan _ operation never _) ..⟩
  exact {
    quiet := fun _ member => course.quiet member
    answered := course.answers
    followed := fun _ _ _ _ split => course.follows split
    ok_iff := fun _ => tries.ok_iff
    fatal_iff := fun _ => tries.fatal_iff
    interrupted_iff := by
      rcases course.heeds with ⟨interrupted, least⟩ | ⟨others, unheard⟩
      · exact iff_of_true interrupted ⟨_, least.1⟩
      · exact iff_of_false others fun ⟨instant, heard⟩ => unheard instant heard
    prompt := fun interrupted => by
      rcases course.heeds with ⟨_, least⟩ | ⟨others, _⟩
      · exact least
      · exact absurd interrupted others }

/-- Twenty milliseconds, and pauses of five. -/
def unhurried : RetryPlan := ⟨.ofMillis 20, fun _ => .ofMillis 5⟩

/-- Two throttled replies, of which the second one takes two milliseconds. -/
def twiceSlow : List (Reply Nat) :=
  [⟨.error (.throughputExceeded "slow down"), 0⟩, ⟨.error (.throughputExceeded "slow down"), 2⟩]

/-- The flag is set down in the first pause, and put up in the second one. -/
def secondPause : Signal := ⟨[(1, .send false), (9, .send true), (10, .drop)], by decide⟩

/-- The flag is only ever set down, until its sender is gone. -/
def neverUp : Signal := ⟨[(1, .send false), (9, .drop)], by decide⟩

/-- The second pause, from the seventh millisecond to the twelfth, ends with the signal in it; a
signal that is never put up ends nothing. -/
theorem secondPause_heedsSignal :
    let retried := retry unhurried secondPause (.ofReplies ⟨.ok 7, 0⟩) 0 .start twiceSlow
    retried.HeedsSignal unhurried secondPause (.ofReplies ⟨.ok 7, 0⟩) 20000000 0 0 twiceSlow ∧
      retried.outcome = some (.error .interrupted) ∧ retried.made.length = 2 ∧
      retried.clock.now = 9 ∧
      retry unhurried neverUp (.ofReplies ⟨.ok 7, 0⟩) 0 .start twiceSlow =
        retry unhurried .silent (.ofReplies ⟨.ok 7, 0⟩) 0 .start twiceSlow :=
  ⟨(retry_heedsSignal unhurried secondPause (.ofReplies ⟨.ok 7, 0⟩) 0 rfl twiceSlow).1, rfl,
    by decide +kernel, by decide +kernel,
    (retry_heedsSignal unhurried neverUp (.ofReplies ⟨.ok 7, 0⟩) 0 rfl twiceSlow).2 (by decide)⟩

end ShardedStream
