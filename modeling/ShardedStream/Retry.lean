import ShardedStream.Backoff
import ShardedStream.Clock
import ShardedStream.Notice
import ShardedStream.Service
import ShardedStream.Shutdown

/-!
Retries of one operation within a budget of time.
Only throttling is tried again. The budget covers attempts and the pauses between them; the shutdown
signal ends a pause at once but never cuts an attempt short.
-/

namespace ShardedStream

/-- How long an operation may take in all, and how long it pauses between attempts. -/
structure RetryPlan where
  budget : Duration
  backoff : Backoff

/-- Why an operation came to nothing. -/
inductive RetryFailure where
  /-- The budget is used up. -/
  | exhausted (budget : Duration)
  /-- The shutdown signal is up. -/
  | interrupted
  /-- An attempt failed with something other than throttling. -/
  | fatal (fault : Fault)
  deriving DecidableEq, Repr, Inhabited

def RetryFailure.message : RetryFailure → String
  | .exhausted budget => "Operation budget of " ++ budget.text ++ " exhausted"
  | .interrupted => "Retry interrupted by shutdown signal"
  | .fatal fault => fault.message

def RetryFailure.isExhausted : RetryFailure → Bool
  | .exhausted _ => true
  | _ => false

def RetryFailure.isInterrupted : RetryFailure → Bool
  | .interrupted => true
  | _ => false

/-- An operation sees the time at which an attempt starts. -/
abbrev Operation (σ α : Type) := Nat → σ → Reply α × σ

/-- An operation with its replies listed in advance; after them it has the same one for ever. -/
def Operation.ofReplies {α : Type} (otherwise : Reply α) : Operation (List (Reply α)) α
  | _, [] => (otherwise, [])
  | _, reply :: rest => (reply, rest)

/-- What became of a retried operation; without an outcome its caller stopped waiting. -/
structure Retried (σ α : Type) where
  outcome : Option (Except RetryFailure α)
  /-- How many attempts have been counted, earlier operations included. -/
  attempts : Nat
  /-- The attempts of this operation in order. -/
  made : List (Attempt α)
  notices : List Notice
  clock : Clock
  state : σ

variable {σ α : Type}

namespace Retried

/-- Nothing more happens. -/
def stop (outcome : Option (Except RetryFailure α)) (attempts : Nat) (clock : Clock) (state : σ) :
    Retried σ α :=
  ⟨outcome, attempts, [], [], clock, state⟩

/-- Puts an attempt in front. -/
def after (retried : Retried σ α) (attempt : Attempt α) : Retried σ α :=
  { retried with made := attempt :: retried.made }

/-- Puts a notice in front. -/
def announce (retried : Retried σ α) (notice : Notice) : Retried σ α :=
  { retried with notices := notice :: retried.notices }

end Retried

/-- The pause before the next attempt, cut to what is left of the budget. -/
def RetryPlan.pause (plan : RetryPlan) (attempts : Nat) (remaining : Duration) : Duration :=
  (plan.backoff (attempts - 1)).min remaining

/--
Pauses after a throttled attempt, and then tries again. The pause ends early when the signal comes
up; a pause that takes all the remaining time leaves none for another attempt.
-/
def pauseThen (plan : RetryPlan) (signal : Signal) (remaining pause : Duration) (attempts : Nat)
    (clock : Clock) (state : σ) (again : Clock → Retried σ α) : Retried σ α :=
  let wake := clock.now + pause.ceilMillis
  match signal.firstRaised clock.now wake with
  | some instant =>
    let waited := clock.wait instant
    .stop (if waited.1 then some (.error .interrupted) else none) attempts waited.2 state
  | none =>
    let waited := clock.wait wake
    if !waited.1 then .stop none attempts waited.2 state
    else if remaining.nanos ≤ pause.nanos then
      .stop (some (.error (.exhausted plan.budget))) attempts waited.2 state
    else again waited.2

/-- What follows a failed attempt: only throttling before the deadline is tried again. -/
def afterFault (plan : RetryPlan) (signal : Signal) (deadline : Nat) (fault : Fault)
    (attempts : Nat) (clock : Clock) (state : σ) (again : Clock → Retried σ α) : Retried σ α :=
  let elapsed := clock.now * Duration.nanosPerMilli
  let remaining := Duration.mk (deadline - elapsed)
  let pause := plan.pause attempts remaining
  if !fault.isThrottling then .stop (some (.error (.fatal fault))) attempts clock state
  else if deadline ≤ elapsed then
    .stop (some (.error (.exhausted plan.budget))) attempts clock state
  else
    (pauseThen plan signal remaining pause attempts clock state again).announce
      (.throttled attempts pause fault)

/-- An attempt that is over, and whether its caller waited to the end. -/
structure Awaited (α : Type) where
  attempt : Attempt α
  patient : Bool
  clock : Clock

/--
Waits for the answer of an attempt, or for the deadline's timer when that comes first. An answer
that comes together with the timer has come in time.
-/
def awaitReply (timer : Nat) (clock : Clock) (reply : Reply α) : Awaited α :=
  let finish := clock.now + reply.latency
  let waited := clock.wait (Nat.min finish timer)
  let result := if waited.1 && finish ≤ timer then some reply.result else none
  ⟨⟨clock.now, waited.2.now, result⟩, waited.1, waited.2⟩

/-- What follows an attempt; one without a result has met the deadline or an impatient caller. -/
def afterAttempt (plan : RetryPlan) (signal : Signal) (deadline attempts : Nat)
    (awaited : Awaited α) (state : σ) (again : Clock → Retried σ α) : Retried σ α :=
  match awaited.attempt.result with
  | some (.ok value) => .stop (some (.ok value)) attempts awaited.clock state
  | some (.error fault) =>
    afterFault plan signal deadline fault attempts awaited.clock state again
  | none =>
    .stop (if awaited.patient then some (.error (.exhausted plan.budget)) else none) attempts
      awaited.clock state

/--
Runs the attempts of an operation up to a deadline in nanoseconds. No attempt starts while the
signal is up. An operation that has used up all its attempts has used up its budget.
-/
def retryUntil (plan : RetryPlan) (signal : Signal) (deadline : Nat)
    (operation : Operation σ α) : Nat → Nat → Clock → σ → Retried σ α
  | 0, attempts, clock, state =>
    .stop (some (.error (.exhausted plan.budget))) attempts clock state
  | fuel + 1, attempts, clock, state =>
    if signal.raisedAt clock.now then .stop (some (.error .interrupted)) attempts clock state
    else
      let answered := operation clock.now state
      let awaited := awaitReply (Duration.mk deadline).ceilMillis clock answered.1
      (afterAttempt plan signal deadline (attempts + 1) awaited answered.2 fun clock =>
        retryUntil plan signal deadline operation fuel (attempts + 1) clock answered.2).after
          awaited.attempt

/-- Attempts are counted in 32 bits. -/
def attemptLimit : Nat := 4294967296

/-- The last instant up to which an operation is waited for that starts now. -/
def RetryPlan.cutoff (plan : RetryPlan) (clock : Clock) : Nat :=
  clock.cutoff (Duration.mk (clock.now * Duration.nanosPerMilli + plan.budget.nanos)).ceilMillis

/-- Retries an operation from now on, with attempts counted on from `attempts`. -/
def retry (plan : RetryPlan) (signal : Signal) (operation : Operation σ α) (attempts : Nat)
    (clock : Clock) (state : σ) : Retried σ α :=
  retryUntil plan signal (clock.now * Duration.nanosPerMilli + plan.budget.nanos) operation
    (attemptLimit - attempts) attempts clock state

end ShardedStream
