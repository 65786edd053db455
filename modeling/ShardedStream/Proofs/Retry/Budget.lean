import ShardedStream.Proofs.Retry.Pace

/-!
The budget of a retried operation.
Without a signal an operation comes to its end with its last attempt. Only throttling is tried
again, every pause has the length that the backoff gives it, and an operation that runs out of time
does so at the timer of its deadline, to the millisecond.
-/

namespace ShardedStream

variable {σ α : Type}

/--
An operation is out of time after an attempt that the timer has cut off, or after a throttled one
when the pause that is due then would last to the deadline or beyond. The attempt is counted.
-/
def RetryPlan.OutOfTime (plan : RetryPlan) (deadline count : Nat) (attempt : Attempt α) : Prop :=
  attempt.result = none ∨ attempt.IsThrottled ∧
    deadline ≤ attempt.stop * Duration.nanosPerMilli + (plan.backoff (count - 1)).nanos

/--
A retried operation keeps to its budget: it started at an instant, with so many attempts counted
before, and it has until a deadline.
-/
structure Retried.KeepsBudget (retried : Retried σ α) (plan : RetryPlan) (operation : Operation σ α)
    (deadline attempts start : Nat) (state : σ) : Prop where
  /-- The attempts are the answers of the operation. -/
  answered : Answers operation (timerOf deadline) state retried.made retried.state
  /-- The first attempt starts at once. -/
  begun : ∃ first later, retried.made = first :: later ∧ first.start = start
  /-- Every attempt that another one follows has been throttled. -/
  throttled : ∀ earlier attempt next later,
    retried.made = earlier ++ attempt :: next :: later → attempt.IsThrottled
  /-- The attempts are counted one by one. -/
  counted : retried.attempts = attempts + retried.made.length
  /-- Between two attempts the backoff passes, neither more nor less. -/
  paced : ∀ earlier attempt next later, retried.made = earlier ++ attempt :: next :: later →
    next.start * Duration.nanosPerMilli =
      attempt.stop * Duration.nanosPerMilli + (plan.backoff (attempts + earlier.length)).nanos
  /-- Only the first attempt may start at the deadline. -/
  early : ∀ earlier attempt next later, retried.made = earlier ++ attempt :: next :: later →
    next.start * Duration.nanosPerMilli < deadline
  /-- A success is the success of the last attempt. -/
  ok_iff : ∀ value, retried.outcome = some (.ok value) ↔
    lastResult? retried.made = some (.ok value)
  /-- A failure for good is the failure of the last attempt. -/
  fatal_iff : ∀ fault, retried.outcome = some (.error (.fatal fault)) ↔
    lastResult? retried.made = some (.error fault) ∧ fault.isThrottling = false
  /-- The budget is used up when the last attempt leaves no time for another one. -/
  exhausted_iff : retried.outcome = some (.error (.exhausted plan.budget)) ↔
    ∃ last, retried.made.getLast? = some last ∧ plan.OutOfTime deadline retried.attempts last
  /-- There is no other end. -/
  ends : (∃ value, retried.outcome = some (.ok value)) ∨
    (∃ fault, retried.outcome = some (.error (.fatal fault))) ∨
      retried.outcome = some (.error (.exhausted plan.budget))
  /-- The end comes by the timer. -/
  inTime : retried.clock.now ≤ timerOf deadline
  /-- A budget is not used up before the timer. -/
  atTimer : retried.outcome = some (.error (.exhausted plan.budget)) →
    retried.clock.now = timerOf deadline
  /-- Every other end comes together with the answer. -/
  atOnce : retried.outcome ≠ some (.error (.exhausted plan.budget)) →
    ∃ last, retried.made.getLast? = some last ∧ retried.clock.now = last.stop

variable {plan : RetryPlan} {deadline count : Nat} {attempt : Attempt α}

/-- A pause leaves time for another attempt when the backoff ends before the deadline. -/
theorem RetryPlan.triesAgain_iff : plan.TriesAgain deadline count attempt ↔
    attempt.stop * Duration.nanosPerMilli + (plan.backoff (count - 1)).nanos < deadline := by
  change min (plan.backoff (count - 1)).nanos (attempt.remaining deadline).nanos <
    (attempt.remaining deadline).nanos ↔ _
  simp only [Attempt.remaining]
  omega

/-- A pause that leaves time for another attempt is not cut short. -/
theorem RetryPlan.pauseAfter_eq (more : plan.TriesAgain deadline count attempt) :
    plan.pauseAfter deadline count attempt = plan.backoff (count - 1) := by
  have short := triesAgain_iff.mp more
  have least : (plan.backoff (count - 1)).nanos ≤ (attempt.remaining deadline).nanos := by
    simp only [Attempt.remaining]
    omega
  exact congrArg Duration.mk (Nat.min_eq_left least)

/-- A pause of whole milliseconds that leaves time ends as long after its attempt as it lasts. -/
theorem RetryPlan.wakeAfter_mul (whole : ∀ count, ∃ millis, plan.backoff count = .ofMillis millis)
    (more : plan.TriesAgain deadline count attempt) :
    plan.wakeAfter deadline count attempt * Duration.nanosPerMilli =
      attempt.stop * Duration.nanosPerMilli + (plan.backoff (count - 1)).nanos := by
  obtain ⟨millis, same⟩ := whole (count - 1)
  rw [wakeAfter, pauseAfter_eq more, same, Duration.ceilMillis_ofMillis, Nat.add_mul]
  rfl

namespace Ends

variable {outcome : Except RetryFailure α} {finish : Nat}

/-- An operation that no signal ends has used up its budget when it is out of time. -/
theorem exhausted_iff (ends : Ends plan .silent deadline count attempt outcome finish) :
    outcome = .error (.exhausted plan.budget) ↔ plan.OutOfTime deadline count attempt := by
  cases ends with
  | answered said =>
      simp [RetryPlan.OutOfTime, said, Attempt.not_isThrottled_of_ok said]
  | refused said final =>
      simp [RetryPlan.OutOfTime, said, Attempt.isThrottled_iff said, final]
  | cutOff hung => exact iff_of_true rfl (.inl hung)
  | late throttled late => exact iff_of_true rfl (.inr ⟨throttled, Nat.le_add_right_of_le late⟩)
  | interrupted _ raised => cases raised
  | spent pauses _ all =>
      rw [RetryPlan.triesAgain_iff, Nat.not_lt] at all
      exact iff_of_true rfl (.inr ⟨pauses.throttled, all⟩)

/-- An operation that no signal ends has used up its budget, or has its last answer. -/
theorem said_or_exhausted (ends : Ends plan .silent deadline count attempt outcome finish) :
    (∃ value, outcome = .ok value) ∨ (∃ fault, outcome = .error (.fatal fault)) ∨
      outcome = .error (.exhausted plan.budget) := by
  cases ends with
  | answered said => exact .inl ⟨_, rfl⟩
  | refused said final => exact .inr (.inl ⟨_, rfl⟩)
  | cutOff hung => exact .inr (.inr rfl)
  | late throttled late => exact .inr (.inr rfl)
  | interrupted _ raised => cases raised
  | spent pauses _ all => exact .inr (.inr rfl)

/-- A used up budget ends at the timer. -/
theorem finish_eq_timer (ends : Ends plan .silent deadline count attempt outcome finish)
    (stop : attempt.stop ≤ timerOf deadline ∧ (attempt.result = none →
      attempt.stop = timerOf deadline))
    (exhausted : outcome = .error (.exhausted plan.budget)) : finish = timerOf deadline := by
  cases ends with
  | answered said => cases exhausted
  | refused said final => cases exhausted
  | cutOff hung => exact stop.2 hung
  | late throttled late =>
      refine Nat.le_antisymm stop.1 ?_
      simp only [timerOf, Duration.ceilMillis, Duration.nanosPerMilli] at late ⊢
      omega
  | interrupted _ raised => cases raised
  | spent pauses _ all => exact plan.wakeAfter_eq pauses all

/-- Every other end comes with the last answer. -/
theorem finish_eq_stop (ends : Ends plan .silent deadline count attempt outcome finish)
    (said : outcome ≠ .error (.exhausted plan.budget)) : finish = attempt.stop := by
  cases ends with
  | answered _ => rfl
  | refused _ _ => rfl
  | cutOff _ => exact absurd rfl said
  | late _ _ => exact absurd rfl said
  | interrupted _ raised => cases raised
  | spent _ _ _ => exact absurd rfl said

end Ends

variable {operation : Operation σ α} {now : Nat} {state : σ} {retried : Retried σ α}

/-- A course without a signal that does not run out of numbers ends with its last attempt. -/
theorem Course.ends (course : Course plan .silent operation deadline count now state retried)
    (room : retried.attempts < attemptLimit) :
    ∃ last outcome, retried.made.getLast? = some last ∧ retried.outcome = some outcome ∧
      Ends plan .silent deadline retried.attempts last outcome retried.clock.now := by
  induction course with
  | uncounted full => exact absurd room (Nat.not_lt_of_le full)
  | stopped _ raised => cases raised
  | ended _ _ _ _ ends => exact ⟨_, _, rfl, rfl, ends⟩
  | again _ _ _ _ _ _ _ _ inductionHypothesis =>
      obtain ⟨last, outcome, final, said, ends⟩ := inductionHypothesis room
      exact ⟨last, outcome, by rw [List.getLast?_cons, final]; rfl, said, ends⟩

/-- Without a signal an operation that has no answer is out of time. -/
theorem Course.outOfTime (course : Course plan .silent operation deadline count now state retried)
    (room : retried.attempts < attemptLimit) (unanswered : Unanswered retried.outcome) :
    ∃ last, retried.made.getLast? = some last ∧
      plan.OutOfTime deadline retried.attempts last := by
  obtain ⟨last, outcome, final, said, ends⟩ := course.ends room
  rw [said] at unanswered
  refine ⟨last, final, ends.exhausted_iff.mp ?_⟩
  rcases ends.said_or_exhausted with ⟨value, rfl⟩ | ⟨fault, rfl⟩ | exhausted
  · exact unanswered.elim
  · exact unanswered.elim
  · exact exhausted

/-- A course without a signal keeps to the budget. -/
theorem Course.keepsBudget (whole : ∀ count, ∃ millis, plan.backoff count = .ofMillis millis)
    (course : Course plan .silent operation deadline count now state retried)
    (tries : Tries retried.made retried.outcome) (room : retried.attempts < attemptLimit) :
    retried.KeepsBudget plan operation deadline count now state := by
  obtain ⟨last, outcome, final, said, ends⟩ := course.ends room
  have stop := course.answers.stop (List.mem_of_getLast? final)
  have only : ∀ other, retried.outcome = some other ↔ outcome = other := fun other => by
    rw [said, Option.some.injEq]
  exact {
    answered := course.answers
    begun := by
      cases made : retried.made with
      | nil => simp [made] at final
      | cons first later => exact ⟨first, later, rfl, course.start_eq made⟩
    throttled := fun _ _ _ _ split => (course.follows split).pauses.throttled
    counted := course.counted
    paced := fun earlier attempt next later split => by
      have follows := course.follows split
      rw [follows.start, RetryPlan.wakeAfter_mul whole follows.more, Nat.add_sub_cancel]
    early := fun earlier attempt next later split => by
      have follows := course.follows split
      rw [follows.start, RetryPlan.wakeAfter_mul whole follows.more]
      exact RetryPlan.triesAgain_iff.mp follows.more
    ok_iff := fun _ => tries.ok_iff
    fatal_iff := fun _ => tries.fatal_iff
    exhausted_iff := by
      rw [only, ends.exhausted_iff]
      exact ⟨fun spent => ⟨last, final, spent⟩, fun ⟨other, same, spent⟩ =>
        Option.some.inj (final.symm.trans same) ▸ spent⟩
    ends := by
      simp only [only]
      exact ends.said_or_exhausted
    inTime := by
      by_cases exhausted : outcome = .error (.exhausted plan.budget)
      · exact (ends.finish_eq_timer stop exhausted).le
      · exact (ends.finish_eq_stop exhausted).trans_le stop.1
    atTimer := fun exhausted => ends.finish_eq_timer stop ((only _).mp exhausted)
    atOnce := fun others => ⟨last, final, ends.finish_eq_stop fun exhausted =>
      others ((only _).mpr exhausted)⟩ }

/--
A retried operation keeps to its budget, whatever it answers and however long that takes. The
backoff is in whole milliseconds, and the count of the attempts does not overflow.
-/
theorem retry_keepsBudget (plan : RetryPlan)
    (whole : ∀ count, ∃ millis, plan.backoff count = .ofMillis millis) (operation : Operation σ α)
    (attempts : Nat) {clock : Clock} (patient : clock.limit = none) (state : σ)
    (counted : (retry plan .silent operation attempts clock state).attempts < attemptLimit) :
    (retry plan .silent operation attempts clock state).KeepsBudget plan operation
      (clock.now * Duration.nanosPerMilli + plan.budget.nanos) attempts clock.now state :=
  (retry_course plan .silent operation attempts patient state).keepsBudget whole
    (retryUntil_tries ..) counted

/-- Two milliseconds and a half, and pauses of one millisecond. -/
def hurried : RetryPlan := ⟨⟨2500000⟩, fun _ => .ofMillis 1⟩

/-- Two throttled replies, of which the second one takes a millisecond. -/
def slowDown : List (Reply Nat) :=
  [⟨.error (.throughputExceeded "slow down"), 0⟩, ⟨.error (.throughputExceeded "slow down"), 1⟩]

/-- The second pause is cut to the half millisecond that is left, and the budget ends with the next
whole one. The handle has counted three attempts before. -/
theorem hurried_keepsBudget :
    let retried := retry hurried .silent (.ofReplies ⟨.ok 7, 0⟩) 3 .start slowDown
    retried.attempts < attemptLimit ∧
      retried.KeepsBudget hurried (.ofReplies ⟨.ok 7, 0⟩) 2500000 3 0 slowDown ∧
      retried.attempts = 5 ∧ retried.clock.now = 3 := by
  have short : (retry hurried .silent (.ofReplies ⟨.ok 7, 0⟩) 3 .start slowDown).attempts <
      attemptLimit := by decide +kernel
  exact ⟨short, retry_keepsBudget hurried (fun _ => ⟨1, rfl⟩) (.ofReplies ⟨.ok 7, 0⟩) 3 rfl _ short,
    by decide +kernel, by decide +kernel⟩

end ShardedStream
