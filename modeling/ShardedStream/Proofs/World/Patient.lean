import ShardedStream.Proofs.World.Settle

/-!
Undisturbed retries.
While its caller waits as long as it takes and no signal comes up, a retried operation depends on
the replies that it gets and not on the time at which it starts. What it makes of scripted replies
is therefore a function of these replies.
-/

namespace ShardedStream

variable {σ τ α β : Type}

@[simp] theorem Signal.raisedAt_silent (time : Nat) : Signal.silent.raisedAt time = false := rfl

@[simp] theorem Signal.firstRaised_silent (start stop : Nat) :
    Signal.silent.firstRaised start stop = none := rfl

/-- Two results are the same failure, or two values that fit each other. -/
inductive Matches {ε : Type} (fits : α → β → Prop) : Except ε α → Except ε β → Prop where
  | value {first : α} {second : β} (fit : fits first second) :
      Matches fits (.ok first) (.ok second)
  | failure (error : ε) : Matches fits (.error error) (.error error)

/-- At any times, one operation replies like another one from states that are related. -/
def Operation.Imitates (operation : Operation σ α) (original : Operation τ β)
    (related : σ → τ → Prop) (fits : σ → α → β → Prop) : Prop :=
  ∀ time otherTime state other, related state other →
    (operation time state).1.latency = (original otherTime other).1.latency ∧
      Matches (fits (operation time state).2) (operation time state).1.result
        (original otherTime other).1.result ∧
      related (operation time state).2 (original otherTime other).2

/-- Two retried operations come to the same after as many attempts, and both were waited for. -/
structure Retried.Imitates (retried : Retried σ α) (original : Retried τ β)
    (related : σ → τ → Prop) (fits : σ → α → β → Prop) : Prop where
  patient : retried.clock.limit = none
  outcome : ∃ first second, retried.outcome = some first ∧ original.outcome = some second ∧
    Matches (fits retried.state) first second
  related : related retried.state original.state
  made : retried.made.length = original.made.length

theorem Retried.announce_outcome (retried : Retried σ α) (notice : Notice) :
    (retried.announce notice).outcome = retried.outcome := rfl

theorem Retried.announce_state (retried : Retried σ α) (notice : Notice) :
    (retried.announce notice).state = retried.state := rfl

/-- A notice in front changes nothing about how operations imitate each other. -/
theorem Retried.Imitates.announce {retried : Retried σ α} {original : Retried τ β}
    {related : σ → τ → Prop} {fits : σ → α → β → Prop}
    (imitates : retried.Imitates original related fits) (notice other : Notice) :
    (retried.announce notice).Imitates (original.announce other) related fits :=
  ⟨imitates.patient, imitates.outcome, imitates.related, imitates.made⟩

/-- Nor does an attempt in front of each. -/
theorem Retried.Imitates.after {retried : Retried σ α} {original : Retried τ β}
    {related : σ → τ → Prop} {fits : σ → α → β → Prop}
    (imitates : retried.Imitates original related fits) (attempt : Attempt α)
    (other : Attempt β) : (retried.after attempt).Imitates (original.after other) related fits :=
  ⟨imitates.patient, imitates.outcome, imitates.related, congrArg (· + 1) imitates.made⟩

/-- Operations that stop alike imitate each other. -/
theorem Retried.Imitates.stop {related : σ → τ → Prop} {fits : σ → α → β → Prop}
    {first : Except RetryFailure α} {second : Except RetryFailure β} {clock : Clock} {state : σ}
    {other : τ} (patient : clock.limit = none) (fit : Matches (fits state) first second)
    (start : related state other) (attempts : Nat) (otherClock : Clock) :
    (Retried.stop (some first) attempts clock state).Imitates
      (Retried.stop (some second) attempts otherClock other) related fits :=
  ⟨patient, ⟨first, second, rfl, rfl, fit⟩, start, rfl⟩

/-- Both clocks have a patient caller, and one of them is so many milliseconds ahead. -/
structure Clock.Ahead (shift : Nat) (clock other : Clock) : Prop where
  patient : clock.limit = none
  otherPatient : other.limit = none
  now : clock.now = other.now + shift

/-- Waiting for corresponding instants keeps one clock as far ahead. -/
theorem Clock.Ahead.wait {shift : Nat} {clock other : Clock} (ahead : Ahead shift clock other)
    {instant otherInstant : Nat} (corresponding : instant = otherInstant + shift) :
    (clock.wait instant).1 = true ∧ (other.wait otherInstant).1 = true ∧
      Ahead shift (clock.wait instant).2 (other.wait otherInstant).2 := by
  rw [Clock.wait_patient clock instant ahead.patient,
    Clock.wait_patient other otherInstant ahead.otherPatient]
  refine ⟨rfl, rfl, rfl, rfl, ?_⟩
  change max clock.now instant = max other.now otherInstant + shift
  rw [ahead.now, corresponding, Nat.add_max_add_right]

/-- A pause at a corresponding time ends alike, and what follows it decides. -/
theorem pauseThen_imitates {related : σ → τ → Prop} {fits : σ → α → β → Prop} {shift : Nat}
    {clock otherClock : Clock} (ahead : Clock.Ahead shift clock otherClock) {state : σ} {other : τ}
    (start : related state other) (plan : RetryPlan) (remaining pause : Duration) (attempts : Nat)
    {again : Clock → Retried σ α} {otherAgain : Clock → Retried τ β}
    (next : ∀ clock otherClock, Clock.Ahead shift clock otherClock →
      (again clock).Imitates (otherAgain otherClock) related fits) :
    (pauseThen plan .silent remaining pause attempts clock state again).Imitates
      (pauseThen plan .silent remaining pause attempts otherClock other otherAgain)
      related fits := by
  unfold pauseThen
  dsimp only
  generalize pause.ceilMillis = millis
  have corresponding : clock.now + millis = otherClock.now + millis + shift := by
    have := ahead.now
    omega
  obtain ⟨reached, otherReached, later⟩ := ahead.wait corresponding
  rw [reached, otherReached, Signal.firstRaised_silent, Signal.firstRaised_silent]
  simp only [Bool.not_true, Bool.false_eq_true, if_false]
  split
  · exact .stop later.patient (.failure _) start _ _
  · exact next _ _ later

/-- A failed attempt at a corresponding time is tried again alike. -/
theorem afterFault_imitates {related : σ → τ → Prop} {fits : σ → α → β → Prop} {shift : Nat}
    {clock otherClock : Clock} (ahead : Clock.Ahead shift clock otherClock) {state : σ} {other : τ}
    (start : related state other) (plan : RetryPlan) (deadline : Nat) (fault : Fault)
    (attempts : Nat) {again : Clock → Retried σ α} {otherAgain : Clock → Retried τ β}
    (next : ∀ clock otherClock, Clock.Ahead shift clock otherClock →
      (again clock).Imitates (otherAgain otherClock) related fits) :
    (afterFault plan .silent (deadline + shift * Duration.nanosPerMilli) fault attempts clock state
        again).Imitates
      (afterFault plan .silent deadline fault attempts otherClock other otherAgain)
      related fits := by
  have elapsed : clock.now * Duration.nanosPerMilli =
      otherClock.now * Duration.nanosPerMilli + shift * Duration.nanosPerMilli := by
    rw [ahead.now, Nat.add_mul]
  have late : deadline + shift * Duration.nanosPerMilli ≤ clock.now * Duration.nanosPerMilli ↔
      deadline ≤ otherClock.now * Duration.nanosPerMilli := by
    rw [elapsed]
    exact Nat.add_le_add_iff_right
  have remaining : deadline + shift * Duration.nanosPerMilli -
      clock.now * Duration.nanosPerMilli =
        deadline - otherClock.now * Duration.nanosPerMilli := by
    rw [elapsed, Nat.add_sub_add_right]
  unfold afterFault
  dsimp only
  rw [remaining]
  by_cases fatal : (!fault.isThrottling) = true
  · rw [if_pos fatal, if_pos fatal]
    exact .stop ahead.patient (.failure _) start _ _
  · rw [if_neg fatal, if_neg fatal]
    by_cases spent : deadline ≤ otherClock.now * Duration.nanosPerMilli
    · rw [if_pos spent, if_pos (late.mpr spent)]
      exact .stop ahead.patient (.failure _) start _ _
    · rw [if_neg spent, if_neg (mt late.mp spent)]
      exact (pauseThen_imitates ahead start plan _ _ attempts next).announce _ _

/-- A timer is set as much later as its deadline is. -/
theorem Duration.ceilMillis_shift (deadline shift : Nat) :
    (Duration.mk (deadline + shift * nanosPerMilli)).ceilMillis =
      (Duration.mk deadline).ceilMillis + shift := by
  simp only [ceilMillis, nanosPerMilli]
  omega

/-- A reply with the same latency is waited for alike at a corresponding time. -/
theorem awaitReply_ahead {shift : Nat} {clock otherClock : Clock}
    (ahead : Clock.Ahead shift clock otherClock) (timer : Nat) {reply : Reply α}
    {other : Reply β} (latency : reply.latency = other.latency) :
    Clock.Ahead shift (awaitReply (timer + shift) clock reply).clock
        (awaitReply timer otherClock other).clock ∧
      (awaitReply (timer + shift) clock reply).patient = true ∧
      (awaitReply timer otherClock other).patient = true ∧
      (((awaitReply (timer + shift) clock reply).attempt.result = some reply.result ∧
          (awaitReply timer otherClock other).attempt.result = some other.result) ∨
        ((awaitReply (timer + shift) clock reply).attempt.result = none ∧
          (awaitReply timer otherClock other).attempt.result = none)) := by
  have now := ahead.now
  have corresponding : Nat.min (clock.now + reply.latency) (timer + shift) =
      Nat.min (otherClock.now + other.latency) timer + shift := by
    change min _ _ = min _ _ + shift
    omega
  obtain ⟨reached, otherReached, later⟩ := ahead.wait corresponding
  have inTime : clock.now + reply.latency ≤ timer + shift ↔
      otherClock.now + other.latency ≤ timer := by omega
  simp only [awaitReply, reached, otherReached, Bool.true_and, decide_eq_true_eq, inTime]
  refine ⟨later, trivial, trivial, ?_⟩
  by_cases early : otherClock.now + other.latency ≤ timer
  · simp only [if_pos early, and_self, true_or]
  · simp only [if_neg early, and_self, or_true]

/-- An operation that imitates another one is retried like it, whenever it starts. -/
theorem retryUntil_imitates {operation : Operation σ α} {original : Operation τ β}
    {related : σ → τ → Prop} {fits : σ → α → β → Prop}
    (imitates : operation.Imitates original related fits) (plan : RetryPlan) (deadline shift : Nat)
    (fuel attempts : Nat) {clock otherClock : Clock}
    (ahead : Clock.Ahead shift clock otherClock) {state : σ} {other : τ}
    (start : related state other) :
    (retryUntil plan .silent (deadline + shift * Duration.nanosPerMilli) operation fuel attempts
        clock state).Imitates
      (retryUntil plan .silent deadline original fuel attempts otherClock other)
      related fits := by
  induction fuel generalizing attempts clock otherClock state other with
  | zero => exact .stop ahead.patient (.failure _) start _ _
  | succ fuel inductionHypothesis =>
      obtain ⟨latency, results, after⟩ := imitates clock.now otherClock.now state other start
      simp only [retryUntil, Signal.raisedAt_silent, Bool.false_eq_true, if_false,
        Duration.ceilMillis_shift]
      obtain ⟨later, patient, otherPatient, answers⟩ :=
        awaitReply_ahead ahead (Duration.mk deadline).ceilMillis latency
      refine Retried.Imitates.after ?_ _ _
      unfold afterAttempt
      rcases answers with ⟨answer, otherAnswer⟩ | ⟨answer, otherAnswer⟩
      · rw [answer, otherAnswer]
        cases said : (operation clock.now state).1.result with
        | ok value =>
            rw [said] at results
            cases otherSaid : (original otherClock.now other).1.result with
            | ok otherValue =>
                rw [otherSaid] at results
                exact .stop later.patient (by cases results; exact .value ‹_›) after _ _
            | error fault =>
                rw [otherSaid] at results
                cases results
        | error fault =>
            rw [said] at results
            cases otherSaid : (original otherClock.now other).1.result with
            | ok otherValue =>
                rw [otherSaid] at results
                cases results
            | error otherFault =>
                rw [otherSaid] at results
                cases results
                exact afterFault_imitates later after plan deadline fault (attempts + 1)
                  fun clock otherClock ahead => inductionHypothesis _ ahead after
      · rw [answer, otherAnswer, patient, otherPatient]
        exact .stop later.patient (.failure _) after _ _

/-- Scripted replies in order; after them nothing in particular comes at once. -/
def Operation.scripted : Operation (List (Reply α)) (Option α)
  | _, [] => (⟨.ok none, 0⟩, [])
  | _, reply :: rest => (⟨reply.result.map some, reply.latency⟩, rest)

/-- This is what scripted replies come to: an outcome, and the replies that are left. -/
inductive Draws : List (Reply α) → Except RetryFailure (Option α) → List (Reply α) → Prop where
  | unscripted : Draws [] (.ok none) []
  | answered {reply : Reply α} {rest : List (Reply α)} {value : α}
      (said : reply.result = .ok value) : Draws (reply :: rest) (.ok (some value)) rest
  | refused {reply : Reply α} {rest : List (Reply α)} {fault : Fault}
      (said : reply.result = .error fault) (fatal : fault.isThrottling = false) :
      Draws (reply :: rest) (.error (.fatal fault)) rest
  | late {reply : Reply α} {rest : List (Reply α)} {budget : Duration}
      (late : reply.latency ≠ 0) : Draws (reply :: rest) (.error (.exhausted budget)) rest
  | spent {reply : Reply α} {rest : List (Reply α)} {fault : Fault} {budget : Duration}
      (said : reply.result = .error fault) (throttling : fault.isThrottling = true) :
      Draws (reply :: rest) (.error (.exhausted budget)) rest
  | again {reply : Reply α} {rest left : List (Reply α)} {fault : Fault}
      {outcome : Except RetryFailure (Option α)} (said : reply.result = .error fault)
      (throttling : fault.isThrottling = true) (draws : Draws rest outcome left) :
      Draws (reply :: rest) outcome left

/-- What is left of scripted replies are the last ones. -/
theorem Draws.suffix {queue left : List (Reply α)} {outcome : Except RetryFailure (Option α)}
    (draws : Draws queue outcome left) : left <:+ queue := by
  induction draws with
  | unscripted => exact List.suffix_refl _
  | answered _ => exact List.suffix_cons _ _
  | refused _ _ => exact List.suffix_cons _ _
  | late _ => exact List.suffix_cons _ _
  | spent _ _ => exact List.suffix_cons _ _
  | again _ _ _ inductionHypothesis => exact inductionHypothesis.trans (List.suffix_cons _ _)

/-- A value that has been drawn is that of a scripted reply. -/
theorem Draws.answer {queue left : List (Reply α)} {outcome : Except RetryFailure (Option α)}
    (draws : Draws queue outcome left) {value : α} (answered : outcome = .ok (some value)) :
    ∃ reply ∈ queue, reply.result = .ok value := by
  induction draws with
  | @answered reply rest other said =>
      cases answered
      exact ⟨reply, List.mem_cons_self, said⟩
  | again _ _ _ inductionHypothesis =>
      obtain ⟨reply, member, said⟩ := inductionHypothesis answered
      exact ⟨reply, List.mem_cons_of_mem _ member, said⟩
  | _ => cases answered

/-- A failure that has been drawn is that of a scripted reply, or the budget is used up. -/
theorem Draws.failure {queue left : List (Reply α)} {outcome : Except RetryFailure (Option α)}
    (draws : Draws queue outcome left) {failure : RetryFailure}
    (failed : outcome = .error failure) :
    (∃ budget, failure = .exhausted budget) ∨ ∃ reply ∈ queue, ∃ fault,
      reply.result = .error fault ∧ fault.isThrottling = false ∧ failure = .fatal fault := by
  induction draws with
  | @refused reply rest fault said fatal =>
      cases failed
      exact .inr ⟨reply, List.mem_cons_self, fault, said, fatal, rfl⟩
  | late _ =>
      cases failed
      exact .inl ⟨_, rfl⟩
  | spent _ _ =>
      cases failed
      exact .inl ⟨_, rfl⟩
  | again _ _ _ inductionHypothesis =>
      rcases inductionHypothesis failed with exhausted | ⟨reply, member, refused⟩
      · exact .inl exhausted
      · exact .inr ⟨reply, List.mem_cons_of_mem _ member, refused⟩
  | _ => cases failed

/-- At least one scripted reply is used up, if there is any. -/
theorem Draws.length_lt {queue left : List (Reply α)} {outcome : Except RetryFailure (Option α)}
    (draws : Draws queue outcome left) : queue = [] ∧ outcome = .ok none ∨
      left.length < queue.length := by
  cases draws with
  | unscripted => exact .inl ⟨rfl, rfl⟩
  | answered _ => exact .inr (Nat.lt_succ_self _)
  | refused _ _ => exact .inr (Nat.lt_succ_self _)
  | late _ => exact .inr (Nat.lt_succ_self _)
  | spent _ _ => exact .inr (Nat.lt_succ_self _)
  | again _ _ draws => exact .inr (Nat.lt_succ_of_le draws.suffix.length_le)

/-- After a pause the replies that are left are drawn in turn, unless it took all the time. -/
theorem pauseThen_draws (plan : RetryPlan) {reply : Reply α} {fault : Fault}
    (said : reply.result = .error fault) (throttling : fault.isThrottling = true)
    (remaining pause : Duration) (attempts : Nat) {clock : Clock} (patient : clock.limit = none)
    {rest : List (Reply α)} {again : Clock → Retried (List (Reply α)) (Option α)}
    (next : pause.nanos < remaining.nanos → ∀ later : Clock, later.limit = none →
      later.now = clock.now + pause.ceilMillis →
      ((again later).outcome = some (.error (.exhausted plan.budget)) ∧ (again later).state = rest ∨
        ∃ outcome, (again later).outcome = some outcome ∧
          Draws rest outcome (again later).state)) :
    ∃ outcome, (pauseThen plan .silent remaining pause attempts clock rest again).outcome =
        some outcome ∧
      Draws (reply :: rest) outcome
        (pauseThen plan .silent remaining pause attempts clock rest again).state := by
  simp only [pauseThen, Signal.firstRaised_silent, clock.wait_patient _ patient, Bool.not_true,
    Bool.false_eq_true, if_false]
  split
  · exact ⟨_, rfl, .spent said throttling⟩
  · rename_i left
    rcases next (Nat.not_le.mp left) ⟨_, none⟩ rfl (Nat.max_eq_right (Nat.le_add_right _ _)) with
      ⟨outcome, state⟩ | ⟨outcome, ended, draws⟩
    · exact ⟨_, outcome, state ▸ .spent said throttling⟩
    · exact ⟨outcome, ended, .again said throttling draws⟩

/-- A throttled attempt is the last one, or the replies after it are drawn in turn. -/
theorem afterFault_draws (plan : RetryPlan) (deadline : Nat) {reply : Reply α} {fault : Fault}
    (said : reply.result = .error fault) (attempts : Nat) {clock : Clock}
    (patient : clock.limit = none) {rest : List (Reply α)}
    {again : Clock → Retried (List (Reply α)) (Option α)}
    (next : ∀ clock : Clock, clock.limit = none → clock.now ≤ (Duration.mk deadline).ceilMillis →
      ((again clock).outcome = some (.error (.exhausted plan.budget)) ∧ (again clock).state = rest ∨
        ∃ outcome, (again clock).outcome = some outcome ∧
          Draws rest outcome (again clock).state)) :
    ∃ outcome, (afterFault plan .silent deadline fault attempts clock rest again).outcome =
        some outcome ∧
      Draws (reply :: rest) outcome
        (afterFault plan .silent deadline fault attempts clock rest again).state := by
  unfold afterFault
  dsimp only
  cases throttling : fault.isThrottling with
  | false => exact ⟨_, rfl, .refused said throttling⟩
  | true =>
      rw [Bool.not_true, if_neg Bool.false_ne_true]
      split
      · exact ⟨_, rfl, .spent said throttling⟩
      · rename_i unfinished
        rw [Retried.announce_outcome, Retried.announce_state]
        refine pauseThen_draws plan said throttling _ _ attempts patient
          fun left later patient now => next later patient ?_
        -- The pause leaves time, so the next attempt starts before the timer is due.
        rw [now]
        simp only [Duration.ceilMillis, Duration.nanosPerMilli] at unfinished left ⊢
        omega

/-- A retried operation draws from its scripted replies, unless it has no attempts left. -/
theorem retryUntil_draws (plan : RetryPlan) (deadline fuel attempts : Nat) {clock : Clock}
    (patient : clock.limit = none) (early : clock.now ≤ (Duration.mk deadline).ceilMillis)
    (queue : List (Reply α)) :
    ∃ outcome, (retryUntil plan .silent deadline Operation.scripted (fuel + 1) attempts clock
        queue).outcome = some outcome ∧
      Draws queue outcome (retryUntil plan .silent deadline Operation.scripted (fuel + 1) attempts
        clock queue).state := by
  induction fuel using Nat.strongRecOn generalizing attempts clock queue with
  | ind fuel inductionHypothesis =>
      rw [retryUntil]
      simp only [Signal.raisedAt_silent, Bool.false_eq_true, if_false, Retried.after, afterAttempt,
        awaitReply, clock.wait_patient _ patient, Bool.true_and, decide_eq_true_eq]
      cases queue with
      | nil =>
          simp only [Operation.scripted, Nat.add_zero, early, if_true]
          exact ⟨_, rfl, .unscripted⟩
      | cons reply rest =>
          simp only [Operation.scripted]
          by_cases inTime : clock.now + reply.latency ≤ (Duration.mk deadline).ceilMillis
          · simp only [inTime, if_true]
            cases said : reply.result with
            | ok value => exact ⟨_, rfl, .answered said⟩
            | error fault =>
                refine afterFault_draws plan deadline said _ rfl fun later patient early => ?_
                cases fuel with
                | zero => exact .inl ⟨rfl, rfl⟩
                | succ fuel =>
                    exact .inr (inductionHypothesis fuel (Nat.lt_succ_self _) _ patient early rest)
          · simp only [inTime, if_false]
            exact ⟨_, rfl, .late (by omega)⟩

/-- What a retried operation makes of scripted replies when nothing disturbs it. -/
def RetryPlan.draw (plan : RetryPlan) (queue : List (Reply α)) :
    Retried (List (Reply α)) (Option α) :=
  retry plan .silent Operation.scripted 0 .start queue

/-- A fresh count leaves an attempt to make. -/
theorem attemptLimit_eq : attemptLimit - 0 = 4294967295 + 1 := rfl

theorem retry_eq (plan : RetryPlan) (signal : Signal) (operation : Operation σ α) (clock : Clock)
    (state : σ) :
    retry plan signal operation 0 clock state =
      retryUntil plan signal (clock.now * Duration.nanosPerMilli + plan.budget.nanos) operation
        (4294967295 + 1) 0 clock state := by
  rw [retry, attemptLimit_eq]

theorem RetryPlan.draw_draws (plan : RetryPlan) (queue : List (Reply α)) :
    ∃ outcome, (plan.draw queue).outcome = some outcome ∧
      Draws queue outcome (plan.draw queue).state := by
  rw [RetryPlan.draw, retry_eq]
  exact retryUntil_draws plan _ 4294967295 0 rfl (Nat.zero_le _) queue

theorem RetryPlan.draws_of_draw {plan : RetryPlan} {queue : List (Reply α)}
    {drawn : Except RetryFailure (Option α)} (outcome : (plan.draw queue).outcome = some drawn) :
    Draws queue drawn (plan.draw queue).state := by
  obtain ⟨other, same, draws⟩ := plan.draw_draws queue
  rw [outcome] at same
  exact Option.some.inj same ▸ draws

/-- A retried operation that answers from scripted replies makes of them what anyone makes. -/
theorem retry_imitates {operation : Operation σ α} {related : σ → List (Reply β) → Prop}
    {fits : σ → α → Option β → Prop} (imitates : operation.Imitates .scripted related fits)
    (plan : RetryPlan) {clock : Clock} (patient : clock.limit = none) {state : σ}
    {queue : List (Reply β)} (start : related state queue) :
    (retry plan .silent operation 0 clock state).Imitates (plan.draw queue) related fits := by
  have ahead : Clock.Ahead clock.now clock .start := ⟨patient, rfl, (Nat.zero_add _).symm⟩
  have deadlines : clock.now * Duration.nanosPerMilli + plan.budget.nanos =
      (Clock.start.now * Duration.nanosPerMilli + plan.budget.nanos) +
        clock.now * Duration.nanosPerMilli := by
    simp only [Clock.start, Nat.zero_mul, Nat.zero_add]
    omega
  rw [RetryPlan.draw, retry_eq, retry_eq, deadlines]
  exact retryUntil_imitates imitates plan _ _ _ _ ahead start

namespace World

/-- The caller waits as long as it takes, and no signal ever comes. -/
structure Patient (world : World σ) : Prop where
  limit : world.clock.limit = none
  silent : world.signal = .silent

theorem start_patient (service : σ) (monitor : Monitor) : (start service monitor).Patient :=
  ⟨rfl, rfl⟩

theorem Patient.report {world : World σ} (patient : world.Patient) (report : Report) :
    (world.report report).Patient := by
  cases report <;> exact ⟨patient.limit, patient.silent⟩

theorem Patient.reportAll {world : World σ} (patient : world.Patient) (reports : List Report) :
    (world.reportAll reports).Patient := by
  obtain ⟨_, _, same⟩ := world.reportAll_eq reports
  rw [same]
  exact ⟨patient.limit, patient.silent⟩

/-- Every request that has been sent so far, once for each attempt. -/
def requests (world : World σ) : List Request := world.calls.map Prod.snd

@[simp] theorem report_requests (world : World σ) (report : Report) :
    (world.report report).requests = world.requests := by
  cases report <;> rfl

@[simp] theorem reportAll_requests (world : World σ) (reports : List Report) :
    (world.reportAll reports).requests = world.requests := by
  rw [requests, calls, reportAll_exchanges, requests, calls]

/-- A patient caller has asked one question with so many attempts, and it came to the outcome. -/
structure Asked (world : World σ) (request : Request) (attempts : Nat)
    (outcome : Except RetryFailure request.Answer) (later : World σ) : Prop where
  patient : later.Patient
  requests : later.requests = world.requests ++ List.replicate attempts request
  descriptions : later.descriptions = world.descriptions ++
    Exchange.descriptions ⟨request, [], some outcome⟩

/-- A question that is answered from scripted replies draws from them. -/
theorem settle_draws {service : Service σ} {request : Request}
    {related : σ → List (Reply β) → Prop} {fits : σ → request.Answer → Option β → Prop}
    (imitates : Operation.Imitates (service.call request) .scripted related fits)
    (plan : Nat → RetryPlan) {world : World σ} (patient : world.Patient) {queue : List (Reply β)}
    (start : related world.service queue) :
    let replied := (plan world.calls.length).draw queue
    ∃ outcome drawn later, world.settle service plan request =
        (some (request.settle outcome), later) ∧
      replied.outcome = some drawn ∧ Matches (fits later.service) outcome drawn ∧
      related later.service replied.state ∧
      world.Asked request replied.made.length outcome later := by
  intro replied
  obtain ⟨limit, ⟨outcome, drawn, ended, drawnEnded, fit⟩, after, made⟩ :=
    retry_imitates imitates (plan world.calls.length) patient.limit start
  unfold settle
  rw [patient.silent]
  generalize retry (plan world.calls.length) .silent (service.call request) 0 world.clock
    world.service = retried at ended limit fit after made ⊢
  change retried.made.length = replied.made.length at made
  simp only [ended]
  refine ⟨outcome, drawn, _, rfl, drawnEnded, fit, after, ⟨⟨limit, rfl⟩, ?_, ?_⟩⟩
  · simp only [requests, calls, notify, List.flatMap_append, List.flatMap_singleton,
      List.map_append, Exchange.calls, List.map_map, ← made]
    exact congrArg _ (List.map_const' ..)
  · simp only [descriptions, notify, List.flatMap_append, List.flatMap_singleton]
    cases outcome <;> rfl

end World

end ShardedStream
