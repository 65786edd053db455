import ShardedStream.World

/-!
The attempts of an operation.
Every attempt but the last one has been throttled, so the outcome of an operation is told by its
last attempt alone: it fails for good exactly when that attempt failed with something else.
-/

namespace ShardedStream

variable {σ α : Type}

/-- An operation without an answer has used up its time, or met the signal, or been left. -/
def Unanswered : Option (Except RetryFailure α) → Prop
  | none => True
  | some (.error (.exhausted _)) => True
  | some (.error .interrupted) => True
  | some (.error (.fatal _)) => False
  | some (.ok _) => False

/-- These attempts come to this outcome. -/
inductive Tries : List (Attempt α) → Option (Except RetryFailure α) → Prop where
  | ceased {outcome : Option (Except RetryFailure α)} (unanswered : Unanswered outcome) :
      Tries [] outcome
  | answered (start stop : Nat) (value : α) :
      Tries [⟨start, stop, some (.ok value)⟩] (some (.ok value))
  | refused (start stop : Nat) {fault : Fault} (final : fault.isThrottling = false) :
      Tries [⟨start, stop, some (.error fault)⟩] (some (.error (.fatal fault)))
  | hung (start stop : Nat) {outcome : Option (Except RetryFailure α)}
      (unanswered : Unanswered outcome) : Tries [⟨start, stop, none⟩] outcome
  | throttled (start stop : Nat) {fault : Fault} {attempts : List (Attempt α)}
      {outcome : Option (Except RetryFailure α)} (throttling : fault.isThrottling = true)
      (rest : Tries attempts outcome) :
      Tries (⟨start, stop, some (.error fault)⟩ :: attempts) outcome

/-- This is what the last attempt came to, if there was one and it was waited for. -/
def lastResult? (attempts : List (Attempt α)) : Option (Except Fault α) :=
  attempts.getLast?.bind Attempt.result

/-- Nothing comes after the only element of a list. -/
theorem nothing_after_only {only element : α} {earlier later : List α}
    (split : [only] = earlier ++ element :: later) : later = [] := by
  cases earlier with
  | nil => exact (List.cons.inj split).2.symm
  | cons first earlier =>
      have rest := (List.cons.inj split).2
      cases earlier <;> cases rest

namespace Tries

variable {attempts : List (Attempt α)} {outcome : Option (Except RetryFailure α)}

/-- An operation fails for good when its last attempt failed with something else than throttling. -/
theorem fatal_iff (tries : Tries attempts outcome) {fault : Fault} :
    outcome = some (.error (.fatal fault)) ↔
      lastResult? attempts = some (.error fault) ∧ fault.isThrottling = false := by
  induction tries with
  | ceased unanswered =>
      constructor
      · rintro rfl
        exact unanswered.elim
      · rintro ⟨last, _⟩
        cases last
  | answered start stop value => simp [lastResult?]
  | @refused start stop fault final =>
      simp only [lastResult?, List.getLast?_singleton, Option.bind_some, Option.some.injEq,
        Except.error.injEq, RetryFailure.fatal.injEq]
      exact ⟨fun same => ⟨same, same ▸ final⟩, And.left⟩
  | hung start stop unanswered =>
      constructor
      · rintro rfl
        exact unanswered.elim
      · rintro ⟨last, _⟩
        cases last
  | @throttled start stop first attempts outcome throttling rest inductionHypothesis =>
      rw [inductionHypothesis]
      cases attempts with
      | nil =>
          constructor
          · rintro ⟨last, _⟩
            cases last
          · rintro ⟨last, final⟩
            cases last
            rw [throttling] at final
            cases final
      | cons second attempts => simp only [lastResult?, List.getLast?_cons_cons]

/-- An operation succeeds when its last attempt did, and with the same value. -/
theorem ok_iff (tries : Tries attempts outcome) {value : α} :
    outcome = some (.ok value) ↔ lastResult? attempts = some (.ok value) := by
  induction tries with
  | ceased unanswered =>
      constructor
      · rintro rfl
        exact unanswered.elim
      · intro last
        cases last
  | answered start stop value => simp [lastResult?]
  | refused start stop final => simp [lastResult?]
  | hung start stop unanswered =>
      constructor
      · rintro rfl
        exact unanswered.elim
      · intro last
        cases last
  | @throttled start stop first attempts outcome throttling rest inductionHypothesis =>
      rw [inductionHypothesis]
      cases attempts with
      | nil => simp [lastResult?]
      | cons second attempts => simp only [lastResult?, List.getLast?_cons_cons]

/-- No attempt follows one that was not throttled. -/
theorem ended_or_throttled (tries : Tries attempts outcome) {earlier later : List (Attempt α)}
    {attempt : Attempt α} (split : attempts = earlier ++ attempt :: later) :
    later = [] ∨ ∃ fault, attempt.result = some (.error fault) ∧ fault.isThrottling = true := by
  induction tries generalizing earlier with
  | ceased _ => simp at split
  | answered _ _ _ => exact .inl (nothing_after_only split)
  | refused _ _ _ => exact .inl (nothing_after_only split)
  | hung _ _ _ => exact .inl (nothing_after_only split)
  | throttled start stop throttling rest inductionHypothesis =>
      cases earlier with
      | nil =>
          obtain ⟨rfl, _⟩ := List.cons.inj split
          exact .inr ⟨_, rfl, throttling⟩
      | cons first earlier => exact inductionHypothesis (List.cons.inj split).2

end Tries

/-- A pause makes no attempt. -/
theorem pauseThen_tries {state : σ} (plan : RetryPlan) (signal : Signal)
    (remaining pause : Duration) (attempts : Nat) (clock : Clock) {again : Clock → Retried σ α}
    (next : ∀ clock, Tries (again clock).made (again clock).outcome) :
    Tries (pauseThen plan signal remaining pause attempts clock state again).made
      (pauseThen plan signal remaining pause attempts clock state again).outcome := by
  unfold pauseThen
  dsimp only
  split
  · refine .ceased ?_
    simp only [Retried.stop]
    split <;> trivial
  · split
    · exact .ceased trivial
    · split
      · exact .ceased trivial
      · exact next _

/-- The attempts of a retried operation come to its outcome. -/
theorem retryUntil_tries (plan : RetryPlan) (signal : Signal) (deadline : Nat)
    (operation : Operation σ α) (fuel attempts : Nat) (clock : Clock) (state : σ) :
    Tries (retryUntil plan signal deadline operation fuel attempts clock state).made
      (retryUntil plan signal deadline operation fuel attempts clock state).outcome := by
  induction fuel generalizing attempts clock state with
  | zero => exact .ceased trivial
  | succ fuel inductionHypothesis =>
      simp only [retryUntil]
      by_cases raised : signal.raisedAt clock.now
      · rw [if_pos raised]
        exact .ceased trivial
      · rw [if_neg raised]
        simp only [Retried.after, afterAttempt]
        generalize awaitReply (Duration.mk deadline).ceilMillis clock
          (operation clock.now state).1 = awaited
        obtain ⟨⟨start, stop, result⟩, patient, woken⟩ := awaited
        cases result with
        | none =>
            refine .hung start stop ?_
            simp only [Retried.stop]
            split <;> trivial
        | some reply =>
            cases reply with
            | ok value => exact .answered start stop value
            | error fault =>
                simp only [afterFault]
                cases throttling : fault.isThrottling with
                | true =>
                    rw [Bool.not_true, if_neg Bool.false_ne_true]
                    split
                    · exact .throttled start stop throttling (.ceased trivial)
                    · exact .throttled start stop throttling
                        (pauseThen_tries plan signal _ _ _ _ fun clock =>
                          inductionHypothesis _ clock _)
                | false => exact .refused start stop throttling

/-- This failure of a call ends the pass: a pass goes on without a shard that is gone, and a void
token is asked for again. -/
def Request.isFatal (request : Request) (fault : Fault) : Bool :=
  !fault.isThrottling && !fault.isNotFound &&
    match request with
    | .listShards _ => true
    | .openIterator _ _ _ => true
    | .readRecords _ _ => !fault.isExpiredIterator

theorem Request.isThrottling_of_isFatal {request : Request} {fault : Fault}
    (fatal : request.isFatal fault = true) : fault.isThrottling = false := by
  simp only [isFatal, Bool.and_eq_true, Bool.not_eq_true'] at fatal
  exact fatal.1.1

/-- A failure that ends the pass is what its question comes to. -/
theorem Request.settle_of_isFatal {request : Request} {fault : Fault}
    (fatal : request.isFatal fault = true) :
    request.settle (.error (.fatal fault)) = .error fault := by
  simp only [isFatal, Bool.and_eq_true, Bool.not_eq_true'] at fatal
  simp only [settle, fatal.1.2, Bool.false_eq_true, if_false]

/-- The last attempt of the operation failed with a fault that ends the pass. -/
def Exchange.AbortsWith (exchange : Exchange) (fault : Fault) : Prop :=
  lastResult? exchange.attempts = some (.error fault) ∧ exchange.request.isFatal fault = true

/-- The attempts on record come to the outcome on record. -/
def Exchange.Tried (exchange : Exchange) : Prop := Tries exchange.attempts exchange.outcome

/-- An operation ends its pass by an outcome that is final for its request. -/
theorem Exchange.Tried.abortsWith_iff {exchange : Exchange} (tried : exchange.Tried)
    {fault : Fault} : exchange.AbortsWith fault ↔
      exchange.outcome = some (.error (.fatal fault)) ∧
        exchange.request.isFatal fault = true := by
  rw [tried.fatal_iff, AbortsWith]
  constructor
  · rintro ⟨last, fatal⟩
    exact ⟨⟨last, Request.isThrottling_of_isFatal fatal⟩, fatal⟩
  · rintro ⟨⟨last, _⟩, fatal⟩
    exact ⟨last, fatal⟩

/-- Every question is one retried operation, which is put on record and settles it. -/
theorem World.settle_retried (service : Service σ) (plan : Nat → RetryPlan) (request : Request)
    (world : World σ) :
    let retried := retry (plan world.calls.length) world.signal (service.call request) 0
      world.clock world.service
    let settled := world.settle service plan request
    settled.1 = retried.outcome.map request.settle ∧ settled.2.service = retried.state ∧
      settled.2.clock = retried.clock ∧ settled.2.signal = world.signal ∧
      settled.2.exchanges = world.exchanges ++ [⟨request, retried.made, retried.outcome⟩] := by
  dsimp only
  unfold settle
  generalize retry (plan world.calls.length) world.signal (service.call request) 0 world.clock
    world.service = retried
  obtain ⟨outcome, attempts, made, notices, clock, state⟩ := retried
  cases outcome with
  | none => exact ⟨rfl, rfl, rfl, rfl, rfl⟩
  | some said => exact ⟨rfl, rfl, rfl, rfl, rfl⟩

/-- The operation that a question puts on record comes from its attempts. -/
theorem World.settle_tried (service : Service σ) (plan : Nat → RetryPlan) (request : Request)
    (world : World σ) :
    ∃ attempts outcome, Exchange.Tried ⟨request, attempts, outcome⟩ ∧
      (world.settle service plan request).1 = outcome.map request.settle ∧
      (world.settle service plan request).2.exchanges =
        world.exchanges ++ [⟨request, attempts, outcome⟩] := by
  obtain ⟨settled, -, -, -, recorded⟩ := settle_retried service plan request world
  refine ⟨_, _, ?_, settled, recorded⟩
  exact retryUntil_tries _ world.signal _ (service.call request) _ 0 world.clock world.service

end ShardedStream
