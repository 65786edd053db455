import Mathlib.Logic.Relation
import ShardedStream.World

/-!
What a question comes to.
An operation has the outcome of its last call or none, and the state of the service changes by calls
alone, so everything known about single calls holds of a whole dialogue.
-/

namespace ShardedStream

variable {σ α : Type}

/-- One state of an operation leads to another by some calls. -/
def Operation.Leads (operation : Operation σ α) : σ → σ → Prop :=
  Relation.ReflTransGen fun before after => ∃ time, (operation time before).2 = after

/-- One state of a service leads to another by some calls. -/
def Service.Leads (service : Service σ) : σ → σ → Prop :=
  Relation.ReflTransGen fun before after =>
    ∃ request time, (service.call request time before).2 = after

theorem Service.leads_of_call {service : Service σ} {request : Request} {before after : σ}
    (leads : Operation.Leads (service.call request) before after) : service.Leads before after :=
  Relation.ReflTransGen.mono (fun _ _ ⟨time, called⟩ => ⟨request, time, called⟩) _ _ leads

/-- The outcome of a retried operation is that of its last call, or there is none. -/
inductive Concludes (operation : Operation σ α) (state : σ) :
    Option (Except RetryFailure α) → σ → Prop where
  | answered {asked : σ} {time : Nat} {value : α} (leads : operation.Leads state asked)
      (said : (operation time asked).1.result = .ok value) :
      Concludes operation state (some (.ok value)) (operation time asked).2
  | refused {asked : σ} {time : Nat} {fault : Fault} (leads : operation.Leads state asked)
      (said : (operation time asked).1.result = .error fault)
      (fatal : fault.isThrottling = false) :
      Concludes operation state (some (.error (.fatal fault))) (operation time asked).2
  | exhausted {after : σ} {budget : Duration} (leads : operation.Leads state after) :
      Concludes operation state (some (.error (.exhausted budget))) after
  | interrupted {after : σ} (leads : operation.Leads state after) :
      Concludes operation state (some (.error .interrupted)) after
  | abandoned {after : σ} (leads : operation.Leads state after) :
      Concludes operation state none after

namespace Concludes

variable {operation : Operation σ α} {state : σ}

/-- A call made before changes nothing about how an operation concludes. -/
theorem after_call {time : Nat} {outcome : Option (Except RetryFailure α)} {after : σ}
    (concludes : Concludes operation (operation time state).2 outcome after) :
    Concludes operation state outcome after := by
  have first : ∀ {next : σ}, operation.Leads (operation time state).2 next →
      operation.Leads state next := fun leads => .head ⟨time, rfl⟩ leads
  cases concludes with
  | answered leads said => exact .answered (first leads) said
  | refused leads said fatal => exact .refused (first leads) said fatal
  | exhausted leads => exact .exhausted (first leads)
  | interrupted leads => exact .interrupted (first leads)
  | abandoned leads => exact .abandoned (first leads)

theorem leads {outcome : Option (Except RetryFailure α)} {after : σ}
    (concludes : Concludes operation state outcome after) : operation.Leads state after := by
  cases concludes with
  | answered leads _ => exact leads.tail ⟨_, rfl⟩
  | refused leads _ _ => exact leads.tail ⟨_, rfl⟩
  | exhausted leads => exact leads
  | interrupted leads => exact leads
  | abandoned leads => exact leads

end Concludes

/-- A pause makes no call. -/
theorem pauseThen_concludes {operation : Operation σ α} {state : σ} (plan : RetryPlan)
    (signal : Signal) (remaining pause : Duration) (attempts : Nat) (clock : Clock)
    {again : Clock → Retried σ α}
    (next : ∀ clock, Concludes operation state (again clock).outcome (again clock).state) :
    Concludes operation state
      (pauseThen plan signal remaining pause attempts clock state again).outcome
      (pauseThen plan signal remaining pause attempts clock state again).state := by
  unfold pauseThen
  dsimp only
  split
  · unfold Retried.stop
    split
    · exact .interrupted .refl
    · exact .abandoned .refl
  · split
    · exact .abandoned .refl
    · split
      · exact .exhausted .refl
      · exact next _

/-- A retried operation concludes with its last call, or without an answer. -/
theorem retryUntil_concludes (plan : RetryPlan) (signal : Signal) (deadline : Nat)
    (operation : Operation σ α) (fuel attempts : Nat) (clock : Clock) (state : σ) :
    Concludes operation state
      (retryUntil plan signal deadline operation fuel attempts clock state).outcome
      (retryUntil plan signal deadline operation fuel attempts clock state).state := by
  induction fuel generalizing attempts clock state with
  | zero => exact .exhausted .refl
  | succ fuel inductionHypothesis =>
      simp only [retryUntil]
      by_cases raised : signal.raisedAt clock.now
      · rw [if_pos raised]
        exact .interrupted .refl
      · rw [if_neg raised]
        have called : operation.Leads state (operation clock.now state).2 :=
          .single ⟨clock.now, rfl⟩
        simp only [Retried.after, afterAttempt]
        cases result : (awaitReply (Duration.mk deadline).ceilMillis clock
          (operation clock.now state).1).attempt.result with
        | none =>
            simp only [Retried.stop]
            split
            · exact .exhausted called
            · exact .abandoned called
        | some reply =>
            have said : (operation clock.now state).1.result = reply := by
              simp only [awaitReply] at result
              split at result
              · exact Option.some.inj result
              · cases result
            cases reply with
            | ok value => exact .answered .refl said
            | error fault =>
                simp only [afterFault]
                -- A throttled call is made again from the state that it has left.
                by_cases throttling : fault.isThrottling
                · rw [throttling, if_neg (by decide)]
                  split
                  · exact .exhausted called
                  · exact .after_call (pauseThen_concludes plan signal _ _ _ _ fun clock =>
                      inductionHypothesis _ clock _)
                · rw [Bool.not_eq_true] at throttling
                  rw [throttling]
                  exact .refused .refl said throttling

/-- An answered description is on record. -/
def Request.described : (request : Request) → request.Answer → List (List Shard)
  | .listShards _, shards => [shards]
  | .openIterator _ _ _, _ => []
  | .readRecords _ _, _ => []

def Exchange.descriptions (exchange : Exchange) : List (List Shard) :=
  match exchange.outcome with
  | some (.ok answer) => exchange.request.described answer
  | _ => []

/-- Every description of the stream that has been answered, in order. -/
def World.descriptions (world : World σ) : List (List Shard) :=
  world.exchanges.flatMap Exchange.descriptions

/-- A question is answered by the last of some calls, or it stays open after them. -/
inductive Settles (service : Service σ) (request : Request) (world : World σ) :
    Settled request → World σ → Prop where
  | answered {asked : σ} {time : Nat} {answer : request.Answer} {later : World σ}
      (leads : service.Leads world.service asked)
      (said : (service.call request time asked).1.result = .ok answer)
      (became : later.service = (service.call request time asked).2)
      (descriptions : later.descriptions = world.descriptions ++ request.described answer) :
      Settles service request world (.ok (some answer)) later
  | refused {asked : σ} {time : Nat} {fault : Fault} {settled : Settled request}
      {later : World σ} (leads : service.Leads world.service asked)
      (said : (service.call request time asked).1.result = .error fault)
      (fatal : fault.isThrottling = false)
      (settles : settled = request.settle (.error (.fatal fault)))
      (became : later.service = (service.call request time asked).2)
      (descriptions : later.descriptions = world.descriptions) :
      Settles service request world settled later
  | postponed {later : World σ} (leads : service.Leads world.service later.service)
      (descriptions : later.descriptions = world.descriptions) :
      Settles service request world (.ok none) later

/-- A description that a question settles on goes on record. -/
theorem Settles.descriptions_of_some {service : Service σ} {stream : String}
    {shards : List Shard} {world later : World σ}
    (settles : Settles service (.listShards stream) world (.ok (some shards)) later) :
    later.descriptions = world.descriptions ++ [shards] := by
  cases settles with
  | answered _ _ _ descriptions => exact descriptions
  | refused _ _ _ settled _ _ =>
      simp only [Request.settle] at settled
      split at settled <;> cases settled

/-- A question that stays open puts nothing on record. -/
theorem Settles.descriptions_of_none {service : Service σ} {request : Request}
    {world later : World σ} (settles : Settles service request world (.ok none) later) :
    later.descriptions = world.descriptions := by
  cases settles with
  | refused _ _ _ _ _ descriptions => exact descriptions
  | postponed _ descriptions => exact descriptions

/-- One world comes after another: its service has been called, and its record has grown. -/
structure World.Precedes (service : Service σ) (world later : World σ) : Prop where
  leads : service.Leads world.service later.service
  descriptions : world.descriptions <+: later.descriptions

namespace World

variable {service : Service σ} {plan : Nat → RetryPlan} {request : Request} {world later : World σ}

theorem Precedes.refl (world : World σ) : world.Precedes service world :=
  ⟨.refl, List.prefix_refl _⟩

theorem Precedes.trans {between : World σ} (first : world.Precedes service between)
    (second : between.Precedes service later) : world.Precedes service later :=
  ⟨first.leads.trans second.leads, first.descriptions.trans second.descriptions⟩

/-- A settled question moves the world on. -/
theorem precedes_of_settles {settled : Settled request}
    (settles : Settles service request world settled later) : world.Precedes service later := by
  cases settles with
  | answered leads _ became descriptions =>
      exact ⟨leads.tail ⟨_, _, became.symm⟩, _, descriptions.symm⟩
  | refused leads _ _ _ became descriptions =>
      exact ⟨leads.tail ⟨_, _, became.symm⟩, descriptions ▸ List.prefix_refl _⟩
  | postponed leads descriptions => exact ⟨leads, descriptions ▸ List.prefix_refl _⟩

/-- Reports are nothing that the service sees. -/
@[simp] theorem report_service (world : World σ) (report : Report) :
    (world.report report).service = world.service := by
  cases report <;> rfl

@[simp] theorem report_exchanges (world : World σ) (report : Report) :
    (world.report report).exchanges = world.exchanges := by
  cases report <;> rfl

@[simp] theorem report_descriptions (world : World σ) (report : Report) :
    (world.report report).descriptions = world.descriptions := by
  rw [descriptions, report_exchanges, descriptions]

@[simp] theorem report_clock (world : World σ) (report : Report) :
    (world.report report).clock = world.clock := by
  cases report <;> rfl

/-- Reports reach the monitor and the notices alone. -/
theorem reportAll_eq (world : World σ) (reports : List Report) :
    ∃ monitor notices, world.reportAll reports = { world with monitor, notices } := by
  induction reports generalizing world with
  | nil => exact ⟨_, _, rfl⟩
  | cons report reports inductionHypothesis =>
      obtain ⟨monitor, notices, same⟩ := inductionHypothesis (world.report report)
      refine ⟨monitor, notices, same.trans ?_⟩
      cases report <;> rfl

@[simp] theorem reportAll_service (world : World σ) (reports : List Report) :
    (world.reportAll reports).service = world.service := by
  obtain ⟨_, _, same⟩ := world.reportAll_eq reports
  rw [same]

@[simp] theorem reportAll_exchanges (world : World σ) (reports : List Report) :
    (world.reportAll reports).exchanges = world.exchanges := by
  obtain ⟨_, _, same⟩ := world.reportAll_eq reports
  rw [same]

@[simp] theorem reportAll_clock (world : World σ) (reports : List Report) :
    (world.reportAll reports).clock = world.clock := by
  obtain ⟨_, _, same⟩ := world.reportAll_eq reports
  rw [same]

@[simp] theorem reportAll_descriptions (world : World σ) (reports : List Report) :
    (world.reportAll reports).descriptions = world.descriptions := by
  rw [descriptions, reportAll_exchanges, descriptions]

/-- Reports do not keep one world from coming after another. -/
theorem Precedes.reported {between : World σ} (precedes : world.Precedes service between)
    (same : later.service = between.service)
    (recorded : later.descriptions = between.descriptions) : world.Precedes service later :=
  ⟨same ▸ precedes.leads, recorded ▸ precedes.descriptions⟩

/-- A retried question concludes, and its answer goes on record. -/
theorem settle_concludes (service : Service σ) (plan : Nat → RetryPlan) (request : Request)
    (world : World σ) :
    ∃ outcome, Concludes (service.call request) world.service outcome
        (world.settle service plan request).2.service ∧
      (world.settle service plan request).1 = outcome.map request.settle ∧
      (world.settle service plan request).2.descriptions = world.descriptions ++
        Exchange.descriptions ⟨request, [], outcome⟩ := by
  have concludes := retryUntil_concludes (plan world.calls.length) world.signal
    (world.clock.now * Duration.nanosPerMilli + (plan world.calls.length).budget.nanos)
    (service.call request) (attemptLimit - 0) 0 world.clock world.service
  unfold settle retry
  generalize retryUntil (plan world.calls.length) world.signal _ (service.call request) _ _ _ _ = retried
    at concludes ⊢
  obtain ⟨outcome, attempts, made, notices, clock, state⟩ := retried
  cases outcome with
  | none =>
      refine ⟨none, concludes, rfl, ?_⟩
      simp [descriptions, Exchange.descriptions]
  | some said =>
      refine ⟨some said, concludes, rfl, ?_⟩
      simp only [descriptions, notify, List.flatMap_append, List.flatMap_cons, List.flatMap_nil,
        List.append_nil]
      cases said <;> rfl

/-- A settled question is settled by the service. -/
theorem settle_settles {settled : Settled request}
    (asked : world.settle service plan request = (some settled, later)) :
    Settles service request world settled later := by
  obtain ⟨outcome, concludes, value, descriptions⟩ := settle_concludes service plan request world
  rw [asked] at concludes value descriptions
  obtain ⟨said, rfl, rfl⟩ := Option.map_eq_some_iff.mp value.symm
  generalize after : later.service = state at concludes
  cases concludes with
  | answered leads said =>
      exact .answered (Service.leads_of_call leads) said after descriptions
  | refused leads said fatal =>
      exact .refused (Service.leads_of_call leads) said fatal rfl after
        (descriptions.trans (List.append_nil _))
  | exhausted leads =>
      exact .postponed (after ▸ Service.leads_of_call leads)
        (descriptions.trans (List.append_nil _))
  | interrupted leads =>
      exact .postponed (after ▸ Service.leads_of_call leads)
        (descriptions.trans (List.append_nil _))

/-- A question moves the world on, whether or not its answer is waited for. -/
theorem settle_precedes (service : Service σ) (plan : Nat → RetryPlan) (request : Request)
    (world : World σ) : world.Precedes service (world.settle service plan request).2 := by
  obtain ⟨outcome, concludes, _, descriptions⟩ := settle_concludes service plan request world
  exact ⟨Service.leads_of_call concludes.leads, _, descriptions.symm⟩

/-- A dialogue relates two worlds as its questions and reports do, one after the other. -/
theorem converse_relates (Relates : World σ → World σ → Prop) (refl : ∀ world, Relates world world)
    (trans : ∀ {first second third}, Relates first second → Relates second third →
      Relates first third)
    (reported : ∀ world report, Relates world (world.report report))
    (settled : ∀ world request, Relates world (world.settle service plan request).2)
    (dialogue : Dialogue α) (world : World σ) :
    Relates world (world.converse service plan dialogue).2 := by
  induction dialogue generalizing world with
  | done value => exact refl world
  | tell report next inductionHypothesis =>
      exact trans (reported world report) (inductionHypothesis (world.report report))
  | ask request next inductionHypothesis =>
      have first := settled world request
      unfold converse
      generalize world.settle service plan request = asked at first
      obtain ⟨answer, between⟩ := asked
      cases answer with
      | none => exact first
      | some settled => exact trans first (inductionHypothesis settled between)

/-- A dialogue moves the world on. -/
theorem converse_precedes (service : Service σ) (plan : Nat → RetryPlan) (dialogue : Dialogue α)
    (world : World σ) : world.Precedes service (world.converse service plan dialogue).2 :=
  converse_relates (Precedes service) Precedes.refl Precedes.trans
    (fun world report =>
      (Precedes.refl world).reported (report_service world report)
        (report_descriptions world report))
    (fun world request => settle_precedes service plan request world) dialogue world

/-- A dialogue that ends goes on from the answer to its first question. -/
theorem converse_ask {next : Settled request → Dialogue α} {value : α}
    (ended : world.converse service plan (.ask request next) = (some value, later)) :
    ∃ settled between, Settles service request world settled between ∧
      between.converse service plan (next settled) = (some value, later) := by
  unfold converse at ended
  split at ended
  · cases ended
  · rename_i settled between asked
    exact ⟨settled, between, settle_settles asked, ended⟩

end World
end ShardedStream
