import ShardedStream.Proofs.Session.Log

/-!
Where a tracked shard stands in its log.
The phase, the token, the start, the entry and the withheld records of a shard all mean one place of
its log; a step moves that place on by the records that it read.
-/

namespace ShardedStream

/-- These are the records of one shard among those to hand out, in order. -/
def recordsOf (shard : ShardId) (deliveries : List Delivery) : List Record :=
  (deliveries.filter fun delivery => delivery.shard == shard).map Delivery.record

theorem recordsOf_append (shard : ShardId) (first second : List Delivery) :
    recordsOf shard (first ++ second) = recordsOf shard first ++ recordsOf shard second := by
  rw [recordsOf, List.filter_append, List.map_append]
  rfl

theorem recordsOf_cons_self (delivery : Delivery) (rest : List Delivery) :
    recordsOf delivery.shard (delivery :: rest) =
      delivery.record :: recordsOf delivery.shard rest := by
  simp [recordsOf]

theorem recordsOf_cons_ne {shard : ShardId} {delivery : Delivery} (rest : List Delivery)
    (other : delivery.shard ≠ shard) :
    recordsOf shard (delivery :: rest) = recordsOf shard rest := by
  simp [recordsOf, other]

/-- A shard that is not among the deliveries has no records there. -/
theorem recordsOf_eq_nil {shard : ShardId} {deliveries : List Delivery}
    (absent : ∀ delivery ∈ deliveries, delivery.shard ≠ shard) :
    recordsOf shard deliveries = [] := by
  rw [recordsOf, List.map_eq_nil_iff, List.filter_eq_nil_iff]
  exact fun delivery member same => absent delivery member (eq_of_beq same)

theorem recordsOf_own (shard : ShardId) (records : List Record) :
    recordsOf shard (records.map (Delivery.mk shard)) = records := by
  induction records with
  | nil => rfl
  | cons record records inductionHypothesis =>
      rw [List.map_cons, recordsOf_cons_self ⟨shard, record⟩, inductionHypothesis]

variable {σ : Type} {service : Service σ} (logs : LogService service)

namespace LogService

variable {logs}

/-- Calls let the logs grow and keep everything else about them. -/
structure Outgrows (logs : LogService service) (before after : σ) : Prop where
  grows : ∀ shard, logs.log before shard <+: logs.log after shard
  closed : ∀ shard, logs.closed before shard →
    logs.closed after shard ∧ logs.log after shard = logs.log before shard
  tokens : ∀ token shard place, logs.stands before token shard place →
    logs.stands after token shard place

theorem outgrows_of_leads {before after : σ} (leads : service.Leads before after) :
    logs.Outgrows before after := by
  induction leads with
  | refl =>
      exact ⟨fun _ => List.prefix_refl _, fun _ closed => ⟨closed, rfl⟩,
        fun _ _ _ stands => stands⟩
  | tail _ called inductionHypothesis =>
      obtain ⟨request, time, rfl⟩ := called
      refine ⟨fun shard =>
          (inductionHypothesis.grows shard).trans (logs.grows request time _ shard),
        fun shard closed => ?_, fun token shard place stands =>
          logs.keepsTokens request time _ token shard place
            (inductionHypothesis.tokens token shard place stands)⟩
      obtain ⟨stillClosed, same⟩ := inductionHypothesis.closed shard closed
      obtain ⟨closed, unchanged⟩ := logs.staysClosed request time _ shard stillClosed
      exact ⟨closed, unchanged.trans same⟩

end LogService

/--
This is what a phase says about the log: where the shard will be read next, once the withheld
records have been handed out.
-/
def PhaseStands (logs : LogService service) (state : σ) (shard : ShardId) (start : Position)
    (handed withheld : List Record) : Phase → Prop
  | .waiting position => withheld = [] ∧ Continues (logs.log state shard) start handed position
  | .reading token => ∃ place, RunsTo (logs.log state shard) start (handed ++ withheld) place ∧
      logs.stands state token shard place
  | .exhausted => RunsTo (logs.log state shard) start (handed ++ withheld)
      (logs.log state shard).length ∧ logs.closed state shard
  | .done => RunsTo (logs.log state shard) start (handed ++ withheld)
      (logs.log state shard).length ∧ logs.closed state shard

/-- A tracked shard opened at `start` stands where its handed-out and withheld records end. -/
structure Stance (logs : LogService service) (state : σ) (checkpoint : Checkpoint)
    (start : Position) (tracked : Tracked) (handed withheld : List Record) : Prop where
  resumes : Continues (logs.log state tracked.id) start handed (tracked.resume checkpoint)
  phase : PhaseStands logs state tracked.id start handed withheld tracked.phase

variable {logs} {state later : σ} {shard : ShardId} {start : Position} {tracked : Tracked}
  {handed withheld : List Record} {checkpoint : Checkpoint}

theorem PhaseStands.mono {phase : Phase} (outgrows : logs.Outgrows state later)
    (stands : PhaseStands logs state shard start handed withheld phase) :
    PhaseStands logs later shard start handed withheld phase := by
  cases phase with
  | waiting position => exact ⟨stands.1, stands.2.mono (outgrows.grows shard)⟩
  | reading token =>
      obtain ⟨place, runs, here⟩ := stands
      exact ⟨place, runs.mono (outgrows.grows shard), outgrows.tokens token shard place here⟩
  | exhausted =>
      obtain ⟨closed, same⟩ := outgrows.closed shard stands.2
      exact ⟨same ▸ stands.1, closed⟩
  | done =>
      obtain ⟨closed, same⟩ := outgrows.closed shard stands.2
      exact ⟨same ▸ stands.1, closed⟩

theorem Stance.mono (outgrows : logs.Outgrows state later)
    (stance : Stance logs state checkpoint start tracked handed withheld) :
    Stance logs later checkpoint start tracked handed withheld :=
  ⟨stance.resumes.mono (outgrows.grows _), stance.phase.mono outgrows⟩

/-- A shard with withheld records has run up to all of them. -/
theorem PhaseStands.runs {phase : Phase} {record : Record} {rest : List Record}
    (stands : PhaseStands logs state shard start handed (record :: rest) phase) :
    ∃ place, RunsTo (logs.log state shard) start (handed ++ record :: rest) place := by
  cases phase with
  | waiting position => cases stands.1
  | reading token =>
      obtain ⟨place, runs, _⟩ := stands
      exact ⟨place, runs⟩
  | exhausted => exact ⟨_, stands.1⟩
  | done => exact ⟨_, stands.1⟩

/-- A record that is handed out leaves the phase where it stands. -/
theorem PhaseStands.handOut {phase : Phase} {record : Record} {rest : List Record}
    (stands : PhaseStands logs state shard start handed (record :: rest) phase) :
    PhaseStands logs state shard start (handed ++ [record]) rest phase := by
  cases phase with
  | waiting position => cases stands.1
  | reading token =>
      obtain ⟨place, runs, here⟩ := stands
      exact ⟨place, by rwa [List.append_assoc], here⟩
  | exhausted => exact ⟨by rw [List.append_assoc]; exact stands.1, stands.2⟩
  | done => exact ⟨by rw [List.append_assoc]; exact stands.1, stands.2⟩

/-- A shard that goes back to its first withheld record withholds nothing any more. -/
theorem Stance.restartAt {record : Record} {rest : List Record}
    (stance : Stance logs state checkpoint start tracked handed (record :: rest)) :
    Stance logs state checkpoint start
      { tracked with
        phase := .waiting (.atSequence record.sequence)
        start := .atSequence record.sequence }
      handed [] := by
  obtain ⟨place, runs⟩ := stance.phase.runs
  have next := Continues.atNext runs
  refine ⟨?_, rfl, next⟩
  have resumes := stance.resumes
  unfold Tracked.resume at resumes ⊢
  cases saved : checkpoint.get? tracked.id with
  | none => exact next
  | some sequence =>
      rw [saved] at resumes
      exact resumes

/-- A read from a token that stands in the log moves its shard on by what it read. -/
theorem phaseStands_of_reads {reader : Reader} {token : Token} {fresh : Bool}
    {world after : World σ} {outcome : Outcome} {place : Nat} {resume : Position}
    (reads : reader.Reads service tracked.id token fresh world outcome after)
    (runs : RunsTo (logs.log world.service tracked.id) start handed place)
    (stands : logs.stands world.service token tracked.id place)
    (resumes : Continues (logs.log world.service tracked.id) start handed resume)
    (held : fresh = false → tracked.phase = .reading token) :
    PhaseStands logs after.service tracked.id start handed outcome.records
      (tracked.enter (outcome.transition.phase? resume)).phase := by
  cases reads with
  | @batch batch _ settles =>
      cases settles with
      | answered leads said became _ =>
          have outgrows := logs.outgrows_of_leads leads
          obtain ⟨follows, next⟩ := logs.reads _ _ _ _ _ _ _ said
            (outgrows.tokens _ _ _ stands)
          have continued := ((runs.mono (outgrows.grows _)).mono
            (logs.grows _ _ _ _)).append follows
          rw [← became] at continued next
          obtain ⟨records, nextToken, lag⟩ := batch
          cases nextToken with
          | none =>
              obtain ⟨closed, ends⟩ := next
              refine ⟨?_, closed⟩
              rw [← ends]
              exact continued
          | some token => exact ⟨_, continued, next⟩
      | refused leads said fatal settled _ _ =>
          have known := logs.readsKnown _ _ _ _ _ said
          rw [Request.settle, known] at settled
          cases settled
  | postponed settles =>
      have outgrows := logs.outgrows_of_leads (World.precedes_of_settles settles).leads
      have kept : PhaseStands logs after.service tracked.id start handed [] (.reading token) :=
        ⟨place, by
          rw [List.append_nil]
          exact runs.mono (outgrows.grows _), outgrows.tokens _ _ _ stands⟩
      cases fresh with
      | true => exact kept
      | false => exact (held rfl).symm ▸ kept
  | expired settles =>
      have outgrows := logs.outgrows_of_leads (World.precedes_of_settles settles).leads
      exact ⟨rfl, resumes.mono (outgrows.grows _)⟩

/-- A step moves its shard on by what it read. -/
theorem phaseStands_of_steps {reader : Reader} {world after : World σ} {outcome : Outcome}
    (known : start ≠ .latest) (steps : reader.Steps service tracked world outcome after)
    (stance : Stance logs world.service reader.checkpoint start tracked handed []) :
    PhaseStands logs after.service tracked.id start handed outcome.records
      (tracked.enter (outcome.transition.phase? (tracked.resume reader.checkpoint))).phase := by
  have moved := stance.mono (logs.outgrows_of_leads steps.precedes.leads)
  have phase := stance.phase
  cases steps with
  | opened waiting settles reads =>
      rw [waiting] at phase
      have outgrows := logs.outgrows_of_leads (World.precedes_of_settles settles).leads
      cases settles with
      | answered leads said became _ =>
          obtain ⟨place, here, stands⟩ := logs.opens _ _ _ _ _ _ said (phase.2.ne_latest known)
          rw [← became] at here stands
          have runs := (phase.2.mono (outgrows.grows _)).runsTo (logs.distinct _ _) here
          have resumes := stance.resumes.mono (outgrows.grows _)
          exact phaseStands_of_reads reads (by rwa [World.report_service])
            (by rwa [World.report_service]) (by rwa [World.report_service])
            fun other => by cases other
      | refused leads said fatal settled _ _ =>
          rw [Request.settle] at settled
          split at settled <;> cases settled
  | unopened waiting settles => exact moved.phase
  | missing waiting notFound settles =>
      cases settles with
      | refused leads said fatal settled _ _ =>
          have known := logs.opensKnown _ _ _ _ _ _ said
          rw [Request.settle, known] at settled
          cases settled
          rw [known] at notFound
          cases notFound
  | read reading reads =>
      rw [reading] at phase
      obtain ⟨place, runs, stands⟩ := phase
      rw [List.append_nil] at runs
      exact phaseStands_of_reads reads runs stands stance.resumes fun _ => reading
  | described ended settles =>
      have ends := moved.phase
      rw [ended] at ends
      exact ends
  | undescribed ended settles => exact moved.phase
  | idle finished => exact moved.phase

end ShardedStream
