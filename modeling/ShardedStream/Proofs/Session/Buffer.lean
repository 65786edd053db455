import ShardedStream.Proofs.Reader.Consult
import ShardedStream.Proofs.Reader.Forget
import ShardedStream.Proofs.Session.Failure

/-!
What waits in a pass, and why the pass may be dropped at any time.
The end of a pass looks at the first record that waits and at nothing else. That is enough because
of what every turn preserves: the records that wait are the end of one batch, the one that was read
last, and its shard is as that batch has left it; nothing is asked while they wait; and the shards
still to visit are different ones, none of which is done.
-/

namespace ShardedStream

variable {σ : Type} {service : Service σ}

/-- A batch leaves its shard with the next token or at its end. -/
def Batch.phase (batch : Batch) : Phase :=
  match batch.next with
  | some next => .reading next
  | none => .exhausted

theorem Batch.hasRead_phase (batch : Batch) : batch.phase.HasRead := by
  unfold phase
  split <;> trivial

/-- The outcome of a batch moves its shard into the phase that the batch leaves it in. -/
theorem Outcome.phase?_ofBatch (shard : ShardId) (batch : Batch) (resume : Position) :
    (Outcome.ofBatch shard batch).transition.phase? resume = some batch.phase := by
  obtain ⟨records, next, lag⟩ := batch
  cases next <;> rfl

namespace Reader

variable {reader : Reader}

/-- The active shards are those that are still read, each once. -/
theorem Indexed.activeShards (indexed : reader.Indexed) :
    reader.activeShards.Nodup ∧ ∀ id ∈ reader.activeShards, reader.isReading id = true := by
  refine ⟨indexed.distinct.sublist (List.filter_sublist.map Tracked.id), fun id active => ?_⟩
  obtain ⟨tracked, chosen, rfl⟩ := List.mem_map.mp active
  obtain ⟨member, unfinished⟩ := List.mem_filter.mp chosen
  refine indexed.isReading_iff.mpr ⟨List.mem_map_of_mem member, indexed.not_isDone member ?_⟩
  simpa [Tracked.isActive] using unfinished

end Reader

namespace Session

variable {session : Session σ}

/-- These are the states of a pass: after any number of turns, whatever goes on around it. -/
inductive During (service : Service σ) (first : Session σ) : Session σ → Prop where
  | begins : During service first first
  | turn {session : Session σ} (during : During service first session) :
      During service first (session.advance service).2
  | surround {session : Session σ} (during : During service first session) (clock : Clock)
      (signal : Signal) (monitor : Monitor) :
      During service first { session with world := { session.world with clock, signal, monitor } }

/-- Whatever is asked of a pass, it is in one of its states afterwards. -/
theorem During.serve {first : Session σ} (during : During service first session)
    (demands : List Demand) : During service first (session.serve service demands).2 := by
  induction demands generalizing session with
  | nil => exact during
  | cons demand demands inductionHypothesis =>
      cases demand with
      | next spare patience =>
          have limited := during.surround (session.world.limitTo patience).clock
            session.world.signal session.world.monitor
          have answered := next_preserves (fun _ => During.turn) (spare + 1) limited
          exact inductionHypothesis (answered.surround _ _ _)
      | surround clock signal monitor =>
          exact inductionHypothesis (during.surround clock signal monitor)

/-- The records that wait are the end of the batch that was read last, and the shard of the batch
is as the batch has left it. -/
def HoldsLast (session : Session σ) (tracked : Tracked) : Prop :=
  ∃ batch, EndsWithBatch session.world.exchanges batch ∧
    session.pass.buffer <:+ batch.records.map (Delivery.mk tracked.id) ∧
    tracked.phase = batch.phase

/-- All that waits is of one shard. -/
theorem HoldsLast.shard {tracked : Tracked} (holds : session.HoldsLast tracked)
    {delivery : Delivery} (waits : delivery ∈ session.pass.buffer) :
    delivery.shard = tracked.id := by
  obtain ⟨batch, _, suffix, _⟩ := holds
  obtain ⟨record, _, rfl⟩ := List.mem_map.mp (suffix.subset waits)
  rfl

/-- This is what every turn of a pass preserves. -/
structure Orderly (session : Session σ) : Prop where
  indexed : session.reader.Indexed
  distinct : session.pass.queue.Nodup
  reading : ∀ id ∈ session.pass.queue, session.reader.isReading id = true
  last : session.pass.buffer ≠ [] →
    ∃ tracked ∈ session.reader.shards, session.HoldsLast tracked

namespace Orderly

/-- A pass begins with nothing to visit and nothing that waits. -/
theorem start {reader : Reader} (indexed : reader.Indexed) (world : World σ) :
    (Session.start reader world).Orderly :=
  ⟨indexed, List.nodup_nil, fun _ absent => absurd absent List.not_mem_nil,
    fun waits => absurd rfl waits⟩

/-- With nothing that waits only the queue is in question. -/
theorem of_empty (indexed : session.reader.Indexed) (distinct : session.pass.queue.Nodup)
    (reading : ∀ id ∈ session.pass.queue, session.reader.isReading id = true)
    (empty : session.pass.buffer = []) : session.Orderly :=
  ⟨indexed, distinct, reading, fun waits => absurd empty waits⟩

/-- To hand out a record shortens the batch, and moves no shard. -/
theorem handsOut (orderly : session.Orderly) {delivery : Delivery} {rest : List Delivery}
    (held : session.pass.buffer = delivery :: rest) :
    Orderly { session with
      reader := session.reader.handOut delivery
      pass := { session.pass with buffer := rest } } := by
  refine ⟨orderly.indexed, orderly.distinct, orderly.reading, fun _ => ?_⟩
  obtain ⟨tracked, member, batch, ends, suffix, phase⟩ :=
    orderly.last (held ▸ List.cons_ne_nil delivery rest)
  rw [held] at suffix
  exact ⟨tracked, member, batch, ends, (List.suffix_cons delivery rest).trans suffix, phase⟩

/-- A pass that opens queues the active shards. -/
theorem enter (orderly : session.Orderly) (service : Service σ)
    (empty : session.pass.buffer = []) : (session.enter service).2.Orderly := by
  unfold Session.enter
  simp only [plan]
  generalize asked : session.world.converse service session.reader.settings.retry.plan
    session.reader.prepare = conversed
  obtain ⟨answer, world⟩ := conversed
  rcases answer with _ | error | _ | reader
  · exact .of_empty orderly.indexed orderly.distinct orderly.reading empty
  · exact .of_empty orderly.indexed orderly.distinct orderly.reading empty
  · exact .of_empty orderly.indexed orderly.distinct orderly.reading empty
  · have indexed : reader.Indexed := by
      rcases (Reader.prepare_prepares asked).change with rfl | change
      · exact orderly.indexed
      · exact (change.indexed orderly.indexed).1
    exact .of_empty indexed indexed.activeShards.1 indexed.activeShards.2 empty

/-- The shards to visit after a visit are still read, and no shard is to be visited twice: the
visited one comes back only when it has just been read to its end, and the new ones are new. -/
theorem queue_absorb {tracked : Tracked} {outcome : Outcome} {before after : World σ}
    (orderly : session.Orderly) (member : tracked ∈ session.reader.shards)
    (fresh : tracked.id ∉ session.pass.queue)
    (steps : session.reader.Steps service tracked before outcome after) :
    (session.absorb tracked.id outcome).pass.queue.Nodup ∧
      ∀ id ∈ (session.absorb tracked.id outcome).pass.queue,
        (session.absorb tracked.id outcome).reader.isReading id = true := by
  have indexed := orderly.indexed
  have follows := Reader.follows_apply indexed member steps.shard
  have ids := Reader.ids_apply indexed member steps.shard
  have apart := List.nodup_append'.mp (ids ▸ follows.indexed.distinct)
  -- The shards of the queue other than the visited one are where they were.
  have still : ∀ id ∈ session.pass.queue,
      id ∈ session.reader.ids ∧ (session.reader.apply outcome).2.isReading id = true := by
    intro id here
    obtain ⟨known, unfinished⟩ := indexed.isReading_iff.mp (orderly.reading id here)
    refine ⟨known, follows.indexed.isReading_iff.mpr
      ⟨follows.ids_prefix.subset known, fun done => ?_⟩⟩
    obtain ⟨old, oldMember, rfl, ended⟩ := follows.isDone_iff.mp done
    have other : old.id ≠ tracked.id := fun same => fresh (same ▸ here)
    rw [if_neg other] at ended
    exact unfinished ⟨old, oldMember, rfl, ended⟩
  have again : (session.reader.apply outcome).1.revisit = true →
      (session.reader.apply outcome).2.isReading tracked.id = true := by
    intro revisits
    rw [Reader.revisit_apply indexed member steps.shard] at revisits
    have kept := follows.keeps member
    rw [if_pos rfl, (steps.exhausted_of_revisits revisits).2] at kept
    have unfinished := follows.indexed.not_isDone kept Phase.noConfusion
    exact follows.indexed.isReading_iff.mpr ⟨Reader.mem_ids.mpr ⟨_, kept, rfl⟩, unfinished⟩
  have new : ∀ id ∈ (session.reader.apply outcome).1.newShards,
      (session.reader.apply outcome).2.isReading id = true := by
    intro id here
    refine follows.indexed.isReading_iff.mpr
      ⟨ids ▸ List.mem_append_right _ here, fun done => ?_⟩
    obtain ⟨old, oldMember, rfl, _⟩ := follows.isDone_iff.mp done
    exact apart.2.2 (List.mem_map_of_mem oldMember) here
  simp only [absorb]
  split
  · rename_i revisits
    have visited : ∀ id ∈ tracked.id :: session.pass.queue,
        id ∈ session.reader.ids ∧ (session.reader.apply outcome).2.isReading id = true :=
      List.forall_mem_cons.mpr ⟨⟨List.mem_map_of_mem member, again revisits⟩, still⟩
    exact ⟨List.nodup_append'.mpr ⟨List.nodup_cons.mpr ⟨fresh, orderly.distinct⟩, apart.2.1,
        fun id first => apart.2.2 (visited id first).1⟩,
      List.forall_mem_append.mpr ⟨fun id first => (visited id first).2, new⟩⟩
  · exact ⟨List.nodup_append'.mpr ⟨orderly.distinct, apart.2.1,
        fun id first => apart.2.2 (still id first).1⟩,
      List.forall_mem_append.mpr ⟨fun id first => (still id first).2, new⟩⟩

/-- The records that wait after a visit are those of the batch that it has read. -/
theorem last_absorb {tracked : Tracked} {outcome : Outcome} {before made : List Exchange}
    (orderly : session.Orderly) (member : tracked ∈ session.reader.shards)
    (empty : session.pass.buffer = [])
    (conversation : Conversation (session.reader.step tracked.id) made (some (.ok outcome)))
    (own : outcome.shard = tracked.id) (exchanges : session.world.exchanges = before ++ made)
    (waits : (session.absorb tracked.id outcome).pass.buffer ≠ []) :
    ∃ owner ∈ (session.absorb tracked.id outcome).reader.shards,
      (session.absorb tracked.id outcome).HoldsLast owner := by
  have buffer : (session.absorb tracked.id outcome).pass.buffer =
      outcome.records.map (Delivery.mk tracked.id) := by
    simp only [absorb, empty, List.nil_append]
    exact Reader.deliveries_apply orderly.indexed member own
  have brought : outcome.records ≠ [] := fun none => waits (by rw [buffer, none]; rfl)
  obtain ⟨-, fetches⟩ := Reader.step_consults orderly.indexed member conversation
  obtain ⟨batch, ends, rfl⟩ := fetches.eq_ofBatch brought
  have kept := (Reader.follows_apply orderly.indexed member own).keeps member
  rw [if_pos rfl, Outcome.phase?_ofBatch] at kept
  refine ⟨_, kept, batch, ?_, buffer ▸ List.suffix_refl _, rfl⟩
  simp only [absorb, World.reportAll_exchanges, exchanges]
  exact ends.append before

/-- A visit preserves all of it. -/
theorem visit (orderly : session.Orderly) (service : Service σ) {shard : ShardId}
    (fresh : shard ∉ session.pass.queue) (empty : session.pass.buffer = []) :
    (session.visit service shard).2.Orderly := by
  obtain ⟨made, exchanges, conversation⟩ := World.converse_conversation service session.plan
    (session.reader.step shard) session.world
  unfold Session.visit
  simp only [plan] at exchanges conversation ⊢
  generalize asked : session.world.converse service session.reader.settings.retry.plan
    (session.reader.step shard) = conversed at exchanges conversation ⊢
  obtain ⟨answer, world⟩ := conversed
  have between : Orderly { session with world } :=
    .of_empty orderly.indexed orderly.distinct orderly.reading empty
  rcases answer with _ | error | outcome
  · exact between
  · exact .of_empty orderly.indexed orderly.distinct orderly.reading empty
  · obtain ⟨tracked, member, rfl, steps⟩ := Reader.step_steps orderly.indexed asked
    have queue := between.queue_absorb member fresh steps
    exact ⟨(Reader.follows_apply orderly.indexed member steps.shard).indexed, queue.1, queue.2,
      between.last_absorb member empty conversation steps.shard exchanges⟩

/-- Every turn preserves it. -/
theorem advance (orderly : session.Orderly) (service : Service σ) :
    (session.advance service).2.Orderly := by
  unfold Session.advance
  split
  · rename_i delivery rest held
    exact orderly.handsOut held
  · rename_i empty
    split
    · exact orderly
    · split
      · exact orderly.enter service empty
      · split
        · exact .of_empty orderly.indexed orderly.distinct orderly.reading empty
        · rename_i shard rest filled
          obtain ⟨fresh, distinct⟩ := List.nodup_cons.mp (filled ▸ orderly.distinct)
          have others : Orderly { session with pass := { session.pass with queue := rest } } :=
            .of_empty orderly.indexed distinct (fun id here =>
              orderly.reading id (filled ▸ List.mem_cons_of_mem shard here)) empty
          exact others.visit service fresh empty

/-- It holds in every state of a pass. -/
theorem during {first : Session σ} (orderly : first.Orderly)
    (states : During service first session) : session.Orderly := by
  induction states with
  | begins => exact orderly
  | turn _ inductionHypothesis => exact inductionHypothesis.advance service
  | surround _ clock signal monitor inductionHypothesis =>
      exact ⟨inductionHypothesis.indexed, inductionHypothesis.distinct,
        inductionHypothesis.reading, inductionHypothesis.last⟩

/-- While records wait, the next one is handed out without a call. -/
theorem silent (waits : session.pass.buffer ≠ []) (service : Service σ) (fuel : Nat) :
    (session.next service fuel).2.world = session.world := by
  cases fuel with
  | zero => rfl
  | succ fuel =>
      obtain ⟨delivery, rest, held⟩ := List.exists_cons_of_ne_nil waits
      rw [Session.next, advance_delivery held]

end Orderly

/--
The end of a pass asks nothing. With nothing that waits it changes nothing; else the shard of the
first record that waits, which is the shard of all of them, restarts at that record, and nothing
else changes. No shard becomes done by it, and none that is done is read again.
-/
structure Drops (session : Session σ) : Prop where
  silent : session.close.2 = session.world
  spent : session.pass.buffer = [] → session.close.1 = session.reader
  restarts : ∀ delivery rest, session.pass.buffer = delivery :: rest →
    (∀ other ∈ rest, other.shard = delivery.shard) ∧ delivery.shard ∈ session.reader.ids ∧
      session.close.1 = { session.reader with
        shards := session.reader.shards.map fun tracked =>
          if tracked.id = delivery.shard then
            ⟨tracked.id, .waiting (.atSequence delivery.record.sequence),
              .atSequence delivery.record.sequence⟩
          else tracked }
  done : ∀ id, session.close.1.IsDone id ↔ session.reader.IsDone id

/-- So an orderly pass may be dropped. -/
theorem Orderly.drops (orderly : session.Orderly) : session.Drops where
  silent := close_world session
  spent := fun empty => by rw [close, empty]; rfl
  restarts := fun delivery rest held => by
    obtain ⟨tracked, member, holds⟩ := orderly.last (held ▸ List.cons_ne_nil delivery rest)
    have own : ∀ other ∈ delivery :: rest, other.shard = tracked.id :=
      fun other waits => holds.shard (held ▸ waits)
    have first := own delivery List.mem_cons_self
    refine ⟨fun other later => (own other (List.mem_cons_of_mem _ later)).trans first.symm,
      first ▸ List.mem_map_of_mem member, ?_⟩
    rw [close, held]
    exact orderly.indexed.modifyTracked_eq delivery.shard _
  done := by
    have held : session.Held := by
      by_cases empty : session.pass.buffer = []
      · exact held_of_empty empty
      · obtain ⟨tracked, member, holds⟩ := orderly.last empty
        refine .inr ⟨tracked, member, ?_, fun delivery waits => holds.shard waits⟩
        obtain ⟨batch, _, _, phase⟩ := holds
        exact phase ▸ batch.hasRead_phase
    exact (close_rests orderly.indexed held).done

/--
Whatever reader a pass begins with and whatever the service answers, in every state of the pass the
shards to visit are different tracked ones that are not done, and the records that wait are the end
of the batch that was read last, whose shard has the token or the end that the batch has left. While
records wait nothing is asked. So the pass may be dropped there: only the shard of the withheld
records changes, and it goes back to the first of them.
-/
theorem pass_droppable {settings : ReaderSettings} {reader : Reader}
    (reached : Reader.Reached settings reader) (service : Service σ) (world : World σ) :
    (∀ demands, During service (start reader world)
        ((start reader world).serve service demands).2) ∧
      ∀ session, During service (start reader world) session →
        session.Orderly ∧
          (session.pass.buffer ≠ [] →
            ∀ fuel, (session.next service fuel).2.world = session.world) ∧
          session.Drops := by
  refine ⟨During.begins.serve, fun session during => ?_⟩
  have orderly := (Orderly.start reached.indexed world).during during
  exact ⟨orderly, fun waits => Orderly.silent waits service, orderly.drops⟩

/-- The split shard has two records left, and they come in its last batch. -/
def lastBatchService : Script :=
  (Script.describing Reader.splitOnce).queueBatches "A"
    [.now (.ok ⟨[⟨"110", "key", [], none⟩, ⟨"120", "key", [], none⟩], false, 5⟩)]

/-- The first of the two records has been returned. -/
def afterOne : Session Script :=
  ((start (.ofSettings (.ofStream "stream")) (.start lastBatchService .off)).serve
    Script.service [.next 9 none]).2

/-- The shard is to be visited once more for its successors; the pass is dropped, and the shard goes
back to its second record. -/
theorem afterOne_droppable :
    During Script.service (start (.ofSettings (.ofStream "stream")) (.start lastBatchService .off))
        afterOne ∧
      afterOne.pass.queue = ["A"] ∧
      afterOne.pass.buffer = [⟨"A", "120", "key", [], none⟩] ∧
      afterOne.reader.shards = [⟨"A", .exhausted, .trimHorizon⟩] ∧
      afterOne.Orderly ∧
      (afterOne.next Script.service 9).2.world = afterOne.world ∧
      afterOne.close.1.shards = [⟨"A", .waiting (.atSequence "120"), .atSequence "120"⟩] := by
  obtain ⟨served, states⟩ :=
    pass_droppable .refl Script.service (.start lastBatchService .off)
  have during : During _ _ afterOne := served [.next 9 none]
  obtain ⟨orderly, silent, drops⟩ := states afterOne during
  have buffer : afterOne.pass.buffer = [⟨"A", "120", "key", [], none⟩] := by decide +kernel
  have shards : afterOne.reader.shards = [⟨"A", .exhausted, .trimHorizon⟩] := by decide +kernel
  have closed := congrArg Reader.shards (drops.restarts _ _ buffer).2.2
  rw [shards] at closed
  exact ⟨during, by decide +kernel, buffer, shards, orderly,
    silent (buffer ▸ List.cons_ne_nil _ _) 9, closed⟩

end Session
end ShardedStream
