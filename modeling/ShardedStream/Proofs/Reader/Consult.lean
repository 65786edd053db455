import ShardedStream.Proofs.Reader.Step
import ShardedStream.Proofs.World.Conversation

/-!
What a visit to a shard asks.
The phase of the shard tells which operations a visit makes, and no visit makes two of one kind. The
records of a visit are those of the batch that its read has brought.
-/

namespace ShardedStream

/-- These are the records that an answer brings. -/
def Request.received : (request : Request) → request.Answer → List Record
  | .listShards _, _ => []
  | .openIterator _ _ _, _ => []
  | .readRecords _ _, batch => batch.records

/-- These are the records that an operation has brought. -/
def Exchange.records (exchange : Exchange) : List Record :=
  match exchange.outcome with
  | some (.ok answer) => exchange.request.received answer
  | _ => []

/-- Only a read that was answered has brought records. -/
theorem Exchange.reads_of_records {exchange : Exchange} (brought : exchange.records ≠ []) :
    ∃ token limit attempts batch,
      exchange = ⟨.readRecords token limit, attempts, some (.ok batch)⟩ ∧
        exchange.records = batch.records := by
  obtain ⟨request, attempts, outcome⟩ := exchange
  rcases outcome with _ | failure | answer
  · exact absurd rfl brought
  · exact absurd rfl brought
  · cases request with
    | listShards stream => exact absurd rfl brought
    | openIterator stream shard position => exact absurd rfl brought
    | readRecords token limit => exact ⟨token, limit, attempts, answer, rfl, rfl⟩

/-- The last of these operations is a read, and this batch is its answer. -/
def EndsWithBatch (made : List Exchange) (batch : Batch) : Prop :=
  ∃ token limit attempts,
    made.getLast? = some ⟨.readRecords token limit, attempts, some (.ok batch)⟩

/-- What came before makes no difference to the last operation. -/
theorem EndsWithBatch.append {made : List Exchange} {batch : Batch}
    (ends : EndsWithBatch made batch) (before : List Exchange) :
    EndsWithBatch (before ++ made) batch := by
  obtain ⟨token, limit, attempts, last⟩ := ends
  refine ⟨token, limit, attempts, ?_⟩
  rw [List.getLast?_append, last, Option.some_or]

/-- These are the records that a step has brought, if it has come to an outcome. -/
def broughtBy : Option (Except ReaderError Outcome) → List Record
  | some (.ok outcome) => outcome.records
  | some (.error _) => []
  | none => []

/-- The first question about a tracked shard is for an iterator where it waits, for records from its
token, or for its successors. -/
def ReaderSettings.asksFirst? (settings : ReaderSettings) (tracked : Tracked) : Option Request :=
  match tracked.phase with
  | .waiting position => some (.openIterator settings.stream tracked.id position)
  | .reading token => some (.readRecords token settings.batchSize)
  | .exhausted => some (.listShards settings.stream)
  | .done => none

namespace Reader

variable {reader : Reader} {tracked : Tracked} {shard : ShardId} {made : List Exchange}
  {result : Option (Except ReaderError Outcome)}

/-- These are the operations of a visit to a tracked shard. -/
inductive Consults (reader : Reader) (tracked : Tracked) : List Exchange → Prop where
  | unopened {position : Position} {opening : Exchange}
      (waiting : tracked.phase = .waiting position)
      (opens : opening.request = .openIterator reader.settings.stream tracked.id position) :
      Consults reader tracked [opening]
  | opened {position : Position} {token : Token} {opening reading : Exchange}
      (waiting : tracked.phase = .waiting position)
      (opens : opening.request = .openIterator reader.settings.stream tracked.id position)
      (reads : reading.request = .readRecords token reader.settings.batchSize) :
      Consults reader tracked [opening, reading]
  | read {token : Token} {reading : Exchange} (live : tracked.phase = .reading token)
      (reads : reading.request = .readRecords token reader.settings.batchSize) :
      Consults reader tracked [reading]
  | lookedUp {listing : Exchange} (ended : tracked.phase = .exhausted)
      (lists : listing.request = .listShards reader.settings.stream) :
      Consults reader tracked [listing]
  | idle (finished : tracked.phase = .done) : Consults reader tracked []

/-- The operations of a visit fetch nothing, or the last one fetches a batch, and the visit comes to
that batch. -/
inductive Fetches (shard : ShardId) :
    List Exchange → Option (Except ReaderError Outcome) → Prop where
  | nothing {made : List Exchange} {result : Option (Except ReaderError Outcome)}
      (silent : made.flatMap Exchange.records = []) (bare : broughtBy result = []) :
      Fetches shard made result
  | batch {made : List Exchange} {batch : Batch} (ends : EndsWithBatch made batch)
      (records : made.flatMap Exchange.records = batch.records) :
      Fetches shard made (some (.ok (.ofBatch shard batch)))

namespace Fetches

/-- The records of the operations are those that the visit comes to. -/
theorem records (fetches : Fetches shard made result) :
    made.flatMap Exchange.records = broughtBy result := by
  cases fetches with
  | nothing silent bare => rw [silent, bare]
  | batch _ records => exact records

/-- An operation without records before the others makes no difference. -/
theorem after {exchange : Exchange} (fetches : Fetches shard made result)
    (silent : exchange.records = []) : Fetches shard (exchange :: made) result := by
  have same : (exchange :: made).flatMap Exchange.records = made.flatMap Exchange.records := by
    rw [List.flatMap_cons, silent, List.nil_append]
  cases fetches with
  | nothing others bare => exact .nothing (same.trans others) bare
  | batch ends records => exact .batch (ends.append [exchange]) (same.trans records)

/-- An outcome with records is the batch of the last operation. -/
theorem eq_ofBatch {outcome : Outcome} (fetches : Fetches shard made (some (.ok outcome)))
    (brought : outcome.records ≠ []) :
    ∃ batch, EndsWithBatch made batch ∧ outcome = .ofBatch shard batch := by
  cases fetches with
  | nothing _ bare => exact absurd bare brought
  | batch ends _ => exact ⟨_, ends, rfl⟩

end Fetches

/-- A read is one operation, and it comes to the batch that the operation fetches. -/
theorem readFrom_consults {token : Token} {fresh : Bool}
    (conversation : Conversation (reader.readFrom shard token fresh) made result) :
    ∃ reading, made = [reading] ∧
      reading.request = .readRecords token reader.settings.batchSize ∧
      Fetches shard [reading] result := by
  cases conversation with
  | left next tried => exact ⟨_, rfl, rfl, .nothing rfl rfl⟩
  | @asks _ _ _ outcome made _ tried rest =>
      rcases outcome with (budget | _ | fault) | batch
      · cases rest
        exact ⟨_, rfl, rfl, .nothing rfl rfl⟩
      · cases rest
        exact ⟨_, rfl, rfl, .nothing rfl rfl⟩
      · cases fault <;>
          · cases rest
            exact ⟨_, rfl, rfl, .nothing rfl rfl⟩
      · cases rest
        exact ⟨_, rfl, rfl, .batch ⟨_, _, _, rfl⟩ (List.flatMap_singleton _ _)⟩

/-- A shard without an iterator is asked for one, and then perhaps for its records. -/
theorem openAndRead_consults {position : Position} (waiting : tracked.phase = .waiting position)
    (conversation : Conversation (reader.openAndRead tracked.id position) made result) :
    Consults reader tracked made ∧ Fetches tracked.id made result := by
  cases conversation with
  | left next tried => exact ⟨.unopened waiting rfl, .nothing rfl rfl⟩
  | @asks _ _ _ outcome made _ tried rest =>
      rcases outcome with (budget | _ | fault) | token
      · cases rest
        exact ⟨.unopened waiting rfl, .nothing rfl rfl⟩
      · cases rest
        exact ⟨.unopened waiting rfl, .nothing rfl rfl⟩
      · cases fault <;>
          · cases rest
            exact ⟨.unopened waiting rfl, .nothing rfl rfl⟩
      · cases rest with
        | tell _ rest =>
            obtain ⟨reading, rfl, reads, fetches⟩ := readFrom_consults rest
            exact ⟨.opened waiting rfl reads, fetches.after rfl⟩

/-- A shard that has been read to its end is looked up. -/
theorem lookUpSuccessors_consults (ended : tracked.phase = .exhausted)
    (conversation : Conversation (reader.lookUpSuccessors tracked.id) made result) :
    Consults reader tracked made ∧ Fetches tracked.id made result := by
  cases conversation with
  | left next tried => exact ⟨.lookedUp ended rfl, .nothing rfl rfl⟩
  | @asks _ _ _ outcome made _ tried rest =>
      rcases outcome with (budget | _ | fault) | shards
      · cases rest
        exact ⟨.lookedUp ended rfl, .nothing rfl rfl⟩
      · cases rest
        exact ⟨.lookedUp ended rfl, .nothing rfl rfl⟩
      · cases fault <;>
          · cases rest
            exact ⟨.lookedUp ended rfl, .nothing rfl rfl⟩
      · cases rest
        exact ⟨.lookedUp ended rfl, .nothing rfl rfl⟩

/-- The step of a tracked shard depends on its phase. -/
theorem step_eq (indexed : reader.Indexed) (member : tracked ∈ reader.shards) :
    reader.step tracked.id = match tracked.phase with
      | .waiting position => reader.openAndRead tracked.id position
      | .reading token => reader.readFrom tracked.id token false
      | .exhausted => reader.lookUpSuccessors tracked.id
      | .done => .done (.ok (.bare tracked.id .idle)) := by
  rw [step, indexed.tracked?_eq_some_iff.mpr ⟨member, rfl⟩]
  rfl

/-- A step makes the operations of a visit, and comes to what they fetch. -/
theorem step_consults (indexed : reader.Indexed) (member : tracked ∈ reader.shards)
    (conversation : Conversation (reader.step tracked.id) made result) :
    Consults reader tracked made ∧ Fetches tracked.id made result := by
  rw [step_eq indexed member] at conversation
  cases phase : tracked.phase with
  | waiting position =>
      rw [phase] at conversation
      exact openAndRead_consults phase conversation
  | reading token =>
      rw [phase] at conversation
      obtain ⟨reading, rfl, reads, fetches⟩ := readFrom_consults conversation
      exact ⟨.read phase reads, fetches⟩
  | exhausted =>
      rw [phase] at conversation
      exact lookUpSuccessors_consults phase conversation
  | done =>
      rw [phase] at conversation
      cases conversation
      exact ⟨.idle phase, .nothing rfl rfl⟩

theorem firstRequest_step (indexed : reader.Indexed) (member : tracked ∈ reader.shards) :
    (reader.step tracked.id).firstRequest? = reader.settings.asksFirst? tracked := by
  rw [step_eq indexed member, ReaderSettings.asksFirst?]
  cases tracked.phase <;> rfl

namespace Consults

/-- No visit makes two operations of one kind. -/
theorem once (consults : Consults reader tracked made) :
    (made.map fun exchange => exchange.request.operation).Nodup := by
  cases consults with
  | unopened _ _ => exact List.nodup_singleton _
  | opened _ opens reads =>
      simp [opens, reads, Request.operation]
  | read _ _ => exact List.nodup_singleton _
  | lookedUp _ _ => exact List.nodup_singleton _
  | idle _ => exact List.nodup_nil

/-- An iterator is asked for the shard that is visited. -/
theorem opens (consults : Consults reader tracked made) {exchange : Exchange}
    (member : exchange ∈ made) {stream : String} {shard : ShardId} {position : Position}
    (opened : exchange.request = .openIterator stream shard position) : shard = tracked.id := by
  cases consults with
  | unopened _ opens =>
      rw [List.mem_singleton.mp member, opens] at opened
      cases opened
      rfl
  | opened _ opens reads =>
      rcases List.mem_cons.mp member with rfl | last
      · rw [opens] at opened
        cases opened
        rfl
      · rw [List.mem_singleton.mp last, reads] at opened
        cases opened
  | read _ reads =>
      rw [List.mem_singleton.mp member, reads] at opened
      cases opened
  | lookedUp _ lists =>
      rw [List.mem_singleton.mp member, lists] at opened
      cases opened
  | idle _ => cases member

/-- Only a shard that has been read to its end is looked up, and nothing else is asked for it. -/
theorem lists_iff (consults : Consults reader tracked made) {exchange : Exchange}
    (member : exchange ∈ made) :
    exchange.request.operation = "describe_stream" ↔ tracked.phase = .exhausted := by
  cases consults with
  | unopened waiting opens =>
      rw [List.mem_singleton.mp member, opens, waiting]
      simp [Request.operation]
  | opened waiting opens reads =>
      rw [waiting]
      rcases List.mem_cons.mp member with rfl | last
      · simp [opens, Request.operation]
      · simp [List.mem_singleton.mp last, reads, Request.operation]
  | read live reads =>
      rw [List.mem_singleton.mp member, reads, live]
      simp [Request.operation]
  | lookedUp ended lists =>
      rw [List.mem_singleton.mp member, lists]
      exact ⟨fun _ => ended, fun _ => rfl⟩
  | idle _ => cases member

end Consults

/-- The reader that a preparation has brought, if it has brought one. -/
def prepared? : Option (Except ReaderError (Option Reader)) → Option Reader
  | some (.ok prepared) => prepared
  | some (.error _) => none
  | none => none

/--
This is how a pass is prepared. A reader that is not initialized asks for one description and opens
with the shards that it names; without an answer no reader enters the pass.
-/
inductive Prepared (reader : Reader) : List Exchange → Option Reader → Prop where
  | ready (initialized : reader.initialized = true) : Prepared reader [] (some reader)
  | described {listing : Exchange} {shards : List Shard} (fresh : reader.initialized = false)
      (lists : listing.request = .listShards reader.settings.stream)
      (answered : listing.descriptions = [shards]) :
      Prepared reader [listing] (some (reader.opening shards))
  | undescribed {listing : Exchange} (fresh : reader.initialized = false)
      (lists : listing.request = .listShards reader.settings.stream)
      (unanswered : listing.descriptions = []) : Prepared reader [listing] none

theorem prepare_prepared {answer : Option (Except ReaderError (Option Reader))}
    (conversation : Conversation reader.prepare made answer) :
    reader.Prepared made (prepared? answer) := by
  unfold prepare at conversation
  cases initialized : reader.initialized with
  | true =>
      rw [initialized, if_pos rfl] at conversation
      cases conversation
      exact .ready initialized
  | false =>
      rw [initialized, if_neg Bool.false_ne_true] at conversation
      cases conversation with
      | left next tried => exact .undescribed initialized rfl rfl
      | @asks _ _ _ outcome made _ tried rest =>
          have unanswered : ∀ {report : Report},
              Conversation (.tell report (.done (.ok none))) made answer →
                made = [] ∧ prepared? answer = none := by
            intro report rest
            cases rest with
            | tell _ rest =>
                cases rest
                exact ⟨rfl, rfl⟩
          rcases outcome with (budget | _ | fault) | shards
          · obtain ⟨rfl, none⟩ := unanswered rest
            exact none ▸ .undescribed initialized rfl rfl
          · obtain ⟨rfl, none⟩ := unanswered rest
            exact none ▸ .undescribed initialized rfl rfl
          · cases fault with
            | resourceNotFound detail =>
                obtain ⟨rfl, none⟩ := unanswered rest
                exact none ▸ .undescribed initialized rfl rfl
            | _ =>
                cases rest
                exact .undescribed initialized rfl rfl
          · obtain ⟨rfl, rfl⟩ := Conversation.reportAll rest
            exact .described initialized rfl rfl

/-- Whoever enters a pass has a sound index. -/
theorem Prepared.indexed {entered : Reader} (prepared : reader.Prepared made (some entered))
    (indexed : reader.Indexed) : entered.Indexed := by
  cases prepared with
  | ready _ => exact indexed
  | described _ _ _ => exact (indexed.track _).indexed

/-- Whoever enters a pass is initialized. -/
theorem Prepared.initialized {entered : Reader} (prepared : reader.Prepared made (some entered)) :
    entered.initialized = true := by
  cases prepared with
  | ready initialized => exact initialized
  | described _ _ _ => rfl

/-- Opening shards changes no saved number. -/
theorem Prepared.checkpoint {entered : Reader} (prepared : reader.Prepared made (some entered))
    (indexed : reader.Indexed) : entered.checkpoint = reader.checkpoint := by
  cases prepared with
  | ready _ => rfl
  | described _ _ _ => rw [opening, (indexed.track _).rest]

end Reader
end ShardedStream
