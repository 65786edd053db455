import ShardedStream.Script

/-!
Uses of a scripted service.
Every queue of replies is worked off from its head: whatever is done with the service, each scripted
reply is taken once at most, and in the order of the script. A read takes its reply from the queue
of the shard that owns its token.
-/

namespace ShardedStream

/-- This is what a scripted batch is answered with; only an open one goes on with a token. -/
def ScriptedBatch.answer (batch : ScriptedBatch) (next : Token) : Batch :=
  ⟨batch.records, if batch.isOpen then some next else none, batch.lag⟩

namespace Script

/-- This is all that can be done with a scripted service. -/
inductive Use where
  | describe (shards : List Shard)
  | queueDescriptions (replies : List (Reply (List Shard)))
  | queueIterators (shard : ShardId) (replies : List (Reply Token))
  | queueBatches (shard : ShardId) (replies : List (Reply ScriptedBatch))
  | issue (shard : ShardId)
  | call (request : Request) (time : Nat)

def use (script : Script) : Use → Script
  | .describe shards => script.describe shards
  | .queueDescriptions replies => script.queueDescriptions replies
  | .queueIterators shard replies => script.queueIterators shard replies
  | .queueBatches shard replies => script.queueBatches shard replies
  | .issue shard => (script.issue shard).2
  | .call request time => (service.call request time script).2

/-- Several uses, one after the other. -/
def useAll (script : Script) (uses : List Use) : Script := uses.foldl use script

@[simp] theorem useAll_cons (script : Script) (use : Use) (uses : List Use) :
    script.useAll (use :: uses) = (script.use use).useAll uses := rfl

@[simp] theorem useAll_append (script : Script) (uses others : List Use) :
    script.useAll (uses ++ others) = (script.useAll uses).useAll others :=
  List.foldl_append

/-- This is what a read of a shard takes: the reply that is due, or an empty batch. -/
def batchDue (script : Script) (shard : ShardId) : Reply ScriptedBatch :=
  (script.batches.getD shard []).headD (.now (.ok ⟨[], true, 0⟩))

/-- What is due for a shard is taken off its queue. -/
def takeBatch (script : Script) (shard : ShardId) : Script :=
  match script.batches.getD shard [] with
  | _ :: rest => { script with batches := script.batches.insert shard rest }
  | [] => script

/-- That concerns neither the owners of tokens nor their count. -/
theorem takeBatch_tokens (script : Script) (shard : ShardId) :
    (script.takeBatch shard).owners = script.owners ∧
      (script.takeBatch shard).issued = script.issued := by
  unfold takeBatch
  split <;> exact ⟨rfl, rfl⟩

/-- A read from a token that has an owner takes what is due for the owner. -/
theorem answerRead_eq {script : Script} {token : Token} {shard : ShardId}
    (owned : script.owners[token]? = some shard) (limit : Int) :
    script.answerRead token limit =
      let noted := { script.takeBatch shard with reads := script.reads ++ [(shard, limit)] }
      match (script.batchDue shard).result with
      | .ok batch =>
        (⟨.ok (noted.complete shard batch).1, (script.batchDue shard).latency⟩,
          (noted.complete shard batch).2)
      | .error fault => (⟨.error fault, (script.batchDue shard).latency⟩, noted) := by
  simp only [answerRead, owned, batchDue, takeBatch]
  cases script.batches.getD shard [] with
  | nil => rfl
  | cons reply rest =>
      obtain ⟨result, latency⟩ := reply
      cases result with
      | error fault => rfl
      | ok batch => rfl

/-- A queue of scripted replies. -/
inductive Queue where
  | descriptions
  | iterators (shard : ShardId)
  | batches (shard : ShardId)
  deriving DecidableEq, Repr

/-- What the replies of a queue bring when they do not fail. -/
@[reducible] def Queue.Answer : Queue → Type
  | .descriptions => List Shard
  | .iterators _ => Token
  | .batches _ => ScriptedBatch

/-- The replies that wait in a queue, the next one first. -/
def waiting (script : Script) : (queue : Queue) → List (Reply queue.Answer)
  | .descriptions => script.descriptions
  | .iterators shard => script.iterators.getD shard []
  | .batches shard => script.batches.getD shard []

/-- A call takes its reply from this queue; a read from an unknown token takes none. -/
def source? (script : Script) : Request → Option Queue
  | .listShards _ => some .descriptions
  | .openIterator _ shard _ => some (.iterators shard)
  | .readRecords token _ => script.owners[token]?.map .batches

/-- The replies that a use puts last in a queue. -/
def Use.adds : Use → (queue : Queue) → List (Reply queue.Answer)
  | .queueDescriptions replies, .descriptions => replies
  | .queueIterators shard replies, .iterators other => if shard = other then replies else []
  | .queueBatches shard replies, .batches other => if shard = other then replies else []
  | _, _ => []

/-- The reply that a use takes from a queue, if it takes one. -/
def takes (script : Script) (queue : Queue) : Use → List (Reply queue.Answer)
  | .call request _ =>
    if script.source? request = some queue then (script.waiting queue).take 1 else []
  | _ => []

/-- Everything that is put in a queue, in the order of the script. -/
def added (uses : List Use) (queue : Queue) : List (Reply queue.Answer) :=
  uses.flatMap fun use => use.adds queue

/-- Everything that is taken from a queue, in order. -/
def taken (script : Script) (queue : Queue) : List Use → List (Reply queue.Answer)
  | [] => []
  | use :: uses => script.takes queue use ++ (script.use use).taken queue uses

variable {script : Script} {shard : ShardId} {token : Token}

section Queues

variable {α : Type} {queues : Std.ExtTreeMap ShardId (List α)}

/-- A queue that is cut down to its rest has lost its head, and no other has. -/
theorem getD_insert_rest {first : α} {rest : List α} (due : queues.getD shard [] = first :: rest)
    (other : ShardId) :
    (queues.insert shard rest).getD other [] =
      if shard = other then (queues.getD other []).tail else queues.getD other [] := by
  simp only [Std.ExtTreeMap.getD_insert, Std.LawfulEqCmp.compare_eq_iff_eq]
  split
  · rename_i same
    rw [← same, due, List.tail_cons]
  · rfl

/-- What is put in a queue waits behind what is there. -/
theorem getD_insert_append (queues : Std.ExtTreeMap ShardId (List α)) (added : List α)
    (shard other : ShardId) :
    (queues.insert shard (queues.getD shard [] ++ added)).getD other [] =
      queues.getD other [] ++ if shard = other then added else [] := by
  simp only [Std.ExtTreeMap.getD_insert, Std.LawfulEqCmp.compare_eq_iff_eq]
  split
  · rename_i same
    rw [same]
  · exact (List.append_nil _).symm

/-- Nothing is taken from an empty queue. -/
theorem ite_tail_eq {own : Prop} [Decidable own] {queue : List α} (empty : own → queue = []) :
    (if own then queue.tail else queue) = queue := by
  split
  · rename_i holds
    rw [empty holds, List.tail_nil]
  · rfl

end Queues

/-- A batch is handed over without a look at the queues. -/
theorem complete_waiting (script : Script) (shard : ShardId) (batch : ScriptedBatch)
    (queue : Queue) : (script.complete shard batch).2.waiting queue = script.waiting queue := by
  unfold complete
  split
  · cases queue <;> rfl
  · rfl

theorem takeBatch_waiting (script : Script) (shard : ShardId) (queue : Queue) :
    (script.takeBatch shard).waiting queue =
      if .batches shard = queue then (script.waiting queue).tail else script.waiting queue := by
  unfold takeBatch
  split
  · rename_i reply rest due
    cases queue with
    | batches other =>
        simp only [waiting, Queue.batches.injEq]
        exact getD_insert_rest due other
    | descriptions => rfl
    | iterators other => rfl
  · rename_i due
    exact (ite_tail_eq fun same => same ▸ due).symm

/-- A description is taken from its own queue. -/
theorem answerList_waiting (script : Script) (queue : Queue) :
    script.answerList.2.waiting queue =
      if .descriptions = queue then (script.waiting queue).tail else script.waiting queue := by
  unfold answerList
  split
  · rename_i reply rest due
    cases queue with
    | descriptions => exact (congrArg List.tail due).symm
    | iterators shard => rfl
    | batches shard => rfl
  · rename_i due
    exact (ite_tail_eq fun same => same ▸ due).symm

/-- An iterator is taken from the queue of its shard. -/
theorem answerIterator_waiting (script : Script) (shard : ShardId) (queue : Queue) :
    (script.answerIterator shard).2.waiting queue =
      if .iterators shard = queue then (script.waiting queue).tail else script.waiting queue := by
  unfold answerIterator
  split
  · rename_i reply rest due
    obtain ⟨result, latency⟩ := reply
    cases queue with
    | iterators other =>
        simp only [waiting, Queue.iterators.injEq]
        rw [← getD_insert_rest due other]
        cases result <;> rfl
    | descriptions => cases result <;> rfl
    | batches other => cases result <;> rfl
  · rename_i due
    have kept : (script.issue shard).2.waiting queue = script.waiting queue := by
      cases queue <;> rfl
    exact kept.trans (ite_tail_eq fun same => same ▸ due).symm

/-- A read takes the first reply of the queue of its owner, and leaves all other queues alone. -/
theorem answerRead_waiting (owned : script.owners[token]? = some shard) (limit : Int)
    (queue : Queue) :
    (script.answerRead token limit).2.waiting queue =
      if .batches shard = queue then (script.waiting queue).tail else script.waiting queue := by
  rw [answerRead_eq owned, ← takeBatch_waiting]
  cases (script.batchDue shard).result with
  | error fault => cases queue <;> rfl
  | ok batch =>
      refine (complete_waiting _ shard batch queue).trans ?_
      cases queue <;> rfl

/-- Every call takes the first reply of its queue, and leaves all other queues alone. -/
theorem call_waiting (script : Script) (request : Request) (time : Nat) (queue : Queue) :
    (service.call request time script).2.waiting queue =
      if script.source? request = some queue then (script.waiting queue).tail
      else script.waiting queue := by
  have taken : ∀ {source}, script.source? request = some source →
      ((if script.source? request = some queue then (script.waiting queue).tail
        else script.waiting queue) =
          if source = queue then (script.waiting queue).tail else script.waiting queue) := by
    rintro source same
    rw [same]
    simp only [Option.some.injEq]
  cases request with
  | listShards stream => exact (answerList_waiting script queue).trans (taken rfl).symm
  | openIterator stream shard position =>
      exact (answerIterator_waiting script shard queue).trans (taken rfl).symm
  | readRecords token limit =>
      cases owned : script.owners[token]? with
      | none =>
          have same : (script.answerRead token limit).2 = script := by rw [answerRead, owned]
          rw [if_neg (by simp [source?, owned])]
          exact congrArg (fun script => waiting script queue) same
      | some shard =>
          exact (answerRead_waiting owned limit queue).trans
            (taken (congrArg (Option.map Queue.batches) owned)).symm

/-- What waits and what is added is either taken, from the head on, or it waits afterwards. -/
theorem use_waiting (script : Script) (use : Use) (queue : Queue) :
    script.waiting queue ++ use.adds queue =
      script.takes queue use ++ (script.use use).waiting queue := by
  cases use with
  | describe shards => cases queue <;> exact List.append_nil _
  | queueDescriptions replies =>
      cases queue with
      | descriptions => rfl
      | iterators shard => exact List.append_nil _
      | batches shard => exact List.append_nil _
  | queueIterators shard replies =>
      cases queue with
      | descriptions => exact List.append_nil _
      | iterators other => exact (getD_insert_append script.iterators replies shard other).symm
      | batches other => exact List.append_nil _
  | queueBatches shard replies =>
      cases queue with
      | descriptions => exact List.append_nil _
      | iterators other => exact List.append_nil _
      | batches other => exact (getD_insert_append script.batches replies shard other).symm
  | issue shard => cases queue <;> exact List.append_nil _
  | call request time =>
      have added : (Use.call request time).adds queue = [] := by cases queue <;> rfl
      rw [added, List.append_nil, Script.use, call_waiting, takes]
      split
      · rw [← List.drop_one, List.take_append_drop]
      · rfl

/-- So every scripted reply is taken once at most, and in the order of the script. -/
theorem useAll_waiting (script : Script) (uses : List Use) (queue : Queue) :
    script.waiting queue ++ added uses queue =
      script.taken queue uses ++ (script.useAll uses).waiting queue := by
  induction uses generalizing script with
  | nil => exact List.append_nil _
  | cons use uses inductionHypothesis =>
      calc script.waiting queue ++ added (use :: uses) queue
          = (script.waiting queue ++ use.adds queue) ++ added uses queue :=
            (List.append_assoc _ _ _).symm
        _ = script.takes queue use ++ ((script.use use).waiting queue ++ added uses queue) := by
            rw [use_waiting, List.append_assoc]
        _ = script.taken queue (use :: uses) ++ (script.useAll (use :: uses)).waiting queue := by
            rw [inductionHypothesis, taken, List.append_assoc, useAll_cons]

/-- A read for a shard reads the script of that shard. Its token belongs to the shard, what is due
for the shard is passed on and leaves its queue, and no other queue is touched. -/
structure ReadsOwn (script : Script) (shard : ShardId) (token : Token) (limit : Int) : Prop where
  owned : script.owners[token]? = some shard
  passes : (script.answerRead token limit).1 =
    ⟨(script.batchDue shard).result.map fun batch => batch.answer (tokenText shard script.issued),
      (script.batchDue shard).latency⟩
  takes : ∀ queue, (script.answerRead token limit).2.waiting queue =
    if .batches shard = queue then (script.waiting queue).tail else script.waiting queue

/-- Whoever owns the token of a read has its own script read. -/
theorem readsOwn (owned : script.owners[token]? = some shard) (limit : Int) :
    script.ReadsOwn shard token limit := by
  refine ⟨owned, ?_, answerRead_waiting owned limit⟩
  have counted := (script.takeBatch_tokens shard).2
  rw [answerRead_eq owned]
  cases (script.batchDue shard).result with
  | error fault => rfl
  | ok batch =>
      obtain ⟨records, isOpen, lag⟩ := batch
      cases isOpen with
      | false => rfl
      | true =>
          simp only [complete, issue, if_true, counted]
          rfl

/-- A call that has a queue fails only as its queue says. -/
theorem call_fails {request : Request} {time : Nat} {queue : Queue} {fault : Fault}
    (known : script.source? request = some queue)
    (failed : (service.call request time script).1.result = .error fault) :
    ∃ reply rest, script.waiting queue = reply :: rest ∧ reply.result = .error fault := by
  cases request with
  | listShards stream =>
      cases known
      simp only [service, answerList] at failed
      split at failed
      · rename_i reply rest due
        exact ⟨reply, rest, due, failed⟩
      · cases failed
  | openIterator stream shard position =>
      cases known
      simp only [service, answerIterator] at failed
      split at failed
      · rename_i reply rest due
        obtain ⟨result, latency⟩ := reply
        cases result with
        | error other => exact ⟨_, rest, due, failed⟩
        | ok token => cases failed
      · cases failed
  | readRecords token limit =>
      obtain ⟨shard, owned, rfl⟩ := Option.map_eq_some_iff.mp known
      have passes := congrArg Reply.result (readsOwn owned limit).passes
      have due : (script.batchDue shard).result = .error fault := by
        cases result : (script.batchDue shard).result with
        | error other =>
            rw [result] at passes
            cases passes.symm.trans failed
            rfl
        | ok batch =>
            rw [result] at passes
            cases passes.symm.trans failed
      unfold batchDue at due
      cases waits : script.batches.getD shard [] with
      | nil =>
          rw [waits] at due
          cases due
      | cons reply rest =>
          rw [waits] at due
          exact ⟨reply, rest, waits, due⟩

end Script
end ShardedStream
