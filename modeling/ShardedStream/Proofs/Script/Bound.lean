import Mathlib.Data.List.Flatten
import ShardedStream.Proofs.Assignments.Listed
import ShardedStream.Proofs.Reader.Consult
import ShardedStream.Proofs.Reader.Effect
import ShardedStream.Script

/-!
What a scripted service has left.
No call adds to a script: the records that are answered are scripted no longer, and what is
described was to be described from the first.
-/

namespace ShardedStream

namespace Script

/-- All scripts of batches together hold those of one shard and those of the others. -/
theorem recordBound_eq (batches : Std.ExtTreeMap ShardId (List (Reply ScriptedBatch)))
    (only : ShardId) :
    (batches.toList.flatMap fun entry => recordsIn entry.2).length =
      (recordsIn (batches.getD only [])).length +
        ((batches.erase only).toList.flatMap fun entry => recordsIn entry.2).length := by
  have distinct : ∀ batches : Std.ExtTreeMap ShardId (List (Reply ScriptedBatch)),
      batches.toList.Nodup := by
    intro batches
    refine Std.ExtTreeMap.distinct_keys_toList.imp ?_
    rintro first second apart rfl
    exact apart (Std.LawfulEqCmp.compare_eq_iff_eq.mpr rfl)
  rw [Std.ExtTreeMap.getD_eq_getD_getElem?]
  cases found : batches[only]? with
  | none =>
      have same : batches.erase only = batches := by
        refine Std.ExtTreeMap.ext_getElem? fun shard => ?_
        simp only [Std.ExtTreeMap.getElem?_erase, Std.LawfulEqCmp.compare_eq_iff_eq]
        split
        · rename_i own
          rw [← own, found]
        · rfl
      rw [same]
      exact (Nat.zero_add _).symm
  | some replies =>
      have perm : batches.toList.Perm ((only, replies) :: (batches.erase only).toList) := by
        refine (List.perm_ext_iff_of_nodup (distinct batches) (List.nodup_cons.mpr
          ⟨fun member => ?_, distinct _⟩)).mpr fun entry => ?_
        · rw [Std.ExtTreeMap.mem_toList_iff_getElem?_eq_some, Std.ExtTreeMap.getElem?_erase_self]
            at member
          cases member
        · obtain ⟨shard, queue⟩ := entry
          simp only [List.mem_cons, Std.ExtTreeMap.mem_toList_iff_getElem?_eq_some,
            Std.ExtTreeMap.getElem?_erase, Std.LawfulEqCmp.compare_eq_iff_eq, Prod.mk.injEq]
          by_cases own : only = shard
          · subst own
            rw [found, if_pos rfl]
            simp [eq_comm]
          · simp [own, Ne.symm own]
      rw [(perm.flatMap_right _).length_eq, List.flatMap_cons, List.length_append]
      rfl

/-- A batch that is taken off a script takes its records along. -/
theorem recordBound_insert (batches : Std.ExtTreeMap ShardId (List (Reply ScriptedBatch)))
    {only : ShardId} {reply : Reply ScriptedBatch} {rest : List (Reply ScriptedBatch)}
    (queue : batches.getD only [] = reply :: rest) :
    ((batches.insert only rest).toList.flatMap fun entry => recordsIn entry.2).length +
        (recordsIn [reply]).length =
      (batches.toList.flatMap fun entry => recordsIn entry.2).length := by
  have others : (batches.insert only rest).erase only = batches.erase only := by
    refine Std.ExtTreeMap.ext_getElem? fun shard => ?_
    simp only [Std.ExtTreeMap.getElem?_erase, Std.ExtTreeMap.getElem?_insert,
      Std.LawfulEqCmp.compare_eq_iff_eq]
    by_cases own : only = shard
    · rw [if_pos own, if_pos own]
    · rw [if_neg own, if_neg own, if_neg own]
  rw [recordBound_eq (batches.insert only rest) only, recordBound_eq batches only, others, queue,
    Std.ExtTreeMap.getD_insert_self]
  simp only [recordsIn, List.flatMap_cons, List.flatMap_nil, List.length_append, List.length_nil]
  omega

/-- These are the descriptions that a script may still answer with. -/
def snapshots (script : Script) : List (List Shard) :=
  script.description :: script.descriptions.flatMap fun reply =>
    match reply.result with
    | .ok shards => [shards]
    | .error _ => []

/-- The shards that all further descriptions together name. -/
def described (script : Script) : List Shard := script.snapshots.flatten

theorem length_described (script : Script) : script.described.length = script.shardBound := by
  have same : ∀ replies : List (Reply (List Shard)),
      (replies.flatMap fun reply => match reply.result with
        | .ok shards => [shards]
        | .error _ => []).flatten = shardsIn replies := by
    intro replies
    induction replies with
    | nil => rfl
    | cons reply replies inductionHypothesis =>
        rw [List.flatMap_cons, List.flatten_append, inductionHypothesis, shardsIn, shardsIn,
          List.flatMap_cons]
        cases reply.result with
        | ok shards => exact congrArg (· ++ _) (List.append_nil shards)
        | error fault => rfl
  rw [described, snapshots, List.flatten_cons, same, List.length_append, shardBound]

/-- A script is left with no more than there was before. -/
structure Wanes (before after : Script) : Prop where
  snapshots : after.snapshots.Sublist before.snapshots
  records : after.recordBound ≤ before.recordBound

namespace Wanes

variable {before between after : Script}

theorem refl (script : Script) : Wanes script script := ⟨.refl _, le_rfl⟩

theorem trans (first : Wanes before between) (second : Wanes between after) :
    Wanes before after :=
  ⟨second.snapshots.trans first.snapshots, second.records.trans first.records⟩

theorem described (wanes : Wanes before after) : after.described.Sublist before.described :=
  wanes.snapshots.flatten

end Wanes

/-- An answer takes what it holds off the script. -/
structure Spends (request : Request) (answer : request.Answer) (before after : Script) : Prop where
  records : (request.received answer).length + after.recordBound ≤ before.recordBound
  described : ∀ shards ∈ request.described answer, shards ∈ before.snapshots

/-- This is what a call makes of a script. -/
structure Calls (request : Request) (before : Script) (answered : Reply request.Answer × Script) :
    Prop where
  wanes : Wanes before answered.2
  spends : ∀ answer, answered.1.result = .ok answer → Spends request answer before answered.2

variable {script : Script}

theorem listShards_calls (stream : String) (script : Script) :
    Calls (.listShards stream) script script.answerList := by
  unfold answerList
  cases queue : script.descriptions with
  | nil =>
      refine ⟨.refl _, fun answer said => ⟨by simp [Request.received], ?_⟩⟩
      cases said
      simp [Request.described, snapshots]
  | cons reply rest =>
      have fewer : Wanes script { script with descriptions := rest } := by
        refine ⟨?_, le_rfl⟩
        simp only [snapshots, queue, List.flatMap_cons]
        exact (List.sublist_append_right _ _).cons_cons _
      refine ⟨fewer, fun answer said => ⟨by simpa [Request.received] using fewer.records, ?_⟩⟩
      have said : reply.result = .ok answer := said
      simp [Request.described, snapshots, queue, said]

theorem openIterator_calls (stream : String) (shard : ShardId) (position : Position)
    (script : Script) :
    Calls (.openIterator stream shard position) script (script.answerIterator shard) := by
  have still : ∀ {answered : Reply Token × Script},
      answered.2.snapshots = script.snapshots → answered.2.recordBound = script.recordBound →
        Calls (.openIterator stream shard position) script answered := by
    intro answered snapshots records
    refine ⟨⟨snapshots ▸ .refl _, records.le⟩, fun answer _ => ⟨?_, ?_⟩⟩
    · simpa [Request.received] using records.le
    · simp [Request.described]
  unfold answerIterator
  split
  · rename_i reply rest queue
    dsimp only
    split <;> exact still rfl rfl
  · exact still rfl rfl

/-- An answered batch holds the scripted records, and a token for it costs nothing. -/
theorem complete_rest (script : Script) (shard : ShardId) (batch : ScriptedBatch) :
    (script.complete shard batch).1.records = batch.records ∧
      (script.complete shard batch).2.snapshots = script.snapshots ∧
      (script.complete shard batch).2.recordBound = script.recordBound := by
  unfold complete
  split <;> exact ⟨rfl, rfl, rfl⟩

theorem readRecords_calls (token : Token) (limit : Int) (script : Script) :
    Calls (.readRecords token limit) script (script.answerRead token limit) := by
  unfold answerRead
  split
  · exact ⟨.refl _, fun answer said => by cases said⟩
  · rename_i shard owned
    dsimp only
    split
    · rename_i reply rest queue
      have less := recordBound_insert script.batches queue
      split
      · rename_i batch said
        obtain ⟨records, snapshots, bound⟩ := complete_rest
          { script with
            reads := script.reads ++ [(shard, limit)]
            batches := script.batches.insert shard rest } shard batch
        rw [recordsIn, List.flatMap_singleton, said] at less
        refine ⟨⟨snapshots ▸ .refl _, ?_⟩, fun answer answered => ⟨?_, fun _ none => ?_⟩⟩
        · rw [bound]
          exact Nat.le_of_add_right_le less.le
        · cases answered
          rw [Request.received, records, bound, Nat.add_comm]
          exact less.le
        · cases none
      · exact ⟨⟨.refl _, Nat.le_of_add_right_le less.le⟩, fun answer answered => by cases answered⟩
    · obtain ⟨records, snapshots, bound⟩ := complete_rest
        { script with reads := script.reads ++ [(shard, limit)] } shard ⟨[], true, 0⟩
      refine ⟨⟨snapshots ▸ .refl _, bound.le⟩, fun answer answered => ⟨?_, fun _ none => ?_⟩⟩
      · cases answered
        rw [Request.received, records, bound, List.length_nil, Nat.zero_add]
        rfl
      · cases none

/-- No call adds to a script. -/
theorem calls (request : Request) (time : Nat) (script : Script) :
    Calls request script (service.call request time script) := by
  cases request with
  | listShards stream => exact listShards_calls stream script
  | openIterator stream shard position => exact openIterator_calls stream shard position script
  | readRecords token limit => exact readRecords_calls token limit script

/-- Neither do many calls. -/
theorem wanes_of_leads {before after : Script} (leads : service.Leads before after) :
    Wanes before after := by
  induction leads with
  | refl => exact .refl _
  | tail _ called inductionHypothesis =>
      obtain ⟨request, time, rfl⟩ := called
      exact inductionHypothesis.trans (calls request time _).wanes

end Script

open Script

variable {request : Request} {world later : World Script}

/-- A question that is settled on an answer has taken it off the script. -/
theorem Settles.spends {answer : request.Answer}
    (settles : Settles service request world (.ok (some answer)) later) :
    Spends request answer world.service later.service := by
  generalize same : Except.ok (some answer) = settled at settles
  cases settles with
  | @answered asked time _ _ leads said became _ =>
      cases same
      have before := wanes_of_leads leads
      obtain ⟨records, described⟩ := (calls request time asked).spends answer said
      rw [became]
      exact ⟨records.trans before.records, fun shards member =>
        before.snapshots.subset (described shards member)⟩
  | @refused asked time fault _ _ leads said _ settled became _ =>
      have after := wanes_of_leads (leads.tail ⟨request, time, became.symm⟩)
      subst same
      simp only [Request.settle] at settled
      split at settled
      · cases request with
        | listShards _ => cases settled
        | openIterator _ _ _ => cases settled
        | readRecords token limit =>
            cases settled
            exact ⟨by simpa [Request.received, Batch.ended] using after.records,
              fun _ none => by cases none⟩
      · cases settled
  | postponed _ _ => cases same

namespace Reader

variable {reader : Reader} {tracked : Tracked} {outcome : Outcome}

/-- The records of a read are no longer scripted. -/
theorem Reads.spends {shard : ShardId} {token : Token} {fresh : Bool}
    (reads : Reads service reader shard token fresh world outcome later) :
    outcome.records.length + later.service.recordBound ≤ world.service.recordBound := by
  cases reads with
  | batch settles => exact settles.spends.records
  | postponed settles =>
      simpa [Outcome.bare] using (wanes_of_leads (World.precedes_of_settles settles).leads).records
  | expired settles =>
      simpa [Outcome.bare] using (wanes_of_leads (World.precedes_of_settles settles).leads).records

/-- The records of a step are no longer scripted. -/
theorem Steps.spends (steps : Steps service reader tracked world outcome later) :
    outcome.records.length + later.service.recordBound ≤ world.service.recordBound := by
  have wanes := wanes_of_leads steps.precedes.leads
  cases steps with
  | opened _ settles reads =>
      have opened := wanes_of_leads (World.precedes_of_settles settles).leads
      have read := reads.spends
      rw [World.report_service] at read
      exact read.trans opened.records
  | read _ reads => exact reads.spends
  | unopened _ _ => simpa [Outcome.bare] using wanes.records
  | missing _ _ _ => simpa [Outcome.bare] using wanes.records
  | described _ _ => simpa [Outcome.bare] using wanes.records
  | undescribed _ _ => simpa [Outcome.bare] using wanes.records
  | idle _ => simp [Outcome.bare]

/-- The shards that a step brings were to be described. -/
theorem Steps.named (steps : Steps service reader tracked world outcome later)
    (indexed : reader.Indexed) (member : tracked ∈ reader.shards) :
    ∀ id ∈ (reader.apply outcome).1.newShards, id ∈ world.service.described.map Shard.id := by
  intro id new
  obtain ⟨entry, chosen, rfl⟩ := entries_of_newShards indexed member steps.shard new
  rcases steps.quiet_or_described with ⟨none, _⟩ | ⟨shards, _, settles, rfl⟩
  · rw [none] at chosen
    exact absurd chosen List.not_mem_nil
  · have listed := Assignments.afterEnd_listed shards tracked.id reader.checkpoint entry
      (Assignments.mem_without.mp chosen).1
    obtain ⟨shard, here, same⟩ := List.mem_map.mp listed
    exact List.mem_map.mpr ⟨shard, List.mem_flatten.mpr
      ⟨shards, settles.spends.described shards List.mem_cons_self, here⟩, same⟩

end Reader
end ShardedStream
