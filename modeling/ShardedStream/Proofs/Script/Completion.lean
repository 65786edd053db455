import ShardedStream.Proofs.Script.Complete
import ShardedStream.Proofs.Session.Stance
import ShardedStream.Proofs.Session.Unfold

/-!
Completeness along the lineage.
Over scripts that can be read to their end, passes that are drained one after the other finish every
shard of the stream, hand out exactly the scripted records of each, and then make no call any more.
-/

namespace ShardedStream

open Script

variable {shards : List Shard} {names : ShardId → Token → Prop}

/-- Only descriptions are answered by descriptions. -/
theorem Exchange.descriptions_eq_nil {exchange : Exchange}
    (other : ∀ stream, exchange.request ≠ .listShards stream) : exchange.descriptions = [] := by
  obtain ⟨request, attempts, outcome⟩ := exchange
  cases request with
  | listShards stream => exact absurd rfl (other stream)
  | openIterator stream shard position => rcases outcome with _ | _ | _ <;> rfl
  | readRecords token limit => rcases outcome with _ | _ | _ <;> rfl

/-- Every description that is drawn is the list of shards. -/
theorem Script.Describes.descriptions_subset {plan : RetryPlan} {stream : String}
    {world later : World Script} {answer : Except RetryFailure (List Shard)}
    (describes : Describes plan stream world answer later)
    (benign : Benign shards world.service) :
    ∀ description ∈ later.descriptions,
      description ∈ world.descriptions ∨ description = shards := by
  intro description member
  rw [describes.asked.descriptions] at member
  rcases List.mem_append.mp member with before | new
  · exact .inl before
  · right
    rcases describes.answer benign with rfl | ⟨_, ⟨_, rfl⟩ | ⟨_, rfl⟩⟩
    · exact List.mem_singleton.mp new
    · exact absurd new List.not_mem_nil
    · exact absurd new List.not_mem_nil

namespace Visits

variable {reader : Reader} {tracked : Tracked} {world later : World Script}
  {result : Except ReaderError Outcome}

/-- Every description that a visit adds is the list of shards. -/
theorem descriptions_subset (visits : Visits names reader tracked world result later)
    (benign : Benign shards world.service) :
    ∀ description ∈ later.descriptions,
      description ∈ world.descriptions ∨ description = shards := by
  intro description member
  cases visits with
  | opened _ opens receives =>
      rw [receives.asked.descriptions, Exchange.descriptions_eq_nil (by simp), List.append_nil,
        World.report_descriptions, opens.asked.descriptions,
        Exchange.descriptions_eq_nil (by simp), List.append_nil] at member
      exact .inl member
  | unopened _ opens =>
      rw [opens.asked.descriptions, Exchange.descriptions_eq_nil (by simp),
        List.append_nil] at member
      exact .inl member
  | read _ receives =>
      rw [receives.asked.descriptions, Exchange.descriptions_eq_nil (by simp),
        List.append_nil] at member
      exact .inl member
  | lookedUp _ describes => exact describes.descriptions_subset benign description member
  | idle _ => exact .inl member

/-- What a visit comes to over a script that can be read to its end. -/
structure Furthers (tracked : Tracked) (world : World Script) (outcome : Outcome)
    (later : World Script) : Prop where
  records : outcome.records ++ recordsIn (later.service.batches.getD tracked.id []) =
    recordsIn (world.service.batches.getD tracked.id [])
  leaves : ∀ resume, Leaves later.service tracked.id
    (tracked.enter (outcome.transition.phase? resume)).phase.isEnded
  progress : tracked.phase = .done ∨
    later.service.repliesFor tracked.id < world.service.repliesFor tracked.id ∨
    later.service.descriptions.length < world.service.descriptions.length ∨
    ∀ resume, (tracked.enter (outcome.transition.phase? resume)).phase = .done

/-- A read leaves its shard where its script stands. -/
theorem furthers_of_reads {plan : RetryPlan} {token : Token} {limit : Int} {fresh : Bool}
    {answer : Except RetryFailure Batch} {between : World Script}
    (unread : tracked.phase.isEnded = false)
    (receives : Receives names plan tracked.id token limit between answer later)
    (batches : between.service.batches = world.service.batches)
    (iterators : between.service.iterators.getD tracked.id [] <:+
      world.service.iterators.getD tracked.id [])
    (leaves : Leaves world.service tracked.id tracked.phase.isEnded) :
    ∃ outcome, readResult tracked.id token fresh answer = .ok outcome ∧
      Furthers tracked world outcome later := by
  rw [unread, Leaves, if_neg Bool.false_ne_true, ← batches] at leaves
  obtain ⟨outcome, result, records, less, ends⟩ := receives.yields leaves
  refine ⟨outcome, result, ⟨batches ▸ records, fun resume => ?_, .inr (.inl ?_)⟩⟩
  · rcases ends with ⟨exhausted, nothing⟩ | ⟨open_, runsOut⟩
    · rw [exhausted]
      exact nothing
    · cases entered : outcome.transition.phase? resume with
      | none =>
          rw [Tracked.enter_none, unread]
          exact runsOut
      | some phase =>
          have unended : (tracked.enter (some phase)).phase.isEnded = false :=
            open_ resume phase entered
          rw [unended]
          exact runsOut
  · have length := iterators.length_le
    rw [repliesFor, repliesFor, receives.iterators, ← batches]
    omega

/-- A visit over a script that can be read to its end does not fail. -/
theorem furthers (visits : Visits names reader tracked world result later)
    (benign : Benign shards world.service)
    (leaves : Leaves world.service tracked.id tracked.phase.isEnded) :
    ∃ outcome, result = .ok outcome ∧ Furthers tracked world outcome later := by
  cases visits with
  | @opened _ _ between _ _ waiting opens receives =>
      refine furthers_of_reads (by rw [waiting]; rfl) receives ?_ ?_ leaves
      · rw [World.report_service, opens.batches]
      · rw [World.report_service]
        exact opens.keeps.ownIterators
  | unopened waiting opens =>
      obtain ⟨⟨budget, rfl⟩, less⟩ := opens.failure benign
      refine ⟨_, rfl, ⟨by rw [opens.batches]; rfl, fun resume => ?_, .inr (.inl ?_)⟩⟩
      · simp only [Leaves, opens.batches] at leaves ⊢
        exact leaves
      · rw [repliesFor, repliesFor, opens.batches]
        omega
  | read reading receives =>
      exact furthers_of_reads (by rw [reading]; rfl) receives rfl (List.suffix_refl _) leaves
  | lookedUp ended describes =>
      have nothing : world.service.batches.getD tracked.id [] = [] := by
        rw [ended] at leaves
        exact leaves
      have same : later.service.batches = world.service.batches := by rw [describes.became]
      have ends : tracked.phase.isEnded = true := by rw [ended]; rfl
      have stays : ∀ ended, ended = true → Leaves later.service tracked.id ended := by
        rintro ended rfl
        rw [Leaves, if_pos rfl, same, nothing]
      rcases describes.answer benign with rfl | ⟨less, ⟨budget, rfl⟩ | ⟨detail, rfl⟩⟩
      · exact ⟨_, rfl, ⟨by rw [same]; rfl, fun _ => stays _ rfl, .inr (.inr (.inr fun _ => rfl))⟩⟩
      · exact ⟨_, rfl, ⟨by rw [same]; rfl, fun _ => stays _ ends,
          .inr (.inr (.inl less))⟩⟩
      · exact ⟨_, rfl, ⟨by rw [same]; rfl, fun _ => stays _ ends,
          .inr (.inr (.inl less))⟩⟩
  | idle finished => exact ⟨_, rfl, ⟨rfl, fun _ => leaves, .inl finished⟩⟩

end Visits

namespace Reader

variable {reader later : Reader} {tracked : Tracked}

/-- Whether a tracked shard is done. -/
def hasFinished (reader : Reader) (id : ShardId) : Bool :=
  reader.shards.any fun tracked => tracked.id == id && tracked.phase == .done

theorem hasFinished_iff {id : ShardId} : reader.hasFinished id = true ↔ reader.IsDone id := by
  simp only [hasFinished, IsDone, List.any_eq_true, Bool.and_eq_true, beq_iff_eq]

/-- What happens to one shard leaves the others as they are, and new shards have not been read. -/
theorem Follows.hasEnded_of_ne {phase : Option Phase} {entries : List Assignment}
    {shard id : ShardId} (follows : Follows reader shard phase entries later)
    (other : id ≠ shard) : later.hasEnded id = reader.hasEnded id := by
  rw [Bool.eq_iff_iff, hasEnded_iff, hasEnded_iff]
  constructor
  · rintro ⟨moved, member, same, ended⟩
    rcases follows.mem member with ⟨old, oldMember, rfl⟩ | ⟨entry, _, _, rfl⟩
    · split at ended
      · rename_i own
        rw [if_pos own] at same
        exact absurd (same.symm.trans own) other
      · rename_i apart
        rw [if_neg apart] at same
        exact ⟨old, oldMember, same, ended⟩
    · cases ended
  · rintro ⟨old, member, rfl, ended⟩
    have kept := follows.keeps member
    rw [if_neg other] at kept
    exact ⟨old, kept, rfl, ended⟩

/-- A reader that has just been opened has read nothing. -/
theorem hasEnded_opening (indexed : reader.Indexed) (untracked : reader.shards = [])
    (shards : List Shard) (id : ShardId) : (reader.opening shards).hasEnded id = false := by
  rw [← Bool.not_eq_true, hasEnded_iff]
  rintro ⟨tracked, member, _, ended⟩
  have tracks := indexed.track
    (Assignments.atStart (.ofShards shards) reader.checkpoint reader.settings.policy)
  rw [opening, tracks.shards, untracked] at member
  obtain ⟨entry, _, rfl⟩ := List.mem_map.mp member
  cases ended

end Reader

end ShardedStream
