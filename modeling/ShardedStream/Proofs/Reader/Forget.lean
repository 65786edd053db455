import ShardedStream.Proofs.Assignments.Meaning
import ShardedStream.Proofs.Reader.Ancestry
import ShardedStream.Proofs.Reader.Recast
import ShardedStream.Proofs.World.Wake

/-!
Forgotten entries.
As long as every description is the same, no tracked shard above an entry is still read. So nobody
looks up the entry of a shard that is done or was never tracked, and a reader that has forgotten it
takes the same steps.
-/

namespace ShardedStream

variable {σ : Type} {service : Service σ}

namespace Reader

variable {shards : List Shard} {reader later : Reader} {shard : ShardId}

/-- The reader without the entry of one shard. -/
def forget (shard : ShardId) (reader : Reader) : Reader :=
  { reader with checkpoint := reader.checkpoint.erase shard }

/-- A shard is not read when it is done or not tracked. -/
theorem Indexed.isReading_eq_false_iff (indexed : reader.Indexed) :
    reader.isReading shard = false ↔ (shard ∈ reader.ids → reader.IsDone shard) := by
  rw [isReading, Option.any_eq_false]
  constructor
  · intro inactive known
    obtain ⟨tracked, member, same⟩ := mem_ids.mp known
    have found := inactive tracked (indexed.tracked?_eq_some_iff.mpr ⟨member, same⟩)
    exact ⟨tracked, member, same, by simpa [Tracked.isActive] using found⟩
  · intro ended tracked found
    obtain ⟨member, rfl⟩ := indexed.tracked?_eq_some_iff.mp found
    by_contra active
    refine indexed.not_isDone member ?_ (ended (List.mem_map_of_mem member))
    simpa [Tracked.isActive] using active

/-- A shard is still read when it is tracked and not done. -/
theorem Indexed.isReading_iff (indexed : reader.Indexed) {shard : ShardId} :
    reader.isReading shard = true ↔ shard ∈ reader.ids ∧ ¬ reader.IsDone shard := by
  rw [← Bool.not_eq_false, indexed.isReading_eq_false_iff, Classical.not_imp]

/-- Pruning forgets an entry exactly when there is one and its shard is not read. -/
theorem prune_eq_some_iff (indexed : reader.Indexed) {sequence : SequenceNumber} :
    (reader.prune shard).1 = some sequence ↔
      (shard ∈ reader.ids → reader.IsDone shard) ∧
        reader.checkpoint.get? shard = some sequence := by
  rw [← indexed.isReading_eq_false_iff, prune]
  cases reader.isReading shard <;> simp

/-- An entry that is pruned is forgotten. -/
theorem prune_eq_forget {sequence : SequenceNumber}
    (removes : (reader.prune shard).1 = some sequence) :
    (reader.prune shard).2 = reader.forget shard := by
  unfold prune at removes ⊢
  split at removes
  · cases removes
  · rename_i unread
    rw [if_neg unread]
    rfl

/-- Pruning forgets the entry or leaves everything as it is. -/
theorem prune_eq_or (reader : Reader) (shard : ShardId) :
    (reader.prune shard).2 = reader ∨ (reader.prune shard).2 = reader.forget shard := by
  unfold prune
  split
  · exact .inl rfl
  · exact .inr rfl

/-- The tracked shards above a saved one are done, as are those above a tracked one. -/
structure Clear (shards : List Shard) (reader : Reader) : Prop extends Ordered shards reader where
  saved : ∀ upper lower, Lineage.AncestorOf shards upper lower → upper ∈ reader.ids →
    (reader.checkpoint.get? lower).isSome = true → reader.IsDone upper

namespace Clear

/-- A reader that tracks nothing is clear. -/
theorem of_untracked (untracked : reader.ids = []) : Clear shards reader := by
  refine ⟨.of_untracked untracked, fun upper lower _ member => ?_⟩
  rw [untracked] at member
  exact absurd member List.not_mem_nil

/-- A reader that rests stays clear. -/
theorem congr (clear : Clear shards reader) (rests : Rests reader later) : Clear shards later where
  toOrdered := clear.toOrdered.congr rests.ids rests.done
  saved := fun upper lower ancestor member entry =>
    (rests.done upper).mpr
      (clear.saved upper lower ancestor (rests.ids ▸ member) (rests.checkpoint ▸ entry))

/-- Whoever forgets an entry stays clear. -/
theorem forget (clear : Clear shards reader) (shard : ShardId) :
    Clear shards (reader.forget shard) where
  toOrdered := clear.toOrdered.congr rfl fun _ => Iff.rfl
  saved := fun upper lower ancestor member entry => by
    refine clear.saved upper lower ancestor member ?_
    rw [Reader.forget, Checkpoint.get?_erase] at entry
    split at entry
    · cases entry
    · exact entry

/-- A record of a tracked shard saves an entry below finished shards only. -/
theorem handOut (clear : Clear shards reader) {delivery : Delivery}
    (known : delivery.shard ∈ reader.ids) : Clear shards (reader.handOut delivery) where
  toOrdered := clear.toOrdered.congr rfl fun _ => Iff.rfl
  saved := fun upper lower ancestor member entry => by
    rw [Reader.handOut, Checkpoint.get?_record] at entry
    split at entry
    · rename_i own
      exact clear.done upper lower ancestor member (own ▸ known)
    · exact clear.saved upper lower ancestor member entry

/-- Nothing is saved below the position at which a start opens a shard. -/
theorem bare_of_opensAt {checkpoint : Checkpoint} {policy : StartPolicy} {top : Shard}
    {position : Position}
    (opens : Assignments.OpensAt (.ofShards shards) checkpoint policy top position) {lower : Shard}
    (below : (Lineage.ofShards shards).StrictlyBelow top lower) :
    checkpoint.get? lower.id = none := by
  cases position with
  | afterSequence sequence => exact opens.2.2 lower below
  | trimHorizon =>
      rw [← Option.not_isSome_iff_eq_none]
      exact fun entry => opens.1 ⟨lower, below.to_reflTransGen, entry⟩
  | latest =>
      obtain ⟨child, link, _⟩ := Relation.TransGen.head'_iff.mp below
      exact absurd (opens.2.2 ▸ link : child ∈ []) List.not_mem_nil
  | atSequence sequence => exact opens.elim

/-- A start is clear. -/
theorem opening (indexed : reader.Indexed) (distinct : (shards.map Shard.id).Nodup)
    (untracked : reader.shards = []) : Clear shards (reader.opening shards) := by
  have tracks := indexed.track
    (Assignments.atStart (.ofShards shards) reader.checkpoint reader.settings.policy)
  refine ⟨.opening indexed distinct untracked, fun upper lower ancestor member entry => ?_⟩
  rw [ids, Reader.opening, tracks.shards, untracked, List.nil_append, List.map_map] at member
  obtain ⟨opened, chosen, rfl⟩ := List.mem_map.mp member
  obtain ⟨top, -, same, opens⟩ :=
    Assignments.opensAt_of_mem distinct (tracks.chosen opened chosen).1
  change Lineage.AncestorOf shards opened.shard lower at ancestor
  rw [← same] at ancestor
  obtain ⟨shard, below, rfl⟩ := Lineage.exists_strictlyBelow ancestor
  change ((reader.opening shards).checkpoint.get? shard.id).isSome = true at entry
  rw [show (reader.opening shards).checkpoint = reader.checkpoint by
    rw [Reader.opening, tracks.rest], bare_of_opensAt opens below] at entry
  cases entry

/-- A succession opens shards below one below which nothing is saved. -/
theorem succeed (clear : Clear shards reader) (indexed : reader.Indexed)
    (distinct : (shards.map Shard.id).Nodup) (acyclic : (Lineage.ofShards shards).Acyclic)
    {tracked : Tracked} (member : tracked ∈ reader.shards) (ended : tracked.phase = .exhausted)
    (follows : Follows reader tracked.id (some .done)
      (reader.successors tracked.id shards).entries later) : Clear shards later := by
  refine ⟨clear.toOrdered.succeed indexed distinct acyclic member ended follows,
    fun upper lower ancestor known entry => ?_⟩
  rw [follows.checkpoint] at entry
  refine (follows.isDone_finished_iff member).mpr ?_
  rcases follows.mem_ids_iff.mp known with before | ⟨opened, chosen, rfl⟩
  · exact .inr (clear.saved upper lower ancestor before entry)
  · have below := clear.below_of_successor distinct acyclic member chosen
    exact absurd (clear.saved _ lower (below.trans ancestor) (List.mem_map_of_mem member) entry)
      (indexed.not_isDone member (by rw [ended]; exact Phase.noConfusion))

end Clear

/--
Nobody looks up this entry: its shard is done or was never tracked, and as long as the entry is
there its shard will not be.
-/
structure Forgettable (shards : List Shard) (shard : ShardId) (reader : Reader) : Prop
    extends Clear shards reader where
  ready : reader.initialized = true
  entry : (reader.checkpoint.get? shard).isSome = true
  ended : shard ∈ reader.ids → reader.IsDone shard

namespace Forgettable

variable (forgettable : Forgettable shards shard reader) (indexed : reader.Indexed)
include forgettable

/-- A shard that is not done is another one. -/
theorem ne_of_unfinished {tracked : Tracked} (member : tracked ∈ reader.shards)
    (unfinished : tracked.phase ≠ .done) (indexed : reader.Indexed) : tracked.id ≠ shard := by
  rintro rfl
  exact indexed.not_isDone member unfinished (forgettable.ended (List.mem_map_of_mem member))

/-- An entry that nobody looks up stays so while the reader rests. -/
theorem congr (rests : Rests reader later) : Forgettable shards shard later where
  toClear := forgettable.toClear.congr rests
  ready := rests.initialized.trans forgettable.ready
  entry := rests.checkpoint ▸ forgettable.entry
  ended := fun known => (rests.done shard).mpr (forgettable.ended (rests.ids ▸ known))

/-- The records that are handed out leave the entry alone. -/
theorem handOut {delivery : Delivery} (known : delivery.shard ∈ reader.ids)
    (other : delivery.shard ≠ shard) : Forgettable shards shard (reader.handOut delivery) where
  toClear := forgettable.toClear.handOut known
  ready := forgettable.ready
  entry := by
    rw [Reader.handOut, Checkpoint.get?_record, if_neg other]
    exact forgettable.entry
  ended := forgettable.ended

/-- A succession does not open its shard, since nothing is saved below a shard that is read. -/
theorem succeed (indexed : reader.Indexed) (distinct : (shards.map Shard.id).Nodup)
    (acyclic : (Lineage.ofShards shards).Acyclic) {tracked : Tracked}
    (member : tracked ∈ reader.shards) (ended : tracked.phase = .exhausted)
    (follows : Follows reader tracked.id (some .done)
      (reader.successors tracked.id shards).entries later) :
    Forgettable shards shard later where
  toClear := forgettable.toClear.succeed indexed distinct acyclic member ended follows
  ready := follows.initialized.trans forgettable.ready
  entry := follows.checkpoint ▸ forgettable.entry
  ended := fun known => by
    refine (follows.isDone_finished_iff member).mpr ?_
    rcases follows.mem_ids_iff.mp known with before | ⟨opened, chosen, rfl⟩
    · exact .inr (forgettable.ended before)
    · have below := forgettable.below_of_successor distinct acyclic member chosen
      exact absurd (forgettable.saved _ _ below (List.mem_map_of_mem member) forgettable.entry)
        (indexed.not_isDone member (by rw [ended]; exact Phase.noConfusion))

end Forgettable

/-- Without entries below a shard its successors are the same with any of the others forgotten. -/
theorem forget_successors {finished : ShardId}
    (apart : ¬ Lineage.AncestorOf shards finished shard) :
    (reader.forget shard).successors finished shards = reader.successors finished shards := by
  have same : Assignments.afterEnd (.ofShards shards) finished (reader.checkpoint.erase shard) =
      Assignments.afterEnd (.ofShards shards) finished reader.checkpoint := by
    refine Assignments.afterEnd_congr fun lower below => ?_
    rw [Checkpoint.get?_erase, if_neg]
    rintro rfl
    exact apart below
  change (Assignments.afterEnd _ _ (reader.checkpoint.erase shard)).without _ = _
  rw [same]
  rfl

/-- A lookup asks one question. -/
theorem lookUpSuccessors_eq (reader : Reader) (finished : ShardId) :
    reader.lookUpSuccessors finished =
      .ask (.listShards reader.settings.stream) fun settled => .done <| match settled with
        | .ok (some shards) =>
            .ok (.bare finished (.successorsKnown (reader.successors finished shards)))
        | .ok none => .ok (.bare finished .successorsUnknown)
        | .error fault => .error (.client fault) := by
  refine congrArg (Dialogue.ask _) (funext fun settled => ?_)
  rcases settled with fault | _ | shards <;> rfl

/-- A lookup in the one description that there is finds the same successors. -/
theorem converse_lookUp_forget {finished : ShardId} {plan : Nat → RetryPlan} {world : World σ}
    (apart : ¬ Lineage.AncestorOf shards finished shard)
    (described : ∀ description ∈
      (world.converse service plan (reader.lookUpSuccessors finished)).2.descriptions,
        description = shards) :
    world.converse service plan ((reader.forget shard).lookUpSuccessors finished) =
      world.converse service plan (reader.lookUpSuccessors finished) := by
  have stream : (reader.forget shard).settings.stream = reader.settings.stream := rfl
  rw [lookUpSuccessors_eq, World.converse_ask_eq] at described
  rw [lookUpSuccessors_eq, lookUpSuccessors_eq, stream, World.converse_ask_eq,
    World.converse_ask_eq]
  cases settled : (world.settle service plan (.listShards reader.settings.stream)).1 with
  | none => rfl
  | some answer =>
      rcases answer with fault | _ | found
      · rfl
      · rfl
      · rw [settled] at described
        have recorded := (World.settle_settles (Prod.ext settled rfl)).descriptions_of_some
        have same : found = shards := by
          refine described found ?_
          change found ∈ (world.settle service plan _).2.descriptions
          rw [recorded]
          exact List.mem_append_right _ List.mem_cons_self
        rw [same]
        simp only [forget_successors apart]

/-- A step looks up no entry but those below a shard that has been read to its end. -/
theorem converse_step_forget (clear : Clear shards reader) (indexed : reader.Indexed)
    (entry : (reader.checkpoint.get? shard).isSome = true) {visited : ShardId} {plan : Nat → RetryPlan}
    {world : World σ}
    (described : ∀ description ∈ (world.converse service plan (reader.step visited)).2.descriptions,
      description = shards) :
    world.converse service plan ((reader.forget shard).step visited) =
      world.converse service plan (reader.step visited) := by
  have found : (reader.forget shard).tracked? visited = reader.tracked? visited := rfl
  have reads := readFrom_congr reader (reader.forget shard) rfl
  have opens := openAndRead_congr reader (reader.forget shard) rfl rfl
  unfold step at described ⊢
  rw [found]
  cases known : reader.tracked? visited with
  | none => rfl
  | some tracked =>
      rw [known] at described
      dsimp only at described ⊢
      cases phase : tracked.phase with
      | waiting position => simp only [opens]
      | reading token => simp only [reads]
      | done => rfl
      | exhausted =>
          rw [phase] at described
          obtain ⟨member, rfl⟩ := indexed.tracked?_eq_some_iff.mp known
          refine converse_lookUp_forget (fun below => ?_) described
          exact indexed.not_isDone member (by rw [phase]; exact Phase.noConfusion)
            (clear.saved _ _ below (List.mem_map_of_mem member) entry)

/-- An outcome looks up the entry of its own shard alone. -/
theorem forget_apply {outcome : Outcome} (other : outcome.shard ≠ shard) :
    (reader.forget shard).apply outcome =
      ((reader.apply outcome).1, (reader.apply outcome).2.forget shard) := by
  refine recast_apply reader id (·.erase shard) ?_
  simp only [resumesAt?, recast, Checkpoint.get?_erase, if_neg other.symm]
  rfl

/-- Where there is nothing left to do, it does not even look that up. -/
theorem forget_apply_idle (visited : ShardId) :
    (reader.forget shard).apply (.bare visited .idle) =
      ((reader.apply (.bare visited .idle)).1,
        (reader.apply (.bare visited .idle)).2.forget shard) := by
  unfold apply
  have found : (reader.forget shard).tracked? visited = reader.tracked? visited := rfl
  simp only [resumesAt?, Outcome.bare, found]
  cases reader.tracked? visited <;> rfl

/-- The outcome of a step does the same without the entry. -/
theorem Forgettable.apply_eq (forgettable : Forgettable shards shard reader)
    (indexed : reader.Indexed) {tracked : Tracked} (member : tracked ∈ reader.shards)
    {outcome : Outcome} {world after : World σ}
    (steps : Steps service reader tracked world outcome after) :
    (reader.forget shard).apply outcome =
      ((reader.apply outcome).1, (reader.apply outcome).2.forget shard) := by
  by_cases finished : tracked.phase = .done
  · rw [steps.eq_idle finished]
    exact forget_apply_idle tracked.id
  · exact forget_apply (steps.shard ▸ forgettable.ne_of_unfinished member finished indexed)

theorem forget_restartAt (restarted : ShardId) (position : Position) :
    (reader.forget shard).restartAt restarted position =
      (reader.restartAt restarted position).forget shard :=
  recast_modifyTracked reader id (·.erase shard) restarted _

theorem forget_handOut {delivery : Delivery} (other : delivery.shard ≠ shard) :
    (reader.forget shard).handOut delivery = (reader.handOut delivery).forget shard := by
  have same : (reader.checkpoint.erase shard).record delivery.shard delivery.record.sequence =
      (reader.checkpoint.record delivery.shard delivery.record.sequence).erase shard := by
    ext1 id
    simp only [Checkpoint.get?_record, Checkpoint.get?_erase]
    split
    · rename_i own
      rw [if_neg (own ▸ other.symm)]
    · rfl
  simp only [handOut, forget, same]

end Reader
end ShardedStream
