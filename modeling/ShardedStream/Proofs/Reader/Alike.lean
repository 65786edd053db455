import ShardedStream.Proofs.Assignments.Listed
import ShardedStream.Proofs.Reader.Effect

/-!
Readers that look alike aside of some shards.
Two readers are alike when they treat the shards aside in the same way, up to the texts of their
tokens; whatever befalls the other shards cannot be seen there.
-/

namespace ShardedStream

/-- A phase without the text of its token. -/
def Phase.tokenless : Phase → Phase
  | .waiting position => .waiting position
  | .reading _ => .reading ""
  | .exhausted => .exhausted
  | .done => .done

def Tracked.tokenless (tracked : Tracked) : Tracked :=
  { tracked with phase := tracked.phase.tokenless }

theorem Tracked.id_of_tokenless {tracked other : Tracked}
    (same : other.tokenless = tracked.tokenless) : other.id = tracked.id :=
  show other.tokenless.id = tracked.tokenless.id from congrArg Tracked.id same

theorem Tracked.start_of_tokenless {tracked other : Tracked}
    (same : other.tokenless = tracked.tokenless) : other.start = tracked.start :=
  show other.tokenless.start = tracked.tokenless.start from congrArg Tracked.start same

theorem Tracked.phase_of_tokenless {tracked other : Tracked}
    (same : other.tokenless = tracked.tokenless) :
    other.phase.tokenless = tracked.phase.tokenless :=
  show other.tokenless.phase = tracked.tokenless.phase from congrArg Tracked.phase same

@[simp] theorem Tracked.tokenless_isActive (tracked : Tracked) :
    tracked.tokenless.isActive = tracked.isActive := by
  obtain ⟨id, phase, start⟩ := tracked
  cases phase <;> rfl

theorem Tracked.tokenless_enter (tracked : Tracked) (phase : Option Phase) :
    (tracked.enter phase).tokenless = tracked.tokenless.enter (phase.map Phase.tokenless) := by
  cases phase <;> rfl

/-- Two outcomes of one shard do the same, up to the texts of tokens. -/
structure Outcome.Alike (first second : Outcome) : Prop where
  shard : second.shard = first.shard
  records : second.records = first.records
  lag : second.lag = first.lag
  revisits : second.transition.revisits = first.transition.revisits
  entries : second.transition.entries = first.transition.entries
  phase : ∀ resume, (second.transition.phase? resume).map Phase.tokenless =
    (first.transition.phase? resume).map Phase.tokenless

namespace Reader

variable {aside : ShardId → Bool} {first second third reader : Reader}

/-- The tracked shards aside, in order. -/
def seen (aside : ShardId → Bool) (reader : Reader) : List Tracked :=
  (reader.shards.filter fun tracked => aside tracked.id).map Tracked.tokenless

/-- Two readers treat the shards aside in the same way. -/
structure Alike (aside : ShardId → Bool) (first second : Reader) : Prop where
  settings : second.settings = first.settings
  initialized : second.initialized = first.initialized
  seen : second.seen aside = first.seen aside
  saved : ∀ id, aside id = true → second.checkpoint.get? id = first.checkpoint.get? id
  lag : ∀ id, aside id = true → second.lag[id]? = first.lag[id]?

theorem Alike.refl (aside : ShardId → Bool) (reader : Reader) : Alike aside reader reader :=
  ⟨rfl, rfl, rfl, fun _ _ => rfl, fun _ _ => rfl⟩

theorem Alike.symm (alike : Alike aside first second) : Alike aside second first :=
  ⟨alike.settings.symm, alike.initialized.symm, alike.seen.symm,
    fun id chosen => (alike.saved id chosen).symm, fun id chosen => (alike.lag id chosen).symm⟩

theorem Alike.trans (alike : Alike aside first second) (next : Alike aside second third) :
    Alike aside first third :=
  ⟨next.settings.trans alike.settings, next.initialized.trans alike.initialized,
    next.seen.trans alike.seen,
    fun id chosen => (next.saved id chosen).trans (alike.saved id chosen),
    fun id chosen => (next.lag id chosen).trans (alike.lag id chosen)⟩

/-- A shard aside that one reader tracks is tracked by the other. -/
theorem Alike.exists_tracked (alike : Alike aside first second) {tracked : Tracked}
    (member : tracked ∈ first.shards) (chosen : aside tracked.id = true) :
    ∃ other ∈ second.shards, other.tokenless = tracked.tokenless := by
  have here : tracked.tokenless ∈ second.seen aside := by
    rw [alike.seen]
    exact List.mem_map_of_mem (List.mem_filter.mpr ⟨member, chosen⟩)
  obtain ⟨other, found, same⟩ := List.mem_map.mp here
  exact ⟨other, (List.mem_filter.mp found).1, same⟩

/-- Looking up a shard aside finds the same in both readers. -/
theorem Alike.lookup (alike : Alike aside first second) (indexed : first.Indexed)
    (otherIndexed : second.Indexed) {id : ShardId} (chosen : aside id = true) :
    (second.tracked? id).map Tracked.tokenless = (first.tracked? id).map Tracked.tokenless := by
  cases found : first.tracked? id with
  | some tracked =>
      obtain ⟨member, rfl⟩ := indexed.tracked?_eq_some_iff.mp found
      obtain ⟨other, otherMember, same⟩ := alike.exists_tracked member chosen
      rw [otherIndexed.tracked?_eq_some_iff.mpr ⟨otherMember, Tracked.id_of_tokenless same⟩]
      exact congrArg some same
  | none =>
      cases otherFound : second.tracked? id with
      | none => rfl
      | some other =>
          obtain ⟨otherMember, rfl⟩ := otherIndexed.tracked?_eq_some_iff.mp otherFound
          obtain ⟨tracked, member, same⟩ := alike.symm.exists_tracked otherMember chosen
          rw [indexed.tracked?_eq_some_iff.mpr ⟨member, Tracked.id_of_tokenless same⟩] at found
          cases found

/-- The active shards aside can be seen. -/
theorem activeShards_aside (aside : ShardId → Bool) (reader : Reader) :
    reader.activeShards.filter aside =
      ((reader.seen aside).filter Tracked.isActive).map Tracked.id := by
  have active : Tracked.isActive ∘ Tracked.tokenless = Tracked.isActive :=
    funext Tracked.tokenless_isActive
  have ids : Tracked.id ∘ Tracked.tokenless = Tracked.id := rfl
  rw [seen, List.filter_map, List.map_map, active, ids, activeShards, List.filter_map,
    List.filter_filter, List.filter_filter]
  simp only [Bool.and_comm, Function.comp]

/-- A record that is handed out for another shard cannot be seen aside. -/
theorem alike_handOut (reader : Reader) {delivery : Delivery}
    (troubled : aside delivery.shard = false) : Alike aside reader (reader.handOut delivery) := by
  refine ⟨rfl, rfl, rfl, fun id chosen => ?_, fun _ _ => rfl⟩
  rw [handOut, Checkpoint.get?_record, if_neg]
  rintro rfl
  rw [troubled] at chosen
  cases chosen

theorem Alike.handOut (alike : Alike aside first second) (delivery : Delivery) :
    Alike aside (first.handOut delivery) (second.handOut delivery) := by
  refine ⟨alike.settings, alike.initialized, alike.seen, fun id chosen => ?_, alike.lag⟩
  rw [Reader.handOut, Reader.handOut, Checkpoint.get?_record, Checkpoint.get?_record,
    alike.saved id chosen]

/-- The outcome opens only shards that are new and different. -/
structure Brings (reader : Reader) (outcome : Outcome) : Prop where
  distinct : (outcome.transition.entries.map Assignment.shard).Nodup
  fresh : ∀ entry ∈ outcome.transition.entries, entry.shard ∉ reader.ids

variable {tracked other : Tracked} {outcome firstOutcome secondOutcome : Outcome}

/-- All these decisions are followed. -/
theorem Brings.brought (brings : reader.Brings outcome) (indexed : reader.Indexed) :
    reader.brought outcome.transition = outcome.transition.entries :=
  brought_fresh indexed brings.distinct brings.fresh

/-- A step brings only shards that are new and different. -/
theorem Steps.brings {σ : Type} {service : Service σ} {world later : World σ}
    (steps : reader.Steps service tracked world outcome later) (indexed : reader.Indexed) :
    reader.Brings outcome := by
  rcases steps.quiet_or_described with ⟨none, _⟩ | ⟨shards, _, _, rfl⟩
  · exact ⟨none ▸ List.nodup_nil, fun entry chosen => by
      rw [none] at chosen
      exact absurd chosen List.not_mem_nil⟩
  · have sound := Assignments.afterEnd_sound shards tracked.id reader.checkpoint
    refine ⟨sound.distinct.sublist (List.filter_sublist.map Assignment.shard),
      fun entry chosen => ?_⟩
    have skipped := (Assignments.mem_without.mp chosen).2
    rwa [← Bool.not_eq_true, indexed.mem_trackedShards] at skipped

/-- What can be seen of an applied outcome. -/
theorem seen_apply (indexed : reader.Indexed) (member : tracked ∈ reader.shards)
    (own : outcome.shard = tracked.id) (brings : reader.Brings outcome) :
    (reader.apply outcome).2.seen aside =
      ((reader.seen aside).map fun other => if other.id = tracked.id then
        other.enter ((outcome.transition.phase? (tracked.resume reader.checkpoint)).map
          Phase.tokenless) else other) ++
        ((outcome.transition.entries.filter fun entry => aside entry.shard).map
          .ofAssignment).map Tracked.tokenless := by
  rw [seen, shards_apply indexed member own, brings.brought indexed, List.filter_append,
    List.map_append, List.filter_map, List.filter_map, seen, List.map_map, List.map_map]
  refine congrArg₂ _ ?_ (List.map_map ..).symm
  have ids : ((fun other : Tracked => aside other.id) ∘ fun other : Tracked =>
      if other.id = tracked.id then
        other.enter (outcome.transition.phase? (tracked.resume reader.checkpoint)) else other) =
      fun other => aside other.id := by
    funext other
    simp only [Function.comp]
    split <;> rfl
  rw [ids, List.map_map]
  refine List.map_congr_left fun other _ => ?_
  simp only [Function.comp]
  by_cases same : other.id = tracked.id
  · rw [if_pos same, if_pos (show other.tokenless.id = tracked.id from same),
      Tracked.tokenless_enter]
  · rw [if_neg same, if_neg (show other.tokenless.id ≠ tracked.id from same)]

/-- An outcome of another shard that opens none aside cannot be seen there. -/
theorem alike_apply (indexed : reader.Indexed) (member : tracked ∈ reader.shards)
    (own : outcome.shard = tracked.id) (brings : reader.Brings outcome)
    (troubled : aside tracked.id = false)
    (within : ∀ entry ∈ outcome.transition.entries, aside entry.shard = false) :
    Alike aside reader (reader.apply outcome).2 := by
  have follows := follows_apply indexed member own
  refine ⟨follows.settings, follows.initialized, ?_,
    fun id _ => congrArg (Checkpoint.get? · id) follows.checkpoint, fun id chosen => ?_⟩
  · have none : (outcome.transition.entries.filter fun entry => aside entry.shard) = [] :=
      List.filter_eq_nil_iff.mpr fun entry chosen => by
        rw [within entry chosen]
        exact Bool.false_ne_true
    rw [seen_apply indexed member own brings, none]
    simp only [List.map_nil, List.append_nil]
    refine (List.map_congr_left fun other here => if_neg fun same => ?_).trans (List.map_id _)
    obtain ⟨old, found, rfl⟩ := List.mem_map.mp here
    have chosen := (List.mem_filter.mp found).2
    rw [show old.id = tracked.id from same, troubled] at chosen
    cases chosen
  · rw [lag_apply indexed member own]
    split
    · rw [Std.ExtTreeMap.getElem?_insert, if_neg]
      rw [Std.LawfulEqCmp.compare_eq_iff_eq]
      rintro rfl
      rw [troubled] at chosen
      cases chosen
    · rfl

/-- Shards that look alike resume alike. -/
theorem Alike.resume (alike : Alike aside first second)
    (same : other.tokenless = tracked.tokenless) (chosen : aside tracked.id = true) :
    other.resume second.checkpoint = tracked.resume first.checkpoint := by
  rw [Tracked.resume, Tracked.resume, Tracked.id_of_tokenless same,
    Tracked.start_of_tokenless same, alike.saved _ chosen]

/-- Outcomes that are alike leave readers alike, and mean the same for the pass. -/
theorem Alike.apply (alike : Alike aside first second) (firstIndexed : first.Indexed)
    (secondIndexed : second.Indexed) (member : tracked ∈ first.shards)
    (otherMember : other ∈ second.shards) (same : other.tokenless = tracked.tokenless)
    (chosen : aside tracked.id = true) (outcomes : firstOutcome.Alike secondOutcome)
    (own : firstOutcome.shard = tracked.id) (firstBrings : first.Brings firstOutcome)
    (secondBrings : second.Brings secondOutcome) :
    Alike aside (first.apply firstOutcome).2 (second.apply secondOutcome).2 ∧
      (second.apply secondOutcome).1.deliveries = (first.apply firstOutcome).1.deliveries ∧
      (second.apply secondOutcome).1.newShards = (first.apply firstOutcome).1.newShards ∧
      (second.apply secondOutcome).1.revisit = (first.apply firstOutcome).1.revisit := by
  have id := Tracked.id_of_tokenless same
  have otherOwn : secondOutcome.shard = other.id := outcomes.shard.trans (own.trans id.symm)
  have follows := follows_apply firstIndexed member own
  have otherFollows := follows_apply secondIndexed otherMember otherOwn
  refine ⟨⟨?_, ?_, ?_, fun shard aside => ?_, fun shard aside => ?_⟩, ?_, ?_, ?_⟩
  · rw [otherFollows.settings, follows.settings, alike.settings]
  · rw [otherFollows.initialized, follows.initialized, alike.initialized]
  · rw [seen_apply firstIndexed member own firstBrings,
      seen_apply secondIndexed otherMember otherOwn secondBrings, outcomes.entries, id, alike.seen,
      alike.resume same chosen, outcomes.phase]
  · rw [otherFollows.checkpoint, follows.checkpoint, alike.saved shard aside]
  · rw [lag_apply firstIndexed member own, lag_apply secondIndexed otherMember otherOwn,
      outcomes.lag, id]
    split
    · rw [Std.ExtTreeMap.getElem?_insert, Std.ExtTreeMap.getElem?_insert, alike.lag shard aside]
    · exact alike.lag shard aside
  · rw [deliveries_apply firstIndexed member own,
      deliveries_apply secondIndexed otherMember otherOwn, outcomes.records, id]
  · rw [effect_apply firstIndexed member own, effect_apply secondIndexed otherMember otherOwn,
      firstBrings.brought firstIndexed, secondBrings.brought secondIndexed, outcomes.entries]
    rfl
  · rw [revisit_apply firstIndexed member own, revisit_apply secondIndexed otherMember otherOwn,
      outcomes.revisits]

end Reader
end ShardedStream
