import ShardedStream.Proofs.Reader.Step

/-!
What an applied outcome comes to.
It moves its own shard, and it brings the decided shards that are new to its reader. Its effect on
the pass is fixed by where its shard resumes and by what it brings, and its own shard is visited
again only when it has just been read to its end.
-/

namespace ShardedStream

/-- Only a shard that has just been read to its end is visited again. -/
def Transition.revisits : Transition → Bool
  | .exhausted => true
  | _ => false

/-- A shard that has been read to its end is due for one more visit at most. -/
def Phase.isEnded : Phase → Bool
  | .waiting _ => false
  | .reading _ => false
  | .exhausted => true
  | .done => true

/-- These are the reports of a transition that brings some shards. -/
def Transition.reports (shard : ShardId) (resume : Position) (brought : List Assignment) :
    Transition → List Report
  | .continued _ => []
  | .exhausted => [.event ⟨shard, .shard .exhausted none⟩]
  | .throttled _ => [.event ⟨shard, .throttled "get_records"⟩]
  | .expired =>
    [.notice (.iteratorExpired shard resume), .event ⟨shard, .iterator .expired none⟩]
  | .noIterator => [.event ⟨shard, .iterator .unavailable none⟩]
  | .successorsKnown _ =>
    Reader.assignedReports brought ++
      [.event ⟨shard, .shard .completed (some (Nat.repr brought.length ++ " successors"))⟩]
  | .successorsUnknown => []
  | .idle => []

/-- This is the effect of an outcome whose shard resumes at a position. -/
def Outcome.effect (outcome : Outcome) (resume : Position) (brought : List Assignment) :
    Effect where
  deliveries := outcome.records.map (Delivery.mk outcome.shard)
  newShards := brought.map Assignment.shard
  revisit := outcome.transition.revisits
  reports := Reader.lagReports outcome ++ outcome.transition.reports outcome.shard resume brought

namespace Reader

variable {reader : Reader} {tracked : Tracked} {outcome : Outcome}

/-- A transition brings the decided shards that are new to the reader. -/
def brought (reader : Reader) : Transition → List Assignment
  | .successorsKnown assignments => (reader.track assignments).1
  | _ => []

/-- A shard is visited again only when this visit has read it to its end. -/
theorem Steps.exhausted_of_revisits {σ : Type} {service : Service σ} {world after : World σ}
    (steps : reader.Steps service tracked world outcome after)
    (revisits : outcome.transition.revisits = true) :
    tracked.phase.isEnded = false ∧ outcome.transition = .exhausted := by
  constructor
  · cases steps with
    | opened waiting _ _ => rw [waiting]; rfl
    | unopened _ _ => cases revisits
    | missing waiting _ _ => rw [waiting]; rfl
    | read reading _ => rw [reading]; rfl
    | described _ _ => cases revisits
    | undescribed _ _ => cases revisits
    | idle _ => cases revisits
  · cases transition : outcome.transition with
    | exhausted => rfl
    | _ =>
        rw [transition] at revisits
        cases revisits

theorem lag_modifyTracked (reader : Reader) (shard : ShardId) (change : Tracked → Tracked) :
    (reader.modifyTracked shard change).lag = reader.lag := by
  unfold modifyTracked
  split <;> rfl

theorem lag_setPhase (reader : Reader) (shard : ShardId) (phase : Phase) :
    (reader.setPhase shard phase).lag = reader.lag := reader.lag_modifyTracked shard _

theorem lag_follow (indexed : reader.Indexed) (shard : ShardId) (resume : Position)
    (transition : Transition) :
    (reader.follow shard resume transition).2.lag = reader.lag := by
  cases transition with
  | continued next => exact lag_setPhase reader shard _
  | exhausted => exact lag_setPhase reader shard _
  | throttled token =>
      cases token with
      | none => rfl
      | some token => exact lag_setPhase reader shard _
  | expired => exact lag_setPhase reader shard _
  | noIterator => rfl
  | successorsKnown assignments =>
      refine (lag_setPhase _ shard _).trans ?_
      rw [(indexed.track assignments).rest]
  | successorsUnknown => rfl
  | idle => rfl

/-- A transition moves its shard, and the shards that it brings are put last. -/
theorem shards_follow (indexed : reader.Indexed) {shard : ShardId} (known : shard ∈ reader.ids)
    (resume : Position) (transition : Transition) :
    (reader.follow shard resume transition).2.shards =
      (reader.shards.map fun other =>
        if other.id = shard then other.enter (transition.phase? resume) else other) ++
          (reader.brought transition).map .ofAssignment := by
  have moved : ∀ phase, (reader.setPhase shard phase).shards =
      (reader.shards.map fun other =>
        if other.id = shard then other.enter (some phase) else other) ++
          [].map Tracked.ofAssignment := by
    intro phase
    rw [setPhase, indexed.shards_modifyTracked, List.map_nil, List.append_nil]
    rfl
  have stayed : reader.shards = (reader.shards.map fun other =>
      if other.id = shard then other.enter none else other) ++
        [].map Tracked.ofAssignment := by
    simp
  cases transition with
  | continued next => exact moved _
  | exhausted => exact moved _
  | throttled token =>
      cases token with
      | none => exact stayed
      | some token => exact moved _
  | expired => exact moved _
  | noIterator => exact stayed
  | successorsKnown assignments => exact shards_finish indexed known assignments
  | successorsUnknown => exact stayed
  | idle => exact stayed

/-- Which decisions are followed depends on the tracked shards by name alone. -/
theorem track_congr {other : Reader} (indexed : reader.Indexed) (otherIndexed : other.Indexed)
    (assignments : Assignments) (same : ∀ entry ∈ assignments.entries,
      (entry.shard ∈ reader.ids ↔ entry.shard ∈ other.ids)) :
    (reader.track assignments).1 = (other.track assignments).1 := by
  obtain ⟨entries, decided⟩ := assignments
  simp only [track] at same ⊢
  induction entries using List.reverseRecOn with
  | nil => rfl
  | append_singleton entries entry inductionHypothesis =>
      have before := inductionHypothesis
        fun early member => same early (List.mem_append_left _ member)
      have tracks := tracks_foldl indexed entries
      have otherTracks := tracks_foldl otherIndexed entries
      have alike : (entries.foldl trackOne ([], reader)).2.index.contains entry.shard =
          (entries.foldl trackOne ([], other)).2.index.contains entry.shard := by
        rw [Bool.eq_iff_iff, tracks.indexed.contains_iff, otherTracks.indexed.contains_iff]
        simp only [ids, tracks.shards, otherTracks.shards, List.map_append, List.mem_append,
          before]
        exact or_congr_left (same entry (List.mem_append_right _ List.mem_cons_self))
      rw [List.foldl_append, List.foldl_append, List.foldl_cons, List.foldl_cons,
        List.foldl_nil, List.foldl_nil, trackOne, trackOne, alike]
      split
      · exact before
      · exact congrArg (· ++ [entry]) before

theorem brought_congr {other : Reader} (indexed : reader.Indexed) (otherIndexed : other.Indexed)
    (transition : Transition) (same : ∀ entry ∈ transition.entries,
      (entry.shard ∈ reader.ids ↔ entry.shard ∈ other.ids)) :
    reader.brought transition = other.brought transition := by
  cases transition with
  | successorsKnown assignments => exact track_congr indexed otherIndexed assignments same
  | _ => rfl

/-- Every shard that is brought has a decision, and it is new. -/
theorem brought_chosen (indexed : reader.Indexed) {transition : Transition} {entry : Assignment}
    (member : entry ∈ reader.brought transition) :
    entry ∈ transition.entries ∧ entry.shard ∉ reader.ids := by
  cases transition with
  | successorsKnown assignments => exact (indexed.track assignments).chosen entry member
  | _ => exact absurd member List.not_mem_nil

/-- Shards that are tracked already are not brought. -/
theorem not_brought (indexed : reader.Indexed) (transition : Transition) {shard : ShardId}
    (known : shard ∈ reader.ids) :
    shard ∉ (reader.brought transition).map Assignment.shard := by
  intro brought
  obtain ⟨entry, member, rfl⟩ := List.mem_map.mp brought
  exact (brought_chosen indexed member).2 known

/-- Decisions on different shards that are not tracked yet are all followed. -/
theorem track_fresh (indexed : reader.Indexed) {assignments : Assignments}
    (distinct : assignments.shards.Nodup)
    (fresh : ∀ entry ∈ assignments.entries, entry.shard ∉ reader.ids) :
    (reader.track assignments).1 = assignments.entries := by
  obtain ⟨entries, decided⟩ := assignments
  simp only [Assignments.shards, track] at distinct fresh ⊢
  induction entries using List.reverseRecOn with
  | nil => rfl
  | append_singleton entries entry inductionHypothesis =>
      rw [List.map_append, List.nodup_append] at distinct
      have before := inductionHypothesis distinct.1
        fun other member => fresh other (List.mem_append_left _ member)
      have tracks := tracks_foldl indexed entries
      have unknown : ¬ (entries.foldl trackOne ([], reader)).2.index.contains entry.shard := by
        rw [tracks.indexed.contains_iff, ids, tracks.shards, List.map_append, List.map_map,
          before]
        intro member
        rcases List.mem_append.mp member with old | new
        · exact fresh entry (List.mem_append_right _ List.mem_cons_self) old
        · exact distinct.2.2 _ new _ List.mem_cons_self rfl
      rw [List.foldl_append, List.foldl_cons, List.foldl_nil, trackOne, if_neg unknown]
      exact congrArg (· ++ [entry]) before

theorem brought_fresh (indexed : reader.Indexed) {transition : Transition}
    (distinct : (transition.entries.map Assignment.shard).Nodup)
    (fresh : ∀ entry ∈ transition.entries, entry.shard ∉ reader.ids) :
    reader.brought transition = transition.entries := by
  cases transition with
  | successorsKnown assignments => exact track_fresh indexed distinct fresh
  | _ => rfl

theorem noteLag_indexed (indexed : reader.Indexed) (outcome : Outcome) :
    (reader.noteLag outcome).Indexed := by
  rw [noteLag_eq]
  exact indexed

theorem brought_noteLag (indexed : reader.Indexed) (outcome : Outcome) (transition : Transition) :
    (reader.noteLag outcome).brought transition = reader.brought transition := by
  refine brought_congr (noteLag_indexed indexed outcome) indexed transition fun entry _ => ?_
  rw [noteLag_eq]
  rfl

theorem apply_eq (indexed : reader.Indexed) (member : tracked ∈ reader.shards)
    (own : outcome.shard = tracked.id) :
    reader.apply outcome =
      let followed := (reader.noteLag outcome).follow tracked.id
        (tracked.resume reader.checkpoint) outcome.transition
      ({ followed.1 with
          deliveries := outcome.records.map (Delivery.mk tracked.id)
          reports := lagReports outcome ++ followed.1.reports },
        followed.2) := by
  rw [apply, own, resumesAt?_eq indexed member]

/-- What an outcome means for its pass. -/
theorem effect_apply (indexed : reader.Indexed) (member : tracked ∈ reader.shards)
    (own : outcome.shard = tracked.id) :
    (reader.apply outcome).1 = outcome.effect (tracked.resume reader.checkpoint)
      (reader.brought outcome.transition) := by
  rw [apply_eq indexed member own, Outcome.effect, own,
    ← brought_noteLag indexed outcome outcome.transition]
  cases outcome.transition with
  | successorsKnown assignments => simp only [follow, List.length_map]; rfl
  | _ => rfl

/-- An outcome moves its shard, and the shards that it brings are put last. -/
theorem shards_apply (indexed : reader.Indexed) (member : tracked ∈ reader.shards)
    (own : outcome.shard = tracked.id) :
    (reader.apply outcome).2.shards =
      (reader.shards.map fun other => if other.id = tracked.id then
        other.enter (outcome.transition.phase? (tracked.resume reader.checkpoint)) else other) ++
          (reader.brought outcome.transition).map .ofAssignment := by
  have noted : (reader.noteLag outcome).shards = reader.shards := by rw [noteLag_eq]
  have known : tracked.id ∈ (reader.noteLag outcome).ids := by
    rw [ids, noted]
    exact List.mem_map_of_mem member
  rw [apply_eq indexed member own, ← noted,
    ← brought_noteLag indexed outcome outcome.transition]
  exact shards_follow (noteLag_indexed indexed outcome) known _ _

/-- The shards that an outcome brings are put last. -/
theorem ids_apply (indexed : reader.Indexed) (member : tracked ∈ reader.shards)
    (own : outcome.shard = tracked.id) :
    (reader.apply outcome).2.ids = reader.ids ++ (reader.apply outcome).1.newShards := by
  rw [effect_apply indexed member own, ids, shards_apply indexed member own, List.map_append,
    List.map_map, List.map_map]
  refine congrArg₂ _ (List.map_congr_left fun other _ => ?_) rfl
  simp only [Function.comp]
  split <;> rfl

theorem revisit_apply (indexed : reader.Indexed) (member : tracked ∈ reader.shards)
    (own : outcome.shard = tracked.id) :
    (reader.apply outcome).1.revisit = outcome.transition.revisits := by
  rw [effect_apply indexed member own]
  rfl

/-- Only shards with a decision are brought. -/
theorem entries_of_newShards (indexed : reader.Indexed) (member : tracked ∈ reader.shards)
    (own : outcome.shard = tracked.id) {id : ShardId}
    (new : id ∈ (reader.apply outcome).1.newShards) :
    ∃ entry ∈ outcome.transition.entries, entry.shard = id := by
  rw [effect_apply indexed member own] at new
  obtain ⟨entry, brought, same⟩ := List.mem_map.mp new
  exact ⟨entry, (brought_chosen indexed brought).1, same⟩

/-- Only a batch tells how far its shard is behind. -/
theorem lag_apply (indexed : reader.Indexed) (member : tracked ∈ reader.shards)
    (own : outcome.shard = tracked.id) :
    (reader.apply outcome).2.lag = match outcome.lag with
      | some lag => reader.lag.insert tracked.id lag
      | none => reader.lag := by
  rw [apply_eq indexed member own]
  refine (lag_follow (noteLag_indexed indexed outcome) tracked.id _ outcome.transition).trans ?_
  rw [noteLag, own]
  cases outcome.lag <;> rfl

end Reader
end ShardedStream
