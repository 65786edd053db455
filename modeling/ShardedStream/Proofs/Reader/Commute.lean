import ShardedStream.Proofs.Reader.Effect

/-!
Outcomes of different shards.
A step changes nothing, so several steps may be taken before the first outcome is applied. An
outcome reads where its own shard resumes and which shards are tracked; it writes the phase and the
lag of its own shard, and it puts new shards last. Outcomes of different shards therefore have the
same effects in either order, and leave the same reader but for the order of new shards.
-/

namespace ShardedStream

/-- Only a lookup of successors brings other shards. -/
def Transition.isSuccession : Transition → Bool
  | .successorsKnown _ => true
  | _ => false

theorem Transition.entries_eq_nil {transition : Transition}
    (other : transition.isSuccession = false) : transition.entries = [] := by
  cases transition with
  | successorsKnown assignments => cases other
  | _ => rfl

/-- Two outcomes decide on different shards. -/
def Outcome.DecidesApart (first second : Outcome) : Prop :=
  ∀ one ∈ first.transition.entries, ∀ other ∈ second.transition.entries, one.shard ≠ other.shard

namespace Outcome

variable {first second : Outcome}

theorem DecidesApart.symm (apart : first.DecidesApart second) : second.DecidesApart first :=
  fun one oneMember other otherMember same => apart other otherMember one oneMember same.symm

/-- Unless both are lookups, two outcomes have no shard to decide on in common. -/
theorem decidesApart_of_not_both
    (notBoth : ¬ (first.transition.isSuccession = true ∧ second.transition.isSuccession = true)) :
    first.DecidesApart second := by
  intro one oneMember other otherMember
  rw [not_and_or, Bool.not_eq_true, Bool.not_eq_true] at notBoth
  rcases notBoth with none | none
  · rw [Transition.entries_eq_nil none] at oneMember
    exact absurd oneMember List.not_mem_nil
  · rw [Transition.entries_eq_nil none] at otherMember
    exact absurd otherMember List.not_mem_nil

end Outcome

namespace Reader

/-- A right index is fixed by the tracked shards, so a reader is known by everything else. -/
theorem Indexed.eq {first second : Reader} (firstIndexed : first.Indexed)
    (secondIndexed : second.Indexed) (settings : first.settings = second.settings)
    (checkpoint : first.checkpoint = second.checkpoint) (shards : first.shards = second.shards)
    (initialized : first.initialized = second.initialized) (lag : first.lag = second.lag) :
    first = second := by
  have index : first.index = second.index := by
    refine Std.ExtTreeMap.ext_getElem? fun shard => Option.ext fun place => ?_
    rw [firstIndexed shard place, secondIndexed shard place, shards]
  cases first
  cases second
  simp only [mk.injEq]
  exact ⟨settings, checkpoint, shards, index, initialized, lag⟩

/-- A transition moves its own shard and no other one. -/
def move (shard : ShardId) (phase : Option Phase) (tracked : Tracked) : Tracked :=
  if tracked.id = shard then tracked.enter phase else tracked

@[simp] theorem id_move (shard : ShardId) (phase : Option Phase) (tracked : Tracked) :
    (move shard phase tracked).id = tracked.id := by
  unfold move
  split <;> rfl

/-- Different shards are moved in either order. -/
theorem move_comm {one other : ShardId} (apart : one ≠ other) (first second : Option Phase)
    (tracked : Tracked) :
    move other second (move one first tracked) = move one first (move other second tracked) := by
  by_cases own : tracked.id = one
  · simp [move, own, Tracked.enter, apart]
  · by_cases others : tracked.id = other
    · simp [move, others, Tracked.enter, apart.symm]
    · simp [move, own, others]

variable {reader : Reader} {one other : Tracked} {first second : Outcome}

/-- Two outcomes of different tracked shards that decide on different shards. -/
structure Apart (reader : Reader) (one other : Tracked) (first second : Outcome) : Prop where
  indexed : reader.Indexed
  oneMember : one ∈ reader.shards
  otherMember : other ∈ reader.shards
  firstOwn : first.shard = one.id
  secondOwn : second.shard = other.id
  shards : one.id ≠ other.id
  decisions : first.DecidesApart second

namespace Apart

theorem symm (apart : reader.Apart one other first second) :
    reader.Apart other one second first :=
  ⟨apart.indexed, apart.otherMember, apart.oneMember, apart.secondOwn, apart.firstOwn,
    apart.shards.symm, apart.decisions.symm⟩

/-- The other shard is tracked as it was. -/
theorem kept (apart : reader.Apart one other first second) :
    other ∈ (reader.apply first).2.shards := by
  have keeps := (follows_apply apart.indexed apart.oneMember apart.firstOwn).keeps apart.otherMember
  rwa [if_neg apart.shards.symm] at keeps

theorem indexed_first (apart : reader.Apart one other first second) :
    (reader.apply first).2.Indexed :=
  (follows_apply apart.indexed apart.oneMember apart.firstOwn).indexed

theorem checkpoint_first (apart : reader.Apart one other first second) :
    (reader.apply first).2.checkpoint = reader.checkpoint :=
  (follows_apply apart.indexed apart.oneMember apart.firstOwn).checkpoint

/-- What an outcome brings is not new to the other one only if both decide on it. -/
theorem brought (apart : reader.Apart one other first second) :
    (reader.apply first).2.brought second.transition = reader.brought second.transition := by
  refine brought_congr apart.indexed_first apart.indexed _ fun entry member => ?_
  rw [ids_apply apart.indexed apart.oneMember apart.firstOwn,
    effect_apply apart.indexed apart.oneMember apart.firstOwn, Outcome.effect, List.mem_append]
  refine or_iff_left fun new => ?_
  obtain ⟨own, brought, same⟩ := List.mem_map.mp new
  exact apart.decisions own (brought_chosen apart.indexed brought).1 entry member same

/-- An outcome means the same for its pass after the other one. -/
theorem effect (apart : reader.Apart one other first second) :
    ((reader.apply first).2.apply second).1 = (reader.apply second).1 := by
  rw [effect_apply apart.indexed_first apart.kept apart.secondOwn,
    effect_apply apart.indexed apart.otherMember apart.secondOwn, apart.brought,
    apart.checkpoint_first]

/-- Both shards are moved, and what the outcomes bring comes in the order of the outcomes. -/
theorem shards_both (apart : reader.Apart one other first second) :
    ((reader.apply first).2.apply second).2.shards =
      reader.shards.map (fun tracked =>
        move other.id (second.transition.phase? (other.resume reader.checkpoint))
          (move one.id (first.transition.phase? (one.resume reader.checkpoint)) tracked)) ++
        (reader.brought first.transition).map .ofAssignment ++
          (reader.brought second.transition).map .ofAssignment := by
  have still : ∀ new ∈ (reader.brought first.transition).map Tracked.ofAssignment,
      move other.id (second.transition.phase? (other.resume reader.checkpoint)) new = new := by
    intro new member
    obtain ⟨entry, brought, rfl⟩ := List.mem_map.mp member
    refine if_neg fun same => (brought_chosen apart.indexed brought).2 ?_
    rw [show entry.shard = other.id from same]
    exact List.mem_map_of_mem apart.otherMember
  rw [shards_apply apart.indexed_first apart.kept apart.secondOwn, apart.brought,
    apart.checkpoint_first, shards_apply apart.indexed apart.oneMember apart.firstOwn,
    List.map_append,
    List.map_map]
  exact congrArg (· ++ _) (congrArg (_ ++ ·) ((List.map_congr_left still).trans (List.map_id _)))

/-- The outcomes note the lag of their own shards. -/
theorem lag_both (apart : reader.Apart one other first second) :
    ((reader.apply first).2.apply second).2.lag =
      ((reader.apply second).2.apply first).2.lag := by
  rw [lag_apply apart.indexed_first apart.kept apart.secondOwn,
    lag_apply apart.indexed apart.oneMember apart.firstOwn,
    lag_apply apart.symm.indexed_first apart.symm.kept apart.firstOwn,
    lag_apply apart.indexed apart.otherMember apart.secondOwn]
  cases first.lag with
  | none => rfl
  | some lag =>
      cases second.lag with
      | none => rfl
      | some otherLag =>
          refine Std.ExtTreeMap.ext_getElem? fun shard => ?_
          simp only [Std.ExtTreeMap.getElem?_insert, Std.LawfulEqCmp.compare_eq_iff_eq]
          by_cases own : one.id = shard
          · have elsewhere : other.id ≠ shard := fun same => apart.shards (own.trans same.symm)
            simp only [if_pos own, if_neg elsewhere]
          · simp only [if_neg own]

/-- Nothing but the tracked shards and the lag differs from the reader before. -/
theorem follows_both (apart : reader.Apart one other first second) :
    ((reader.apply first).2.apply second).2.Indexed ∧
      ((reader.apply first).2.apply second).2.settings = reader.settings ∧
      ((reader.apply first).2.apply second).2.checkpoint = reader.checkpoint ∧
      ((reader.apply first).2.apply second).2.initialized = reader.initialized := by
  have before := follows_apply apart.indexed apart.oneMember apart.firstOwn
  have after := follows_apply apart.indexed_first apart.kept apart.secondOwn
  exact ⟨after.indexed, after.settings.trans before.settings,
    after.checkpoint.trans before.checkpoint, after.initialized.trans before.initialized⟩

end Apart

/-- Two readers have become of one, and differ at most in the order of their new shards. -/
structure Reordered (reader first second : Reader) : Prop where
  settings : first.settings = second.settings
  checkpoint : first.checkpoint = second.checkpoint
  initialized : first.initialized = second.initialized
  lag : first.lag = second.lag
  /-- The same shards are tracked, each in the same phase and with the same start. -/
  tracked : ∀ shard, first.tracked? shard = second.tracked? shard
  order : ∃ kept new newer : List Tracked, kept.map Tracked.id = reader.ids ∧
    first.shards = kept ++ new ++ newer ∧ second.shards = kept ++ newer ++ new

namespace Apart

/-- Both orders leave the same reader but for the order of what they bring. -/
theorem reordered (apart : reader.Apart one other first second) :
    reader.Reordered ((reader.apply first).2.apply second).2
      ((reader.apply second).2.apply first).2 := by
  obtain ⟨indexed, settings, checkpoint, initialized⟩ := apart.follows_both
  obtain ⟨otherIndexed, otherSettings, otherCheckpoint, otherInitialized⟩ :=
    apart.symm.follows_both
  have shards := apart.shards_both
  have otherShards := apart.symm.shards_both
  simp only [move_comm apart.shards] at shards
  refine ⟨settings.trans otherSettings.symm, checkpoint.trans otherCheckpoint.symm,
    initialized.trans otherInitialized.symm, apart.lag_both, fun shard => ?_,
    _, _, _, ?_, shards, otherShards⟩
  · refine Option.ext fun tracked => ?_
    rw [indexed.tracked?_eq_some_iff, otherIndexed.tracked?_eq_some_iff, shards, otherShards]
    simp only [List.mem_append, or_assoc, or_comm (a := tracked ∈ (reader.brought
      first.transition).map Tracked.ofAssignment)]
  · simp only [List.map_map, Function.comp_def, id_move]
    rfl

/-- Unless both bring other shards, both orders leave the same reader. -/
theorem eq_of_not_both (apart : reader.Apart one other first second)
    (notBoth : ¬ (first.transition.isSuccession = true ∧
      second.transition.isSuccession = true)) :
    ((reader.apply first).2.apply second).2 = ((reader.apply second).2.apply first).2 := by
  obtain ⟨indexed, settings, checkpoint, initialized⟩ := apart.follows_both
  obtain ⟨otherIndexed, otherSettings, otherCheckpoint, otherInitialized⟩ :=
    apart.symm.follows_both
  have silent : ∀ {transition : Transition}, transition.isSuccession = false →
      reader.brought transition = [] := by
    intro transition other
    cases transition with
    | successorsKnown assignments => cases other
    | _ => rfl
  refine indexed.eq otherIndexed (settings.trans otherSettings.symm)
    (checkpoint.trans otherCheckpoint.symm) ?_ (initialized.trans otherInitialized.symm)
    apart.lag_both
  rw [apart.shards_both, apart.symm.shards_both]
  simp only [move_comm apart.shards]
  rw [not_and_or, Bool.not_eq_true, Bool.not_eq_true] at notBoth
  rcases notBoth with none | none
  · rw [silent none, List.map_nil, List.append_nil, List.append_nil]
  · rw [silent none, List.map_nil, List.append_nil, List.append_nil]

end Apart

/-- A lookup that is applied once more finds its shard done and all that it brings tracked. -/
theorem apply_again (indexed : reader.Indexed) {outcome : Outcome}
    (succession : outcome.transition.isSuccession = true) :
    ((reader.apply outcome).2.apply outcome).1.newShards = [] ∧
      ((reader.apply outcome).2.apply outcome).2 = (reader.apply outcome).2 := by
  by_cases known : outcome.shard ∈ reader.ids
  · obtain ⟨tracked, member, own⟩ := mem_ids.mp known
    have follows := follows_apply indexed member own.symm
    have enters : ∀ resume, outcome.transition.phase? resume = some .done := by
      intro resume
      cases transition : outcome.transition with
      | successorsKnown assignments => rfl
      | _ =>
          rw [transition] at succession
          cases succession
    have done := follows.keeps member
    rw [if_pos rfl, enters] at done
    have doneOwn : outcome.shard = (tracked.enter (some .done)).id := own.symm
    have none : (reader.apply outcome).2.brought outcome.transition = [] := by
      refine List.eq_nil_iff_forall_not_mem.mpr fun entry brought => ?_
      obtain ⟨chosen, new⟩ := brought_chosen follows.indexed brought
      exact new (follows.every entry chosen)
    have again := follows_apply follows.indexed done doneOwn
    refine ⟨by rw [effect_apply follows.indexed done doneOwn, none]; rfl,
      again.indexed.eq follows.indexed again.settings again.checkpoint ?_ again.initialized ?_⟩
    · rw [shards_apply follows.indexed done doneOwn, none, enters, List.map_nil, List.append_nil]
      refine (List.map_congr_left fun other here => ?_).trans (List.map_id _)
      split
      · rename_i same
        rw [follows.indexed.eq_of_id_eq here done same]
        rfl
      · rfl
    · rw [lag_apply follows.indexed done doneOwn, lag_apply indexed member own.symm]
      cases outcome.lag with
      | none => rfl
      | some lag =>
          refine Std.ExtTreeMap.ext_getElem? fun shard => ?_
          simp only [Std.ExtTreeMap.getElem?_insert, Std.LawfulEqCmp.compare_eq_iff_eq]
          split
          · rw [if_pos ‹_›]
          · rfl
  · rw [apply_of_not_mem indexed known, apply_of_not_mem indexed known]
    exact ⟨rfl, rfl⟩

/-- In either order two outcomes have the same effects and leave readers that are the same. -/
structure Commute (Same : Reader → Reader → Prop) (reader : Reader) (first second : Outcome) :
    Prop where
  firstEffect : ((reader.apply second).2.apply first).1 = (reader.apply first).1
  secondEffect : ((reader.apply first).2.apply second).1 = (reader.apply second).1
  readers : Same ((reader.apply first).2.apply second).2 ((reader.apply second).2.apply first).2

/--
Outcomes of different shards commute: they have the same effects in either order, and they leave the
same reader unless both bring other shards. Two that bring different shards leave the same reader
but for the order of these. One that has brought its shards brings nothing and changes nothing when
it is applied once more.
-/
theorem outcomes_commute {settings : ReaderSettings} (reached : Reached settings reader) :
    (∀ first second : Outcome, first.shard ∈ reader.ids → second.shard ∈ reader.ids →
      first.shard ≠ second.shard →
        (¬ (first.transition.isSuccession = true ∧ second.transition.isSuccession = true) →
          reader.Commute Eq first second) ∧
        (first.DecidesApart second → reader.Commute reader.Reordered first second)) ∧
      ∀ outcome : Outcome, outcome.transition.isSuccession = true →
        ((reader.apply outcome).2.apply outcome).1.newShards = [] ∧
          ((reader.apply outcome).2.apply outcome).2 = (reader.apply outcome).2 := by
  have indexed := reached.indexed
  refine ⟨fun first second firstKnown secondKnown shards => ?_,
    fun outcome succession => apply_again indexed succession⟩
  obtain ⟨one, oneMember, firstOwn⟩ := mem_ids.mp firstKnown
  obtain ⟨other, otherMember, secondOwn⟩ := mem_ids.mp secondKnown
  have both : first.DecidesApart second → reader.Apart one other first second :=
    fun decisions => ⟨indexed, oneMember, otherMember, firstOwn.symm, secondOwn.symm,
      fun same => shards (firstOwn.symm.trans (same.trans secondOwn)), decisions⟩
  constructor
  · intro notBoth
    have apart := both (Outcome.decidesApart_of_not_both notBoth)
    exact ⟨apart.symm.effect, apart.effect, apart.eq_of_not_both notBoth⟩
  · intro decisions
    have apart := both decisions
    exact ⟨apart.symm.effect, apart.effect, apart.reordered⟩

/-- Two shards have been opened. -/
def twoOpened : Reader :=
  { ((ofSettings (.ofStream "stream")).track
      ((Assignments.empty.assign "A" .trimHorizon).assign "B" .trimHorizon)).2 with
    initialized := true }

/-- This is what a lookup of the successors of a shard has come to, if it has one. -/
def succession (shard successor : ShardId) : Outcome :=
  .bare shard (.successorsKnown (Assignments.empty.assign successor .trimHorizon))

/-- This is what a read has come to that has brought a record of the second shard. -/
def secondRead : Outcome := .ofBatch "B" ⟨[⟨"110", "key", [], none⟩], some "token", 5⟩

/-- A lookup and a read leave the same reader in either order; two lookups leave their successors in
the order in which they were applied, and each of them brings nothing when it is applied again. -/
theorem twoOpened_commute :
    let first := succession "A" "C"
    let second := succession "B" "D"
    twoOpened.Commute Eq first secondRead ∧
      twoOpened.Commute twoOpened.Reordered first second ∧
      ((twoOpened.apply first).2.apply second).2.ids = ["A", "B", "C", "D"] ∧
      ((twoOpened.apply second).2.apply first).2.ids = ["A", "B", "D", "C"] ∧
      ((twoOpened.apply first).2.apply first).2 = (twoOpened.apply first).2 := by
  intro first second
  have reached : Reached (.ofStream "stream") twoOpened := .single (.prepared _ _)
  obtain ⟨commute, again⟩ := outcomes_commute reached
  have known : first.shard ∈ twoOpened.ids ∧ second.shard ∈ twoOpened.ids ∧
      secondRead.shard ∈ twoOpened.ids := by
    decide +kernel
  have apart : first.DecidesApart second := by
    unfold Outcome.DecidesApart
    decide +kernel
  refine ⟨(commute first secondRead known.1 known.2.2 (by decide)).1 (by decide),
    (commute first second known.1 known.2.1 (by decide)).2 apart, ?_, ?_, (again first rfl).2⟩
  · decide +kernel
  · decide +kernel

end Reader
end ShardedStream
