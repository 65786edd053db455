import ShardedStream.Proofs.Reader.Ancestry
import ShardedStream.Proofs.Session.Life

/-!
Ancestors come first.
Through a whole life in which the description of the stream only grows, a tracked shard above
another one is done, it stays done, and all its records have been handed out before the first record
of the other.
-/

namespace ShardedStream

variable {σ : Type} {service : Service σ}

namespace Reader

variable {reader later : Reader} {descriptions more : List (List Shard)}

/-- The reader is ordered by the last description, and it tracks nothing before the first. -/
def OrderedAfter (descriptions : List (List Shard)) (reader : Reader) : Prop :=
  match descriptions.getLast? with
  | some shards => Ordered shards reader
  | none => reader.ids = []

theorem orderedAfter_append {shards : List Shard} :
    OrderedAfter (descriptions ++ [shards]) reader ↔ Ordered shards reader := by
  rw [OrderedAfter, List.getLast?_append, List.getLast?_singleton, Option.some_or]

/-- Later descriptions leave a reader ordered. -/
theorem OrderedAfter.extend (growing : Lineage.Growing (descriptions ++ more))
    (ordered : OrderedAfter descriptions reader) : OrderedAfter (descriptions ++ more) reader := by
  rcases List.eq_nil_or_concat' more with rfl | ⟨between, last, rfl⟩
  · rwa [List.append_nil]
  · rw [← List.append_assoc] at growing ⊢
    rw [orderedAfter_append]
    rcases List.eq_nil_or_concat' descriptions with rfl | ⟨first, described, rfl⟩
    · exact .of_untracked ordered
    · refine (orderedAfter_append.mp ordered).grow ?_
        (growing.distinct last (List.mem_append_right _ List.mem_cons_self))
      exact (List.pairwise_append.mp growing.grows).2.2 described
        (List.mem_append_left _ (List.mem_append_right _ List.mem_cons_self)) last
        List.mem_cons_self

/-- A reader that only rests stays ordered. -/
theorem OrderedAfter.congr (ordered : OrderedAfter descriptions reader)
    (ids : later.ids = reader.ids) (done : ∀ id, later.IsDone id ↔ reader.IsDone id) :
    OrderedAfter descriptions later := by
  unfold OrderedAfter at ordered ⊢
  split at ordered
  · exact ordered.congr ids done
  · exact ids.trans ordered

/-- A tracked shard is listed in the last description. -/
theorem OrderedAfter.listed (ordered : OrderedAfter descriptions reader) {id : ShardId}
    (known : id ∈ reader.ids) :
    ∃ first shards, descriptions = first ++ [shards] ∧ Ordered shards reader := by
  rcases List.eq_nil_or_concat' descriptions with rfl | ⟨first, shards, rfl⟩
  · rw [show reader.ids = [] from ordered] at known
    exact absurd known List.not_mem_nil
  · exact ⟨first, shards, rfl, orderedAfter_append.mp ordered⟩

/-- An ancestor in any description is done. -/
theorem OrderedAfter.done (growing : Lineage.Growing descriptions)
    (ordered : OrderedAfter descriptions reader) {shards : List Shard}
    (member : shards ∈ descriptions) {upper lower : ShardId}
    (ancestor : Lineage.AncestorOf shards upper lower) (upperKnown : upper ∈ reader.ids)
    (lowerKnown : lower ∈ reader.ids) : reader.IsDone upper := by
  obtain ⟨first, last, rfl, byLast⟩ := ordered.listed lowerKnown
  exact byLast.done upper lower ((growing.ancestorOf_last member ancestor.listed.2).mpr ancestor)
    upperKnown lowerKnown

/-- A preparation orders the reader by what it has described. -/
theorem Prepares.orderedAfter {prepared : Reader} {world after : World σ}
    (prepares : reader.Prepares service world (some prepared) after) (indexed : reader.Indexed)
    (fresh : reader.Fresh) (growing : Lineage.Growing after.descriptions)
    (ordered : reader.OrderedAfter world.descriptions) :
    prepared.OrderedAfter after.descriptions := by
  cases prepares with
  | already _ => exact ordered
  | described unready settles =>
      rw [World.reportAll_descriptions, settles.descriptions_of_some] at growing ⊢
      rw [orderedAfter_append]
      exact .opening indexed (growing.distinct _ (List.mem_append_right _ List.mem_cons_self))
        (fresh unready)

/-- A preparation finishes nothing and undoes nothing. -/
theorem Prepares.isDone_iff {prepared : Reader} {world after : World σ}
    (prepares : reader.Prepares service world (some prepared) after) (indexed : reader.Indexed)
    {id : ShardId} : prepared.IsDone id ↔ reader.IsDone id := by
  cases prepares with
  | already _ => exact Iff.rfl
  | described _ _ => exact (indexed.track _).isDone_iff

end Reader

namespace Session

variable {session later : Session σ} {progress : Progress}

/-- A turn leaves the reader ordered by what has been described. -/
theorem Turn.orderedAfter (turn : Turn service session progress later)
    (indexed : session.reader.Indexed) (fresh : session.reader.Fresh)
    (growing : Lineage.Growing later.world.descriptions)
    (ordered : session.reader.OrderedAfter session.world.descriptions) :
    later.reader.OrderedAfter later.world.descriptions := by
  obtain ⟨more, described⟩ := turn.precedes.descriptions
  have extended : session.reader.OrderedAfter later.world.descriptions := by
    rw [← described] at growing ⊢
    exact ordered.extend growing
  cases turn with
  | handsOut waiting => exact extended.congr rfl fun _ => Iff.rfl
  | stays _ _ reader _ _ => exact reader ▸ extended
  | prepares _ prepares became _ =>
      exact became ▸ prepares.orderedAfter indexed fresh growing ordered
  | visits _ member steps became _ _ recorded =>
      have follows := Reader.follows_apply indexed member steps.shard
      rw [← became] at follows
      rcases steps.quiet_or_described with ⟨none, same⟩ | ⟨found, ended, settles, rfl⟩
      · rw [none] at follows
        have rests := follows.rests indexed member (same _)
        exact extended.congr rests.ids rests.done
      · rw [recorded, settles.descriptions_of_some] at growing extended ⊢
        rw [Reader.orderedAfter_append] at extended ⊢
        have last := List.mem_append_right session.world.descriptions
          (List.mem_cons_self (a := found) (l := []))
        exact extended.succeed indexed (growing.distinct found last) (growing.acyclic found last)
          member ended follows

/-- No turn undoes what is done. -/
theorem Turn.isDone (turn : Turn service session progress later)
    (indexed : session.reader.Indexed) {id : ShardId} (done : session.reader.IsDone id) :
    later.reader.IsDone id := by
  cases turn with
  | handsOut waiting => exact done
  | stays _ _ reader _ _ => exact reader ▸ done
  | prepares _ prepares became _ => exact became ▸ (prepares.isDone_iff indexed).mpr done
  | visits _ member steps became _ _ _ =>
      have follows := Reader.follows_apply indexed member steps.shard
      rw [← became] at follows
      rcases steps.quiet_or_described with ⟨none, same⟩ | ⟨found, _, _, rfl⟩
      · rw [none] at follows
        exact ((follows.rests indexed member (same _)).done id).mpr done
      · exact (follows.isDone_finished_iff member).mpr (.inr done)

end Session

namespace Life

/-- While descriptions grow, the reader is ordered, and no record comes after one from below it. -/
structure Ancestral (life : Life σ) : Prop where
  sound : life.Sound
  fresh : life.session.reader.Fresh
  ordered : Lineage.Growing life.session.world.descriptions →
    life.session.reader.OrderedAfter life.session.world.descriptions
  handed : Lineage.Growing life.session.world.descriptions →
    ∀ shards ∈ life.session.world.descriptions, life.handedOut.Pairwise fun first second =>
      ¬ Lineage.AncestorOf shards second.shard first.shard

/-- Records that have been handed out in order are in order by later descriptions as well. -/
theorem Ancestral.handed_extend {life : Life σ} (ancestral : life.Ancestral)
    {more : List (List Shard)}
    (growing : Lineage.Growing (life.session.world.descriptions ++ more)) {shards : List Shard}
    (member : shards ∈ life.session.world.descriptions ++ more) :
    life.handedOut.Pairwise fun first second =>
      ¬ Lineage.AncestorOf shards second.shard first.shard := by
  have before := growing.of_prefix (List.prefix_append _ _)
  rcases List.mem_append.mp member with old | new
  · exact ancestral.handed before shards old
  · cases handed : life.handedOut with
    | nil => exact .nil
    | cons delivery rest =>
        -- A shard with a record is listed already, so it has kept its ancestors.
        have known := ancestral.sound.known delivery (handed ▸ List.mem_cons_self)
        obtain ⟨first, last, described, ordered⟩ := (ancestral.ordered before).listed known
        have lastMember : last ∈ life.session.world.descriptions :=
          described ▸ List.mem_append_right _ List.mem_cons_self
        have grows := (List.pairwise_append.mp growing.grows).2.2 last lastMember shards new
        rw [← handed]
        refine (ancestral.handed before last lastMember).imp_of_mem
          fun {one _} oneMember _ apart ancestor => apart ?_
        exact (grows.ancestorOf_iff (growing.distinct shards member)
          (ordered.listed _ (ancestral.sound.known one oneMember))).mp ancestor

/-- A record that is handed out next has no record from below it before it. -/
theorem Ancestral.handed_next {life : Life σ} (ancestral : life.Ancestral)
    (growing : Lineage.Growing life.session.world.descriptions) {tracked : Tracked}
    (member : tracked ∈ life.session.reader.shards) (unfinished : tracked.phase ≠ .done)
    {shards : List Shard} (described : shards ∈ life.session.world.descriptions) :
    ∀ earlier ∈ life.handedOut, ¬ Lineage.AncestorOf shards tracked.id earlier.shard := by
  intro earlier handed ancestor
  exact ancestral.sound.indexed.not_isDone member unfinished
    ((ancestral.ordered growing).done growing described ancestor (List.mem_map_of_mem member)
      (ancestral.sound.known earlier handed))

theorem turn_ancestral {life : Life σ} (ancestral : life.Ancestral) :
    (life.turn service).Ancestral := by
  have sound := ancestral.sound
  have turn : Session.Turn service life.session _ _ := Session.advance_turn sound.indexed
  have grown := turn.precedes.descriptions
  refine ⟨turn_sound sound, ?_, fun growing => ?_, fun growing shards described => ?_⟩
  · rcases turn.change with same | change
    · exact same ▸ ancestral.fresh
    · exact change.fresh sound.indexed ancestral.fresh
  · exact turn.orderedAfter sound.indexed ancestral.fresh growing
      (ancestral.ordered (growing.of_prefix grown))
  · change Lineage.Growing (life.session.advance service).2.world.descriptions at growing
    change shards ∈ (life.session.advance service).2.world.descriptions at described
    unfold Life.turn
    cases handed : (life.session.advance service).1.delivery? with
    | none =>
        obtain ⟨more, same⟩ := grown
        rw [← same] at growing described
        simp only [handed, Option.toList_none, List.append_nil]
        exact ancestral.handed_extend growing described
    | some delivery =>
        obtain ⟨tracked, member, read, own⟩ := turn.delivery?_hasRead sound.held delivery handed
        rw [turn.world_of_delivery handed] at growing described
        simp only [handed, Option.toList_some]
        refine List.pairwise_append.mpr ⟨ancestral.handed growing shards described,
          List.pairwise_singleton _ _, fun earlier before next here => ?_⟩
        rw [List.mem_singleton.mp here, own]
        exact ancestral.handed_next growing member read.ne_done described earlier before

theorem close_ancestral {life : Life σ} (ancestral : life.Ancestral) :
    life.close.Ancestral := by
  have sound := ancestral.sound
  have world : life.close.session.world = life.session.world := life.session.close_world
  have rests := life.session.close_rests sound.indexed sound.held
  refine ⟨close_sound sound, ?_, fun growing => ?_, fun growing => ?_⟩
  · change life.session.close.1.Fresh
    rcases life.session.close_change with same | change
    · exact same ▸ ancestral.fresh
    · exact change.fresh sound.indexed ancestral.fresh
  · rw [world] at growing ⊢
    exact (ancestral.ordered growing).congr rests.ids rests.done
  · rw [world] at growing ⊢
    exact ancestral.handed growing

theorem perform_ancestral (life : Life σ) (act : Act) (ancestral : life.Ancestral) :
    (life.perform service act).Ancestral := by
  cases act with
  | turn => exact turn_ancestral ancestral
  | close => exact close_ancestral ancestral
  | surround clock signal monitor =>
      obtain ⟨sound, fresh, ordered, handed⟩ := ancestral
      exact ⟨⟨sound.indexed, sound.held, sound.opened, sound.known⟩, fresh, ordered, handed⟩

theorem ancestral_run (service : Service σ) (settings : ReaderSettings) (world : World σ)
    (acts : List Act) : ((begin settings world).run service acts).Ancestral :=
  run_preserves perform_ancestral acts
    ⟨begin_sound settings world, fun _ => rfl, fun _ => by
        unfold Reader.OrderedAfter
        split
        · exact .of_untracked rfl
        · rfl,
      fun _ _ _ => .nil⟩

/-- What is done stays done through the rest of a life. -/
theorem isDone_run (acts : List Act) {life : Life σ} (sound : life.Sound) {id : ShardId}
    (done : life.session.reader.IsDone id) : (life.run service acts).session.reader.IsDone id := by
  have preserves : ∀ (life : Life σ) (act : Act), life.Sound ∧ life.session.reader.IsDone id →
      (life.perform service act).Sound ∧ (life.perform service act).session.reader.IsDone id := by
    rintro life act ⟨sound, done⟩
    refine ⟨sound_run [act] sound, ?_⟩
    cases act with
    | turn => exact (Session.advance_turn sound.indexed).isDone sound.indexed done
    | close => exact ((life.session.close_rests sound.indexed sound.held).done id).mpr done
    | surround clock signal monitor => exact done
  exact (run_preserves preserves acts ⟨sound, done⟩).2

/--
While the description of the stream only grows, a tracked proper ancestor of a tracked shard is
done, it stays done whatever happens next, and each of its records has been handed out before each
record of the descendant.
-/
theorem ancestors_finished_first (settings : ReaderSettings) (world : World σ) (acts : List Act) :
    let life := (begin settings world).run service acts
    Lineage.Growing life.session.world.descriptions →
      ∀ shards ∈ life.session.world.descriptions, ∀ upper lower,
        Lineage.AncestorOf shards upper lower → upper ∈ life.session.reader.ids →
        lower ∈ life.session.reader.ids →
        life.session.reader.IsDone upper ∧
          (∀ more, (life.run service more).session.reader.IsDone upper) ∧
          ∀ (first second : Nat) (early late : Delivery),
            life.handedOut[first]? = some early → life.handedOut[second]? = some late →
            early.shard = upper → late.shard = lower → first < second := by
  intro life growing shards described upper lower ancestor upperKnown lowerKnown
  have ancestral := ancestral_run service settings world acts
  have done := (ancestral.ordered growing).done growing described ancestor upperKnown lowerKnown
  refine ⟨done, fun more => isDone_run more ancestral.sound done,
    fun first second early late earlyAt lateAt earlyOwn lateOwn => ?_⟩
  obtain ⟨firstWithin, rfl⟩ := List.getElem?_eq_some_iff.mp earlyAt
  obtain ⟨secondWithin, rfl⟩ := List.getElem?_eq_some_iff.mp lateAt
  rw [← earlyOwn, ← lateOwn] at ancestor
  rcases Nat.lt_trichotomy first second with before | same | behind
  · exact before
  · subst same
    exact absurd ancestor ((growing.acyclic shards described).not_ancestorOf_self
      (growing.distinct shards described))
  · have pairs := List.pairwise_iff_getElem.mp (ancestral.handed growing shards described)
    exact absurd ancestor (pairs second first secondWithin firstWithin behind)

/-- The shard is open when it is first described, and it is split later. -/
def beforeSplit : List Shard := [⟨"A", none, "100", none⟩]

/-- This service reports the split once it has described the open shard. -/
def splitLaterService : Script :=
  ((Script.describing Reader.splitOnce).queueDescriptions [.now (.ok beforeSplit)]).queueBatches "A"
      [.now (.ok ⟨[⟨"110", "key", [], none⟩], false, 0⟩)] |>.queueBatches "B"
      [.now (.ok ⟨[⟨"210", "key", [], none⟩], true, 0⟩)]

theorem beforeSplit_grows : Lineage.Growing [beforeSplit, Reader.splitOnce] where
  distinct := by decide
  acyclic := by
    intro shards member
    rcases List.mem_pair.mp member with rfl | rfl
    · exact Lineage.acyclic_of_rank (fun _ => 0) (by decide)
    · exact Reader.splitOnce_acyclic
  grows := List.pairwise_pair.mpr ⟨by decide, by decide⟩

/-- The half is read after the shard that it was split from, which had not been split at first. -/
theorem split_finished_first :
    let life := (begin (.ofStream "stream") (.start splitLaterService .off)).run Script.service
      [.turn, .turn, .turn, .turn, .turn, .turn]
    life.session.world.descriptions = [beforeSplit, Reader.splitOnce] ∧
      Lineage.AncestorOf Reader.splitOnce "A" "B" ∧
      life.handedOut.map Delivery.shard = ["A", "B"] ∧ life.session.reader.IsDone "A" ∧
      ∀ more, (life.run Script.service more).session.reader.IsDone "A" := by
  intro life
  have described : life.session.world.descriptions = [beforeSplit, Reader.splitOnce] := by
    decide +kernel
  have ancestor : Lineage.AncestorOf Reader.splitOnce "A" "B" :=
    .single ⟨⟨"B", some "A", "200", none⟩, by decide, rfl⟩
  have finished := ancestors_finished_first (.ofStream "stream") (.start splitLaterService .off)
    [.turn, .turn, .turn, .turn, .turn, .turn] (described ▸ beforeSplit_grows) Reader.splitOnce
    (by rw [described]; decide) "A" "B" ancestor (by decide +kernel) (by decide +kernel)
  exact ⟨described, ancestor, by decide +kernel, finished.1, finished.2.1⟩

end Life
end ShardedStream
