import ShardedStream.Proofs.Reader.Answer
import ShardedStream.Proofs.Reader.Forget
import ShardedStream.Proofs.Session.Life

/-!
Pruning goes unseen.
While every answered description is the same, a reader that has pruned an entry goes on exactly as
one that has kept it: whatever happens next, forgetting the entry before or afterwards makes no
difference.
-/

namespace ShardedStream

variable {σ : Type} {service : Service σ} {shards : List Shard} {shard : ShardId}

/-- A preparation leaves a reader clear. -/
theorem Reader.Prepares.clear {reader prepared : Reader} {world later : World σ}
    (prepares : reader.Prepares service world (some prepared) later) (indexed : reader.Indexed)
    (fresh : reader.Fresh) (distinct : (shards.map Shard.id).Nodup)
    (described : ∀ description ∈ later.descriptions, description = shards)
    (clear : Clear shards reader) : Clear shards prepared := by
  cases prepares with
  | already _ => exact clear
  | described unready settles =>
      rw [World.reportAll_descriptions, settles.descriptions_of_some] at described
      rw [described _ (List.mem_append_right _ List.mem_cons_self)]
      exact .opening indexed distinct (fresh unready)

/-- A reader that is initialized needs no preparation. -/
theorem Reader.Prepares.eq_of_ready {reader prepared : Reader} {world later : World σ}
    (prepares : reader.Prepares service world (some prepared) later)
    (ready : reader.initialized = true) : prepared = reader := by
  cases prepares with
  | already _ => rfl
  | described unready _ =>
      rw [ready] at unready
      cases unready

namespace Session

variable {session later : Session σ} {progress : Progress}

/-- A turn leaves the reader clear. -/
theorem Turn.clear (turn : Turn service session progress later)
    (indexed : session.reader.Indexed) (held : session.Held) (fresh : session.reader.Fresh)
    (distinct : (shards.map Shard.id).Nodup) (acyclic : (Lineage.ofShards shards).Acyclic)
    (described : ∀ description ∈ later.world.descriptions, description = shards)
    (clear : Reader.Clear shards session.reader) : Reader.Clear shards later.reader := by
  have known := turn.delivery?_known held
  cases turn with
  | handsOut waiting => exact clear.handOut (known _ rfl)
  | stays _ _ reader _ _ => exact reader ▸ clear
  | prepares _ prepares became _ =>
      exact became ▸ prepares.clear indexed fresh distinct described clear
  | visits _ member steps became _ _ recorded =>
      have follows := Reader.follows_apply indexed member steps.shard
      rw [← became] at follows
      rcases steps.quiet_or_described with ⟨none, same⟩ | ⟨found, ended, settles, rfl⟩
      · rw [none] at follows
        exact clear.congr (follows.rests indexed member (same _))
      · rw [recorded, settles.descriptions_of_some] at described
        rw [described found (List.mem_append_right _ List.mem_cons_self)] at follows
        exact clear.succeed indexed distinct acyclic member ended follows

/-- A turn leaves an entry that nobody looks up as it is. -/
theorem Turn.forgettable (turn : Turn service session progress later)
    (indexed : session.reader.Indexed) (held : session.Held)
    (distinct : (shards.map Shard.id).Nodup) (acyclic : (Lineage.ofShards shards).Acyclic)
    (described : ∀ description ∈ later.world.descriptions, description = shards)
    (forgettable : Reader.Forgettable shards shard session.reader) :
    Reader.Forgettable shards shard later.reader := by
  have read := turn.delivery?_hasRead held
  cases turn with
  | handsOut waiting =>
      obtain ⟨tracked, member, hasRead, own⟩ := read _ rfl
      refine forgettable.handOut (own ▸ List.mem_map_of_mem member) ?_
      rw [own]
      exact forgettable.ne_of_unfinished member hasRead.ne_done indexed
  | stays _ _ reader _ _ => exact reader ▸ forgettable
  | prepares _ prepares became _ =>
      rw [became, prepares.eq_of_ready forgettable.ready]
      exact forgettable
  | visits _ member steps became _ _ recorded =>
      have follows := Reader.follows_apply indexed member steps.shard
      rw [← became] at follows
      rcases steps.quiet_or_described with ⟨none, same⟩ | ⟨found, ended, settles, rfl⟩
      · rw [none] at follows
        exact forgettable.congr (follows.rests indexed member (same _))
      · rw [recorded, settles.descriptions_of_some] at described
        rw [described found (List.mem_append_right _ List.mem_cons_self)] at follows
        exact forgettable.succeed indexed distinct acyclic member ended follows

/-- The session with a reader that has forgotten an entry. -/
def forget (shard : ShardId) (session : Session σ) : Session σ :=
  { session with reader := session.reader.forget shard }

/-- A visit takes the same course without the entry. -/
theorem visit_forget (session : Session σ) (indexed : session.reader.Indexed)
    (forgettable : Reader.Forgettable shards shard session.reader) (visited : ShardId)
    (described : ∀ description ∈ (visit service session visited).2.world.descriptions,
      description = shards) :
    visit service (session.forget shard) visited =
      ((visit service session visited).1, (visit service session visited).2.forget shard) := by
  simp only [World.descriptions, (visit_conversed service session visited).exchanges] at described
  have stepped : (session.forget shard).world.converse service (session.forget shard).plan
      ((session.forget shard).reader.step visited) =
        session.world.converse service session.plan (session.reader.step visited) :=
    Reader.converse_step_forget forgettable.toClear indexed forgettable.entry described
  unfold visit
  rw [stepped]
  cases asked : session.world.converse service session.plan (session.reader.step visited) with
  | mk answer after =>
      rcases answer with _ | error | outcome
      · rfl
      · rfl
      · obtain ⟨tracked, member, own, steps⟩ := Reader.step_steps indexed asked
        have applied := forgettable.apply_eq indexed member steps
        simp only [absorb, forget, applied]

/-- A turn takes the same course without the entry. -/
theorem advance_forget (indexed : session.reader.Indexed) (held : session.Held)
    (forgettable : Reader.Forgettable shards shard session.reader)
    (described : ∀ description ∈ (session.advance service).2.world.descriptions,
      description = shards) :
    (session.forget shard).advance service =
      ((session.advance service).1, (session.advance service).2.forget shard) := by
  obtain ⟨reader, ⟨queue, buffer, started, finished⟩, world⟩ := session
  cases buffer with
  | cons delivery rest =>
      obtain ⟨tracked, member, read, own⟩ := held.owner List.mem_cons_self
      have other : delivery.shard ≠ shard := by
        rw [own delivery List.mem_cons_self]
        exact forgettable.ne_of_unfinished member read.ne_done indexed
      exact congrArg (fun reader : Reader => (Progress.delivered delivery,
        Session.mk reader ⟨queue, rest, started, finished⟩ world)) (Reader.forget_handOut other)
  | nil =>
      cases finished with
      | true => rfl
      | false =>
          cases started with
          | false =>
              have ready : (reader.forget shard).initialized = true := forgettable.ready
              rw [advance_unstarted rfl rfl rfl, advance_unstarted rfl rfl rfl]
              simp only [enter, forget, Reader.converse_prepared forgettable.ready,
                Reader.converse_prepared ready]
              rfl
          | true =>
              cases queue with
              | nil => rfl
              | cons visited queue =>
                  exact visit_forget ⟨reader, ⟨queue, [], true, false⟩, world⟩ indexed forgettable
                    visited described

/-- So does the end of a pass. -/
theorem close_forget (shard : ShardId) (session : Session σ) :
    (session.forget shard).close = (session.close.1.forget shard, session.close.2) := by
  obtain ⟨reader, ⟨queue, buffer, started, finished⟩, world⟩ := session
  cases buffer with
  | nil => rfl
  | cons delivery rest => simp only [close, forget, List.head?_cons, Reader.forget_restartAt]

end Session

namespace Life

variable {life : Life σ}

/-- The caller prunes the entry of a shard. -/
def prune (shard : ShardId) (life : Life σ) : Life σ :=
  { life with session :=
    { life.session with reader := (life.session.reader.prune shard).2 } }

/-- The life of a reader that has forgotten an entry. -/
def forget (shard : ShardId) (life : Life σ) : Life σ :=
  { life with session := life.session.forget shard }

/-- A reader comes here by any acts, and by prunings in between. -/
inductive Reached (service : Service σ) (settings : ReaderSettings) (world : World σ) :
    Life σ → Prop where
  | begins : Reached service settings world (begin settings world)
  | acts {life : Life σ} (lived : Reached service settings world life) (act : Act) :
      Reached service settings world (life.perform service act)
  | prunes {life : Life σ} (lived : Reached service settings world life) (shard : ShardId) :
      Reached service settings world (life.prune shard)

/-- A turn hands out a record, or fails, or comes to something else. -/
def told (service : Service σ) (life : Life σ) : Act → List Progress
  | .turn => [(life.session.advance service).1]
  | .close => []
  | .surround _ _ _ => []

/-- What the turns of a run come to, in order. -/
def progress (service : Service σ) : List Act → Life σ → List Progress
  | [], _ => []
  | act :: acts, life => life.told service act ++ progress service acts (life.perform service act)

/-- As long as all descriptions are one, a reader is clear. -/
structure Cleared (shards : List Shard) (life : Life σ) : Prop where
  sound : life.Sound
  fresh : life.session.reader.Fresh
  clear : (∀ description ∈ life.session.world.descriptions, description = shards) →
    Reader.Clear shards life.session.reader

/-- Pruning leaves a reader clear. -/
theorem prune_cleared (cleared : life.Cleared shards) (shard : ShardId) :
    (life.prune shard).Cleared shards := by
  obtain ⟨⟨indexed, held, opened, known⟩, fresh, clear⟩ := cleared
  rcases life.session.reader.prune_eq_or shard with same | forgotten
  · rw [prune, same]
    exact ⟨⟨indexed, held, opened, known⟩, fresh, clear⟩
  · rw [prune, forgotten]
    exact ⟨⟨indexed, held, opened, known⟩, fresh, fun described => (clear described).forget shard⟩

theorem perform_cleared (distinct : (shards.map Shard.id).Nodup)
    (acyclic : (Lineage.ofShards shards).Acyclic) (cleared : life.Cleared shards) (act : Act) :
    (life.perform service act).Cleared shards := by
  have sound := cleared.sound
  have kept := perform_descriptions service sound act
  refine ⟨sound_run [act] sound, ?_, fun described => ?_⟩
  · cases act with
    | turn =>
        have turn : Session.Turn service life.session _ _ := Session.advance_turn sound.indexed
        rcases turn.change with same | change
        · exact same ▸ cleared.fresh
        · exact change.fresh sound.indexed cleared.fresh
    | close =>
        change life.session.close.1.Fresh
        rcases life.session.close_change with same | change
        · exact same ▸ cleared.fresh
        · exact change.fresh sound.indexed cleared.fresh
    | surround clock signal monitor => exact cleared.fresh
  · have clear := cleared.clear fun description member =>
      described description (kept.subset member)
    cases act with
    | turn =>
        exact (Session.advance_turn sound.indexed).clear sound.indexed sound.held cleared.fresh
          distinct acyclic described clear
    | close => exact clear.congr (life.session.close_rests sound.indexed sound.held)
    | surround clock signal monitor => exact clear

/-- Wherever a reader comes, it is clear. -/
theorem Reached.cleared {settings : ReaderSettings} {world : World σ}
    (reached : Reached service settings world life) (distinct : (shards.map Shard.id).Nodup)
    (acyclic : (Lineage.ofShards shards).Acyclic) : life.Cleared shards := by
  induction reached with
  | begins => exact ⟨begin_sound settings world, fun _ => rfl, fun _ => .of_untracked rfl⟩
  | acts _ act inductionHypothesis =>
      exact perform_cleared distinct acyclic inductionHypothesis act
  | prunes _ shard inductionHypothesis => exact prune_cleared inductionHypothesis shard

/-- An act takes the same course without an entry that nobody looks up. -/
theorem perform_forget (sound : life.Sound)
    (forgettable : Reader.Forgettable shards shard life.session.reader) (act : Act)
    (described : ∀ description ∈ (life.perform service act).session.world.descriptions,
      description = shards) :
    (life.forget shard).perform service act = (life.perform service act).forget shard := by
  cases act with
  | turn =>
      have advanced := Session.advance_forget sound.indexed sound.held forgettable described
      simp only [perform, turn, forget, advanced]
      rfl
  | close =>
      simp only [perform, close, forget, Session.close_forget]
      rfl
  | surround clock signal monitor => rfl

/-- An act leaves an entry that nobody looks up as it is. -/
theorem perform_forgettable (distinct : (shards.map Shard.id).Nodup)
    (acyclic : (Lineage.ofShards shards).Acyclic) (sound : life.Sound)
    (forgettable : Reader.Forgettable shards shard life.session.reader) (act : Act)
    (described : ∀ description ∈ (life.perform service act).session.world.descriptions,
      description = shards) :
    Reader.Forgettable shards shard (life.perform service act).session.reader := by
  cases act with
  | turn =>
      exact (Session.advance_turn sound.indexed).forgettable sound.indexed sound.held distinct
        acyclic described forgettable
  | close => exact forgettable.congr (life.session.close_rests sound.indexed sound.held)
  | surround clock signal monitor => exact forgettable

/-- A whole run takes the same course without the entry, and all its turns come to the same. -/
theorem run_forget (distinct : (shards.map Shard.id).Nodup)
    (acyclic : (Lineage.ofShards shards).Acyclic) (acts : List Act) {life : Life σ}
    (sound : life.Sound) (forgettable : Reader.Forgettable shards shard life.session.reader)
    (described : ∀ description ∈ (life.run service acts).session.world.descriptions,
      description = shards) :
    (life.forget shard).run service acts = (life.run service acts).forget shard ∧
      progress service acts (life.forget shard) = progress service acts life := by
  induction acts generalizing life with
  | nil => exact ⟨rfl, rfl⟩
  | cons act acts inductionHypothesis =>
      have next : (life.perform service act).Sound := sound_run [act] sound
      have kept := run_descriptions service acts next
      have now : ∀ description ∈ (life.perform service act).session.world.descriptions,
          description = shards := fun description member =>
        described description (kept.subset member)
      have same := perform_forget sound forgettable act now
      have alike : (life.forget shard).told service act = life.told service act := by
        cases act with
        | turn =>
            have advanced := Session.advance_forget sound.indexed sound.held forgettable now
            exact congrArg (fun advanced => [advanced.1]) advanced
        | close => rfl
        | surround clock signal monitor => rfl
      obtain ⟨rest, later⟩ := inductionHypothesis next
        (perform_forgettable distinct acyclic sound forgettable act now) described
      rw [run_cons, same, progress, progress, same, alike, later]
      exact ⟨rest, rfl⟩

/-- Nothing but the entry of one shard tells a life from another one. -/
structure SameBut (shard : ShardId) (life other : Life σ) : Prop where
  /-- The same calls have been made and answered, at the same instants. -/
  world : other.session.world = life.session.world
  pass : other.session.pass = life.session.pass
  /-- The same shards are tracked, in the same phases and from the same positions. -/
  shards : other.session.reader.shards = life.session.reader.shards
  initialized : other.session.reader.initialized = life.session.reader.initialized
  lag : other.session.reader.lag = life.session.reader.lag
  opened : other.opened = life.opened
  handedOut : other.handedOut = life.handedOut
  saved : ∀ id, id ≠ shard →
    other.session.reader.checkpoint.get? id = life.session.reader.checkpoint.get? id

theorem forget_sameBut (shard : ShardId) (life : Life σ) :
    life.SameBut shard (life.forget shard) where
  world := rfl
  pass := rfl
  shards := rfl
  initialized := rfl
  lag := rfl
  opened := rfl
  handedOut := rfl
  saved := fun id other => by
    change (life.session.reader.checkpoint.erase shard).get? id = _
    rw [Checkpoint.get?_erase, if_neg other.symm]

/--
Pruning goes unseen. Wherever an initialized reader has come, an entry that is pruned there makes
no difference to anything that happens from then on, as long as the one description of the stream is
the same: all turns come to the same, and only the checkpoints differ, by that entry.
-/
theorem prune_unseen {settings : ReaderSettings} {world : World σ} {sequence : SequenceNumber}
    (distinct : (shards.map Shard.id).Nodup) (acyclic : (Lineage.ofShards shards).Acyclic)
    (reached : Reached service settings world life)
    (ready : life.session.reader.initialized = true)
    (removed : (life.session.reader.prune shard).1 = some sequence) (acts : List Act)
    (described : ∀ description ∈ (life.run service acts).session.world.descriptions,
      description = shards) :
    SameBut shard (life.run service acts) ((life.prune shard).run service acts) ∧
      progress service acts (life.prune shard) = progress service acts life := by
  have cleared := reached.cleared distinct acyclic
  have kept := run_descriptions service acts cleared.sound
  obtain ⟨ended, saved⟩ :=
    (Reader.prune_eq_some_iff cleared.sound.indexed).mp removed
  have forgettable : Reader.Forgettable shards shard life.session.reader :=
    { cleared.clear fun description member => described description (kept.subset member) with
      ready
      entry := by rw [saved]; rfl
      ended }
  have forgotten : life.prune shard = life.forget shard := by
    rw [prune, Reader.prune_eq_forget removed]
    rfl
  obtain ⟨same, told⟩ := run_forget distinct acyclic acts cleared.sound forgettable described
  rw [forgotten, same]
  exact ⟨forget_sameBut shard _, told⟩

/-- A shard with one record is split, and the iterator of its child is void after one record. -/
def expiringService : Script :=
  ((Script.describing Reader.splitOnce).queueBatches "A"
      [.now (.ok ⟨[⟨"110", "key", [], none⟩], false, 0⟩)]).queueBatches "B"
        [.now (.ok ⟨[⟨"210", "key", [], none⟩], true, 0⟩), .now (.error .expiredIterator),
          .now (.ok ⟨[⟨"220", "key", [], none⟩], true, 0⟩)]

/-- The shard is done, and a record of its child waits. -/
def betweenRecords : Life Script :=
  (begin (.ofStream "stream") (.start expiringService .off)).run Script.service
    [.turn, .turn, .turn, .turn, .turn]

/-- The rest of this pass, and two more. -/
def threePasses : List Act :=
  [.turn, .turn, .close, .turn, .turn, .turn, .close, .turn, .turn, .turn, .turn]

/-- The child is read on after its own entry, whether or not that of the split shard was pruned. -/
theorem expiring_prune_unseen :
    Reached Script.service (.ofStream "stream") (.start expiringService .off) betweenRecords ∧
      (betweenRecords.session.reader.prune "A").1 = some "110" ∧
      (betweenRecords.run Script.service threePasses).handedOut.map (·.record.sequence) =
        ["110", "210", "220"] ∧
      SameBut "A" (betweenRecords.run Script.service threePasses)
        ((betweenRecords.prune "A").run Script.service threePasses) := by
  have reached : Reached Script.service (.ofStream "stream") (.start expiringService .off)
      betweenRecords := .acts (.acts (.acts (.acts (.acts .begins .turn) .turn) .turn) .turn) .turn
  have removed : (betweenRecords.session.reader.prune "A").1 = some "110" := by decide +kernel
  refine ⟨reached, removed, by decide +kernel, ?_⟩
  have distinct : (Reader.splitOnce.map Shard.id).Nodup := by decide
  exact (prune_unseen distinct Reader.splitOnce_acyclic reached (by decide +kernel) removed
    threePasses (by decide +kernel)).1

end Life
end ShardedStream
