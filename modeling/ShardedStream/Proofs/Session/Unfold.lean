import ShardedStream.Proofs.Reader.Unfold
import ShardedStream.Proofs.Session.Life

/-!
The unfolding of a stream through a whole life.
As long as every answered description is the same list, whatever happens to a reader without a
checkpoint leaves its tracked shards the upper part of the lineage.
-/

namespace ShardedStream

variable {σ : Type} {service : Service σ} {shards : List Shard}

/-- A preparation starts the unfolding. -/
theorem Reader.Prepares.unfolds {reader prepared : Reader} {world later : World σ}
    (prepares : reader.Prepares service world (some prepared) later) (indexed : reader.Indexed)
    (distinct : (shards.map Shard.id).Nodup) (oldest : reader.settings.policy = .oldest)
    (described : ∀ description ∈ later.descriptions, description = shards)
    (unfolds : reader.Unfolds shards) : prepared.Unfolds shards := by
  cases prepares with
  | already _ => exact unfolds
  | described unready settles =>
      rw [World.reportAll_descriptions, settles.descriptions_of_some] at described
      rw [described _ (List.mem_append_right _ List.mem_cons_self)]
      exact unfolds.opening indexed distinct oldest unready

namespace Session

variable {session later : Session σ} {progress : Progress}

/-- A turn keeps the unfolding going. -/
theorem Turn.unfolds (turn : Turn service session progress later)
    (indexed : session.reader.Indexed) (held : session.Held)
    (distinct : (shards.map Shard.id).Nodup) (acyclic : (Lineage.ofShards shards).Acyclic)
    (oldest : session.reader.settings.policy = .oldest)
    (described : ∀ description ∈ later.world.descriptions, description = shards)
    (unfolds : session.reader.Unfolds shards) : later.reader.Unfolds shards := by
  have known := turn.delivery?_known held
  cases turn with
  | handsOut waiting => exact unfolds.handOut (known _ rfl)
  | stays _ _ reader _ _ => exact reader ▸ unfolds
  | prepares _ prepares became _ =>
      rw [became]
      exact prepares.unfolds indexed distinct oldest described unfolds
  | visits _ member steps became _ _ recorded =>
      have follows := Reader.follows_apply indexed member steps.shard
      rw [← became] at follows
      rcases steps.quiet_or_described with ⟨none, same⟩ | ⟨found, ended, settles, rfl⟩
      · rw [none] at follows
        exact unfolds.congr (follows.rests indexed member (same _))
      · rw [recorded, settles.descriptions_of_some] at described
        rw [described found (List.mem_append_right _ List.mem_cons_self)] at follows
        exact unfolds.succeed indexed distinct acyclic member ended follows

end Session

namespace Life

/-- The settings stay, and so does the unfolding of a stream that is always described alike. -/
structure Unfolding (settings : ReaderSettings) (shards : List Shard) (life : Life σ) : Prop where
  sound : life.Sound
  settings : life.session.reader.settings = settings
  unfolds : (∀ description ∈ life.session.world.descriptions, description = shards) →
    life.session.reader.Unfolds shards

theorem perform_unfolding {settings : ReaderSettings} (oldest : settings.policy = .oldest)
    (distinct : (shards.map Shard.id).Nodup) (acyclic : (Lineage.ofShards shards).Acyclic)
    (life : Life σ) (act : Act) (unfolding : life.Unfolding settings shards) :
    (life.perform service act).Unfolding settings shards := by
  have sound := unfolding.sound
  have kept := perform_descriptions service sound act
  refine ⟨sound_run [act] sound, ?_, fun described => ?_⟩
  · rw [← unfolding.settings]
    cases act with
    | turn => exact (Session.advance_turn sound.indexed).settings sound.indexed
    | close =>
        rcases life.session.close_change with same | change
        · exact congrArg Reader.settings same
        · exact change.settings sound.indexed
    | surround clock signal monitor => rfl
  · have unfolds := unfolding.unfolds fun description member =>
      described description (kept.subset member)
    cases act with
    | turn =>
        exact (Session.advance_turn sound.indexed).unfolds sound.indexed sound.held distinct
          acyclic (unfolding.settings ▸ oldest) described unfolds
    | close => exact unfolds.congr (life.session.close_rests sound.indexed sound.held)
    | surround clock signal monitor => exact unfolds

/-- Through a whole life the tracked shards are the upper part of the lineage. -/
theorem unfolding_run (service : Service σ) {settings : ReaderSettings}
    (oldest : settings.policy = .oldest) (unsaved : settings.checkpoint = .empty)
    (distinct : (shards.map Shard.id).Nodup) (acyclic : (Lineage.ofShards shards).Acyclic)
    (world : World σ) (acts : List Act) :
    ((begin settings world).run service acts).Unfolding settings shards :=
  run_preserves (perform_unfolding oldest distinct acyclic) acts
    ⟨begin_sound settings world, rfl, fun _ => Reader.unfolds_ofSettings shards unsaved⟩

end Life
end ShardedStream
