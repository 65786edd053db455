import ShardedStream.Proofs.Session.Stop

/-!
Shards that are not visited.
A tracked shard stays as it is until it is visited, through any number of passes, so the first thing
that is asked for it then is what its entry says now.
-/

namespace ShardedStream

variable {σ : Type} {service : Service σ} {tracked : Tracked} {settings : ReaderSettings}

namespace Session

variable {session : Session σ}

/-- The shard is tracked as it was, and no record of it waits. -/
structure Spared (tracked : Tracked) (settings : ReaderSettings) (session : Session σ) : Prop where
  indexed : session.reader.Indexed
  settings : session.reader.settings = settings
  member : tracked ∈ session.reader.shards
  silent : ∀ delivery ∈ session.pass.buffer, delivery.shard ≠ tracked.id

/-- A pass that opens leaves the shards as they are that were tracked before. -/
theorem enter_keeps (service : Service σ) (session : Session σ) (indexed : session.reader.Indexed)
    (member : tracked ∈ session.reader.shards) :
    tracked ∈ (session.enter service).2.reader.shards ∧
      (session.enter service).2.pass.buffer = session.pass.buffer := by
  unfold enter
  dsimp only
  split
  · exact ⟨member, rfl⟩
  · rename_i prepared after asked
    refine ⟨?_, rfl⟩
    cases Reader.prepare_prepares asked with
    | already _ => exact member
    | described _ _ =>
        rw [Reader.opening, (indexed.track _).shards]
        exact List.mem_append_left _ member
  · exact ⟨member, rfl⟩
  · exact ⟨member, rfl⟩

/-- A visit to another shard leaves this one as it is. -/
theorem visit_keeps (service : Service σ) (session : Session σ) (indexed : session.reader.Indexed)
    (member : tracked ∈ session.reader.shards) (empty : session.pass.buffer = [])
    {shard : ShardId} (other : shard ≠ tracked.id) :
    tracked ∈ (session.visit service shard).2.reader.shards ∧
      ∀ delivery ∈ (session.visit service shard).2.pass.buffer, delivery.shard ≠ tracked.id := by
  have nothing : ∀ delivery ∈ session.pass.buffer, delivery.shard ≠ tracked.id := by
    rw [empty]
    exact fun _ member => absurd member List.not_mem_nil
  unfold visit
  split
  · exact ⟨member, nothing⟩
  · rename_i outcome after asked
    obtain ⟨visited, here, rfl, steps⟩ := Reader.step_steps indexed asked
    have kept := (Reader.follows_apply indexed here steps.shard).keeps member
    rw [if_neg other.symm] at kept
    refine ⟨kept, fun delivery waits => ?_⟩
    simp only [absorb, empty, List.nil_append,
      Reader.deliveries_apply indexed here steps.shard] at waits
    obtain ⟨record, _, rfl⟩ := List.mem_map.mp waits
    exact other
  · exact ⟨member, nothing⟩

/-- A turn that visits another shard, or none, leaves this one as it is. -/
theorem Spared.turn (spared : session.Spared tracked settings)
    (elsewhere : ∀ visit, session.visit? service = some visit → visit.shard ≠ tracked.id) :
    (session.advance service).2.Spared tracked settings := by
  obtain ⟨indexed, same, member, silent⟩ := spared
  have turn : Turn service session _ _ := advance_turn indexed
  suffices kept : tracked ∈ (session.advance service).2.reader.shards ∧
      ∀ delivery ∈ (session.advance service).2.pass.buffer, delivery.shard ≠ tracked.id from
    ⟨(turn.indexed indexed).1, (turn.settings indexed).trans same, kept.1, kept.2⟩
  obtain ⟨reader, ⟨queue, buffer, started, finished⟩, world⟩ := session
  cases buffer with
  | cons delivery rest =>
      exact ⟨member, fun other waits => silent other (List.mem_cons_of_mem _ waits)⟩
  | nil =>
      cases finished with
      | true => exact ⟨member, silent⟩
      | false =>
          cases started with
          | false =>
              rw [advance_unstarted rfl rfl rfl]
              obtain ⟨kept, same⟩ := enter_keeps service
                ⟨reader, ⟨queue, [], false, false⟩, world⟩ indexed member
              exact ⟨kept, fun delivery waits => silent delivery (same ▸ waits)⟩
          | true =>
              cases queue with
              | nil => exact ⟨member, silent⟩
              | cons shard rest =>
                  rw [advance_queued rfl rfl rfl rfl]
                  exact visit_keeps service ⟨reader, ⟨rest, [], true, false⟩, world⟩ indexed member
                    rfl (elsewhere _ rfl)

/-- The end of a pass restarts at most the shard of the records that wait. -/
theorem Spared.close (spared : session.Spared tracked settings) :
    (start session.close.1 session.close.2).Spared tracked settings := by
  obtain ⟨indexed, same, member, silent⟩ := spared
  refine ⟨(close_indexed indexed).1, ?_, ?_, fun _ member => absurd member List.not_mem_nil⟩
  · rcases session.close_change with unchanged | change
    · exact (congrArg Reader.settings unchanged).trans same
    · exact (change.settings indexed).trans same
  · unfold Session.close Session.start
    cases buffer : session.pass.buffer with
    | nil => exact member
    | cons delivery rest =>
        have other := silent delivery (buffer ▸ List.mem_cons_self)
        simp only [List.head?_cons, Reader.restartAt, indexed.shards_modifyTracked]
        exact List.mem_map.mpr ⟨tracked, member, if_neg other.symm⟩

/-- The first operation of a visit is for what its shard asks first. -/
theorem visit?_first {visit : Visit} (visits : session.visit? service = some visit) :
    visit.made.head?.map Exchange.request = (session.reader.step visit.shard).firstRequest? := by
  unfold visit? at visits
  split at visits
  · rename_i shard rest _
    obtain ⟨made, exchanges, conversation⟩ := World.converse_conversation service session.plan
      (session.reader.step shard) session.world
    obtain rfl := Option.some.inj visits
    simp only [exchanges, List.drop_left]
    exact conversation.firstRequest
  · cases visits

/-- The first thing that is asked for a spared shard is what its entry says. -/
theorem Spared.first (spared : session.Spared tracked settings) {visit : Visit}
    (visits : session.visit? service = some visit) (own : visit.shard = tracked.id) :
    visit.made.head?.map Exchange.request = settings.asksFirst? tracked := by
  rw [visit?_first visits, own, Reader.firstRequest_step spared.indexed spared.member,
    spared.settings]

end Session

namespace Life

/-- A shard that a run does not visit stays as it is. -/
theorem run_spared (acts : List Act) {life : Life σ}
    (spared : life.session.Spared tracked settings)
    (elsewhere : ∀ visit ∈ life.visits service acts, visit.shard ≠ tracked.id) :
    (life.run service acts).session.Spared tracked settings := by
  induction acts generalizing life with
  | nil => exact spared
  | cons act acts inductionHypothesis =>
      have rest : ∀ visit ∈ (life.perform service act).visits service acts,
          visit.shard ≠ tracked.id :=
        fun visit member => elsewhere visit (List.mem_append_right _ member)
      have now : ∀ visit ∈ life.visited service act, visit.shard ≠ tracked.id :=
        fun visit member => elsewhere visit (List.mem_append_left _ member)
      refine inductionHypothesis ?_ rest
      cases act with
      | turn => exact spared.turn fun visit visits => now visit (Option.mem_toList.mpr visits)
      | close => exact spared.close
      | surround clock signal monitor =>
          exact ⟨spared.indexed, spared.settings, spared.member, spared.silent⟩

end Life
end ShardedStream
