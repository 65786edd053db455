import ShardedStream.Proofs.Script.Bound
import ShardedStream.Proofs.Session.Drain
import ShardedStream.Proofs.Session.Queue
import ShardedStream.Proofs.World.Conversation

/-!
Every pass over a scripted service ends.
Each turn leaves fewer turns than before, and a whole pass is given more turns than it can take, so
it always returns a result to a caller who waits.
-/

namespace ShardedStream

open Script

namespace Reader

/-- Whether a tracked shard has been read to its end. -/
def hasEnded (reader : Reader) (id : ShardId) : Bool :=
  reader.shards.any fun tracked => tracked.id == id && tracked.phase.isEnded

/-- How many of the shards that are still to be described are not tracked. -/
def unseen (reader : Reader) (script : Script) : Nat :=
  script.described.countP fun shard => decide (shard.id ∉ reader.ids)

variable {reader later : Reader} {before after : Script}

theorem hasEnded_iff {id : ShardId} : reader.hasEnded id = true ↔
    ∃ tracked ∈ reader.shards, tracked.id = id ∧ tracked.phase.isEnded = true := by
  simp only [hasEnded, List.any_eq_true, Bool.and_eq_true, beq_iff_eq]

/-- A shard that comes to be tracked was named by what was still to be described. -/
theorem unseen_add_le {new : List ShardId} (sublist : after.described.Sublist before.described)
    (ids : later.ids = reader.ids ++ new) (distinct : later.ids.Nodup)
    (named : ∀ id ∈ new, id ∈ before.described.map Shard.id) :
    new.length + later.unseen after ≤ reader.unseen before := by
  rw [ids, List.nodup_append] at distinct
  obtain ⟨_, newDistinct, apart⟩ := distinct
  have opened : new.length ≤ (before.described.filter fun shard =>
      decide (shard.id ∉ reader.ids) && decide (shard.id ∈ new)).length := by
    rw [← List.length_map (f := Shard.id)]
    refine (newDistinct.subperm fun id member => ?_).length_le
    obtain ⟨shard, listed, rfl⟩ := List.mem_map.mp (named id member)
    refine List.mem_map_of_mem (List.mem_filter.mpr ⟨listed, ?_⟩)
    simp only [Bool.and_eq_true, decide_eq_true_eq]
    exact ⟨fun old => apart _ old _ member rfl, member⟩
  have others : later.unseen after ≤ before.described.countP fun shard =>
      decide (shard.id ∉ reader.ids) && !decide (shard.id ∈ new) := by
    refine (sublist.countP_le).trans (List.countP_mono_left fun shard _ unseen => ?_)
    simp only [decide_eq_true_eq, Bool.and_eq_true, Bool.not_eq_true', decide_eq_false_iff_not]
      at unseen ⊢
    rw [ids, List.mem_append, not_or] at unseen
    exact unseen
  have split : reader.unseen before = (before.described.countP fun shard =>
      decide (shard.id ∉ reader.ids) && decide (shard.id ∈ new)) +
      before.described.countP fun shard =>
        decide (shard.id ∉ reader.ids) && !decide (shard.id ∈ new) := by
    rw [unseen, List.countP_eq_countP_filter_add _ _ fun shard => decide (shard.id ∈ new),
      List.countP_filter, List.countP_filter]
  rw [← List.countP_eq_length_filter] at opened
  omega

variable {σ : Type} {service : Service σ} {world after : World σ} {tracked : Tracked}
  {outcome : Outcome}

/-- A shard that has been read to its end stays read. -/
theorem Steps.isEnded (steps : reader.Steps service tracked world outcome after)
    (ended : tracked.phase.isEnded = true) (resume : Position) :
    (tracked.enter (outcome.transition.phase? resume)).phase.isEnded = true := by
  cases steps with
  | opened waiting _ _ =>
      rw [waiting] at ended
      cases ended
  | unopened waiting _ => exact ended
  | missing _ _ _ => rfl
  | read reading _ =>
      rw [reading] at ended
      cases ended
  | described _ _ => rfl
  | undescribed _ _ => exact ended
  | idle _ => exact ended

/-- A visit leaves the shards read to their end that have been. -/
theorem hasEnded_apply (indexed : reader.Indexed) (member : tracked ∈ reader.shards)
    (steps : reader.Steps service tracked world outcome after) {id : ShardId}
    (ended : reader.hasEnded id = true) : (reader.apply outcome).2.hasEnded id = true := by
  obtain ⟨other, here, rfl, phase⟩ := hasEnded_iff.mp ended
  have kept := (follows_apply indexed member steps.shard).keeps here
  split at kept
  · rename_i own
    obtain rfl := indexed.eq_of_id_eq here member own
    exact hasEnded_iff.mpr ⟨_, kept, rfl, steps.isEnded phase _⟩
  · exact hasEnded_iff.mpr ⟨other, kept, rfl, phase⟩

/-- A tracked shard has been read to its end when its phase says so. -/
theorem hasEnded_eq (indexed : reader.Indexed) (member : tracked ∈ reader.shards) :
    reader.hasEnded tracked.id = tracked.phase.isEnded := by
  rw [Bool.eq_iff_iff, hasEnded_iff]
  constructor
  · rintro ⟨other, here, same, ended⟩
    rwa [indexed.eq_of_id_eq here member same] at ended
  · exact fun ended => ⟨tracked, member, rfl, ended⟩

/-- The shards that a reader opens with were still to be described. -/
theorem Prepares.unseen {reader entered : Reader} {world after : World Script}
    (prepares : reader.Prepares Script.service world (some entered) after)
    (indexed : reader.Indexed) :
    entered.shards.length + entered.unseen after.service ≤
      reader.shards.length + reader.unseen world.service := by
  cases prepares with
  | already _ => exact le_rfl
  | @described shards between reports _ settles =>
      have tracks := indexed.track
        (Assignments.atStart (.ofShards shards) reader.checkpoint reader.settings.policy)
      have ids : (reader.opening shards).ids = reader.ids ++ (reader.track
          (Assignments.atStart (.ofShards shards) reader.checkpoint reader.settings.policy)).1.map
            Assignment.shard := by
        rw [Reader.ids, Reader.opening, tracks.shards, List.map_append, List.map_map]
        rfl
      have named : ∀ id ∈ (reader.track (Assignments.atStart (.ofShards shards) reader.checkpoint
          reader.settings.policy)).1.map Assignment.shard,
          id ∈ world.service.described.map Shard.id := by
        intro id member
        obtain ⟨entry, chosen, rfl⟩ := List.mem_map.mp member
        have listed := Assignments.atStart_listed shards _ _ entry (tracks.chosen entry chosen).1
        obtain ⟨shard, here, same⟩ := List.mem_map.mp listed
        exact List.mem_map.mpr ⟨shard, List.mem_flatten.mpr
          ⟨shards, settles.spends.described shards List.mem_cons_self, here⟩, same⟩
      have less := (wanes_of_leads (World.precedes_of_settles settles).leads).described
      have unseen := Reader.unseen_add_le less ids tracks.indexed.distinct named
      have length : (reader.opening shards).shards.length = reader.shards.length +
          (reader.track (Assignments.atStart (.ofShards shards) reader.checkpoint
            reader.settings.policy)).1.length := by
        rw [Reader.opening, tracks.shards, List.length_append, List.length_map]
      rw [List.length_map] at unseen
      rw [World.reportAll_service]
      omega

end Reader

namespace Session

/-- Every turn comes to something for a caller who waits. -/
theorem advance_answered {σ : Type} (service : Service σ) (session : Session σ)
    (waits : session.world.clock.limit = none) :
    (session.advance service).1 ≠ .unanswered ∧
      (session.advance service).2.world.clock.limit = none := by
  obtain ⟨α, dialogue, conversed⟩ := advance_conversed service session
  obtain ⟨answered, waitsLater⟩ :=
    World.converse_answered service session.plan dialogue waits
  refine ⟨fun unanswered => ?_, by rw [conversed.clock, waitsLater]⟩
  rw [conversed.unanswered unanswered] at answered
  cases answered

variable {session later : Session Script} {progress : Progress}

/--
An upper bound for the turns that a pass has left: a record each, up to two visits for every shard
in the queue and for every shard that may still come to be tracked, and the turn that ends the pass.
-/
def turnsLeft (session : Session Script) : Nat :=
  session.pass.buffer.length + session.world.service.recordBound +
    if session.pass.finished then 0
    else if session.pass.started then
      session.pass.queue.length +
        session.pass.queue.countP (fun id => !session.reader.hasEnded id) +
        2 * session.reader.unseen session.world.service + 1
    else 2 * (session.reader.shards.length + session.reader.unseen session.world.service) + 2

/-- Every visit leaves fewer turns. -/
theorem turnsLeft_absorb {reader : Reader} {tracked : Tracked} {rest : List ShardId}
    {outcome : Outcome} {world after : World Script} (indexed : reader.Indexed)
    (member : tracked ∈ reader.shards)
    (steps : reader.Steps Script.service tracked world outcome after) :
    (absorb ⟨reader, ⟨rest, [], true, false⟩, after⟩ tracked.id outcome).turnsLeft <
      turnsLeft ⟨reader, ⟨tracked.id :: rest, [], true, false⟩, world⟩ := by
  have follows := Reader.follows_apply indexed member steps.shard
  have ids := Reader.ids_apply indexed member steps.shard
  have revisit := Reader.revisit_apply indexed member steps.shard
  have unseen := Reader.unseen_add_le (wanes_of_leads steps.precedes.leads).described ids
    follows.indexed.distinct (steps.named indexed member)
  have records := steps.spends
  have waiting := Reader.hasEnded_eq indexed member
  have kept : rest.countP (fun id => !(reader.apply outcome).2.hasEnded id) ≤
      rest.countP fun id => !reader.hasEnded id := by
    refine List.countP_mono_left fun id _ unread => ?_
    rw [Bool.not_eq_true'] at unread ⊢
    by_contra ended
    rw [Reader.hasEnded_apply indexed member steps (Bool.not_eq_false _ |>.mp ended)] at unread
    cases unread
  have new : (reader.apply outcome).1.newShards.countP
      (fun id => !(reader.apply outcome).2.hasEnded id) ≤
        (reader.apply outcome).1.newShards.length := List.countP_le_length
  simp only [turnsLeft, absorb, revisit, World.reportAll_service,
    Reader.deliveries_apply indexed member steps.shard, List.nil_append, List.length_map,
    List.length_nil, Bool.false_eq_true, if_false, if_true, List.length_cons, List.countP_cons,
    List.length_append, List.countP_append, waiting]
  cases revisits : outcome.transition.revisits with
  | false =>
      simp only [Bool.false_eq_true, if_false]
      omega
  | true =>
      obtain ⟨unread, ended⟩ := steps.exhausted_of_revisits revisits
      have own := follows.keeps member
      rw [if_pos rfl, ended] at own
      have read := Reader.hasEnded_eq follows.indexed own
      have same : (reader.apply outcome).2.hasEnded tracked.id = true := read
      simp only [if_true, List.length_cons, List.countP_cons, same, unread, Bool.not_true,
        Bool.not_false, Bool.false_eq_true, if_false]
      omega

/-- A pass that has just been entered visits every tracked shard at most twice. -/
theorem turnsLeft_entered (reader : Reader) (world : World Script) :
    turnsLeft ⟨reader, ⟨reader.activeShards, [], true, false⟩, world⟩ ≤
      world.service.recordBound +
        2 * (reader.shards.length + reader.unseen world.service) + 1 := by
  have active : reader.activeShards.length ≤ reader.shards.length := by
    rw [Reader.activeShards, List.length_map]
    exact List.length_filter_le _ _
  have unread : reader.activeShards.countP (fun id => !reader.hasEnded id) ≤
      reader.activeShards.length := List.countP_le_length
  simp only [turnsLeft, List.length_nil, Bool.false_eq_true, if_false, if_true]
  omega

/-- A pass that opens without an error leaves fewer turns. -/
theorem turnsLeft_enter {reader : Reader} {queue : List ShardId} {world : World Script}
    (indexed : reader.Indexed) :
    let session : Session Script := ⟨reader, ⟨queue, [], false, false⟩, world⟩
    (session.enter Script.service).1 = .moved →
      (session.enter Script.service).2.turnsLeft < session.turnsLeft := by
  intro session
  have wanes := wanes_of_leads
    (world.converse_precedes Script.service session.plan reader.prepare).leads
  unfold enter
  simp only [session, plan] at wanes ⊢
  generalize asked : world.converse Script.service reader.settings.retry.plan reader.prepare =
    conversed at wanes ⊢
  obtain ⟨answer, after⟩ := conversed
  have records : after.service.recordBound ≤ world.service.recordBound := wanes.records
  rcases answer with _ | error | _ | entered
  · exact fun moved => by cases moved
  · exact fun moved => by cases moved
  · intro _
    simp only [turnsLeft, List.length_nil, Bool.false_eq_true, if_false, if_true]
    omega
  · intro _
    have opened := turnsLeft_entered entered after
    have unseen := (Reader.prepare_prepares asked).unseen indexed
    refine Nat.lt_of_le_of_lt opened ?_
    simp only [turnsLeft, List.length_nil, Bool.false_eq_true, if_false]
    omega

/-- A visit that does not fail leaves fewer turns. -/
theorem turnsLeft_visit {reader : Reader} {shard : ShardId} {rest : List ShardId}
    {world : World Script} (indexed : reader.Indexed) :
    let session : Session Script := ⟨reader, ⟨rest, [], true, false⟩, world⟩
    (session.visit Script.service shard).1 = .moved →
      (session.visit Script.service shard).2.turnsLeft <
        turnsLeft ⟨reader, ⟨shard :: rest, [], true, false⟩, world⟩ := by
  intro session
  unfold visit
  simp only [session, plan]
  cases asked : world.converse Script.service reader.settings.retry.plan (reader.step shard) with
  | mk answer after =>
      rcases answer with _ | error | outcome
      · exact fun moved => by cases moved
      · exact fun moved => by cases moved
      · intro _
        obtain ⟨tracked, member, rfl, steps⟩ := Reader.step_steps indexed asked
        exact turnsLeft_absorb indexed member steps

/-- Every turn that does not end the pass leaves fewer turns. -/
theorem turnsLeft_advance (indexed : session.reader.Indexed)
    (goesOn : (session.advance Script.service).1 = .moved ∨
      (session.advance Script.service).1.delivery?.isSome = true) :
    (session.advance Script.service).2.turnsLeft < session.turnsLeft := by
  obtain ⟨reader, ⟨queue, buffer, started, finished⟩, world⟩ := session
  cases buffer with
  | cons delivery rest =>
      rw [advance_delivery rfl]
      have same : (reader.handOut delivery).unseen world.service = reader.unseen world.service :=
        rfl
      have ended : (reader.handOut delivery).hasEnded = reader.hasEnded := rfl
      have shards : (reader.handOut delivery).shards = reader.shards := rfl
      simp only [turnsLeft, List.length_cons, same, ended, shards]
      omega
  | nil =>
      cases finished with
      | true =>
          rw [advance_finished rfl rfl] at goesOn
          rcases goesOn with moved | handed <;> contradiction
      | false =>
          cases started with
          | false =>
              rw [advance_unstarted rfl rfl rfl] at goesOn ⊢
              rw [enter_silent] at goesOn
              rcases goesOn with moved | handed
              · exact turnsLeft_enter indexed moved
              · cases handed
          | true =>
              cases queue with
              | nil =>
                  rw [advance_drained rfl rfl rfl rfl] at goesOn
                  rcases goesOn with moved | handed <;> contradiction
              | cons shard rest =>
                  rw [advance_queued rfl rfl rfl rfl] at goesOn ⊢
                  rw [visit_silent] at goesOn
                  rcases goesOn with moved | handed
                  · exact turnsLeft_visit indexed moved
                  · cases handed

/-- A pass over a scripted service is drained by no more turns than it has left. -/
theorem drains (session : Session Script) (indexed : session.reader.Indexed)
    (waits : session.world.clock.limit = none) :
    ∃ turns deliveries error later, turns ≤ session.turnsLeft ∧
      Drains Script.service turns session deliveries error later := by
  induction bound : session.turnsLeft using Nat.strongRecOn generalizing session with
  | ind left inductionHypothesis =>
      have turn : Turn Script.service session _ _ := advance_turn indexed
      have next := (turn.indexed indexed).1
      obtain ⟨answered, waitsLater⟩ := advance_answered Script.service session waits
      have less := turnsLeft_advance indexed
      cases advanced : session.advance Script.service with
      | mk progress later =>
          rw [advanced] at next answered waitsLater less
          have goesOn : progress = .moved ∨ progress.delivery?.isSome = true →
              ∃ turns deliveries error last, turns + 1 ≤ left ∧
                Drains Script.service turns later deliveries error last := by
            intro goesOn
            have fewer : later.turnsLeft < session.turnsLeft := less goesOn
            obtain ⟨turns, deliveries, error, last, enough, drains⟩ :=
              inductionHypothesis later.turnsLeft (bound ▸ fewer) later next waitsLater rfl
            exact ⟨turns, deliveries, error, last, by omega, drains⟩
          cases progress with
          | delivered delivery =>
              obtain ⟨turns, deliveries, error, last, enough, drains⟩ := goesOn (.inr rfl)
              exact ⟨turns + 1, _, error, last, enough, .handsOut advanced drains⟩
          | ended => exact ⟨0, [], none, later, Nat.zero_le _, .ended advanced⟩
          | failed error => exact ⟨0, [], some error, later, Nat.zero_le _, .failed advanced⟩
          | unanswered => exact absurd rfl answered
          | moved =>
              obtain ⟨turns, deliveries, error, last, enough, drains⟩ := goesOn (.inl rfl)
              exact ⟨turns + 1, deliveries, error, last, enough, .moved advanced drains⟩

end Session

namespace Script

/-- A pass is given more turns than it can take. -/
theorem turnsLeft_start (reader : Reader) (world : World Script) :
    (Session.start reader world).turnsLeft + 2 ≤ world.service.turns reader := by
  have unseen : reader.unseen world.service ≤ world.service.described.length :=
    List.countP_le_length
  rw [length_described] at unseen
  simp only [Session.turnsLeft, Session.start, Pass.fresh, turns, List.length_nil,
    Bool.false_eq_true, if_false]
  omega

/-- A whole pass over a scripted service is drained within the turns that it is given. -/
theorem pass_drains (reader : Reader) (world : World Script) (indexed : reader.Indexed)
    (waits : world.clock.limit = none) :
    ∃ turns deliveries error later, turns < world.service.turns reader ∧
      (Session.start reader world).Drains service turns deliveries error later := by
  obtain ⟨turns, deliveries, error, later, enough, drains⟩ :=
    (Session.start reader world).drains indexed waits
  have bound := turnsLeft_start reader world
  exact ⟨turns, deliveries, error, later, by omega, drains⟩

/-- So it returns a result. -/
theorem runPass_drains (reader : Reader) (world : World Script) (indexed : reader.Indexed)
    (waits : world.clock.limit = none) :
    ∃ turns deliveries error later,
      (Session.start reader world).Drains service turns deliveries error later ∧
      runPass reader world = (some (Session.wholeResult deliveries error), later.close) := by
  obtain ⟨turns, deliveries, error, later, within, drains⟩ := pass_drains reader world indexed waits
  refine ⟨turns, deliveries, error, later, drains, ?_⟩
  rw [runPass, Reader.runPass, drains.collect within within]

end Script
end ShardedStream
