import Mathlib.Algebra.Order.BigOperators.Group.List
import Mathlib.Algebra.Order.Ring.Nat
import ShardedStream.Proofs.Script.Completion
import ShardedStream.Proofs.Session.Ancestry

/-!
Drained passes that finish a stream.
Every turn over a script that can be read to its end loses no record and undoes nothing, and as long
as a shard is active the next pass has less left to do.
-/

namespace ShardedStream

open Script

variable {shards : List Shard} {names : ShardId → Token → Prop} {original : Script}

namespace Session

/-- The records of every shard are handed out, or they wait, or they are still scripted. -/
structure Completing (shards : List Shard) (original : Script) (handed : List Delivery)
    (session : Session Script) : Prop where
  regular : session.Regular original.Names
  unfolds : session.reader.Unfolds shards
  oldest : session.reader.settings.policy = .oldest
  described : ∀ description ∈ session.world.descriptions, description = shards
  benign : Benign shards session.world.service
  records : ∀ shard ∈ shards, recordsOf shard.id (handed ++ session.pass.buffer) ++
    recordsIn (session.world.service.batches.getD shard.id []) =
      recordsIn (original.batches.getD shard.id [])
  leaves : ∀ shard ∈ shards,
    Leaves session.world.service shard.id (session.reader.hasEnded shard.id)

/-- What is left to do: replies to use up, shards to finish, and the reader to be opened. -/
def toDo (shards : List Shard) (session : Session Script) : Nat :=
  session.world.service.descriptions.length + (if session.reader.initialized then 0 else 1) +
    (shards.map fun shard => session.world.service.repliesFor shard.id +
      if session.reader.hasFinished shard.id then 0 else 1).sum

/-- Replies are only used up, and nothing that has been done is undone. -/
structure Onward (session later : Session Script) : Prop where
  descriptions : later.world.service.descriptions.length ≤
    session.world.service.descriptions.length
  replies : ∀ id, later.world.service.repliesFor id ≤ session.world.service.repliesFor id
  ready : session.reader.initialized = true → later.reader.initialized = true
  done : ∀ id, session.reader.IsDone id → later.reader.IsDone id

/-- Something has been done that was left to do. -/
def Proceeds (shards : List Shard) (session later : Session Script) : Prop :=
  later.world.service.descriptions.length < session.world.service.descriptions.length ∨
    (session.reader.initialized = false ∧ later.reader.initialized = true) ∨
    ∃ shard ∈ shards,
      later.world.service.repliesFor shard.id < session.world.service.repliesFor shard.id ∨
        ¬ session.reader.IsDone shard.id ∧ later.reader.IsDone shard.id

/-- The next turn opens the reader, or it visits an active shard. -/
def Due (session : Session Script) : Prop :=
  session.pass.buffer = [] ∧ session.pass.finished = false ∧
    ((session.pass.started = false ∧ session.reader.initialized = false) ∨
      (session.pass.started = true ∧ ∃ tracked rest,
        session.pass.queue = tracked.id :: rest ∧ tracked ∈ session.reader.shards ∧
          tracked.phase ≠ .done))

variable {session later : Session Script} {progress : Progress}

namespace Onward

/-- Every shard has at most as much left to do. -/
theorem dueFor (onward : Onward session later) (id : ShardId) :
    (later.world.service.repliesFor id + if later.reader.hasFinished id then 0 else 1) ≤
      session.world.service.repliesFor id + if session.reader.hasFinished id then 0 else 1 := by
  have replies := onward.replies id
  have done := onward.done id
  rw [← Reader.hasFinished_iff, ← Reader.hasFinished_iff] at done
  split
  · omega
  · rename_i unfinished
    rw [if_neg fun finished => unfinished (done finished)]
    omega

theorem toDo_le (onward : Onward session later) : later.toDo shards ≤ session.toDo shards := by
  have each := List.sum_le_sum fun (shard : Shard) (_ : shard ∈ shards) => onward.dueFor shard.id
  have descriptions := onward.descriptions
  have ready := onward.ready
  unfold toDo
  split
  · omega
  · rename_i unready
    rw [if_neg fun before => unready (ready before)]
    omega

/-- Whatever has been done is not left to do any more. -/
theorem toDo_lt (onward : Onward session later) (proceeds : Proceeds shards session later) :
    later.toDo shards < session.toDo shards := by
  have each := List.sum_le_sum fun (shard : Shard) (_ : shard ∈ shards) => onward.dueFor shard.id
  have descriptions := onward.descriptions
  have ready : (if later.reader.initialized then 0 else 1) ≤
      if session.reader.initialized then 0 else 1 := by
    split
    · exact Nat.zero_le _
    · rename_i unready
      rw [if_neg fun before => unready (onward.ready before)]
  rcases proceeds with fewer | ⟨unready, opened⟩ | ⟨shard, listed, progress⟩
  · unfold toDo
    omega
  · rw [unready, opened] at ready
    simp only [toDo, unready, opened, if_true, Bool.false_eq_true, if_false]
    omega
  · have less := List.sum_lt_sum _ _
      (fun (shard : Shard) (_ : shard ∈ shards) => onward.dueFor shard.id) ⟨shard, listed, by
        rcases progress with fewer | ⟨unfinished, finished⟩
        · have replies := onward.dueFor shard.id
          have done := onward.done shard.id
          rw [← Reader.hasFinished_iff, ← Reader.hasFinished_iff] at done
          split
          · omega
          · rename_i other
            rw [if_neg fun before => other (done before)]
            omega
        · have replies := onward.replies shard.id
          rw [← Reader.hasFinished_iff] at unfinished finished
          rw [if_pos finished, if_neg unfinished]
          omega⟩
    unfold toDo
    omega

end Onward

namespace Advances

/-- Every description that a turn adds is the list of shards. -/
theorem described (advances : Advances names session progress later)
    (benign : Benign shards session.world.service)
    (known : ∀ description ∈ session.world.descriptions, description = shards) :
    ∀ description ∈ later.world.descriptions, description = shards := by
  intro description member
  cases advances with
  | handsOut _ => exact known description member
  | stays _ _ => exact known description member
  | enters _ _ _ _ => exact known description member
  | @prepares _ after reports _ _ _ _ describes =>
      change description ∈ (after.reportAll reports).descriptions at member
      rw [World.reportAll_descriptions] at member
      exact (describes.descriptions_subset benign description member).elim (known description) id
  | @unprepared _ after reports _ _ _ _ describes _ =>
      change description ∈ (after.reportAll reports).descriptions at member
      rw [World.reportAll_descriptions] at member
      exact (describes.descriptions_subset benign description member).elim (known description) id
  | @unpreparable _ after reports _ _ _ _ _ describes _ =>
      change description ∈ (after.reportAll reports).descriptions at member
      rw [World.reportAll_descriptions] at member
      exact (describes.descriptions_subset benign description member).elim (known description) id
  | drained _ _ _ _ => exact known description member
  | @visits tracked rest outcome after _ _ _ _ _ _ visits =>
      change description ∈ (after.reportAll _).descriptions at member
      rw [World.reportAll_descriptions] at member
      exact (visits.descriptions_subset benign description member).elim (known description) id
  | fails _ _ _ _ _ visits =>
      exact (visits.descriptions_subset benign description member).elim (known description) id

end Advances

/-- A turn leaves an initialized reader initialized. -/
theorem Turn.initialized {σ : Type} {service : Service σ} {session later : Session σ}
    (turn : Turn service session progress later) (indexed : session.reader.Indexed)
    (ready : session.reader.initialized = true) : later.reader.initialized = true := by
  rcases turn.change with same | change
  · exact same ▸ ready
  · exact change.initialized indexed ready

theorem Advances.onward (advances : Advances names session progress later)
    (turn : Turn service session progress later) (indexed : session.reader.Indexed) :
    Onward session later := by
  obtain ⟨only, keeps⟩ := advances.keeps
  exact ⟨keeps.descriptions.length_le, keeps.repliesFor_le, turn.initialized indexed,
    fun _ => turn.isDone indexed⟩

namespace Completing

variable {handed : List Delivery}

/-- Where nothing is handed out or used up, everything is where it was. -/
theorem rests (completing : session.Completing shards original handed)
    (buffer : later.pass.buffer = session.pass.buffer)
    (batches : later.world.service.batches = session.world.service.batches)
    (ended : later.reader.hasEnded = session.reader.hasEnded) :
    (∀ shard ∈ shards, recordsOf shard.id (handed ++ later.pass.buffer) ++
      recordsIn (later.world.service.batches.getD shard.id []) =
        recordsIn (original.batches.getD shard.id [])) ∧
    ∀ shard ∈ shards,
      Leaves later.world.service shard.id (later.reader.hasEnded shard.id) := by
  refine ⟨fun shard listed => ?_, fun shard listed => ?_⟩
  · rw [buffer, batches]
    exact completing.records shard listed
  · rw [Leaves, batches, ended]
    exact completing.leaves shard listed

/-- A visited shard is listed, and the visit does not fail. -/
theorem furthers (completing : session.Completing shards original handed) {tracked : Tracked}
    {result : Except ReaderError Outcome} {after : World Script}
    (member : tracked ∈ session.reader.shards)
    (visits : Visits original.Names session.reader tracked session.world result after) :
    ∃ listed ∈ shards, listed.id = tracked.id ∧
      ∃ outcome, result = .ok outcome ∧ Visits.Furthers tracked session.world outcome after := by
  obtain ⟨listed, listedMember, same⟩ :=
    completing.unfolds.listed tracked.id (List.mem_map_of_mem member)
  have leaves := completing.leaves listed listedMember
  rw [same, Reader.hasEnded_eq completing.regular.indexed member] at leaves
  exact ⟨listed, listedMember, same, visits.furthers completing.benign leaves⟩

/-- What a visit reads from the script of its shard waits to be handed out. -/
theorem visited (completing : session.Completing shards original handed) {tracked : Tracked}
    {rest : List ShardId} {outcome : Outcome} {after : World Script}
    (empty : session.pass.buffer = []) (member : tracked ∈ session.reader.shards)
    (steps : session.reader.Steps service tracked session.world outcome after)
    (visits : Visits original.Names session.reader tracked session.world (.ok outcome) after) :
    (∀ shard ∈ shards, recordsOf shard.id
        (handed ++ ((session.dequeue rest after).absorb tracked.id outcome).pass.buffer) ++
      recordsIn (((session.dequeue rest after).absorb tracked.id
        outcome).world.service.batches.getD shard.id []) =
        recordsIn (original.batches.getD shard.id [])) ∧
    ∀ shard ∈ shards, Leaves ((session.dequeue rest after).absorb tracked.id outcome).world.service
      shard.id (((session.dequeue rest after).absorb tracked.id outcome).reader.hasEnded
        shard.id) := by
  have indexed := completing.regular.indexed
  have follows := Reader.follows_apply indexed member steps.shard
  have buffer := Reader.deliveries_apply indexed member steps.shard
  obtain ⟨_, _, _, read, equal, furthers⟩ := completing.furthers member visits
  cases equal
  simp only [absorb, dequeue, World.reportAll_service, empty, List.nil_append, buffer]
  refine ⟨fun shard shardMember => ?_, fun shard shardMember => ?_⟩
  · have before := completing.records shard shardMember
    rw [empty, List.append_nil] at before
    by_cases own : shard.id = tracked.id
    · rw [own] at before ⊢
      rw [recordsOf_append, recordsOf_own, List.append_assoc, furthers.records]
      exact before
    · have apart : recordsOf shard.id (outcome.records.map (Delivery.mk tracked.id)) = [] :=
        recordsOf_eq_nil fun delivery here => by
          obtain ⟨record, _, rfl⟩ := List.mem_map.mp here
          exact fun same => own same.symm
      rw [recordsOf_append, apart, List.append_nil, visits.keeps.batches_getD own]
      exact before
  · by_cases own : shard.id = tracked.id
    · have kept := follows.keeps member
      rw [if_pos rfl] at kept
      have ended := Reader.hasEnded_eq follows.indexed kept
      rw [own]
      exact ended.symm ▸ furthers.leaves _
    · rw [follows.hasEnded_of_ne own, Leaves, visits.keeps.batches_getD own]
      exact completing.leaves shard shardMember

/-- A visit to an active shard uses up a reply or finishes the shard. -/
theorem visit_proceeds (completing : session.Completing shards original handed)
    {tracked : Tracked} {rest : List ShardId} {outcome : Outcome} {after : World Script}
    (member : tracked ∈ session.reader.shards) (active : tracked.phase ≠ .done)
    (steps : session.reader.Steps service tracked session.world outcome after)
    (visits : Visits original.Names session.reader tracked session.world (.ok outcome) after) :
    Proceeds shards session ((session.dequeue rest after).absorb tracked.id outcome) := by
  have indexed := completing.regular.indexed
  obtain ⟨listed, listedMember, same, read, equal, furthers⟩ := completing.furthers member visits
  cases equal
  have service : ((session.dequeue rest after).absorb tracked.id outcome).world.service =
      after.service := World.reportAll_service after _
  rw [Proceeds, service]
  rcases furthers.progress with finished | fewer | fewer | finishes
  · exact absurd finished active
  · exact .inr (.inr ⟨listed, listedMember, .inl (same ▸ fewer)⟩)
  · exact .inl fewer
  · refine .inr (.inr ⟨listed, listedMember, .inr ⟨?_, ?_⟩⟩)
    · exact same ▸ indexed.not_isDone member active
    · have kept := (Reader.follows_apply indexed member steps.shard).keeps member
      rw [if_pos rfl] at kept
      exact ⟨_, kept, same.symm, finishes _⟩

/-- A turn over a script that can be read to its end does not fail, and it loses no record. -/
theorem recorded (completing : session.Completing shards original handed)
    (advances : Advances original.Names session progress later) :
    (∀ error, progress ≠ .failed error) ∧
      (∀ shard ∈ shards,
        recordsOf shard.id (handed ++ progress.delivery?.toList ++ later.pass.buffer) ++
          recordsIn (later.world.service.batches.getD shard.id []) =
            recordsIn (original.batches.getD shard.id [])) ∧
      ∀ shard ∈ shards, Leaves later.world.service shard.id (later.reader.hasEnded shard.id) := by
  have silent : progress.delivery? = none → handed ++ progress.delivery?.toList = handed :=
    fun none => by rw [none, Option.toList_none, List.append_nil]
  cases advances with
  | @handsOut delivery rest held =>
      refine ⟨fun _ => Progress.noConfusion, fun shard listed => ?_, completing.leaves⟩
      have before := completing.records shard listed
      rw [held] at before
      simpa only [Progress.delivery?, Option.toList_some, List.append_assoc,
        List.singleton_append] using before
  | stays _ _ =>
      rw [silent rfl]
      exact ⟨fun _ => Progress.noConfusion, completing.records, completing.leaves⟩
  | enters _ _ _ _ =>
      rw [silent rfl]
      exact ⟨fun _ => Progress.noConfusion, completing.records, completing.leaves⟩
  | @prepares found after reports _ _ _ fresh describes =>
      rw [silent rfl]
      have untracked := completing.unfolds.fresh fresh
      refine ⟨fun _ => Progress.noConfusion, completing.rests rfl ?_ ?_⟩
      · simp only [enterWith, World.reportAll_service, describes.became]
      · funext id
        simp only [enterWith, Reader.hasEnded_opening completing.regular.indexed untracked]
        rw [Reader.hasEnded, untracked]
        rfl
  | @unprepared _ after reports _ _ _ _ describes _ =>
      rw [silent rfl]
      refine ⟨fun _ => Progress.noConfusion, completing.rests rfl ?_ rfl⟩
      simp only [giveUp, World.reportAll_service, describes.became]
  | @unpreparable failure after reports error _ _ _ _ describes refused =>
      exfalso
      rcases describes.answer completing.benign with told | ⟨_, ⟨_, told⟩ | ⟨_, told⟩⟩
      · cases told
      · cases told
        cases refused
      · cases told
        cases refused
  | drained _ _ _ _ =>
      rw [silent rfl]
      exact ⟨fun _ => Progress.noConfusion, completing.records, completing.leaves⟩
  | visits empty _ _ _ member steps visits =>
      rw [silent rfl]
      exact ⟨fun _ => Progress.noConfusion, completing.visited empty member steps visits⟩
  | @fails tracked rest error after _ _ _ _ member visits =>
      exfalso
      obtain ⟨_, _, _, _, read, _⟩ := completing.furthers member visits
      cases read

/-- A turn leaves the reader completing its stream. -/
theorem advance (completing : session.Completing shards original handed)
    (distinct : (shards.map Shard.id).Nodup) (acyclic : (Lineage.ofShards shards).Acyclic)
    (advanced : session.advance service = (progress, later)) :
    (∀ error, progress ≠ .failed error) ∧ Onward session later ∧
      later.Completing shards original (handed ++ progress.delivery?.toList) := by
  have regular := completing.regular
  have turn : Turn service session _ _ := advance_turn regular.indexed
  have advances := regular.advances
  have regularLater := regular.advance
  rw [advanced] at turn advances regularLater
  obtain ⟨only, keeps⟩ := advances.keeps
  obtain ⟨unfailing, records, leaves⟩ := completing.recorded advances
  have described := advances.described completing.benign completing.described
  have unfolds := turn.unfolds regular.indexed regular.held distinct acyclic completing.oldest
    described completing.unfolds
  exact ⟨unfailing, advances.onward turn regular.indexed, regularLater, unfolds,
    turn.settings regular.indexed ▸ completing.oldest, described, keeps.benign completing.benign,
    records, leaves⟩

/-- A turn that visits an active shard, or the first one of all, does what is left to do. -/
theorem proceeds (completing : session.Completing shards original handed) (due : session.Due)
    (advances : Advances original.Names session progress later) :
    Proceeds shards session later := by
  have indexed := completing.regular.indexed
  obtain ⟨empty, unfinished, due⟩ := due
  cases advances with
  | handsOut held =>
      rw [held] at empty
      cases empty
  | stays _ finished =>
      rw [finished] at unfinished
      cases unfinished
  | enters _ _ unstarted ready =>
      rcases due with ⟨_, fresh⟩ | ⟨started, _⟩
      · rw [ready] at fresh
        cases fresh
      · rw [unstarted] at started
        cases started
  | prepares _ _ _ fresh _ => exact .inr (.inl ⟨fresh, rfl⟩)
  | @unprepared _ after reports _ _ _ _ describes _ =>
      rcases describes.answer completing.benign with told | ⟨less, _⟩
      · cases told
      · rw [← World.reportAll_service after reports] at less
        exact .inl less
  | @unpreparable _ after reports _ _ _ _ _ describes _ =>
      rcases describes.answer completing.benign with told | ⟨less, _⟩
      · cases told
      · rw [← World.reportAll_service after reports] at less
        exact .inl less
  | drained _ _ started visited =>
      rcases due with ⟨unstarted, _⟩ | ⟨_, tracked, rest, queued, _⟩
      · rw [started] at unstarted
        cases unstarted
      · rw [visited] at queued
        cases queued
  | @visits tracked rest outcome after _ _ started queued member steps visits =>
      rcases due with ⟨unstarted, _⟩ | ⟨_, other, others, headed, otherMember, active⟩
      · rw [started] at unstarted
        cases unstarted
      · rw [queued] at headed
        obtain ⟨same, rfl⟩ := List.cons.inj headed
        obtain rfl := indexed.eq_of_id_eq member otherMember same
        exact completing.visit_proceeds member active steps visits
  | fails empty unfinished started queued member visits =>
      exact absurd rfl ((completing.recorded
        (.fails empty unfinished started queued member visits)).1 _)

end Completing

end Session

end ShardedStream
