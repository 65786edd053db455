import ShardedStream.Pass
import ShardedStream.Proofs.Reader.Step

/-!
What one turn of a pass comes to.
A turn hands out the first record that waits, or it moves the reader by one preparation or by one
applied outcome, or it leaves the reader as it is. Nothing is asked while records wait.
-/

namespace ShardedStream

/-- A turn hands out one record or none. -/
def Progress.delivery? : Progress → Option Delivery
  | .delivered delivery => some delivery
  | .ended => none
  | .failed _ => none
  | .unanswered => none
  | .moved => none

namespace Session

variable {σ : Type} {service : Service σ} {session later : Session σ}

/-- The first record that waits is handed out. -/
theorem advance_delivery {delivery : Delivery} {rest : List Delivery}
    (held : session.pass.buffer = delivery :: rest) :
    session.advance service = (.delivered delivery,
      { session with
        reader := session.reader.handOut delivery
        pass := { session.pass with buffer := rest } }) := by
  rw [advance, held]

theorem advance_finished (empty : session.pass.buffer = [])
    (finished : session.pass.finished = true) : session.advance service = (.ended, session) := by
  rw [advance, empty]
  exact if_pos finished

theorem advance_unstarted (empty : session.pass.buffer = [])
    (unfinished : session.pass.finished = false) (unstarted : session.pass.started = false) :
    session.advance service = session.enter service := by
  rw [advance, empty]
  simp only
  rw [if_neg (ne_true_of_eq_false unfinished), unstarted, Bool.not_false, if_pos rfl]

theorem advance_drained (empty : session.pass.buffer = [])
    (unfinished : session.pass.finished = false) (started : session.pass.started = true)
    (visited : session.pass.queue = []) : session.advance service =
      (.ended, { session with pass := { session.pass with finished := true } }) := by
  rw [advance, empty]
  simp only
  rw [if_neg (ne_true_of_eq_false unfinished), started, Bool.not_true,
    if_neg Bool.false_ne_true, visited]

/-- The first shard of the queue is visited. -/
theorem advance_queued (empty : session.pass.buffer = [])
    (unfinished : session.pass.finished = false) (started : session.pass.started = true)
    {shard : ShardId} {queue : List ShardId} (queued : session.pass.queue = shard :: queue) :
    session.advance service =
      visit service { session with pass := { session.pass with queue } } shard := by
  rw [advance, empty]
  simp only
  rw [if_neg (ne_true_of_eq_false unfinished), started, Bool.not_true,
    if_neg Bool.false_ne_true, queued]

/-- A pass that opens hands out nothing. -/
theorem enter_silent (service : Service σ) (session : Session σ) :
    (session.enter service).1.delivery? = none := by
  unfold enter
  dsimp only
  split <;> rfl

/-- Neither does a visit, which only waits for its step. -/
theorem visit_silent (service : Service σ) (session : Session σ) (shard : ShardId) :
    (session.visit service shard).1.delivery? = none := by
  unfold visit
  split <;> rfl

/-- A visit does not open the pass once more. -/
theorem visit_started (service : Service σ) (session : Session σ) (shard : ShardId) :
    (session.visit service shard).2.pass.started = session.pass.started := by
  unfold visit
  split <;> rfl

/--
A turn has gone through a dialogue with the service: it adds nothing to what the dialogue leaves
behind but reports, and it comes to nothing only if the dialogue does.
-/
structure Conversed {α : Type} (conversed : Option α × World σ) (turned : Progress × Session σ) :
    Prop where
  unanswered : turned.1 = .unanswered → conversed.1 = none
  clock : turned.2.world.clock = conversed.2.clock
  service : turned.2.world.service = conversed.2.service
  exchanges : turned.2.world.exchanges = conversed.2.exchanges

/-- A pass opens with the dialogue that prepares its reader. -/
theorem enter_conversed (service : Service σ) (session : Session σ) :
    Conversed (session.world.converse service session.plan session.reader.prepare)
      (session.enter service) := by
  unfold enter
  simp only [plan]
  generalize session.world.converse service session.reader.settings.retry.plan
    session.reader.prepare = conversed
  obtain ⟨answer, after⟩ := conversed
  rcases answer with _ | error | _ | reader
  · exact ⟨fun _ => rfl, rfl, rfl, rfl⟩
  · exact ⟨nofun, rfl, rfl, rfl⟩
  · exact ⟨nofun, rfl, rfl, rfl⟩
  · exact ⟨nofun, rfl, rfl, rfl⟩

/-- A visit is the dialogue of the step for its shard. -/
theorem visit_conversed (service : Service σ) (session : Session σ) (shard : ShardId) :
    Conversed (session.world.converse service session.plan (session.reader.step shard))
      (session.visit service shard) := by
  unfold visit
  generalize session.world.converse service session.plan (session.reader.step shard) = conversed
  obtain ⟨answer, after⟩ := conversed
  rcases answer with _ | error | outcome
  · exact ⟨fun _ => rfl, rfl, rfl, rfl⟩
  · exact ⟨nofun, rfl, rfl, rfl⟩
  · exact ⟨nofun, World.reportAll_clock after _, World.reportAll_service after _,
      World.reportAll_exchanges after _⟩

/-- Every turn is a dialogue, even if it is one without a question. -/
theorem advance_conversed (service : Service σ) (session : Session σ) :
    ∃ (α : Type) (dialogue : Dialogue α),
      Conversed (session.world.converse service session.plan dialogue)
        (session.advance service) := by
  unfold advance
  split
  · exact ⟨Unit, .done (), nofun, rfl, rfl, rfl⟩
  · split
    · exact ⟨Unit, .done (), nofun, rfl, rfl, rfl⟩
    · split
      · exact ⟨_, _, enter_conversed service session⟩
      · split
        · exact ⟨Unit, .done (), nofun, rfl, rfl, rfl⟩
        · rename_i queue _
          exact ⟨_, _, visit_conversed service
            { session with pass := { session.pass with queue } } _⟩

/-- This is what one turn comes to. -/
inductive Turn (service : Service σ) (session : Session σ) : Progress → Session σ → Prop where
  | handsOut {delivery : Delivery} {rest : List Delivery}
      (held : session.pass.buffer = delivery :: rest) :
      Turn service session (.delivered delivery)
        { session with
          reader := session.reader.handOut delivery
          pass := { session.pass with buffer := rest } }
  | stays {progress : Progress} {later : Session σ} (empty : session.pass.buffer = [])
      (silent : progress.delivery? = none) (reader : later.reader = session.reader)
      (buffer : later.pass.buffer = [])
      (precedes : session.world.Precedes service later.world) :
      Turn service session progress later
  | prepares {reader : Reader} {later : Session σ} (empty : session.pass.buffer = [])
      (prepares : session.reader.Prepares service session.world (some reader) later.world)
      (became : later.reader = reader) (buffer : later.pass.buffer = []) :
      Turn service session .moved later
  | visits {tracked : Tracked} {outcome : Outcome} {between : World σ} {later : Session σ}
      (empty : session.pass.buffer = []) (member : tracked ∈ session.reader.shards)
      (steps : session.reader.Steps service tracked session.world outcome between)
      (became : later.reader = (session.reader.apply outcome).2)
      (buffer : later.pass.buffer = outcome.records.map (Delivery.mk tracked.id))
      (served : later.world.service = between.service)
      (described : later.world.descriptions = between.descriptions) :
      Turn service session .moved later

/-- A pass that opens prepares its reader or leaves it as it is. -/
theorem enter_turn (empty : session.pass.buffer = []) :
    Turn service session (session.enter service).1 (session.enter service).2 := by
  have moved := session.world.converse_precedes service session.plan session.reader.prepare
  unfold enter
  simp only [plan] at moved ⊢
  generalize asked : session.world.converse service session.reader.settings.retry.plan
    session.reader.prepare = conversed at moved ⊢
  obtain ⟨answer, world⟩ := conversed
  rcases answer with _ | error | _ | reader
  · exact .stays empty rfl rfl empty moved
  · exact .stays empty rfl rfl empty ⟨moved.leads, moved.descriptions⟩
  · exact .stays empty rfl rfl empty moved
  · exact .prepares empty (Reader.prepare_prepares asked) rfl empty

/-- A visit applies the outcome of a step or leaves the reader as it is. -/
theorem visit_turn (indexed : session.reader.Indexed) (empty : session.pass.buffer = [])
    (queue : List ShardId) (shard : ShardId) :
    Turn service session
      (visit service { session with pass := { session.pass with queue } } shard).1
      (visit service { session with pass := { session.pass with queue } } shard).2 := by
  have moved := session.world.converse_precedes service session.plan (session.reader.step shard)
  unfold visit
  simp only [plan] at moved ⊢
  generalize asked : session.world.converse service session.reader.settings.retry.plan
    (session.reader.step shard) = conversed at moved ⊢
  obtain ⟨answer, world⟩ := conversed
  rcases answer with _ | error | outcome
  · exact .stays empty rfl rfl empty moved
  · exact .stays empty rfl rfl empty ⟨moved.leads, moved.descriptions⟩
  · obtain ⟨tracked, member, rfl, steps⟩ := Reader.step_steps indexed asked
    refine .visits empty member steps rfl ?_ ?_ ?_
    · simp only [absorb, empty, List.nil_append]
      exact Reader.deliveries_apply indexed member steps.shard
    · exact World.reportAll_service _ _
    · exact World.reportAll_descriptions _ _

/-- Every turn is one of these. -/
theorem advance_turn (indexed : session.reader.Indexed) :
    Turn service session (session.advance service).1 (session.advance service).2 := by
  unfold advance
  split
  · rename_i delivery rest held
    exact .handsOut held
  · rename_i empty
    split
    · exact .stays empty rfl rfl empty (.refl _)
    · split
      · exact enter_turn empty
      · split
        · exact .stays empty rfl rfl empty (.refl _)
        · exact visit_turn indexed empty _ _

/-- The records that wait are those of one shard that has been read from. -/
def Held (session : Session σ) : Prop :=
  session.pass.buffer = [] ∨ ∃ tracked ∈ session.reader.shards, tracked.phase.HasRead ∧
    ∀ delivery ∈ session.pass.buffer, delivery.shard = tracked.id

theorem held_of_empty (empty : session.pass.buffer = []) : session.Held := .inl empty

/-- Whatever waits has an owner, which owns everything else that waits. -/
theorem Held.owner (held : session.Held) {delivery : Delivery}
    (waits : delivery ∈ session.pass.buffer) :
    ∃ tracked ∈ session.reader.shards, tracked.phase.HasRead ∧
      ∀ other ∈ session.pass.buffer, other.shard = tracked.id := by
  rcases held with empty | owned
  · rw [empty] at waits
    exact absurd waits List.not_mem_nil
  · exact owned

namespace Turn

variable {progress : Progress}

/-- A turn changes the reader in one way at most. -/
theorem change (turn : Turn service session progress later) :
    later.reader = session.reader ∨ Reader.Change session.reader later.reader := by
  cases turn with
  | handsOut held => exact .inr (.handedOut _ _)
  | stays _ _ reader _ _ => exact .inl reader
  | prepares _ prepares became _ =>
      rw [became]
      exact prepares.change
  | visits _ _ _ became _ _ _ => exact .inr (became ▸ .applied _ _)

/-- A turn keeps the index right, and tracked shards where they are. -/
theorem indexed (turn : Turn service session progress later)
    (indexed : session.reader.Indexed) :
    later.reader.Indexed ∧ session.reader.ids <+: later.reader.ids := by
  rcases turn.change with same | change
  · rw [same]
    exact ⟨indexed, List.prefix_refl _⟩
  · exact change.indexed indexed

theorem settings (turn : Turn service session progress later)
    (indexed : session.reader.Indexed) : later.reader.settings = session.reader.settings := by
  rcases turn.change with same | change
  · rw [same]
  · exact change.settings indexed

/-- A turn moves the world on. -/
theorem precedes (turn : Turn service session progress later) :
    session.world.Precedes service later.world := by
  cases turn with
  | handsOut held => exact .refl _
  | stays _ _ _ _ precedes => exact precedes
  | prepares _ prepares _ _ => exact prepares.precedes
  | visits _ _ steps _ _ served described => exact steps.precedes.reported served described

/-- Records that wait keep waiting for one shard. -/
theorem held (turn : Turn service session progress later) (indexed : session.reader.Indexed)
    (held : session.Held) : later.Held := by
  cases turn with
  | @handsOut delivery rest waiting =>
      obtain ⟨tracked, member, read, own⟩ := held.owner (waiting ▸ List.mem_cons_self)
      exact .inr ⟨tracked, member, read, fun other here =>
        own other (waiting ▸ List.mem_cons_of_mem _ here)⟩
  | stays _ _ _ buffer _ => exact held_of_empty buffer
  | prepares _ _ _ buffer => exact held_of_empty buffer
  | @visits tracked outcome between later _ member steps became buffer _ _ =>
      rcases steps.hasRead with none | read
      · rw [none] at buffer
        exact held_of_empty buffer
      · have follows := Reader.follows_apply indexed member steps.shard
        have kept := follows.keeps member
        rw [if_pos rfl, ← became] at kept
        refine .inr ⟨_, kept, read _, fun delivery here => ?_⟩
        rw [buffer] at here
        obtain ⟨record, _, rfl⟩ := List.mem_map.mp here
        rfl

/-- Only a shard that has been read from has a record handed out. -/
theorem delivery?_hasRead (turn : Turn service session progress later) (held : session.Held) :
    ∀ delivery, progress.delivery? = some delivery →
      ∃ tracked ∈ session.reader.shards, tracked.phase.HasRead ∧ delivery.shard = tracked.id := by
  intro delivery handed
  cases turn with
  | handsOut waiting =>
      cases handed
      have waits : delivery ∈ session.pass.buffer := waiting ▸ List.mem_cons_self
      obtain ⟨tracked, member, read, own⟩ := held.owner waits
      exact ⟨tracked, member, read, own delivery waits⟩
  | stays _ silent _ _ _ =>
      rw [silent] at handed
      cases handed
  | prepares _ _ _ _ => cases handed
  | visits _ _ _ _ _ _ _ => cases handed

/-- Only a shard that is tracked has a record handed out. -/
theorem delivery?_known (turn : Turn service session progress later) (held : session.Held) :
    ∀ delivery, progress.delivery? = some delivery → delivery.shard ∈ session.reader.ids := by
  intro delivery handed
  obtain ⟨tracked, member, _, own⟩ := turn.delivery?_hasRead held delivery handed
  exact own ▸ List.mem_map_of_mem member

/-- Nothing is asked while a record is handed out. -/
theorem world_of_delivery (turn : Turn service session progress later) {delivery : Delivery}
    (handed : progress.delivery? = some delivery) : later.world = session.world := by
  cases turn with
  | handsOut waiting => rfl
  | stays _ silent _ _ _ =>
      rw [silent] at handed
      cases handed
  | prepares _ _ _ _ => cases handed
  | visits _ _ _ _ _ _ _ => cases handed

end Turn

/-- Closing a pass changes the reader in one way at most. -/
theorem close_change (session : Session σ) :
    session.close.1 = session.reader ∨ Reader.Change session.reader session.close.1 := by
  unfold close
  split
  · exact .inr (.restarted _ _ _)
  · exact .inl rfl

/-- Closing a pass tracks no other shards. -/
theorem close_indexed (indexed : session.reader.Indexed) :
    session.close.1.Indexed ∧ session.close.1.ids = session.reader.ids := by
  unfold close
  split
  · exact ⟨indexed.modifyTracked _ fun _ => rfl, indexed.ids_modifyTracked _ fun _ => rfl⟩
  · exact ⟨indexed, rfl⟩

/-- Closing a pass restarts at most a shard that is not done. -/
theorem close_rests (indexed : session.reader.Indexed) (held : session.Held) :
    Reader.Rests session.reader session.close.1 := by
  unfold close
  cases buffer : session.pass.buffer with
  | nil => exact .refl _
  | cons delivery rest =>
      have waits : delivery ∈ session.pass.buffer := buffer ▸ List.mem_cons_self
      obtain ⟨tracked, member, read, own⟩ := held.owner waits
      have rests := Reader.restartAt_rests indexed member read.ne_done
        (.atSequence delivery.record.sequence)
      rw [← own delivery waits] at rests
      exact rests

theorem close_world (session : Session σ) : session.close.2 = session.world := by
  unfold close
  split <;> rfl

/-- What every turn keeps is kept until the next record. -/
theorem next_preserves {Keeps : Session σ → Prop}
    (preserves : ∀ session, Keeps session → Keeps (session.advance service).2) (fuel : Nat)
    {session : Session σ} (keeps : Keeps session) : Keeps (session.next service fuel).2 := by
  induction fuel generalizing session with
  | zero => exact keeps
  | succ fuel inductionHypothesis =>
      have turned := preserves session keeps
      unfold next
      generalize session.advance service = advanced at turned
      obtain ⟨progress, later⟩ := advanced
      cases progress with
      | moved => exact inductionHypothesis turned
      | _ => exact turned

/-- So it is kept through a whole pass. -/
theorem collect_preserves {Keeps : Session σ → Prop}
    (preserves : ∀ session, Keeps session → Keeps (session.advance service).2) (fuel count : Nat)
    {session : Session σ} (keeps : Keeps session) :
    Keeps (session.collect service fuel count).2 := by
  induction count generalizing session with
  | zero => exact keeps
  | succ count inductionHypothesis =>
      have answered := next_preserves preserves fuel keeps
      unfold collect
      generalize session.next service fuel = asked at answered
      obtain ⟨answer, later⟩ := asked
      rcases answer with _ | error | _ | delivery
      · exact answered
      · exact answered
      · exact answered
      · exact inductionHypothesis answered

end Session
end ShardedStream
