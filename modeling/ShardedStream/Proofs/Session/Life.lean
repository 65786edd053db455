import ShardedStream.Proofs.Session.Turn

/-!
The life of a reader: turns of passes, closings of passes, and whatever happens around them.
Two histories are kept beside the session, of the shards that have come to be tracked and of the
records that have been handed out.
-/

namespace ShardedStream

/-- A reader in the middle of its life, with what it has opened and handed out so far. -/
structure Life (σ : Type) where
  session : Session σ
  /-- Every shard that has come to be tracked, at the position it was opened at. -/
  opened : List Assignment
  handedOut : List Delivery

/-- This is what can happen next in the life of a reader. -/
inductive Act where
  | turn
  /-- The pass ends wherever it is, and another one opens. -/
  | close
  /-- Time passes, the caller's patience changes, and others use the signal and the monitor. -/
  | surround (clock : Clock) (signal : Signal) (monitor : Monitor)

variable {σ : Type} {service : Service σ}

/-- These are the shards beyond the first ones, at the positions they were opened at. -/
def Reader.openedSince (reader : Reader) (count : Nat) : List Assignment :=
  (reader.shards.drop count).map fun tracked => ⟨tracked.id, tracked.start⟩

theorem Reader.openedSince_self (reader : Reader) :
    reader.openedSince reader.shards.length = [] := by
  rw [openedSince, List.drop_length, List.map_nil]

section Added

variable {reader later : Reader} {move : Tracked → Tracked} {opened added : List Assignment}
  {entry : Assignment} {tracked : Tracked}

/-- New shards are put last, so they are the ones beyond the first ones. -/
theorem Reader.openedSince_append
    (shards : later.shards = reader.shards.map move ++ added.map .ofAssignment) :
    later.openedSince reader.shards.length = added := by
  rw [openedSince, shards, List.drop_left' (List.length_map _), List.map_map]
  exact List.map_id _

theorem Reader.ids_added
    (shards : later.shards = reader.shards.map move ++ added.map .ofAssignment)
    (keeps : ∀ tracked, (move tracked).id = tracked.id) :
    later.ids = reader.ids ++ added.map Assignment.shard := by
  rw [ids, shards, List.map_append, List.map_map, List.map_map]
  exact congrArg₂ _ (List.map_congr_left fun tracked _ => keeps tracked) rfl

/-- A shard that has been opened was tracked before, or it is new and has just been put last. -/
theorem Reader.opened_cases (indexed : later.Indexed)
    (known : opened.map Assignment.shard = reader.ids)
    (shards : later.shards = reader.shards.map move ++ added.map .ofAssignment)
    (keeps : ∀ tracked, (move tracked).id = tracked.id) (chosen : entry ∈ opened ++ added)
    (member : tracked ∈ later.shards) (same : tracked.id = entry.shard) :
    (entry ∈ opened ∧ ∃ was ∈ reader.shards, was.id = entry.shard ∧ tracked = move was) ∨
      (entry ∈ added ∧ entry.shard ∉ reader.ids ∧ tracked = .ofAssignment entry) := by
  obtain ⟨_, _, apart⟩ := List.nodup_append.mp (ids_added shards keeps ▸ indexed.distinct)
  rcases List.mem_append.mp chosen with old | new
  · refine .inl ⟨old, ?_⟩
    rw [shards] at member
    rcases List.mem_append.mp member with kept | other
    · obtain ⟨was, here, rfl⟩ := List.mem_map.mp kept
      exact ⟨was, here, (keeps was).symm.trans same, rfl⟩
    · obtain ⟨assignment, new, rfl⟩ := List.mem_map.mp other
      refine absurd same.symm (apart _ ?_ _ (List.mem_map_of_mem new))
      rw [← known]
      exact List.mem_map_of_mem old
  · have own : Tracked.ofAssignment entry ∈ later.shards := by
      rw [shards]
      exact List.mem_append_right _ (List.mem_map_of_mem new)
    exact .inr ⟨new, fun known => apart _ known _ (List.mem_map_of_mem new) rfl,
      indexed.eq_of_id_eq member own same⟩

end Added

namespace Life

/-- A life begins with a new reader in any world. -/
def begin (settings : ReaderSettings) (world : World σ) : Life σ :=
  ⟨.start (.ofSettings settings) world, [], []⟩

/-- One turn, which may open shards and may hand out a record. -/
def turn (service : Service σ) (life : Life σ) : Life σ :=
  let advanced := life.session.advance service
  ⟨advanced.2,
    life.opened ++ advanced.2.reader.openedSince life.session.reader.shards.length,
    life.handedOut ++ advanced.1.delivery?.toList⟩

/-- The end of one pass and the start of the next. -/
def close (life : Life σ) : Life σ :=
  let closed := life.session.close
  { life with session := .start closed.1 closed.2 }

def surround (life : Life σ) (clock : Clock) (signal : Signal) (monitor : Monitor) : Life σ :=
  { life with session :=
    { life.session with world := { life.session.world with clock, signal, monitor } } }

def perform (service : Service σ) (life : Life σ) : Act → Life σ
  | .turn => life.turn service
  | .close => life.close
  | .surround clock signal monitor => life.surround clock signal monitor

/-- A life goes through any acts in any order. -/
def run (service : Service σ) (acts : List Act) (life : Life σ) : Life σ :=
  acts.foldl (perform service) life

@[simp] theorem run_nil (life : Life σ) : life.run service [] = life := rfl

@[simp] theorem run_cons (act : Act) (acts : List Act) (life : Life σ) :
    life.run service (act :: acts) = (life.perform service act).run service acts := rfl

@[simp] theorem run_append (first second : List Act) (life : Life σ) :
    life.run service (first ++ second) = (life.run service first).run service second :=
  List.foldl_append

/-- What every act preserves holds through a whole life. -/
theorem run_preserves {Keeps : Life σ → Prop}
    (preserves : ∀ life act, Keeps life → Keeps (life.perform service act)) (acts : List Act)
    {life : Life σ} (keeps : Keeps life) : Keeps (life.run service acts) := by
  induction acts generalizing life with
  | nil => exact keeps
  | cons act acts inductionHypothesis => exact inductionHypothesis (preserves life act keeps)

/-- One more turn is one more act. -/
theorem exists_run_advance {life : Life σ} (session : Session σ)
    (lived : ∃ acts, (life.run service acts).session = session) :
    ∃ acts, (life.run service acts).session = (session.advance service).2 := by
  obtain ⟨acts, rfl⟩ := lived
  refine ⟨acts ++ [.turn], ?_⟩
  rw [run_append]
  rfl

/-- Whatever a pass returns next, it has come there by turns. -/
theorem exists_run_next (service : Service σ) (fuel : Nat) (life : Life σ) :
    ∃ acts, (life.run service acts).session = (life.session.next service fuel).2 :=
  Session.next_preserves exists_run_advance fuel ⟨[], rfl⟩

/-- An impatient caller is part of the surroundings. -/
theorem exists_run_nextWithin (service : Service σ) (fuel : Nat) (patience : Option Nat)
    (life : Life σ) :
    ∃ acts, (life.run service acts).session =
      (life.session.nextWithin service fuel patience).2 := by
  obtain ⟨acts, next⟩ := exists_run_next service fuel (life.surround
    (life.session.world.limitTo patience).clock life.session.world.signal
    life.session.world.monitor)
  refine ⟨.surround (life.session.world.limitTo patience).clock life.session.world.signal
    life.session.world.monitor :: (acts ++ [.surround
      ((life.session.nextWithin service fuel patience).2.world).clock
      ((life.session.nextWithin service fuel patience).2.world).signal
      ((life.session.nextWithin service fuel patience).2.world).monitor]), ?_⟩
  rw [run_cons, run_append]
  simp only [perform, run_cons, run_nil, surround] at next ⊢
  rw [next]
  rfl

/-- A whole pass is a run of turns. -/
theorem exists_run_collect (service : Service σ) (fuel count : Nat) (life : Life σ) :
    ∃ acts, (life.run service acts).session = (life.session.collect service fuel count).2 :=
  Session.collect_preserves exists_run_advance fuel count ⟨[], rfl⟩

/-- The histories fit the reader, and the records that wait belong to one shard. -/
structure Sound (life : Life σ) : Prop where
  indexed : life.session.reader.Indexed
  held : life.session.Held
  opened : life.opened.map Assignment.shard = life.session.reader.ids
  known : ∀ delivery ∈ life.handedOut, delivery.shard ∈ life.session.reader.ids

/-- The shards beyond the first ones are the rest of the tracked shards. -/
theorem openedSince_shards {before reader : Reader} (kept : before.ids <+: reader.ids) :
    before.ids ++ (reader.openedSince before.shards.length).map Assignment.shard = reader.ids := by
  have rest : (reader.openedSince before.shards.length).map Assignment.shard =
      reader.ids.drop before.ids.length := by
    rw [Reader.openedSince, List.map_map, Reader.ids, Reader.ids, List.length_map, List.map_drop]
    rfl
  rw [rest]
  exact (List.prefix_iff_eq_append.mp kept)

theorem begin_sound (settings : ReaderSettings) (world : World σ) :
    (begin settings world).Sound where
  indexed := Reader.indexed_ofSettings settings
  held := .inl rfl
  opened := rfl
  known := fun _ member => absurd member List.not_mem_nil

theorem turn_sound {life : Life σ} (sound : life.Sound) : (life.turn service).Sound := by
  have turn : Session.Turn service life.session _ _ := Session.advance_turn sound.indexed
  obtain ⟨indexed, kept⟩ := turn.indexed sound.indexed
  refine ⟨indexed, turn.held sound.indexed sound.held, ?_, fun delivery member => ?_⟩
  · simp only [Life.turn, List.map_append, sound.opened]
    exact openedSince_shards kept
  · rcases List.mem_append.mp member with before | new
    · exact kept.subset (sound.known delivery before)
    · exact kept.subset (turn.delivery?_known sound.held delivery (Option.mem_toList.mp new))

theorem close_sound {life : Life σ} (sound : life.Sound) : life.close.Sound := by
  obtain ⟨indexed, same⟩ := Session.close_indexed sound.indexed
  refine ⟨indexed, .inl rfl, sound.opened.trans same.symm, fun delivery member => ?_⟩
  exact same.symm ▸ sound.known delivery member

/-- At every moment of a life the histories fit the reader. -/
theorem sound_run (acts : List Act) {life : Life σ} (sound : life.Sound) :
    (life.run service acts).Sound :=
  run_preserves (fun life act sound => by
    cases act with
    | turn => exact turn_sound sound
    | close => exact close_sound sound
    | surround clock signal monitor =>
        exact ⟨sound.indexed, sound.held, sound.opened, sound.known⟩) acts sound

/-- Acts only add to what has been described. -/
theorem perform_descriptions (service : Service σ) {life : Life σ} (sound : life.Sound)
    (act : Act) :
    life.session.world.descriptions <+:
      (life.perform service act).session.world.descriptions := by
  cases act with
  | turn => exact (Session.advance_turn sound.indexed).precedes.descriptions
  | close =>
      simp only [perform, close, Session.start, Session.close_world]
      exact List.prefix_refl _
  | surround clock signal monitor => exact List.prefix_refl _

/-- So does a whole run. -/
theorem run_descriptions (service : Service σ) (acts : List Act) {life : Life σ}
    (sound : life.Sound) :
    life.session.world.descriptions <+:
      (life.run service acts).session.world.descriptions := by
  induction acts generalizing life with
  | nil => exact List.prefix_refl _
  | cons act acts inductionHypothesis =>
      exact (perform_descriptions service sound act).trans
        (inductionHypothesis (sound_run [act] sound))

end Life
end ShardedStream
