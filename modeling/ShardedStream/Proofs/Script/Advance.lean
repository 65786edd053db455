import ShardedStream.Proofs.Script.Visits
import ShardedStream.Proofs.Session.Queue

/-!
Turns over a scripted service.
For a patient caller whose tracked shards read from tokens of their own, every turn comes to
something, and it leaves the caller patient and the tokens with their shards.
-/

namespace ShardedStream

open Script

variable {names : ShardId → Token → Prop}

namespace Session

/-- The session in which a shard has been taken off the queue. -/
def dequeue (session : Session Script) (rest : List ShardId) (world : World Script) :
    Session Script :=
  { session with pass := { session.pass with queue := rest }, world }

/-- The session whose pass has been started. -/
def enterWith (session : Session Script) (reader : Reader) (world : World Script) :
    Session Script :=
  ⟨reader, { session.pass with started := true, queue := reader.activeShards }, world⟩

/-- The session whose pass is over before it has visited a shard. -/
def giveUp (session : Session Script) (world : World Script) : Session Script :=
  { session with pass := { session.pass with started := true, finished := true }, world }

/-- This is what a turn over a scripted service comes to. -/
inductive Advances (names : ShardId → Token → Prop) (session : Session Script) :
    Progress → Session Script → Prop where
  | handsOut {delivery : Delivery} {rest : List Delivery}
      (held : session.pass.buffer = delivery :: rest) :
      Advances names session (.delivered delivery)
        { session with
          reader := session.reader.handOut delivery
          pass := { session.pass with buffer := rest } }
  | stays (empty : session.pass.buffer = []) (finished : session.pass.finished = true) :
      Advances names session .ended session
  | enters (empty : session.pass.buffer = []) (unfinished : session.pass.finished = false)
      (unstarted : session.pass.started = false) (ready : session.reader.initialized = true) :
      Advances names session .moved (session.enterWith session.reader session.world)
  | prepares {shards : List Shard} {later : World Script} {reports : List Report}
      (empty : session.pass.buffer = []) (unfinished : session.pass.finished = false)
      (unstarted : session.pass.started = false) (fresh : session.reader.initialized = false)
      (describes : Describes (session.plan session.world.calls.length)
        session.reader.settings.stream session.world (.ok shards) later) :
      Advances names session .moved
        (session.enterWith (session.reader.opening shards) (later.reportAll reports))
  | unprepared {failure : RetryFailure} {later : World Script} {reports : List Report}
      (empty : session.pass.buffer = []) (unfinished : session.pass.finished = false)
      (unstarted : session.pass.started = false) (fresh : session.reader.initialized = false)
      (describes : Describes (session.plan session.world.calls.length)
        session.reader.settings.stream session.world (.error failure) later)
      (unknown : prepareResult session.reader (.error failure) = .ok none) :
      Advances names session .moved (session.giveUp (later.reportAll reports))
  | unpreparable {failure : RetryFailure} {later : World Script} {reports : List Report}
      {error : ReaderError} (empty : session.pass.buffer = [])
      (unfinished : session.pass.finished = false) (unstarted : session.pass.started = false)
      (fresh : session.reader.initialized = false)
      (describes : Describes (session.plan session.world.calls.length)
        session.reader.settings.stream session.world (.error failure) later)
      (refused : prepareResult session.reader (.error failure) = .error error) :
      Advances names session (.failed error)
        (session.giveUp ((later.reportAll reports).notify [.passAborted error]))
  | drained (empty : session.pass.buffer = []) (unfinished : session.pass.finished = false)
      (started : session.pass.started = true) (visited : session.pass.queue = []) :
      Advances names session .ended
        { session with pass := { session.pass with finished := true } }
  | visits {tracked : Tracked} {rest : List ShardId} {outcome : Outcome} {later : World Script}
      (empty : session.pass.buffer = []) (unfinished : session.pass.finished = false)
      (started : session.pass.started = true) (queued : session.pass.queue = tracked.id :: rest)
      (member : tracked ∈ session.reader.shards)
      (steps : session.reader.Steps service tracked session.world outcome later)
      (visits : Visits names session.reader tracked session.world (.ok outcome) later) :
      Advances names session .moved ((session.dequeue rest later).absorb tracked.id outcome)
  | fails {tracked : Tracked} {rest : List ShardId} {error : ReaderError} {later : World Script}
      (empty : session.pass.buffer = []) (unfinished : session.pass.finished = false)
      (started : session.pass.started = true) (queued : session.pass.queue = tracked.id :: rest)
      (member : tracked ∈ session.reader.shards)
      (visits : Visits names session.reader tracked session.world (.error error) later) :
      Advances names session (.failed error) ((session.dequeue rest later).fail error).2

/-- The caller is patient, and the tracked shards read from tokens of their own. -/
structure Regular (names : ShardId → Token → Prop) (session : Session Script) : Prop where
  indexed : session.reader.Indexed
  held : session.Held
  queued : ∀ id ∈ session.pass.queue, id ∈ session.reader.ids
  patient : session.world.Patient
  named : Named names session.world.service
  owns : ∀ tracked ∈ session.reader.shards, tracked.Owns names session.world.service

variable {session later : Session Script} {progress : Progress}

/-- A new pass has nothing queued and nothing to hand out. -/
theorem Regular.restart (regular : session.Regular names) :
    (Session.start session.reader session.world).Regular names :=
  ⟨regular.indexed, held_of_empty rfl, fun _ member => absurd member List.not_mem_nil,
    regular.patient, regular.named, regular.owns⟩

/-- Before the first pass it is enough that the tokens of the script are told apart. -/
theorem regular_start (settings : ReaderSettings) {script : Script} (named : Named names script)
    (monitor : Monitor) :
    (Session.start (.ofSettings settings) (.start script monitor)).Regular names :=
  ⟨Reader.indexed_ofSettings settings, held_of_empty rfl,
    fun _ member => absurd member List.not_mem_nil, World.start_patient script monitor, named,
    fun _ member => absurd member List.not_mem_nil⟩

/-- A pass that opens describes the stream, unless the reader knows it already. -/
theorem enter_advances (regular : session.Regular names) (empty : session.pass.buffer = [])
    (unfinished : session.pass.finished = false) (unstarted : session.pass.started = false) :
    Advances names session (session.enter service).1 (session.enter service).2 := by
  cases ready : session.reader.initialized with
  | true =>
      rw [enter, Reader.converse_prepared ready]
      exact .enters empty unfinished unstarted ready
  | false =>
      obtain ⟨answer, later, settled, describes⟩ := settle_describes session.plan
        session.reader.settings.stream regular.patient
      have prepared := Reader.converse_prepare ready settled
      simp only [enter, plan] at prepared ⊢
      rw [prepared]
      cases answer with
      | ok shards => exact .prepares empty unfinished unstarted ready describes
      | error failure =>
          cases result : prepareResult session.reader (.error failure) with
          | error error => exact .unpreparable empty unfinished unstarted ready describes result
          | ok prepared =>
              cases prepared with
              | none => exact .unprepared empty unfinished unstarted ready describes result
              | some reader =>
                  exfalso
                  rcases failure with _ | _ | fault
                  · cases result
                  · cases result
                  · cases fault <;> cases result

/-- What a visit to the first shard of the queue makes of the session. -/
def visited (session : Session Script) (shard : ShardId) (rest : List ShardId)
    (world : World Script) : Except ReaderError Outcome → Progress × Session Script
  | .ok outcome => (.moved, (session.dequeue rest world).absorb shard outcome)
  | .error error => (session.dequeue rest world).fail error

/-- A turn with shards to visit visits the first one. -/
theorem Regular.advance_visit (regular : session.Regular names)
    (empty : session.pass.buffer = []) (unfinished : session.pass.finished = false)
    (started : session.pass.started = true) {shard : ShardId} {rest : List ShardId}
    (queued : session.pass.queue = shard :: rest) :
    ∃ tracked ∈ session.reader.shards, tracked.id = shard ∧ ∃ result later,
      Visits names session.reader tracked session.world result later ∧
        (∀ outcome, result = .ok outcome →
          session.reader.Steps service tracked session.world outcome later) ∧
        session.advance service = session.visited shard rest later result := by
  obtain ⟨tracked, member, rfl⟩ :=
    Reader.mem_ids.mp (regular.queued shard (queued ▸ List.mem_cons_self))
  obtain ⟨result, later, conversed, visits⟩ := step_visits regular.indexed regular.named
    regular.patient member (regular.owns tracked member)
  refine ⟨tracked, member, rfl, result, later, visits, ?_, ?_⟩
  · rintro outcome rfl
    obtain ⟨same, found, equal, steps⟩ := Reader.step_steps regular.indexed conversed
    rwa [regular.indexed.eq_of_id_eq found member equal] at steps
  · rw [advance_queued empty unfinished started queued, visit]
    simp only [plan]
    rw [conversed]
    cases result <;> rfl

/-- Every turn of a regular session is one of these. -/
theorem Regular.advances (regular : session.Regular names) :
    Advances names session (session.advance service).1 (session.advance service).2 := by
  cases buffer : session.pass.buffer with
  | cons delivery rest =>
      rw [advance_delivery buffer]
      exact .handsOut buffer
  | nil =>
      cases finished : session.pass.finished with
      | true =>
          rw [advance_finished buffer finished]
          exact .stays buffer finished
      | false =>
          cases started : session.pass.started with
          | false =>
              rw [advance_unstarted buffer finished started]
              exact enter_advances regular buffer finished started
          | true =>
              cases queue : session.pass.queue with
              | nil =>
                  rw [advance_drained buffer finished started queue]
                  exact .drained buffer finished started queue
              | cons shard rest =>
                  obtain ⟨tracked, member, rfl, result, later, visits, steps, advanced⟩ :=
                    regular.advance_visit buffer finished started queue
                  rw [advanced]
                  cases result with
                  | error error => exact .fails buffer finished started queue member visits
                  | ok outcome =>
                      exact .visits buffer finished started queue member (steps outcome rfl) visits

/-- A turn uses up descriptions and the script of one shard. -/
theorem Advances.keeps (advances : Advances names session progress later) :
    ∃ only, Keeps names only session.world.service later.world.service := by
  cases advances with
  | handsOut _ => exact ⟨"", .refl _ _ _⟩
  | stays _ _ => exact ⟨"", .refl _ _ _⟩
  | enters _ _ _ _ => exact ⟨"", .refl _ _ _⟩
  | @prepares _ after reports _ _ _ _ describes =>
      have keeps := describes.keeps names ""
      rw [← World.reportAll_service after reports] at keeps
      exact ⟨"", keeps⟩
  | @unprepared _ after reports _ _ _ _ describes _ =>
      have keeps := describes.keeps names ""
      rw [← World.reportAll_service after reports] at keeps
      exact ⟨"", keeps⟩
  | @unpreparable _ after reports _ _ _ _ _ describes _ =>
      have keeps := describes.keeps names ""
      rw [← World.reportAll_service after reports] at keeps
      exact ⟨"", keeps⟩
  | drained _ _ _ _ => exact ⟨"", .refl _ _ _⟩
  | @visits tracked _ outcome after _ _ _ _ _ _ visits =>
      have keeps := visits.keeps
      rw [← World.reportAll_service after] at keeps
      exact ⟨tracked.id, keeps⟩
  | @fails tracked _ _ _ _ _ _ _ _ visits => exact ⟨tracked.id, visits.keeps⟩

end Session

/-- A token stays with its shard whatever else is called. -/
theorem Tracked.Owns.keep {tracked : Tracked} {only : ShardId} {before after : Script}
    (owns : tracked.Owns names before) (keeps : Keeps names only before after)
    (named : Named names before) : tracked.Owns names after := by
  intro token reading
  obtain ⟨own, owned⟩ := owns token reading
  exact ⟨own, keeps.owned named own owned⟩

/-- A shard that has just come to be tracked has no token yet. -/
theorem Tracked.owns_ofAssignment (entry : Assignment) (script : Script) :
    (Tracked.ofAssignment entry).Owns names script :=
  fun _ reading => by cases reading

namespace Session

variable {session later : Session Script} {progress : Progress}

/-- The shards that a visit tracks read from tokens of their own. -/
theorem owns_visited {reader : Reader} {world after : World Script} {tracked : Tracked}
    {outcome : Outcome} (indexed : reader.Indexed) (named : Named names world.service)
    (owns : ∀ tracked ∈ reader.shards, tracked.Owns names world.service)
    (member : tracked ∈ reader.shards)
    (steps : reader.Steps service tracked world outcome after)
    (visits : Visits names reader tracked world (.ok outcome) after) :
    ∀ other ∈ (reader.apply outcome).2.shards, other.Owns names after.service := by
  intro other here
  have kept := fun old oldMember => (owns old oldMember).keep visits.keeps named
  rcases (Reader.follows_apply indexed member steps.shard).mem here with
    ⟨old, oldMember, rfl⟩ | ⟨entry, _, _, rfl⟩
  · split
    · rename_i own
      rw [indexed.eq_of_id_eq oldMember member own]
      cases entered : outcome.transition.phase? (tracked.resume reader.checkpoint) with
      | none => exact kept tracked member
      | some phase =>
          intro token reading
          exact visits.reading (entered.trans (congrArg some reading))
    · exact kept old oldMember
  · exact Tracked.owns_ofAssignment entry after.service

/-- Descriptions leave the tokens with their shards, and a shard that is opened has none yet. -/
theorem owns_opening {reader : Reader} {world after : World Script} (indexed : reader.Indexed)
    (named : Named names world.service)
    (owns : ∀ tracked ∈ reader.shards, tracked.Owns names world.service)
    (keeps : Keeps names "" world.service after.service) (shards : List Shard) :
    ∀ tracked ∈ (reader.opening shards).shards, tracked.Owns names after.service := by
  intro tracked member
  have tracks := indexed.track
    (Assignments.atStart (.ofShards shards) reader.checkpoint reader.settings.policy)
  rw [Reader.opening, tracks.shards] at member
  rcases List.mem_append.mp member with before | new
  · exact (owns tracked before).keep keeps named
  · obtain ⟨entry, _, rfl⟩ := List.mem_map.mp new
    exact Tracked.owns_ofAssignment entry after.service

/-- A turn leaves a regular session regular. -/
theorem Regular.advance (regular : session.Regular names) :
    (session.advance service).2.Regular names := by
  have turn : Turn service session _ _ := advance_turn regular.indexed
  have indexed := (turn.indexed regular.indexed).1
  have held := turn.held regular.indexed regular.held
  have advances := regular.advances
  generalize (session.advance service).2 = later at advances indexed held
  generalize (session.advance service).1 = progress at advances
  cases advances with
  | handsOut _ =>
      exact ⟨indexed, held, regular.queued, regular.patient, regular.named, regular.owns⟩
  | stays _ _ => exact regular
  | enters _ _ _ _ =>
      exact ⟨indexed, held, fun _ => mem_ids_of_active, regular.patient, regular.named,
        regular.owns⟩
  | @prepares shards after reports _ _ _ _ describes =>
      have keeps := describes.keeps names ""
      rw [← World.reportAll_service after reports] at keeps
      exact ⟨indexed, held, fun _ => mem_ids_of_active, describes.asked.patient.reportAll _,
        keeps.named regular.named,
        owns_opening regular.indexed regular.named regular.owns keeps shards⟩
  | @unprepared _ after reports _ _ _ _ describes _ =>
      have keeps := describes.keeps names ""
      rw [← World.reportAll_service after reports] at keeps
      exact ⟨indexed, held, regular.queued, describes.asked.patient.reportAll _,
        keeps.named regular.named,
        fun tracked member => (regular.owns tracked member).keep keeps regular.named⟩
  | @unpreparable _ after reports _ _ _ _ _ describes _ =>
      have keeps := describes.keeps names ""
      rw [← World.reportAll_service after reports] at keeps
      have patient := describes.asked.patient.reportAll reports
      exact ⟨indexed, held, regular.queued, ⟨patient.limit, patient.silent⟩,
        keeps.named regular.named,
        fun tracked member => (regular.owns tracked member).keep keeps regular.named⟩
  | drained _ _ _ _ =>
      exact ⟨indexed, held, regular.queued, regular.patient, regular.named, regular.owns⟩
  | @visits tracked rest outcome after empty _ _ queued member steps visits =>
      have patient := visits.patient regular.patient
      refine ⟨indexed, held, ?_, patient.reportAll _, ?_, ?_⟩
      · have others : (session.dequeue rest after).Queued := fun id here =>
          regular.queued id (queued ▸ List.mem_cons_of_mem _ here)
        exact others.absorb regular.indexed member steps.shard
      · simp only [absorb, World.reportAll_service]
        exact visits.keeps.named regular.named
      · simp only [absorb, World.reportAll_service]
        exact owns_visited regular.indexed regular.named regular.owns member steps visits
  | @fails tracked rest error after empty _ _ queued member visits =>
      have patient := visits.patient regular.patient
      exact ⟨indexed, held,
        fun id here => regular.queued id (queued ▸ List.mem_cons_of_mem _ here),
        ⟨patient.limit, patient.silent⟩, visits.keeps.named regular.named,
        fun other here => (regular.owns other here).keep visits.keeps regular.named⟩

end Session
end ShardedStream
