import ShardedStream.Proofs.Script.Delivery
import ShardedStream.Proofs.Session.Stop

/-!
Rehearsals.
A reader is tried on a scripted service: it makes passes, its caller makes steps and applies what
they come to, and others use the service in between. All uses of the service are put down in order,
and those of the reader with the shard that it visits. What every move preserves is that each token
in the hands of the reader, and each one that it has read from, was handed over for its shard.
-/

namespace ShardedStream

open Script (Use Queue Granted Clean usesOf service)

/-- A use of the service, by others or by the reader; the reader visits a shard or opens a pass. -/
inductive Entry where
  | others (use : Use)
  | reader (visiting : Option ShardId) (request : Request) (time : Nat)

def Entry.use : Entry → Use
  | .others use => use
  | .reader _ request time => .call request time

/-- The calls of the reader are those that its world puts on record. -/
def Entry.call? : Entry → Option (Nat × Request)
  | .others _ => none
  | .reader _ request time => some (time, request)

/-- This is what can happen next in a rehearsal. -/
inductive Move where
  | act (act : Act)
  | step (shard : ShardId)
  /-- An outcome of an earlier step is applied, now or once more. -/
  | apply (number : Nat)
  | prune (shard : ShardId)
  | others (use : Use)

/-- This is what a step has come to, if it has not failed. -/
def outcome? : Option (Except ReaderError Outcome) → Option Outcome
  | some (.ok outcome) => some outcome
  | some (.error _) => none
  | none => none

theorem outcome?_eq_some {result : Option (Except ReaderError Outcome)} {outcome : Outcome}
    (came : outcome? result = some outcome) : result = some (.ok outcome) := by
  rcases result with _ | error | other
  · cases came
  · cases came
  · cases came
    rfl

/-- A reader that is tried on a scripted service. -/
structure Rehearsal where
  session : Session Script
  /-- Every outcome that a step of the caller has come to. -/
  outcomes : List Outcome
  history : List Entry

namespace Rehearsal

/-- A rehearsal begins with a new reader and a service with nothing scripted. -/
def start (settings : ReaderSettings) (monitor : Monitor) (shards : List Shard) : Rehearsal :=
  ⟨.start (.ofSettings settings) (.start (.describing shards) monitor), [], []⟩

/-- The reader goes on, and its new calls are put down. -/
def goOn (rehearsal : Rehearsal) (visiting : Option ShardId) (later : Session Script) :
    Rehearsal :=
  { rehearsal with
    session := later
    history := rehearsal.history ++
      (later.world.calls.drop rehearsal.session.world.calls.length).map fun call =>
        .reader visiting call.2 call.1 }

def perform (rehearsal : Rehearsal) : Move → Rehearsal
  | .act .turn =>
    rehearsal.goOn ((rehearsal.session.visit? service).map Visit.shard)
      (rehearsal.session.advance service).2
  | .act .close =>
    { rehearsal with session := .start rehearsal.session.close.1 rehearsal.session.close.2 }
  | .act (.surround clock signal monitor) =>
    { rehearsal with session :=
      { rehearsal.session with
        world := { rehearsal.session.world with clock, signal, monitor } } }
  | .step shard =>
    let stepped := rehearsal.session.reader.stepIn service shard rehearsal.session.world
    { rehearsal.goOn (some shard) { rehearsal.session with world := stepped.2 } with
      outcomes := rehearsal.outcomes ++ (outcome? stepped.1).toList }
  | .apply number =>
    match rehearsal.outcomes[number]? with
    | some outcome =>
      let applied := rehearsal.session.reader.applyIn outcome rehearsal.session.world
      { rehearsal with session :=
        { rehearsal.session with reader := applied.2.1, world := applied.2.2 } }
    | none => rehearsal
  | .prune shard =>
    { rehearsal with session :=
      { rehearsal.session with reader := (rehearsal.session.reader.prune shard).2 } }
  | .others use =>
    { rehearsal with
      session :=
        { rehearsal.session with
          world :=
            { rehearsal.session.world with service := rehearsal.session.world.service.use use } }
      history := rehearsal.history ++ [.others use] }

/-- A rehearsal goes through any moves in any order. -/
def run (rehearsal : Rehearsal) (moves : List Move) : Rehearsal := moves.foldl perform rehearsal

/-- All uses of the service, in order. -/
def uses (rehearsal : Rehearsal) : List Use := rehearsal.history.map Entry.use

/-- What happens in the life of a reader may happen in a rehearsal. -/
theorem run_acts (acts : List Act) (life : Life Script) (outcomes : List Outcome)
    (history : List Entry) :
    ((Rehearsal.mk life.session outcomes history).run (acts.map .act)).session =
      (life.run service acts).session := by
  induction acts generalizing life history with
  | nil => rfl
  | cons act acts inductionHypothesis =>
      cases act with
      | turn => exact inductionHypothesis (life.turn service) _
      | close => exact inductionHypothesis life.close _
      | surround clock signal monitor =>
          exact inductionHypothesis (life.surround clock signal monitor) _

end Rehearsal

/--
A reader goes on by these operations for a shard. As long as the script is clean, its tokens remain
those of their shards, and so are the tokens that it has read from.
-/
structure Proceeds (script : Script) (uses : List Use) (visiting : Option ShardId)
    (session later : Session Script) (made : List Exchange) : Prop where
  exchanges : later.world.exchanges = session.world.exchanges ++ made
  plays : service.Plays session.world.service made later.world.service
  indexed : later.reader.Indexed
  holds : Clean script (uses ++ usesOf (made.flatMap Exchange.calls)) →
    later.reader.Holds (Granted script (uses ++ usesOf (made.flatMap Exchange.calls)))
  reads : Clean script (uses ++ usesOf (made.flatMap Exchange.calls)) →
    ∀ before time token limit after,
      made.flatMap Exchange.calls = before ++ (time, .readRecords token limit) :: after →
        ∃ shard, visiting = some shard ∧ Granted script (uses ++ usesOf before) shard token

variable {script : Script} {uses : List Use} {visiting : Option ShardId}
  {session later : Session Script}

namespace Proceeds

/-- A reader that asks nothing proceeds by keeping its tokens. -/
theorem still (same : later.world.exchanges = session.world.exchanges)
    (served : later.world.service = session.world.service) (indexed : later.reader.Indexed)
    (holds : later.reader.Holds (Granted script uses)) :
    Proceeds script uses visiting session later [] where
  exchanges := same.trans (List.append_nil _).symm
  plays := served ▸ .nothing _
  indexed := indexed
  holds := fun _ => (List.append_nil uses).symm ▸ holds
  reads := fun _ before _ _ _ _ split => by simp at split

/-- A pass opens with a description at most, and the shards that come to be tracked wait. -/
theorem enter (indexed : session.reader.Indexed)
    (holds : session.reader.Holds (Granted script uses)) :
    ∃ made, Proceeds script uses visiting session (session.enter service).2 made := by
  obtain ⟨made, exchanges, plays, conversation⟩ :=
    World.converse_plays service session.plan session.reader.prepare session.world
  have prepared := Reader.prepare_prepared conversation
  have kept : session.reader.Holds
      (Granted script (uses ++ usesOf (made.flatMap Exchange.calls))) :=
    holds.mono fun shard token granted => granted.later (List.prefix_append _ _)
  have unread : ∀ before time token limit after,
      made.flatMap Exchange.calls = before ++ (time, .readRecords token limit) :: after →
        ∃ shard, visiting = some shard ∧ Granted script (uses ++ usesOf before) shard token :=
    fun _ _ _ _ _ split => absurd split (Script.unread_of_prepared prepared)
  refine ⟨made, ?_⟩
  unfold Session.enter
  simp only [Session.plan] at exchanges plays prepared ⊢
  generalize session.world.converse service session.reader.settings.retry.plan
    session.reader.prepare = conversed at exchanges plays prepared ⊢
  obtain ⟨answer, world⟩ := conversed
  rcases answer with _ | error | _ | reader
  · exact ⟨exchanges, plays, indexed, fun _ => kept, fun _ => unread⟩
  · exact ⟨exchanges, plays, indexed, fun _ => kept, fun _ => unread⟩
  · exact ⟨exchanges, plays, indexed, fun _ => kept, fun _ => unread⟩
  · refine ⟨exchanges, plays, prepared.indexed indexed, fun _ => ?_, fun _ => unread⟩
    cases prepared with
    | ready _ => exact kept
    | described _ _ _ => exact kept.track indexed _

/-- A step for a shard leaves the reader as it is, and what it brings is for the shard. -/
theorem step (indexed : session.reader.Indexed)
    (holds : session.reader.Holds (Granted script uses))
    (replayed : session.world.service = script.useAll uses) (shard : ShardId) :
    ∃ made, Proceeds script uses (some shard) session
        { session with world := (session.reader.stepIn service shard session.world).2 } made ∧
      (Clean script (uses ++ usesOf (made.flatMap Exchange.calls)) → ∀ outcome token,
        (session.reader.stepIn service shard session.world).1 = some (.ok outcome) →
          outcome.transition.token? = some token →
            Granted script (uses ++ usesOf (made.flatMap Exchange.calls)) outcome.shard token) := by
  obtain ⟨made, exchanges, plays, conversation⟩ :=
    World.converse_plays service session.plan (session.reader.step shard) session.world
  have own := Script.step_ownTokens indexed holds conversation (replayed ▸ plays)
  exact ⟨made,
    ⟨exchanges, plays, indexed,
      fun _ => holds.mono fun _ _ granted => granted.later (List.prefix_append _ _),
      fun clean before time token limit after split =>
        ⟨shard, rfl, (own clean).reads before time token limit after split⟩⟩,
    fun clean => (own clean).brings⟩

/-- A visit is a step whose outcome is applied. -/
theorem visit (indexed : session.reader.Indexed)
    (holds : session.reader.Holds (Granted script uses))
    (replayed : session.world.service = script.useAll uses) (shard : ShardId) :
    ∃ made, Proceeds script uses (some shard) session (session.visit service shard).2 made := by
  obtain ⟨made, proceeds, brings⟩ := step indexed holds replayed shard
  refine ⟨made, ?_⟩
  unfold Session.visit
  simp only [Reader.stepIn, Session.plan] at proceeds brings ⊢
  generalize session.world.converse service session.reader.settings.retry.plan
    (session.reader.step shard) = conversed at proceeds brings ⊢
  obtain ⟨answer, world⟩ := conversed
  rcases answer with _ | error | outcome
  · exact proceeds
  · exact ⟨proceeds.exchanges, proceeds.plays, indexed, proceeds.holds, proceeds.reads⟩
  · refine ⟨?_, ?_, ((Reader.Change.applied _ outcome).indexed indexed).1, fun clean => ?_,
      proceeds.reads⟩
    · exact (World.reportAll_exchanges world _).trans proceeds.exchanges
    · simp only [Session.absorb, World.reportAll_service]
      exact proceeds.plays
    · exact (proceeds.holds clean).apply indexed fun token =>
        brings clean outcome token rfl

/-- So does every turn, whether it opens a pass, visits a shard or asks nothing. -/
theorem advance (indexed : session.reader.Indexed)
    (holds : session.reader.Holds (Granted script uses))
    (replayed : session.world.service = script.useAll uses) :
    ∃ made, Proceeds script uses ((session.visit? service).map Visit.shard) session
      (session.advance service).2 made := by
  obtain ⟨reader, ⟨queue, buffer, started, finished⟩, world⟩ := session
  cases buffer with
  | cons delivery rest => exact ⟨[], still rfl rfl indexed holds⟩
  | nil =>
      cases finished with
      | true => exact ⟨[], still rfl rfl indexed holds⟩
      | false =>
          cases started with
          | false => exact enter indexed holds
          | true =>
              cases queue with
              | nil => exact ⟨[], still rfl rfl indexed holds⟩
              | cons shard queue =>
                  have visited : ∃ made, Proceeds script uses (some shard)
                      ⟨reader, ⟨queue, [], true, false⟩, world⟩
                      (Session.visit service ⟨reader, ⟨queue, [], true, false⟩, world⟩ shard).2
                      made := by
                    refine visit ?_ ?_ ?_ shard
                    · exact indexed
                    · exact holds
                    · exact replayed
                  obtain ⟨made, proceeds⟩ := visited
                  exact ⟨made, proceeds.exchanges, proceeds.plays, proceeds.indexed,
                    proceeds.holds, proceeds.reads⟩

end Proceeds

namespace Rehearsal

variable {shards : List Shard} {rehearsal : Rehearsal} {made : List Exchange}

/-- New operations are put down call by call. -/
theorem history_goOn (visiting : Option ShardId)
    (exchanges : later.world.exchanges = rehearsal.session.world.exchanges ++ made) :
    (rehearsal.goOn visiting later).history = rehearsal.history ++
      (made.flatMap Exchange.calls).map fun call => .reader visiting call.2 call.1 := by
  simp only [goOn, World.calls, exchanges, List.flatMap_append, List.drop_left]

theorem uses_goOn (visiting : Option ShardId)
    (exchanges : later.world.exchanges = rehearsal.session.world.exchanges ++ made) :
    (rehearsal.goOn visiting later).uses =
      rehearsal.uses ++ usesOf (made.flatMap Exchange.calls) := by
  rw [uses, history_goOn visiting exchanges, List.map_append, List.map_map]
  rfl

/-- Moves only add to the history. -/
theorem uses_perform (rehearsal : Rehearsal) (move : Move) :
    rehearsal.uses <+: (rehearsal.perform move).uses := by
  have goesOn : ∀ visiting later, rehearsal.uses <+: (rehearsal.goOn visiting later).uses :=
    fun visiting later => (List.prefix_append _ _).map Entry.use
  cases move with
  | act act =>
      cases act with
      | turn => exact goesOn _ _
      | close => exact List.prefix_refl _
      | surround clock signal monitor => exact List.prefix_refl _
  | step shard => exact goesOn (some shard) _
  | apply number =>
      simp only [perform]
      split <;> exact List.prefix_refl _
  | prune shard => exact List.prefix_refl _
  | others use => exact (List.prefix_append _ _).map Entry.use

/-- This is what every move of a rehearsal preserves. -/
structure Sound (shards : List Shard) (rehearsal : Rehearsal) : Prop where
  indexed : rehearsal.session.reader.Indexed
  recorded : rehearsal.history.filterMap Entry.call? = rehearsal.session.world.calls
  replayed : rehearsal.session.world.service =
    (Script.describing shards).useAll rehearsal.uses
  holds : rehearsal.session.reader.Holds (Granted (.describing shards) rehearsal.uses)
  kept : ∀ outcome ∈ rehearsal.outcomes, ∀ token, outcome.transition.token? = some token →
    Granted (.describing shards) rehearsal.uses outcome.shard token
  reads : ∀ before visiting token limit time after,
    rehearsal.history = before ++ .reader visiting (.readRecords token limit) time :: after →
      ∃ shard, visiting = some shard ∧
        Granted (.describing shards) (before.map Entry.use) shard token

/-- A new reader holds no token. -/
theorem start_sound (settings : ReaderSettings) (monitor : Monitor) (shards : List Shard) :
    (start settings monitor shards).Sound shards where
  indexed := Reader.indexed_ofSettings settings
  recorded := rfl
  replayed := rfl
  holds := fun _ member => absurd member List.not_mem_nil
  kept := fun _ member => absurd member List.not_mem_nil
  reads := fun before _ _ _ _ _ split => by simp [start] at split

namespace Sound

/-- A reader that proceeds keeps everything in order. -/
theorem goOn (sound : rehearsal.Sound shards)
    (proceeds : Proceeds (.describing shards) rehearsal.uses visiting rehearsal.session later made)
    (clean : Clean (.describing shards) (rehearsal.goOn visiting later).uses) :
    (rehearsal.goOn visiting later).Sound shards := by
  have uses := uses_goOn visiting proceeds.exchanges
  have history := history_goOn visiting proceeds.exchanges
  rw [uses] at clean
  refine ⟨proceeds.indexed, ?_, ?_, uses ▸ proceeds.holds clean, ?_, ?_⟩
  · have calls : (rehearsal.goOn visiting later).session.world.calls =
        rehearsal.session.world.calls ++ made.flatMap Exchange.calls := by
      simp only [Rehearsal.goOn, World.calls, proceeds.exchanges, List.flatMap_append]
    have own : (Entry.call? ∘ fun call : Nat × Request => .reader visiting call.2 call.1) = some :=
      rfl
    rw [history, List.filterMap_append, sound.recorded, calls, List.filterMap_map, own,
      List.filterMap_some]
  · rw [uses, Script.useAll_append, ← sound.replayed]
    exact Script.useAll_of_plays proceeds.plays
  · intro outcome member token brings
    rw [uses]
    exact (sound.kept outcome member token brings).later (List.prefix_append _ _)
  · intro before visited token limit time after split
    rw [history] at split
    rcases split_append split with ⟨rest, early⟩ | ⟨rest, rfl, late⟩
    · exact sound.reads before visited token limit time rest early
    · obtain ⟨earlier, others, calls, rfl, tail⟩ := List.map_eq_append_iff.mp late
      obtain ⟨⟨start, request⟩, behind, rfl, same, -⟩ := List.map_eq_cons_iff.mp tail
      cases same
      obtain ⟨shard, own, granted⟩ := proceeds.reads clean earlier _ token limit behind calls
      refine ⟨shard, own, ?_⟩
      rw [List.map_append, List.map_map]
      exact granted

/-- Where the reader asks nothing, only the tokens in its hands are in question. -/
theorem still (sound : rehearsal.Sound shards) {later : Session Script}
    (exchanges : later.world.exchanges = rehearsal.session.world.exchanges)
    (served : later.world.service = rehearsal.session.world.service)
    (indexed : later.reader.Indexed)
    (holds : later.reader.Holds (Granted (.describing shards) rehearsal.uses)) :
    Sound shards { rehearsal with session := later } where
  indexed := indexed
  recorded := sound.recorded.trans (by simp only [World.calls, exchanges])
  replayed := served.trans sound.replayed
  holds := holds
  kept := sound.kept
  reads := sound.reads

/-- The end of a pass takes a token away at most. -/
theorem close (sound : rehearsal.Sound shards) :
    Sound shards
      { rehearsal with
        session := .start rehearsal.session.close.1 rehearsal.session.close.2 } := by
  have world := Session.close_world rehearsal.session
  refine sound.still (congrArg World.exchanges world) (congrArg World.service world)
    (Session.close_indexed sound.indexed).1 ?_
  simp only [Session.start, Session.close]
  split
  · exact sound.holds.restartAt sound.indexed _ _
  · exact sound.holds

/-- Others may use the service as they like. -/
theorem others (sound : rehearsal.Sound shards) (use : Use) :
    (rehearsal.perform (.others use)).Sound shards := by
  have grown : (rehearsal.perform (.others use)).uses = rehearsal.uses ++ [use] :=
    List.map_append
  have granted : ∀ shard token, Granted (.describing shards) rehearsal.uses shard token →
      Granted (.describing shards) (rehearsal.perform (.others use)).uses shard token :=
    fun shard token granted => granted.later (rehearsal.uses_perform (.others use))
  refine ⟨sound.indexed, ?_, ?_, sound.holds.mono granted,
    fun outcome member token brings => granted _ _ (sound.kept outcome member token brings), ?_⟩
  · exact (List.filterMap_append.trans (List.append_nil _)).trans sound.recorded
  · rw [grown, Script.useAll_append, ← sound.replayed]
    rfl
  · intro before visited token limit time after split
    rcases split_append split with ⟨rest, early⟩ | ⟨rest, _, late⟩
    · exact sound.reads before visited token limit time rest early
    · cases rest with
      | nil => cases late
      | cons entry rest => cases rest <;> cases late

/-- Every move of a clean rehearsal preserves it. -/
theorem perform (sound : rehearsal.Sound shards) (move : Move)
    (clean : Clean (.describing shards) (rehearsal.perform move).uses) :
    (rehearsal.perform move).Sound shards := by
  cases move with
  | act act =>
      cases act with
      | turn =>
          obtain ⟨made, proceeds⟩ :=
            Proceeds.advance sound.indexed sound.holds sound.replayed
          exact sound.goOn proceeds clean
      | close => exact sound.close
      | surround clock signal monitor =>
          exact sound.still rfl rfl sound.indexed sound.holds
  | step shard =>
      obtain ⟨made, proceeds, brings⟩ :=
        Proceeds.step sound.indexed sound.holds sound.replayed shard
      have gone := sound.goOn proceeds clean
      refine ⟨gone.indexed, gone.recorded, gone.replayed, gone.holds, ?_, gone.reads⟩
      intro outcome member token brought
      rcases List.mem_append.mp member with before | new
      · exact gone.kept outcome before token brought
      · have came : (rehearsal.session.reader.stepIn service shard rehearsal.session.world).1 =
            some (.ok outcome) := outcome?_eq_some (Option.mem_toList.mp new)
        change Granted _ (Rehearsal.uses (Rehearsal.goOn _ _ _)) _ _
        rw [uses_goOn (some shard) proceeds.exchanges]
        refine brings ?_ outcome token came brought
        rwa [← uses_goOn (some shard) proceeds.exchanges]
  | apply number =>
      simp only [Rehearsal.perform]
      split
      · rename_i outcome picked
        refine sound.still (World.reportAll_exchanges _ _) (World.reportAll_service _ _)
          ((Reader.Change.applied _ outcome).indexed sound.indexed).1
          (sound.holds.apply sound.indexed ?_)
        exact sound.kept outcome (List.mem_of_getElem? picked)
      · exact sound
  | prune shard =>
      exact sound.still rfl rfl ((Reader.Change.pruned _ shard).indexed sound.indexed).1
        (sound.holds.prune shard)
  | others use => exact sound.others use

/-- So does a whole rehearsal. -/
theorem run (sound : rehearsal.Sound shards) (moves : List Move)
    (clean : Clean (.describing shards) (rehearsal.run moves).uses) :
    (rehearsal.run moves).Sound shards := by
  induction moves using List.reverseRecOn with
  | nil => exact sound
  | append_singleton moves move inductionHypothesis =>
      have last : rehearsal.run (moves ++ [move]) = (rehearsal.run moves).perform move :=
        List.foldl_append
      rw [last] at clean ⊢
      exact (inductionHypothesis (clean.earlier (uses_perform _ move))).perform move clean

end Sound

/--
This is how a rehearsal has gone when no scripted reply has come to a wrong shard. Its history tells
all uses of the service, with all calls of the reader. Every live token belongs to the shard that
holds it, and every read was made for a shard and read the script of that shard. A call of the
reader has failed only as its script says. From every queue the replies were taken in order, each of
them once at most, and the others wait.
-/
structure Delivers (shards : List Shard) (rehearsal : Rehearsal) : Prop where
  recorded : rehearsal.history.filterMap Entry.call? = rehearsal.session.world.calls
  replayed : rehearsal.session.world.service =
    (Script.describing shards).useAll rehearsal.uses
  held : rehearsal.session.reader.Holds fun shard token =>
    rehearsal.session.world.service.owners[token]? = some shard
  reads : ∀ before visiting token limit time after,
    rehearsal.history = before ++ .reader visiting (.readRecords token limit) time :: after →
      ∃ shard, visiting = some shard ∧
        ((Script.describing shards).useAll (before.map Entry.use)).ReadsOwn shard token limit
  fails : ∀ before visiting request time after fault,
    rehearsal.history = before ++ .reader visiting request time :: after →
      let script := (Script.describing shards).useAll (before.map Entry.use)
      (service.call request time script).1.result = .error fault →
        ∃ queue reply rest, script.source? request = some queue ∧
          script.waiting queue = reply :: rest ∧ reply.result = .error fault
  order : ∀ queue, Script.added rehearsal.uses queue =
    (Script.describing shards).taken queue rehearsal.uses ++
      rehearsal.session.world.service.waiting queue

/-- In a clean rehearsal whatever was handed over for a shard belongs to it. -/
theorem Sound.delivers (sound : rehearsal.Sound shards)
    (clean : Clean (.describing shards) rehearsal.uses) : rehearsal.Delivers shards := by
  have reads : ∀ before visiting token limit time after,
      rehearsal.history = before ++ .reader visiting (.readRecords token limit) time :: after →
        ∃ shard, visiting = some shard ∧
          ((Script.describing shards).useAll (before.map Entry.use)).ReadsOwn shard token
            limit := by
    intro before visiting token limit time after split
    obtain ⟨shard, own, granted⟩ := sound.reads before visiting token limit time after split
    have earlier : before.map Entry.use <+: rehearsal.uses := by
      rw [uses, split, List.map_append]
      exact List.prefix_append _ _
    exact ⟨shard, own, Script.readsOwn (granted.owned (clean.earlier earlier)) limit⟩
  refine ⟨sound.recorded, sound.replayed, ?_, reads, ?_, ?_⟩
  · intro tracked member token reading
    rw [sound.replayed]
    exact (sound.holds tracked member token reading).owned clean
  · intro before visiting request time after fault split script failed
    have known : ∃ queue, script.source? request = some queue := by
      cases request with
      | listShards stream => exact ⟨_, rfl⟩
      | openIterator stream shard position => exact ⟨_, rfl⟩
      | readRecords token limit =>
          obtain ⟨shard, _, own⟩ := reads before visiting token limit time after split
          exact ⟨.batches shard, congrArg (Option.map Queue.batches) own.owned⟩
    obtain ⟨queue, source⟩ := known
    obtain ⟨reply, rest, waits, said⟩ := Script.call_fails source failed
    exact ⟨queue, reply, rest, source, waits, said⟩
  · intro queue
    rw [sound.replayed, ← Script.useAll_waiting]
    cases queue with
    | descriptions => rfl
    | iterators shard =>
        simp only [Script.waiting, Script.describing, Std.ExtTreeMap.getD_empty, List.nil_append]
    | batches shard =>
        simp only [Script.waiting, Script.describing, Std.ExtTreeMap.getD_empty, List.nil_append]

/--
However a scripted service is used, and whatever its shards are called, no token is issued twice,
and the count of issued tokens tells all of them. And however a reader is tried on it, with passes
made and dropped, steps for any shard, their outcomes applied at any time, entries pruned and the
service used by others: if scripted tokens are used for one shard only and none of them is issued as
well, every scripted reply goes to its own shard.
-/
theorem rehearsal_delivers (settings : ReaderSettings) (monitor : Monitor) (shards : List Shard)
    (moves : List Move)
    (clean : Clean (.describing shards) ((start settings monitor shards).run moves).uses) :
    (∀ (script : Script) (uses : List Use),
      ((script.issues uses).map Script.Grant.token).Nodup ∧
        (script.useAll uses).issued = script.issued + (script.issues uses).length) ∧
      ((start settings monitor shards).run moves).Delivers shards :=
  ⟨fun script uses => ⟨script.nodup_issues uses, (script.issues_numbered uses).2⟩,
    ((start_sound settings monitor shards).run moves clean).delivers clean⟩

/-- The child is called like the first token that is issued for its parent. -/
def namesakes : List Shard :=
  [⟨"A", none, "100", some "119"⟩, ⟨"A-iterator-0", some "A", "120", none⟩]

/-- The first token is scripted, and the second read fails. Two passes are made; then the caller
steps for the parent, which has come to its end, and one more pass reads the child. -/
def namesakeMoves : List Move :=
  [.others (.queueIterators "A" [.now (.ok "token")]),
    .others (.queueBatches "A"
      [.now (.ok ⟨[⟨"110", "key", [], none⟩], true, 5⟩), .now (.error .expiredIterator),
        .now (.ok ⟨[], false, 0⟩)]),
    .others (.queueBatches "A-iterator-0" [.now (.ok ⟨[⟨"120", "key", [], none⟩], true, 5⟩)])] ++
    List.replicate 4 (.act .turn) ++ [.act .close] ++ List.replicate 3 (.act .turn) ++
    [.act .close, .step "A", .apply 0] ++ List.replicate 4 (.act .turn)

def namesakesRead : Rehearsal := (start (.ofStream "stream") .off namesakes).run namesakeMoves

/-- The names and the tokens of the two shards look alike, and they are not mixed up. -/
theorem namesakesRead_delivers :
    Clean (.describing namesakes) namesakesRead.uses ∧
      (((Script.describing namesakes).grants namesakesRead.uses).map fun grant =>
        (grant.shard, grant.token)) =
        [("A", "token"), ("A", "A-iterator-0"), ("A", "A-iterator-1"),
          ("A-iterator-0", "A-iterator-0-iterator-2"),
          ("A-iterator-0", "A-iterator-0-iterator-3")] ∧
      namesakesRead.session.world.service.reads =
        [("A", 100), ("A", 100), ("A", 100), ("A-iterator-0", 100)] ∧
      namesakesRead.session.reader.shards =
        [⟨"A", .done, .trimHorizon⟩,
          ⟨"A-iterator-0", .reading "A-iterator-0-iterator-3", .trimHorizon⟩] ∧
      namesakesRead.Delivers namesakes := by
  have clean : Clean (.describing namesakes) namesakesRead.uses := by decide +kernel
  exact ⟨clean, by decide +kernel, by decide +kernel, by decide +kernel,
    (rehearsal_delivers (.ofStream "stream") .off namesakes namesakeMoves clean).2⟩

end Rehearsal

end ShardedStream
