import ShardedStream.Proofs.Assignments.Listed
import ShardedStream.Proofs.Monitor.Log
import ShardedStream.Proofs.Reader.Succession
import ShardedStream.Proofs.Session.Telling
import ShardedStream.Script

/-!
The log of a reader.
Whatever passes a monitored reader goes through, its log accounts for every shard that it tracks:
where the shard was assigned, which batches were applied to it, whether it is done, and how many
shards it has brought.
-/

namespace ShardedStream

/-- This is what has been told of all shards that have been opened. -/
structure Chronicle (opened : List Assignment) (batches : ShardId → List (Nat × Int))
    (log : List Event) (reader : Reader) : Prop where
  stories : ∀ entry ∈ opened, ∀ tracked ∈ reader.shards, tracked.id = entry.shard →
    Story entry.position (kindsOf entry.shard log) (batches entry.shard) tracked.phase
  untold : ∀ shard ∉ reader.ids, kindsOf shard log = [] ∧ batches shard = []
  lag : ∀ shard, reader.lag[shard]? = (batches shard).getLast?.map Prod.snd

namespace Chronicle

variable {opened added : List Assignment} {batches read : ShardId → List (Nat × Int)}
  {log events : List Event} {reader later : Reader} {move : Tracked → Tracked}

/-- The stories of the tracked shards go on, and those of the new shards begin. -/
theorem extend (chronicle : Chronicle opened batches log reader)
    (shards : opened.map Assignment.shard = reader.ids) (indexed : later.Indexed)
    (became : later.shards = reader.shards.map move ++ added.map .ofAssignment)
    (keeps : ∀ tracked, (move tracked).id = tracked.id)
    (others : ∀ shard ∉ reader.ids,
      kindsOf shard events = kindsOf shard (assignedEvents added) ∧ read shard = batches shard)
    (moved : ∀ entry ∈ opened, ∀ tracked ∈ reader.shards, tracked.id = entry.shard →
      Story entry.position (kindsOf entry.shard (log ++ events)) (read entry.shard)
        (move tracked).phase)
    (lag : ∀ shard, later.lag[shard]? = (read shard).getLast?.map Prod.snd) :
    Chronicle (opened ++ added) read (log ++ events) later := by
  have ids := Reader.ids_added became keeps
  refine ⟨fun entry member tracked here same => ?_, fun shard unknown => ?_, lag⟩
  · rcases Reader.opened_cases indexed shards became keeps member here same with
      ⟨old, was, wasMember, name, rfl⟩ | ⟨new, fresh, rfl⟩
    · exact moved entry old was wasMember name
    -- Nothing has been told of a new shard before, so its story begins here.
    · have distinct := (List.nodup_append.mp (ids ▸ indexed.distinct)).2.1
      obtain ⟨nothing, unread⟩ := chronicle.untold _ fresh
      obtain ⟨assigned, none⟩ := others _ fresh
      rw [kindsOf_append, nothing, assigned, kindsOf_assigned distinct new, none, unread]
      exact Story.begin entry.position
  · rw [ids, List.mem_append, not_or] at unknown
    obtain ⟨nothing, unread⟩ := chronicle.untold shard unknown.1
    obtain ⟨assigned, none⟩ := others shard unknown.1
    rw [kindsOf_append, nothing, assigned, kindsOf_unassigned unknown.2, none, unread]
    exact ⟨rfl, rfl⟩

/-- Where nothing is opened, the tracked shards move and their stories go on. -/
theorem carryOn (chronicle : Chronicle opened batches log reader)
    (shards : opened.map Assignment.shard = reader.ids) (indexed : later.Indexed)
    (became : later.shards = reader.shards.map move)
    (keeps : ∀ tracked, (move tracked).id = tracked.id)
    (others : ∀ shard ∉ reader.ids, kindsOf shard events = [])
    (moved : ∀ entry ∈ opened, ∀ tracked ∈ reader.shards, tracked.id = entry.shard →
      Story entry.position (kindsOf entry.shard (log ++ events)) (batches entry.shard)
        (move tracked).phase)
    (lag : later.lag = reader.lag) : Chronicle opened batches (log ++ events) later := by
  have nothing : later.shards = reader.shards.map move ++ [].map Tracked.ofAssignment := by
    rw [became, List.map_nil, List.append_nil]
  rw [← List.append_nil opened]
  exact chronicle.extend shards indexed nothing keeps
    (fun shard unknown => ⟨others shard unknown, rfl⟩) moved (lag ▸ chronicle.lag)

/-- An iterator that has been got for a waiting shard leaves its story where it is. -/
theorem acquire {shard : ShardId} (chronicle : Chronicle opened batches log reader)
    (shards : opened.map Assignment.shard = reader.ids) (indexed : reader.Indexed)
    (acquires : Reader.Acquires shard events)
    (waits : events ≠ [] → ∃ tracked ∈ reader.shards, tracked.id = shard ∧
      ∃ position, tracked.phase = .waiting position) :
    Chronicle opened batches (log ++ events) reader := by
  by_cases silent : events = []
  · rwa [silent, List.append_nil]
  · obtain ⟨tracked, member, rfl, waiting⟩ := waits silent
    refine chronicle.carryOn shards indexed (List.map_id _).symm (fun _ => rfl)
      (fun shard unknown => ?_) (fun entry here other otherMember same => ?_) rfl
    · exact acquires.kinds_other fun own => unknown (own ▸ List.mem_map_of_mem member)
    · rw [kindsOf_append]
      refine (chronicle.stories entry here other otherMember same).acquire acquires.kinds
        fun told => ?_
      by_cases own : tracked.id = entry.shard
      · rwa [indexed.eq_of_id_eq otherMember member (same.trans own.symm)]
      · exact absurd (acquires.kinds_other own) told

/-- The first shards are announced as they are opened. -/
theorem opening (chronicle : Chronicle opened batches log reader)
    (shards : opened.map Assignment.shard = reader.ids) (indexed : reader.Indexed)
    (found : List Shard) :
    Chronicle (opened ++ reader.openedBy found) batches
      (log ++ assignedEvents (reader.openedBy found)) (reader.opening found) := by
  obtain ⟨again, became, fresh, lag⟩ := Reader.tracks_opening indexed found
  refine chronicle.extend shards again became (fun _ => rfl) (fun _ _ => ⟨rfl, rfl⟩)
    (fun entry here tracked member same => ?_) (lag ▸ chronicle.lag)
  have untold : entry.shard ∉ (reader.openedBy found).map Assignment.shard := fun new => by
    obtain ⟨other, chosen, name⟩ := List.mem_map.mp new
    exact fresh other chosen (name ▸ shards ▸ List.mem_map_of_mem here)
  rw [kindsOf_append, kindsOf_unassigned untold, List.append_nil]
  exact chronicle.stories entry here tracked member same

variable {σ : Type} {service : Service σ} {tracked : Tracked} {world between : World σ}
  {outcome : Outcome} {visit : Visit}

/-- Of another shard a visit tells nothing but that it brings it. -/
theorem visit_elsewhere {shard : ShardId} (own : outcome.shard = tracked.id)
    (visited : visit.shard = tracked.id) (acquires : Reader.Acquires tracked.id events)
    (apart : tracked.id ≠ shard) :
    kindsOf shard (events ++ reader.eventsOf outcome) =
        kindsOf shard (assignedEvents (reader.brought outcome.transition)) ∧
      batchesOf shard [visit] = [] := by
  rw [kindsOf_append, acquires.kinds_other apart, List.nil_append,
    Reader.kindsOf_eventsOf_other (own ▸ apart)]
  exact ⟨rfl, batchesOf_other (visited ▸ apart)⟩

/-- A visit goes on with the story of its own shard. -/
theorem visit_own {start : Position} {kinds : List EventKind} {told : List (Nat × Int)}
    (story : Story start kinds told tracked.phase) (indexed : reader.Indexed)
    (member : tracked ∈ reader.shards)
    (steps : reader.Steps service tracked world outcome between)
    (acquires : Reader.Acquires tracked.id events)
    (waits : events ≠ [] → ∃ position, tracked.phase = .waiting position)
    (visited : visit.shard = tracked.id) (applied : visit.result = some (.ok outcome))
    (resume : Position) :
    Story start (kinds ++ kindsOf tracked.id (events ++ reader.eventsOf outcome))
      (told ++ batchesOf tracked.id [visit])
      (tracked.enter (outcome.transition.phase? resume)).phase := by
  have known : outcome.shard ∈ reader.ids := steps.shard ▸ List.mem_map_of_mem member
  have kinds := Reader.kindsOf_eventsOf (Reader.not_brought indexed outcome.transition known)
  rw [steps.shard] at kinds
  have batch := batchesOf_own visit
  rw [visited, Visit.batch?_of_result applied] at batch
  rw [kindsOf_append, kinds, batch, ← List.append_assoc]
  refine (story.acquire acquires.kinds fun told => waits ?_).visit steps _ resume
  rintro rfl
  exact told rfl

/-- The last batch of a shard tells how far it is behind. -/
theorem visit_lag {told : List (Nat × Int)} {shard : ShardId}
    (before : reader.lag[shard]? = told.getLast?.map Prod.snd) (indexed : reader.Indexed)
    (member : tracked ∈ reader.shards) (own : outcome.shard = tracked.id)
    (visited : visit.shard = tracked.id) (applied : visit.result = some (.ok outcome)) :
    (reader.apply outcome).2.lag[shard]? =
      (told ++ batchesOf shard [visit]).getLast?.map Prod.snd := by
  rw [Reader.lag_apply indexed member own]
  by_cases same : tracked.id = shard
  · have batch := batchesOf_own visit
    rw [visited, Visit.batch?_of_result applied, Outcome.batch?] at batch
    rw [← same, batch]
    rw [← same] at before
    cases outcome.lag with
    | none => exact (List.append_nil told).symm ▸ before
    | some lag => simp
  · rw [batchesOf_other (visited ▸ same), List.append_nil, ← before]
    cases outcome.lag with
    | none => rfl
    | some lag =>
        rw [Std.ExtTreeMap.getElem?_insert, if_neg]
        rwa [Std.LawfulEqCmp.compare_eq_iff_eq]

/-- A visit is told with what it applies and with the shards that it brings. -/
theorem apply (chronicle : Chronicle opened batches log reader)
    (shards : opened.map Assignment.shard = reader.ids) (indexed : reader.Indexed)
    (member : tracked ∈ reader.shards)
    (steps : reader.Steps service tracked world outcome between)
    (acquires : Reader.Acquires tracked.id events)
    (waits : events ≠ [] → ∃ position, tracked.phase = .waiting position)
    (visited : visit.shard = tracked.id) (applied : visit.result = some (.ok outcome)) :
    Chronicle (opened ++ reader.brought outcome.transition)
      (fun shard => batches shard ++ batchesOf shard [visit])
      (log ++ (events ++ reader.eventsOf outcome)) (reader.apply outcome).2 := by
  have own := steps.shard
  refine chronicle.extend shards (Reader.follows_apply indexed member own).indexed
    (Reader.shards_apply indexed member own) (fun other => by split <;> rfl)
    (fun shard unknown => ?_) (fun entry here other otherMember same => ?_)
    fun shard => visit_lag (chronicle.lag shard) indexed member own visited applied
  · obtain ⟨kinds, unread⟩ := visit_elsewhere own visited acquires fun same : tracked.id = shard =>
      unknown (same ▸ List.mem_map_of_mem member)
    rw [kinds, unread, List.append_nil]
    exact ⟨rfl, rfl⟩
  · have story := chronicle.stories entry here other otherMember same
    rw [← same] at story ⊢
    rw [kindsOf_append]
    split
    · rename_i its
      obtain rfl := indexed.eq_of_id_eq otherMember member its
      exact visit_own story indexed member steps acquires waits visited applied _
    · rename_i other
      obtain ⟨kinds, unread⟩ := visit_elsewhere own visited acquires fun equal =>
        other equal.symm
      rw [kinds, unread, List.append_nil, kindsOf_unassigned
        (Reader.not_brought indexed _ (List.mem_map_of_mem otherMember)), List.append_nil]
      exact story

/-- A shard that has been read from, and is not done, may be restarted. -/
theorem restart (chronicle : Chronicle opened batches log reader)
    (shards : opened.map Assignment.shard = reader.ids) (indexed : reader.Indexed)
    (member : tracked ∈ reader.shards) (unfinished : tracked.phase ≠ .done)
    (position : Position) :
    Chronicle opened batches log (reader.restartAt tracked.id position) := by
  have again : (reader.restartAt tracked.id position).Indexed :=
    indexed.modifyTracked tracked.id fun _ => rfl
  have became : (reader.restartAt tracked.id position).shards = reader.shards.map fun other =>
      if other.id = tracked.id then { other with phase := .waiting position, start := position }
      else other := indexed.shards_modifyTracked tracked.id _
  rw [← List.append_nil log]
  refine chronicle.carryOn shards again became (fun other => by split <;> rfl) (fun _ _ => rfl)
    (fun entry here other otherMember same => ?_) (reader.lag_modifyTracked tracked.id _)
  rw [List.append_nil]
  have story := chronicle.stories entry here other otherMember same
  split
  · rename_i own
    rw [indexed.eq_of_id_eq otherMember member own] at story
    exact story.restart unfinished position
  · exact story

end Chronicle

/-- These are the shards that the first description opens. -/
def firstOpened (settings : ReaderSettings) (descriptions : List (List Shard)) :
    List Assignment :=
  (descriptions.head?.map fun shards => (Assignments.atStart (.ofShards shards)
    settings.checkpoint settings.policy).entries).getD []

/-- Every tracked shard is one of the first ones, or it has been told with the shard before it. -/
inductive Grown (settings : ReaderSettings) (descriptions : List (List Shard)) (log : List Event)
    (reader : Reader) : Prop where
  | unopened (none : reader.shards = []) (undescribed : descriptions = [])
      (checkpoint : reader.checkpoint = settings.checkpoint) (untold : completionsOf log = [])
  | opened (counts : List Nat) (initialized : reader.initialized = true)
      (described : descriptions ≠ [])
      (told : completionsOf log = counts.map fun count => some (successorsText count))
      (size : reader.shards.length = (firstOpened settings descriptions).length + counts.sum)

namespace Grown

variable {settings : ReaderSettings} {descriptions more : List (List Shard)}
  {log events : List Event} {reader later : Reader}

/-- Later descriptions do not change which one was the first. -/
theorem firstOpened_of_prefix (settings : ReaderSettings) (described : descriptions ≠ [])
    (longer : descriptions <+: more) :
    firstOpened settings more = firstOpened settings descriptions ∧ more ≠ [] := by
  obtain ⟨rest, rfl⟩ := longer
  obtain ⟨first, others, rfl⟩ := List.exists_cons_of_ne_nil described
  exact ⟨rfl, nofun⟩

/-- A reader with the same shards has grown as much. -/
theorem rests (grown : Grown settings descriptions log reader)
    (rests : Reader.Rests reader later) : Grown settings descriptions log later := by
  have size : later.shards.length = reader.shards.length := by
    simpa only [Reader.ids, List.length_map] using congrArg List.length rests.ids
  cases grown with
  | unopened none undescribed checkpoint untold =>
      rw [none, List.length_nil, List.length_eq_zero_iff] at size
      exact .unopened size undescribed (rests.checkpoint.trans checkpoint) untold
  | opened _ initialized described told same =>
      exact .opened _ (rests.initialized.trans initialized) described told (size.trans same)

/-- The first description opens the first shards, and all of them. -/
theorem opening {shards : List Shard} (grown : Grown settings descriptions log reader)
    (indexed : reader.Indexed) (same : reader.settings = settings)
    (fresh : reader.initialized = false) :
    Grown settings (descriptions ++ [shards])
      (log ++ assignedEvents (reader.openedBy shards)) (reader.opening shards) := by
  cases grown with
  | opened _ initialized _ _ _ =>
      rw [fresh] at initialized
      cases initialized
  | unopened none undescribed checkpoint untold =>
      -- Nothing is tracked yet, so every decision is followed.
      have every : reader.openedBy shards = firstOpened settings [shards] := by
        rw [Reader.openedBy, Reader.track_fresh indexed (Assignments.atStart_sound _ _ _).distinct,
          checkpoint, same]
        · rfl
        · intro entry _ known
          rw [Reader.ids, none] at known
          exact absurd known List.not_mem_nil
      rw [undescribed, List.nil_append]
      refine .opened [] rfl (List.cons_ne_nil _ _) ?_ ?_
      · rw [completionsOf_append, untold, completionsOf_assigned]
        rfl
      · rw [(Reader.tracks_opening indexed shards).2.1, none, every]
        simp

/-- A visit adds the shards that it tells of. -/
theorem apply {σ : Type} {service : Service σ} {tracked : Tracked} {world between : World σ}
    {outcome : Outcome} (grown : Grown settings descriptions log reader)
    (indexed : reader.Indexed) (member : tracked ∈ reader.shards)
    (steps : reader.Steps service tracked world outcome between)
    (acquires : Reader.Acquires tracked.id events) (longer : descriptions <+: more) :
    Grown settings more (log ++ (events ++ reader.eventsOf outcome)) (reader.apply outcome).2 := by
  cases grown with
  | unopened none _ _ _ => exact absurd (none ▸ member) List.not_mem_nil
  | opened counts initialized described told size =>
      obtain ⟨same, some⟩ := firstOpened_of_prefix settings described longer
      obtain ⟨brought, completed, sum⟩ := Reader.completionsOf_eventsOf reader outcome
      have ready := (Reader.follows_apply indexed member steps.shard).initialized
      refine .opened (counts ++ brought) (ready.trans initialized) some ?_ ?_
      · rw [completionsOf_append, completionsOf_append, acquires.completions, completed, told,
          List.nil_append, List.map_append]
      · rw [Reader.shards_apply indexed member steps.shard, List.length_append, List.length_map,
          List.length_map, size, same, sum, List.sum_append, Nat.add_assoc]

end Grown

namespace Session.Tells

variable {σ : Type} {service : Service σ} {session later : Session σ}
  {opened : List Assignment} {batches : ShardId → List (Nat × Int)} {log events : List Event}

/-- A turn carries the chronicle on. -/
theorem chronicle (tells : Tells service session events later)
    (indexed : session.reader.Indexed) (shards : opened.map Assignment.shard = session.reader.ids)
    (chronicle : Chronicle opened batches log session.reader) :
    Chronicle (opened ++ later.reader.openedSince session.reader.shards.length)
      (fun shard => batches shard ++ batchesOf shard (session.visit? service).toList)
      (log ++ events) later.reader := by
  have unread : (session.visit? service).bind Visit.batch? = none →
      (fun shard => batches shard ++ batchesOf shard (session.visit? service).toList) = batches :=
    fun unread => funext fun shard => by rw [batchesOf_unread unread, List.append_nil]
  cases tells with
  | @handsOut delivery _ _ silent =>
      have unopened : (session.reader.handOut delivery).openedSince session.reader.shards.length =
          [] := session.reader.openedSince_self
      rw [unread silent, unopened, List.append_nil, List.append_nil]
      exact ⟨chronicle.stories, chronicle.untold, chronicle.lag⟩
  | stays acquires waits reader silent _ =>
      rw [unread silent, reader, Reader.openedSince_self, List.append_nil]
      exact chronicle.acquire shards indexed acquires waits
  | @opens found _ _ became silent _ =>
      rw [unread silent, became,
        Reader.openedSince_append (Reader.tracks_opening indexed found).2.1]
      exact chronicle.opening shards indexed found
  | applies member steps acquires waits became visited own applied =>
      rw [became, Reader.openedSince_append (Reader.shards_apply indexed member steps.shard),
        visited]
      exact chronicle.apply shards indexed member steps acquires waits own applied

/-- A turn tells of all shards that it adds. -/
theorem grown {settings : ReaderSettings} (tells : Tells service session events later)
    (indexed : session.reader.Indexed) (held : session.Held)
    (same : session.reader.settings = settings)
    (longer : session.world.descriptions <+: later.world.descriptions)
    (grown : Grown settings session.world.descriptions log session.reader) :
    Grown settings later.world.descriptions (log ++ events) later.reader := by
  cases tells with
  | handsOut waiting _ =>
      rw [List.append_nil]
      cases grown with
      | unopened none _ _ _ =>
          obtain ⟨_, member, _⟩ := held.owner (waiting ▸ List.mem_cons_self)
          exact absurd (none ▸ member) List.not_mem_nil
      | opened counts initialized described told size =>
          exact .opened counts initialized described told size
  | stays acquires waits reader _ described =>
      rw [reader]
      cases grown with
      | unopened none undescribed checkpoint untold =>
          refine .unopened none ((described none).trans undescribed) checkpoint ?_
          rw [completionsOf_append, untold, acquires.completions, List.append_nil]
      | opened counts initialized some told size =>
          obtain ⟨first, more⟩ := Grown.firstOpened_of_prefix settings some longer
          refine .opened counts initialized more ?_ (size.trans (by rw [first]))
          rw [completionsOf_append, told, acquires.completions, List.append_nil]
  | opens fresh became _ described =>
      rw [became, described]
      exact grown.opening indexed same fresh
  | applies member steps acquires _ became _ _ _ =>
      rw [became]
      exact grown.apply indexed member steps acquires longer

end Session.Tells

/-- A closed pass restarts a shard that is not done, and nobody is told. -/
theorem Session.close_chronicle {σ : Type} {session : Session σ} {opened : List Assignment}
    {batches : ShardId → List (Nat × Int)} {log : List Event} (indexed : session.reader.Indexed)
    (held : session.Held) (shards : opened.map Assignment.shard = session.reader.ids)
    (chronicle : Chronicle opened batches log session.reader) :
    Chronicle opened batches log session.close.1 := by
  unfold close
  cases buffer : session.pass.buffer with
  | nil => exact chronicle
  | cons delivery rest =>
      have waits : delivery ∈ session.pass.buffer := buffer ▸ List.mem_cons_self
      obtain ⟨tracked, member, read, own⟩ := held.owner waits
      have restarted := chronicle.restart shards indexed member read.ne_done
        (.atSequence delivery.record.sequence)
      rw [← own delivery waits] at restarted
      exact restarted

namespace Life

variable {σ : Type} {service : Service σ} {settings : ReaderSettings} {visits : List Visit}

/-- The same life with another observer. -/
def observed (life : Life σ) (monitor : Monitor) : Life σ :=
  { life with session := life.session.observed monitor }

/-- The next turn tells these events to any observer. -/
def Emits (service : Service σ) (life : Life σ) (events : List Event) : Prop :=
  ∀ monitor, ((life.observed monitor).turn service).session.world.monitor =
    monitor.emitAll events

/-- A turn differs in what its observer has been told alone. -/
theorem turn_observed (service : Service σ) (life : Life σ) (monitor : Monitor) :
    (life.observed monitor).turn service = (life.turn service).observed
      ((life.observed monitor).turn service).session.world.monitor := by
  obtain ⟨events, told⟩ := life.session.advance_observed service
  simp only [turn, observed, told]
  rfl

theorem exists_emits (service : Service σ) (life : Life σ) :
    ∃ events, life.Emits service events := by
  obtain ⟨events, told⟩ := life.session.advance_observed service
  refine ⟨events, fun monitor => ?_⟩
  simp only [turn, observed, told]
  rfl

/-- Nothing that an act tells is lost. Besides the reader only the receiver touches the monitor: it
takes out what waits, and it may do so amid a turn. -/
def Kept (service : Service σ) (life : Life σ) : Act → Prop
  | .turn => ∃ events, life.Emits service events ∧ life.session.world.monitor.Keeps events
  | .close => True
  | .surround _ _ monitor => life.session.world.monitor.Takes monitor

/-- Every event that is told finds room in the channel. -/
def NeverFills (service : Service σ) : List Act → Life σ → Prop
  | [], _ => True
  | act :: acts, life => life.Kept service act ∧
    NeverFills service acts (life.perform service act)

/-- A channel that has room left in the end has never been full, if its receiver did nothing. -/
theorem neverFills_of_room {acts : List Act} {life : Life σ}
    (alone : ∀ act ∈ acts, act = .turn ∨ act = .close)
    (idle : life.session.world.monitor.plan = [])
    (room : (life.run service acts).session.world.monitor.accepts = true) :
    life.session.world.monitor.accepts = true ∧ life.NeverFills service acts := by
  induction acts generalizing life with
  | nil => exact ⟨room, trivial⟩
  | cons act acts inductionHypothesis =>
      obtain ⟨rfl | rfl, others⟩ := List.forall_mem_cons.mp alone
      · obtain ⟨events, emits⟩ := life.exists_emits service
        have told : (life.turn service).session.world.monitor = _ :=
          emits life.session.world.monitor
        obtain ⟨after, rest⟩ := inductionHypothesis others
          ((congrArg Monitor.plan told).trans (Monitor.plan_emitAll idle events)) room
        have before : (life.turn service).session.world.monitor.accepts = true := after
        rw [told] at before
        exact ⟨Monitor.accepts_of_emitAll idle before,
          ⟨events, emits, Monitor.keeps_of_room idle before⟩, rest⟩
      · have same : life.close.session.world.monitor = life.session.world.monitor :=
          congrArg World.monitor life.session.close_world
        obtain ⟨after, rest⟩ := inductionHypothesis others
          ((congrArg Monitor.plan same).trans idle) room
        exact ⟨same ▸ after, trivial, rest⟩

/-- The log accounts for a reader with these settings, which has made these visits. -/
structure Chronicled (settings : ReaderSettings) (visits : List Visit) (life : Life σ) :
    Prop where
  sound : life.Sound
  configured : life.session.reader.settings = settings
  chronicle : Chronicle life.opened (fun shard => batchesOf shard visits)
    life.session.world.monitor.log life.session.reader
  grown : Grown settings life.session.world.descriptions life.session.world.monitor.log
    life.session.reader

/-- A new reader has nothing to account for. -/
theorem begin_chronicled (settings : ReaderSettings) (served : σ) :
    (begin settings (.start served (.ofSettings settings.monitoring))).Chronicled settings [] where
  sound := begin_sound settings _
  configured := rfl
  chronicle := by
    refine ⟨fun _ member => absurd member List.not_mem_nil, fun shard _ => ⟨?_, rfl⟩,
      fun shard => ?_⟩
    · simp only [begin, Session.start, World.start, Monitor.log_ofSettings]
      rfl
    · exact Std.ExtTreeMap.getElem?_empty
  grown := by
    refine .unopened rfl rfl rfl ?_
    simp only [begin, Session.start, World.start, Monitor.log_ofSettings]
    rfl

/-- What surrounds a life may be replaced, as long as nothing of the log is lost. -/
theorem Chronicled.surround {life : Life σ} (chronicled : life.Chronicled settings visits)
    (clock : Clock) (signal : Signal) {monitor : Monitor}
    (log : monitor.log = life.session.world.monitor.log) :
    (life.surround clock signal monitor).Chronicled settings visits := by
  obtain ⟨sound, configured, chronicle, grown⟩ := chronicled
  rw [← log] at chronicle grown
  exact ⟨⟨sound.indexed, sound.held, sound.opened, sound.known⟩, configured, chronicle, grown⟩

/-- A turn carries the log on when the receiver does nothing and there is room left. -/
theorem Chronicled.turn_of_room {life : Life σ} (chronicled : life.Chronicled settings visits)
    (idle : life.session.world.monitor.plan = [])
    (room : (life.turn service).session.world.monitor.accepts = true) :
    (life.turn service).Chronicled settings (visits ++ (life.session.visit? service).toList) := by
  have sound := chronicled.sound
  have turn : Session.Turn service life.session _ _ := Session.advance_turn sound.indexed
  obtain ⟨events, tells, monitor⟩ := Session.advance_tells service sound.indexed
  have log : (life.turn service).session.world.monitor.log =
      life.session.world.monitor.log ++ events := by
    rw [← (Monitor.keeps_of_room idle (monitor ▸ room)).log, ← monitor]
    rfl
  refine ⟨turn_sound sound, (turn.settings sound.indexed).trans chronicled.configured, ?_, ?_⟩
  · simp only [batchesOf_append, log]
    exact tells.chronicle sound.indexed sound.opened chronicled.chronicle
  · rw [log]
    exact tells.grown sound.indexed sound.held chronicled.configured turn.precedes.descriptions
      chronicled.grown

/-- A turn carries the log on when every event that it tells is kept. -/
theorem turn_chronicled {life : Life σ} (chronicled : life.Chronicled settings visits)
    {events : List Event} (emits : life.Emits service events)
    (keeps : life.session.world.monitor.Keeps events) :
    (life.turn service).Chronicled settings (visits ++ (life.session.visit? service).toList) := by
  -- The same turn is watched by an observer with the same log who has room for all the events.
  let roomy := Monitor.resting (events.length + 1) life.session.world.monitor.log []
  have told : ((life.observed roomy).turn service).session.world.monitor =
      .resting (events.length + 1) life.session.world.monitor.log events :=
    (emits roomy).trans (Monitor.resting_emitAll (by simp))
  have before : (life.observed roomy).Chronicled settings visits :=
    chronicled.surround _ _ (List.append_nil _)
  have after := before.turn_of_room rfl
    (by rw [told]; exact Monitor.accepts_resting (Nat.lt_succ_self _) _)
  have visited : (life.observed roomy).session.visit? service = life.session.visit? service :=
    life.session.visit?_observed service roomy
  rw [visited, turn_observed, told] at after
  refine after.surround (life.turn service).session.world.clock
    (life.turn service).session.world.signal ?_
  have own : (life.turn service).session.world.monitor = _ := emits life.session.world.monitor
  exact (congrArg Monitor.log own).trans keeps.log

/-- A closing adds nothing to it. -/
theorem close_chronicled {life : Life σ} (chronicled : life.Chronicled settings visits) :
    life.close.Chronicled settings visits := by
  have sound := chronicled.sound
  refine ⟨close_sound sound, ?_, ?_, ?_⟩
  · rcases life.session.close_change with same | change
    · exact (congrArg Reader.settings same).trans chronicled.configured
    · exact (change.settings sound.indexed).trans chronicled.configured
  · simp only [close, Session.start, Session.close_world]
    exact Session.close_chronicle sound.indexed sound.held sound.opened chronicled.chronicle
  · simp only [close, Session.start, Session.close_world]
    exact chronicled.grown.rests (life.session.close_rests sound.indexed sound.held)

/-- Every act carries the log on, as long as nothing of it is lost. -/
theorem perform_chronicled {life : Life σ} (chronicled : life.Chronicled settings visits)
    (act : Act) (kept : life.Kept service act) :
    (life.perform service act).Chronicled settings (visits ++ life.visited service act) := by
  cases act with
  | turn =>
      obtain ⟨events, emits, keeps⟩ := kept
      exact turn_chronicled chronicled emits keeps
  | close => exact (List.append_nil visits).symm ▸ close_chronicled chronicled
  | surround clock signal monitor =>
      exact (List.append_nil visits).symm ▸ chronicled.surround clock signal kept.log

/-- So does a whole run. -/
theorem run_chronicled {life : Life σ} (chronicled : life.Chronicled settings visits)
    (acts : List Act) (unfilled : life.NeverFills service acts) :
    (life.run service acts).Chronicled settings (visits ++ life.visits service acts) := by
  induction acts generalizing life visits with
  | nil => exact (List.append_nil visits).symm ▸ chronicled
  | cons act acts inductionHypothesis =>
      obtain ⟨kept, rest⟩ := unfilled
      rw [run_cons, Life.visits, ← List.append_assoc]
      exact inductionHypothesis (perform_chronicled chronicled act kept) rest

/--
The events are a faithful log of the reader, as long as its channel never fills. Of every tracked
shard they tell first, and once, where it was opened; they tell that it is done exactly when it is,
once and last, right after they have told that it is exhausted; and they tell of the batches that
were applied to it, the last of which says how far it is behind. Besides the shards that the first
description has opened, as many are tracked as the completed shards are told to have brought.
-/
theorem log_faithful (service : Service σ) (settings : ReaderSettings) (served : σ)
    (acts : List Act)
    (unfilled : (begin settings (.start served (.ofSettings settings.monitoring))).NeverFills
      service acts) :
    let first := begin settings (.start served (.ofSettings settings.monitoring))
    let last := first.run service acts
    let log := last.session.world.monitor.log
    (∀ tracked ∈ last.session.reader.shards, ∃ start,
      ⟨tracked.id, start⟩ ∈ last.opened ∧
      Account start tracked.phase (kindsOf tracked.id log)
        (batchesOf tracked.id (first.visits service acts)) ∧
      last.session.reader.lag[tracked.id]? =
        (batchesOf tracked.id (first.visits service acts)).getLast?.map Prod.snd) ∧
    ∃ counts : List Nat,
      completionsOf log = counts.map (fun count => some (successorsText count)) ∧
      last.session.reader.shards.length =
        (firstOpened settings last.session.world.descriptions).length + counts.sum := by
  intro first last log
  have chronicled : last.Chronicled settings ([] ++ first.visits service acts) :=
    run_chronicled (begin_chronicled settings served) acts unfilled
  rw [List.nil_append] at chronicled
  refine ⟨fun tracked member => ?_, ?_⟩
  · have known : tracked.id ∈ last.opened.map Assignment.shard := by
      rw [chronicled.sound.opened]
      exact List.mem_map_of_mem member
    obtain ⟨⟨shard, start⟩, opened, same⟩ := List.mem_map.mp known
    obtain rfl : shard = tracked.id := same
    exact ⟨start, opened, (chronicled.chronicle.stories _ opened tracked member rfl).account,
      chronicled.chronicle.lag tracked.id⟩
  · cases chronicled.grown with
    | unopened none undescribed _ untold =>
        exact ⟨[], untold, by rw [none, undescribed]; rfl⟩
    | opened counts _ _ told size => exact ⟨counts, told, size⟩

/-- The split shard has one record, which is fetched again when it has been withheld. -/
def fetchedTwice : Script :=
  (Script.describing Reader.splitOnce).queueBatches "A"
    [.now (.ok ⟨[⟨"110", "key", [], none⟩], false, 5⟩),
      .now (.ok ⟨[⟨"110", "key", [], none⟩], false, 3⟩)]

/-- The first pass is dropped with the record, so the shard is exhausted twice; it is completed
once. -/
theorem fetchedTwice_faithful :
    let settings := { ReaderSettings.ofStream "stream" with monitoring := ⟨true, 16⟩ }
    let first := begin settings (.start fetchedTwice (.ofSettings settings.monitoring))
    let acts := [.turn, .turn, .close, .turn, .turn, .turn, .turn, .turn]
    let last := first.run Script.service acts
    let log := last.session.world.monitor.log
    first.NeverFills Script.service acts ∧
      (kindsOf "A" log).head? = some (.shard .assigned (some "TRIM_HORIZON")) ∧
      (kindsOf "A" log).count (.shard .exhausted none) = 2 ∧
      Account .trimHorizon .done (kindsOf "A" log) [(1, 5), (1, 3)] ∧
      last.session.reader.lag["A"]? = some 3 ∧
      ∃ counts : List Nat,
        completionsOf log = counts.map (fun count => some (successorsText count)) ∧
        2 = (firstOpened settings last.session.world.descriptions).length + counts.sum := by
  intro settings first acts last log
  have unfilled : first.NeverFills Script.service acts :=
    (neverFills_of_room (by simp [acts]) rfl (by decide +kernel)).2
  have shards : last.session.reader.shards =
      [⟨"A", .done, .atSequence "110"⟩, ⟨"B", .reading "B-iterator-3", .trimHorizon⟩] := by
    decide +kernel
  have batches : batchesOf "A" (first.visits Script.service acts) = [(1, 5), (1, 3)] := by
    decide +kernel
  obtain ⟨accounts, counts, told, size⟩ :=
    log_faithful Script.service settings fetchedTwice acts unfilled
  obtain ⟨start, _, account, lag⟩ :=
    accounts ⟨"A", .done, .atSequence "110"⟩ (shards ▸ List.mem_cons_self)
  have head : (kindsOf "A" log).head? = some (.shard .assigned (some "TRIM_HORIZON")) := by
    decide +kernel
  obtain rfl : start = .trimHorizon := by
    obtain ⟨said, rest, saidAs, kinds, _⟩ := account.assigned
    rw [kinds] at head
    cases head
    exact saidAs.unique .trimHorizon
  exact ⟨unfilled, head, by decide +kernel, batches ▸ account, lag.trans (by rw [batches]; rfl),
    counts, told, (congrArg List.length shards).symm.trans size⟩

end Life
end ShardedStream
