import ShardedStream.Proofs.Session.Drain
import ShardedStream.Proofs.Session.Stance
import ShardedStream.Proofs.Session.Stop

/-!
One sweep over the shards.
Whatever happens around a pass, the records that it has handed out and those that wait are what its
visits have fetched, its reader is what its visits have made of it, and its operations are those of
its preparation and of its visits.
-/

namespace ShardedStream

variable {σ : Type} {service : Service σ}

/-- A reader that has taken in what a visit came to, and has handed out all its records. -/
def Reader.takeIn (reader : Reader) (visit : Visit) : Reader :=
  match visit.result with
  | some (.ok outcome) => visit.deliveries.foldl Reader.handOut (reader.apply outcome).2
  | some (.error _) => reader
  | none => reader

/-- The numbers of records that have been handed out are saved one after the other. -/
def Checkpoint.recordAll (checkpoint : Checkpoint) (deliveries : List Delivery) : Checkpoint :=
  deliveries.foldl (fun checkpoint delivery =>
    checkpoint.record delivery.shard delivery.record.sequence) checkpoint

theorem Checkpoint.recordAll_append (checkpoint : Checkpoint) (first second : List Delivery) :
    checkpoint.recordAll (first ++ second) = (checkpoint.recordAll first).recordAll second :=
  List.foldl_append

/-- Of every shard the number of its last record among these is saved; without any record its entry
is what it was. -/
def Checkpoint.Saves (before : Checkpoint) (deliveries : List Delivery) (after : Checkpoint) :
    Prop :=
  ∀ shard, after.get? shard =
    ((recordsOf shard deliveries).getLast?.map Record.sequence).or (before.get? shard)

theorem Checkpoint.recordAll_saves (before : Checkpoint) (deliveries : List Delivery) :
    before.Saves deliveries (before.recordAll deliveries) := by
  intro shard
  induction deliveries generalizing before with
  | nil => rfl
  | cons delivery deliveries inductionHypothesis =>
      refine (inductionHypothesis (before.record delivery.shard delivery.record.sequence)).trans ?_
      rw [get?_record]
      by_cases own : delivery.shard = shard
      · obtain rfl := own
        rw [if_pos rfl, recordsOf_cons_self, List.getLast?_cons]
        cases (recordsOf delivery.shard deliveries).getLast? <;> rfl
      · rw [if_neg own, recordsOf_cons_ne _ own]

/-- A pass has come so far since it entered with a reader. -/
structure UnderWay (entered : Reader) (visits : List Visit) (handedOut : List Delivery)
    (session : Session σ) : Prop where
  indexed : session.reader.Indexed
  /-- Once the records that wait are handed out, the reader has taken in all visits. -/
  came : session.pass.buffer.foldl Reader.handOut session.reader =
    visits.foldl Reader.takeIn entered
  fetched : handedOut ++ session.pass.buffer = visits.flatMap Visit.deliveries
  saved : session.reader.checkpoint = entered.checkpoint.recordAll handedOut
  /-- A shard that has not been visited is tracked as it was. -/
  kept : ∀ tracked ∈ entered.shards, (∀ visit ∈ visits, visit.shard ≠ tracked.id) →
    tracked ∈ session.reader.shards
  route : ∃ stops waiting new,
    Route entered session.reader visits session.pass.queue stops waiting new

namespace UnderWay

variable {entered : Reader} {visits : List Visit} {handedOut : List Delivery}
  {session : Session σ}

/-- A record that waits is handed out. -/
theorem handsOut {delivery : Delivery} {rest : List Delivery}
    (underWay : UnderWay entered visits handedOut session)
    (held : session.pass.buffer = delivery :: rest) :
    UnderWay entered visits (handedOut ++ [delivery])
      { session with
        reader := session.reader.handOut delivery
        pass := { session.pass with buffer := rest } } := by
  obtain ⟨indexed, came, fetched, saved, kept, stops, waiting, new, route⟩ := underWay
  rw [held] at came fetched
  refine ⟨indexed, came, ?_, ?_, kept, stops, waiting, new, route.congr rfl⟩
  · rw [List.append_assoc]
    exact fetched
  · rw [Checkpoint.recordAll_append, ← saved]
    rfl

/-- One more visit is made, and its records wait. -/
theorem extend {reader : Reader} {visit : Visit} {later : Session σ}
    (came : reader = visits.foldl Reader.takeIn entered)
    (fetched : handedOut = visits.flatMap Visit.deliveries)
    (saved : later.reader.checkpoint = entered.checkpoint.recordAll handedOut)
    (kept : ∀ tracked ∈ entered.shards, (∀ visit ∈ visits, visit.shard ≠ tracked.id) →
      tracked ∈ reader.shards)
    (keeps : ∀ tracked ∈ reader.shards, visit.shard ≠ tracked.id → tracked ∈ later.reader.shards)
    (indexed : later.reader.Indexed)
    (taken : later.pass.buffer.foldl Reader.handOut later.reader = reader.takeIn visit)
    (brought : later.pass.buffer = visit.deliveries)
    (route : ∃ stops waiting new,
      Route entered later.reader (visits ++ [visit]) later.pass.queue stops waiting new) :
    UnderWay entered (visits ++ [visit]) handedOut later where
  indexed := indexed
  came := by rw [taken, came, List.foldl_append, List.foldl_cons, List.foldl_nil]
  fetched := by rw [brought, fetched, List.flatMap_append, List.flatMap_singleton]
  saved := saved
  kept := fun tracked member elsewhere => keeps tracked
    (kept tracked member fun other here => elsewhere other (List.mem_append_left _ here))
    (elsewhere visit (List.mem_append_right _ List.mem_cons_self))
  route := route

/-- The first shard of the queue is visited. -/
theorem visit (service : Service σ) {reader : Reader} {shard : ShardId} {rest : List ShardId}
    {world : World σ}
    (underWay : UnderWay entered visits handedOut
      (⟨reader, ⟨shard :: rest, [], true, false⟩, world⟩ : Session σ)) :
    ∃ made, (world.converse service reader.settings.retry.plan (reader.step shard)).2.exchanges =
        world.exchanges ++ made ∧
      UnderWay entered
        (visits ++ [⟨shard, made,
          (world.converse service reader.settings.retry.plan (reader.step shard)).1⟩])
        handedOut
        (Session.visit service ⟨reader, ⟨rest, [], true, false⟩, world⟩ shard).2 := by
  obtain ⟨indexed, came, fetched, saved, kept, stops, waiting, new, route⟩ := underWay
  simp only [List.foldl_nil, List.append_nil] at came fetched saved route
  obtain ⟨made, exchanges, conversation⟩ :=
    World.converse_conversation service reader.settings.retry.plan (reader.step shard) world
  obtain ⟨tracked, member, rfl⟩ := Reader.mem_ids.mp (route.known List.mem_cons_self)
  obtain ⟨consults, fetches⟩ := Reader.step_consults indexed member conversation
  have records := fetches.records
  refine ⟨made, exchanges, ?_⟩
  unfold Session.visit
  simp only [Session.plan]
  cases asked : world.converse service reader.settings.retry.plan (reader.step tracked.id) with
  | mk answer after =>
      rw [asked] at records
      obtain ⟨before, last, own, unlisted, latest, visited⟩ :=
        route.visited indexed member consults answer
      have brought : ∀ {buffer : List Delivery},
          buffer = (broughtBy answer).map (Delivery.mk tracked.id) →
            buffer = Visit.deliveries ⟨tracked.id, made, answer⟩ := fun same => by
        rw [Visit.deliveries, records, same]
      rcases answer with _ | error | outcome
      · exact extend came fetched saved kept (fun _ here _ => here) indexed rfl (brought rfl)
          ⟨_, _, _, visited⟩
      · exact extend came fetched saved kept (fun _ here _ => here) indexed rfl (brought rfl)
          ⟨_, _, _, visited⟩
      · obtain ⟨other, found, same, steps⟩ := Reader.step_steps indexed asked
        rw [indexed.eq_of_id_eq found member same] at steps
        have follows := Reader.follows_apply indexed member steps.shard
        have waits := brought (Reader.deliveries_apply indexed member steps.shard)
        refine extend came fetched (follows.checkpoint.trans saved) kept ?_ follows.indexed ?_ waits
          ⟨_, _, _, visited.brings (Reader.ids_apply indexed member steps.shard) ?_⟩
        · intro other here apart
          have same := follows.keeps here
          rwa [if_neg apart.symm] at same
        · simp only [Session.absorb, List.nil_append, Reader.takeIn, waits]
        · simp only [Session.absorb, Reader.revisit_apply indexed member steps.shard]
          cases revisits : outcome.transition.revisits with
          | false => exact .next _ _
          | true =>
              -- Only a shard that was not at its end before is put back in front.
              obtain ⟨unread, ended⟩ := steps.exhausted_of_revisits revisits
              have kept := follows.keeps member
              rw [if_pos rfl, ended] at kept
              have before : tracked.phase ≠ .exhausted := by
                rintro phase
                rw [phase] at unread
                cases unread
              rw [if_pos rfl, ← own]
              exact .again kept own.symm rfl (unlisted before) latest rfl

end UnderWay

/-- A pass has been opened for a reader, and has come so far. -/
inductive Stage (reader : Reader) :
    List Exchange → List Visit → List Delivery → Session σ → Prop where
  | unopened (world : World σ) : Stage reader [] [] [] (.start reader world)
  /-- The stream was not described, so there is nothing to visit. -/
  | shut {prepared : List Exchange} (undescribed : reader.Prepared prepared none)
      (finished : Bool) (world : World σ) :
      Stage reader prepared [] [] ⟨reader, ⟨[], [], true, finished⟩, world⟩
  | entered {prepared : List Exchange} {entered : Reader} {visits : List Visit}
      {handedOut : List Delivery} {session : Session σ}
      (opened : reader.Prepared prepared (some entered))
      (started : session.pass.started = true)
      (underWay : UnderWay entered visits handedOut session) :
      Stage reader prepared visits handedOut session

theorem Stage.indexed {reader : Reader} {prepared : List Exchange} {visits : List Visit}
    {handedOut : List Delivery} {session : Session σ}
    (stage : Stage reader prepared visits handedOut session) (indexed : reader.Indexed) :
    session.reader.Indexed := by
  cases stage with
  | unopened _ => exact indexed
  | shut _ _ _ => exact indexed
  | entered _ _ underWay => exact underWay.indexed

/-- Since a pass was opened, its operations have been those of its preparation and its visits. -/
structure Passing (reader : Reader) (world : World σ) (prepared : List Exchange)
    (visits : List Visit) (handedOut : List Delivery) (session : Session σ) : Prop where
  stage : Stage reader prepared visits handedOut session
  recorded : session.world.exchanges =
    world.exchanges ++ (prepared ++ visits.flatMap Visit.made)

namespace Passing

variable {reader : Reader} {world : World σ} {prepared : List Exchange} {visits : List Visit}
  {handedOut : List Delivery} {session : Session σ}

theorem started (reader : Reader) (world : World σ) :
    Passing reader world [] [] [] (.start reader world) :=
  ⟨.unopened world, (List.append_nil _).symm⟩

/-- A pass is entered when its preparation has brought the active shards. -/
theorem enter (service : Service σ) (reader : Reader) {world now : World σ}
    (indexed : reader.Indexed) (recorded : now.exchanges = world.exchanges) :
    ∃ prepared, Passing reader world prepared [] []
      ((Session.start reader now).enter service).2 := by
  obtain ⟨made, exchanges, conversation⟩ :=
    World.converse_conversation service reader.settings.retry.plan reader.prepare now
  have prepared := Reader.prepare_prepared conversation
  have all := exchanges.trans (congrArg (· ++ made) recorded)
  rw [← List.append_nil made] at all
  refine ⟨made, ?_⟩
  unfold Session.enter Session.start Pass.fresh
  simp only [Session.plan]
  cases asked : now.converse service reader.settings.retry.plan reader.prepare with
  | mk answer after =>
      rw [asked] at all prepared
      rcases answer with _ | error | _ | opened
      · exact ⟨.shut prepared false after, all⟩
      · exact ⟨.shut prepared true _, all⟩
      · exact ⟨.shut prepared true after, all⟩
      · exact ⟨.entered prepared rfl ⟨prepared.indexed indexed, rfl, rfl, rfl,
          fun _ here _ => here, _, _, _, .opened opened⟩, all⟩

/-- A turn without a visit leaves a pass to its preparation and its visits so far. -/
theorem still {progress : Progress} {later : Session σ} {handed : List Delivery}
    (advanced : session.advance service = (progress, later))
    (busy : ∀ shard rest, session.pass ≠ ⟨shard :: rest, [], true, false⟩)
    (same : handed = handedOut ++ progress.delivery?.toList)
    (passing : Passing reader world prepared visits handed later) :
    ∃ prepared, Passing reader world prepared (visits ++ (session.visit? service).toList)
      (handedOut ++ (session.advance service).1.delivery?.toList)
      (session.advance service).2 := by
  refine ⟨prepared, ?_⟩
  rw [advanced, Session.visit?_eq_none busy, Option.toList_none, List.append_nil]
  exact same ▸ passing

/-- A pass that has been entered hands out a record, visits a shard, or ends. -/
theorem turn_entered (service : Service σ) {entered : Reader}
    (opened : reader.Prepared prepared (some entered))
    (started : session.pass.started = true)
    (underWay : UnderWay entered visits handedOut session)
    (recorded : session.world.exchanges =
      world.exchanges ++ (prepared ++ visits.flatMap Visit.made)) :
    ∃ prepared, Passing reader world prepared (visits ++ (session.visit? service).toList)
      (handedOut ++ (session.advance service).1.delivery?.toList)
      (session.advance service).2 := by
  obtain ⟨now, ⟨queue, buffer, _, finished⟩, between⟩ := session
  obtain rfl : _ = true := started
  cases buffer with
  | cons delivery rest =>
      exact still (Session.advance_delivery rfl) (fun _ _ => by rintro ⟨⟩) rfl
        ⟨.entered opened rfl (underWay.handsOut rfl), recorded⟩
  | nil =>
      cases finished with
      | true =>
          exact still (Session.advance_finished rfl rfl) (fun _ _ => by rintro ⟨⟩)
            (List.append_nil _).symm ⟨.entered opened rfl underWay, recorded⟩
      | false =>
          cases queue with
          | nil =>
              exact still (Session.advance_drained rfl rfl rfl rfl) (fun _ _ => by rintro ⟨⟩)
                (List.append_nil _).symm
                ⟨.entered opened rfl { underWay with }, recorded⟩
          | cons shard rest =>
              obtain ⟨made, exchanges, visited⟩ := underWay.visit service
              refine ⟨prepared, ?_⟩
              rw [Session.visit?_eq_some exchanges, Session.advance_queued rfl rfl rfl rfl,
                Session.visit_silent]
              simp only [Option.toList_some, Option.toList_none, List.append_nil]
              refine ⟨.entered opened (Session.visit_started _ _ _) visited, ?_⟩
              rw [(Session.visit_conversed _ _ _).exchanges, List.flatMap_append,
                List.flatMap_singleton, ← List.append_assoc prepared,
                ← List.append_assoc world.exchanges, ← recorded]
              exact exchanges

/-- A turn of a pass makes one visit at most, and hands out one record at most. -/
theorem turn (service : Service σ)
    (passing : Passing reader world prepared visits handedOut session)
    (indexed : reader.Indexed) :
    ∃ prepared, Passing reader world prepared (visits ++ (session.visit? service).toList)
      (handedOut ++ (session.advance service).1.delivery?.toList)
      (session.advance service).2 := by
  obtain ⟨stage, recorded⟩ := passing
  cases stage with
  | unopened now =>
      obtain ⟨prepared, passing⟩ := enter service reader indexed
        (recorded.trans (List.append_nil _))
      have silent : [] = [] ++ ((Session.start reader now).enter service).1.delivery?.toList := by
        rw [Session.enter_silent]
        rfl
      exact still (Session.advance_unstarted rfl rfl rfl) (fun _ _ => by rintro ⟨⟩) silent passing
  | shut undescribed finished now =>
      cases finished with
      | true =>
          exact still (Session.advance_finished rfl rfl) (fun _ _ => by rintro ⟨⟩) rfl
            ⟨.shut undescribed true now, recorded⟩
      | false =>
          exact still (Session.advance_drained rfl rfl rfl rfl) (fun _ _ => by rintro ⟨⟩) rfl
            ⟨.shut undescribed true now, recorded⟩
  | entered opened started underWay =>
      exact turn_entered service opened started underWay recorded

/-- What goes on around a pass is no part of it. -/
theorem surround (passing : Passing reader world prepared visits handedOut session)
    (clock : Clock) (signal : Signal) (monitor : Monitor) :
    Passing reader world prepared visits handedOut
      { session with world := { session.world with clock, signal, monitor } } := by
  obtain ⟨stage, recorded⟩ := passing
  refine ⟨?_, recorded⟩
  cases stage with
  | unopened now => exact .unopened _
  | shut undescribed finished now => exact .shut undescribed finished _
  | entered opened started underWay =>
      exact .entered opened started
        { underWay with }

end Passing

/--
The stops of a pass, and the shards that still wait for theirs: first come the shards that were
active when the pass was opened, as they are tracked, and last the shards that the pass has brought.
-/
structure InOrder (entered : Reader) (visits : List Visit) (handedOut : List Delivery)
    (session : Session σ) (stops : List Stop) (waiting new : List ShardId) : Prop where
  visits : visits = stops.flatMap Stop.visits
  once : ∀ stop ∈ stops, stop.Once
  distinct : (stops.map Stop.shard ++ waiting).Nodup
  order : stops.map Stop.shard ++ waiting = entered.activeShards ++ new
  tracked : session.reader.ids = entered.ids ++ new
  queued : waiting <:+ session.pass.queue
  whole : ∀ stop ∈ stops, stop.Whole
  /-- The records are grouped by the stops; those that still wait are the last ones. -/
  grouped : handedOut ++ session.pass.buffer = stops.flatMap Stop.deliveries

theorem UnderWay.inOrder {entered : Reader} {visits : List Visit} {handedOut : List Delivery}
    {session : Session σ} (underWay : UnderWay entered visits handedOut session) :
    ∃ stops waiting new, InOrder entered visits handedOut session stops waiting new := by
  obtain ⟨indexed, _, fetched, _, _, stops, waiting, new, route⟩ := underWay
  refine ⟨stops, waiting, new, route.visits, route.once, route.distinct indexed, route.order,
    route.tracked, ?_, fun stop member => (route.once stop member).whole, ?_⟩
  · generalize session.pass.queue = queue at route
    cases route.queued with
    | next => exact List.suffix_refl _
    | again _ _ _ _ _ _ => exact List.suffix_cons _ _
  · rw [fetched, route.visits, List.flatMap_assoc]
    rfl

/-- A pass has visited nothing, or it has entered and visits its shards in order. -/
inductive InSweep (reader : Reader) :
    List Exchange → List Visit → List Delivery → Session σ → Prop where
  | unopened (world : World σ) : InSweep reader [] [] [] (.start reader world)
  | undescribed {prepared : List Exchange} (undescribed : reader.Prepared prepared none)
      (finished : Bool) (world : World σ) :
      InSweep reader prepared [] [] ⟨reader, ⟨[], [], true, finished⟩, world⟩
  | entered {prepared : List Exchange} {entered : Reader} {visits : List Visit}
      {handedOut : List Delivery} {session : Session σ} {stops : List Stop}
      {waiting new : List ShardId} (opened : reader.Prepared prepared (some entered))
      (inOrder : InOrder entered visits handedOut session stops waiting new) :
      InSweep reader prepared visits handedOut session

theorem Stage.inSweep {reader : Reader} {prepared : List Exchange} {visits : List Visit}
    {handedOut : List Delivery} {session : Session σ}
    (stage : Stage reader prepared visits handedOut session) :
    InSweep reader prepared visits handedOut session := by
  cases stage with
  | unopened world => exact .unopened world
  | shut undescribed finished world => exact .undescribed undescribed finished world
  | entered opened _ underWay =>
      obtain ⟨stops, waiting, new, inOrder⟩ := underWay.inOrder
      exact .entered opened inOrder

namespace Session

/-- This is what the last turn of a pass comes to. -/
def lastTurn : Option ReaderError → Progress
  | none => .ended
  | some error => .failed error

/-- The last turn of a pass hands out nothing. -/
theorem lastTurn_silent (error : Option ReaderError) : (lastTurn error).delivery? = none := by
  cases error <;> rfl

end Session

namespace Life

/-- A drained pass is a run of turns, and then one last turn. -/
theorem run_drains (life : Life σ) {later : Session σ} {turns : Nat} {deliveries : List Delivery}
    {error : Option ReaderError}
    (drains : life.session.Drains service turns deliveries error later) :
    let before := life.run service (List.replicate turns .turn)
    before.session.advance service = (Session.lastTurn error, later) ∧
      before.handedOut = life.handedOut ++ deliveries := by
  generalize same : life.session = session at drains
  induction drains generalizing life with
  | ended advanced =>
      rw [← same] at advanced
      exact ⟨advanced, (List.append_nil _).symm⟩
  | failed advanced =>
      rw [← same] at advanced
      exact ⟨advanced, (List.append_nil _).symm⟩
  | moved advanced _ inductionHypothesis =>
      rw [← same] at advanced
      obtain ⟨last, handed⟩ := inductionHypothesis (life.turn service) (congrArg Prod.snd advanced)
      refine ⟨last, handed.trans ?_⟩
      simp only [turn, advanced, Progress.delivery?, Option.toList_none, List.append_nil]
  | handsOut advanced _ inductionHypothesis =>
      rw [← same] at advanced
      obtain ⟨last, handed⟩ := inductionHypothesis (life.turn service) (congrArg Prod.snd advanced)
      refine ⟨last, handed.trans ?_⟩
      simp only [turn, advanced, Progress.delivery?, Option.toList_some, List.append_assoc,
        List.singleton_append]

/-- As long as it is not closed, a pass is its preparation and its visits. -/
theorem run_passing {reader : Reader} {world : World σ} (indexed : reader.Indexed)
    (acts : List Act) (unclosed : .close ∉ acts) {prepared : List Exchange} {visits : List Visit}
    {life : Life σ} (passing : Passing reader world prepared visits life.handedOut life.session) :
    ∃ prepared, Passing reader world prepared (visits ++ life.visits service acts)
      (life.run service acts).handedOut (life.run service acts).session := by
  induction acts generalizing prepared visits life with
  | nil => exact ⟨prepared, (List.append_nil visits).symm ▸ passing⟩
  | cons act acts inductionHypothesis =>
      rw [List.mem_cons, not_or] at unclosed
      rw [run_cons, Life.visits, ← List.append_assoc]
      cases act with
      | turn =>
          obtain ⟨prepared, next⟩ := passing.turn service indexed
          exact inductionHypothesis unclosed.2 next
      | close => exact absurd rfl unclosed.1
      | surround clock signal monitor =>
          rw [Life.visited, List.append_nil]
          exact inductionHypothesis unclosed.2 (passing.surround clock signal monitor)

/-- A pass is that from its start on. -/
theorem ofReader_passing (service : Service σ) {reader : Reader} (indexed : reader.Indexed)
    (world : World σ) {acts : List Act} (unclosed : .close ∉ acts) :
    let pass := ofReader reader world
    ∃ prepared, Passing reader world prepared (pass.visits service acts)
      (pass.run service acts).handedOut (pass.run service acts).session := by
  intro pass
  have start : Passing reader world [] [] pass.handedOut pass.session := .started reader world
  exact run_passing indexed acts unclosed start

end Life
end ShardedStream
