import ShardedStream.Proofs.Reader.Answer
import ShardedStream.Proofs.Session.Drain
import ShardedStream.Proofs.Session.Spared
import ShardedStream.Proofs.Session.Sweep
import ShardedStream.Script

/-!
Aborted passes.
A pass that returns an error has handed out everything that it has fetched, and it leaves its reader
as the visits before the failing one have made it. A later pass takes every shard up where this one
has left it.
-/

namespace ShardedStream

variable {σ : Type} {service : Service σ} {error : ReaderError}

namespace Session

variable {session later : Session σ}

/-- A turn fails in the preparation of its pass, or in a visit, and the reader stays as it is. -/
theorem advance_failed (advanced : session.advance service = (.failed error, later)) :
    later.reader = session.reader ∧ later.pass.buffer = [] ∧ later.pass.started = true ∧
      ((session.pass.started = false ∧ session.reader.initialized = false ∧
          session.visit? service = none) ∨
        ∃ failing, session.visit? service = some failing ∧
          failing.result = some (.error error)) := by
  obtain ⟨reader, ⟨queue, buffer, started, finished⟩, world⟩ := session
  cases buffer with
  | cons delivery rest => cases advanced
  | nil =>
      cases finished with
      | true => cases advanced
      | false =>
          cases started with
          | false =>
              rw [advance_unstarted rfl rfl rfl, enter] at advanced
              dsimp only at advanced
              split at advanced
              · cases advanced
              · cases advanced
              · cases advanced
              · rename_i failure after asked
                cases advanced
                refine ⟨rfl, rfl, rfl, .inl ⟨rfl, ?_, ?_⟩⟩
                · rw [Bool.eq_false_iff]
                  intro ready
                  rw [Reader.converse_prepared ready] at asked
                  cases asked
                · exact visit?_eq_none fun _ _ same => by cases same
          | true =>
              cases queue with
              | nil => cases advanced
              | cons shard rest =>
                  rw [advance_queued rfl rfl rfl rfl, visit] at advanced
                  split at advanced
                  · cases advanced
                  · cases advanced
                  · rename_i failure after asked
                    cases advanced
                    refine ⟨rfl, rfl, rfl, .inr ⟨_, rfl, ?_⟩⟩
                    exact congrArg Prod.fst asked

end Session

namespace Life

/-- Whoever gets an error has come to a turn that fails, without a record on the way. -/
theorem exists_failed_next {fuel : Nat} {life : Life σ} {later : Session σ}
    (failed : life.session.next service fuel = (some (.error error), later)) :
    ∃ calm, .close ∉ calm ∧ (life.run service calm).handedOut = life.handedOut ∧
      (life.run service calm).session.advance service = (.failed error, later) := by
  induction fuel generalizing life with
  | zero => cases failed
  | succ fuel inductionHypothesis =>
      rw [Session.next] at failed
      split at failed
      · cases failed
      · cases failed
      · rename_i failure after advanced
        cases failed
        exact ⟨[], List.not_mem_nil, rfl, advanced⟩
      · cases failed
      · rename_i after advanced
        have moved : (life.turn service).session = after := congrArg Prod.snd advanced
        rw [← moved] at failed
        obtain ⟨calm, unclosed, same, last⟩ := inductionHypothesis failed
        refine ⟨.turn :: calm, ?_, same.trans ?_, last⟩
        · rw [List.mem_cons, not_or]
          exact ⟨by simp, unclosed⟩
        · simp only [turn, advanced, Progress.delivery?, Option.toList_none, List.append_nil]

/-- An impatient caller comes to the same turn. -/
theorem exists_failed_nextWithin {fuel : Nat} {patience : Option Nat} {life : Life σ}
    {later : Session σ}
    (failed : life.session.nextWithin service fuel patience = (some (.error error), later)) :
    ∃ calm after, .close ∉ calm ∧ (life.run service calm).handedOut = life.handedOut ∧
      (life.run service calm).session.advance service = (.failed error, after) ∧
      later = { after with world := after.world.limitTo none } := by
  let limited := life.session.world.limitTo patience
  have next : (life.surround limited.clock limited.signal limited.monitor).session.next service
      fuel = (some (.error error), (Session.next service fuel
        { life.session with world := limited }).2) :=
    Prod.ext (congrArg (fun answered => answered.1) failed) rfl
  obtain ⟨calm, unclosed, same, last⟩ := exists_failed_next next
  refine ⟨.surround limited.clock limited.signal limited.monitor :: calm, _, ?_, same, last,
    (congrArg Prod.snd failed).symm⟩
  rw [List.mem_cons, not_or]
  exact ⟨by simp, unclosed⟩

/-- The runs of a life follow each other with their visits. -/
theorem visits_append (first second : List Act) (life : Life σ) :
    life.visits service (first ++ second) =
      life.visits service first ++ (life.run service first).visits service second := by
  induction first generalizing life with
  | nil => rfl
  | cons act first inductionHypothesis =>
      rw [List.cons_append, visits, visits, inductionHypothesis, List.append_assoc]
      rfl

end Life

/--
However many passes follow, the next visit to a shard first asks what the entry of the shard says
when this pass is closed.
-/
def Session.TakenUp (service : Service σ) (session : Session σ) : Prop :=
  ∀ tracked ∈ session.reader.shards, ∀ acts visit,
    let next := Life.ofReader session.close.1 session.close.2
    (∀ other ∈ next.visits service acts, other.shard ≠ tracked.id) →
      (next.run service acts).session.visit? service = some visit → visit.shard = tracked.id →
        visit.made.head?.map Exchange.request = session.reader.settings.asksFirst? tracked

/-- A pass that has handed out everything leaves its shards to be taken up. -/
theorem Session.takenUp {session : Session σ} (indexed : session.reader.Indexed)
    (empty : session.pass.buffer = []) : session.TakenUp service := by
  intro tracked member acts visit next elsewhere visits own
  have spared : next.session.Spared tracked session.reader.settings := by
    simp only [next, Session.close_of_empty empty]
    exact ⟨indexed, rfl, member, fun _ waits => absurd waits List.not_mem_nil⟩
  exact (Life.run_spared acts spared elsewhere).first visits own

/--
A pass fails in its preparation, or in its last visit. Then its reader is what the visits before
that one have made of it, and the shards without a visit are tracked as they were.
-/
inductive StoppedBy (reader : Reader) (error : ReaderError) :
    List Exchange → List Visit → Reader → Prop where
  | preparation {prepared : List Exchange} (undescribed : reader.Prepared prepared none) :
      StoppedBy reader error prepared [] reader
  | visit {prepared : List Exchange} {entered : Reader} {before : List Visit} {failing : Visit}
      (opened : reader.Prepared prepared (some entered))
      (failed : failing.result = some (.error error))
      (kept : ∀ tracked ∈ entered.shards,
        (∀ visit ∈ before ++ [failing], visit.shard ≠ tracked.id) →
          tracked ∈ (before.foldl Reader.takeIn entered).shards) :
      StoppedBy reader error prepared (before ++ [failing]) (before.foldl Reader.takeIn entered)

/-- This is what an aborted pass leaves behind, with its visits and the records that it returned. -/
structure Aborted (service : Service σ) (reader : Reader) (world : World σ) (error : ReaderError)
    (visits : List Visit) (handedOut : List Delivery) (later : Session σ) : Prop where
  /-- Nothing was asked but in the preparation and in the visits. -/
  stopped : ∃ prepared, StoppedBy reader error prepared visits later.reader ∧
    later.world.exchanges = world.exchanges ++ (prepared ++ visits.flatMap Visit.made)
  /-- Every record that was fetched has been handed out, and the last number of each shard is
  saved. -/
  fetched : handedOut = visits.flatMap Visit.deliveries
  saved : reader.checkpoint.Saves handedOut later.reader.checkpoint
  empty : later.pass.buffer = []
  closed : later.close = (later.reader, later.world)
  /-- A visit opens iterators of its own shard only. -/
  own : ∀ visit ∈ visits, ∀ exchange ∈ visit.made, ∀ stream shard position,
    exchange.request = .openIterator stream shard position → shard = visit.shard
  unreached : ∀ shard ∈ later.pass.queue, ∀ visit ∈ visits, visit.shard ≠ shard
  /-- The failing visit first asked what the entry of its shard still says. -/
  failing : ∀ failing ∈ visits.getLast?, ∃ tracked ∈ later.reader.shards,
    tracked.id = failing.shard ∧
      failing.made.head?.map Exchange.request = later.reader.settings.asksFirst? tracked
  takenUp : later.TakenUp service

namespace Passing

variable {reader : Reader} {world : World σ} {prepared : List Exchange}
  {handedOut : List Delivery} {later : Session σ}

/-- A pass that was never entered leaves its reader as it was. -/
theorem aborted_preparation (passing : Passing reader world prepared [] [] later)
    (indexed : reader.Indexed) (fresh : reader.initialized = false)
    (started : later.pass.started = true) (same : later.reader = reader)
    (empty : later.pass.buffer = []) :
    Aborted service reader world error [] [] later := by
  obtain ⟨stage, recorded⟩ := passing
  have undescribed : reader.Prepared prepared none := by
    cases stage with
    | unopened _ => cases started
    | shut undescribed _ _ => exact undescribed
    | entered opened _ underWay =>
        -- Whoever has entered is initialized.
        have came := underWay.came
        rw [empty, List.foldl_nil, List.foldl_nil, same] at came
        have initialized := opened.initialized
        rw [← came, fresh] at initialized
        cases initialized
  exact {
    stopped := ⟨prepared, by rw [same]; exact .preparation undescribed, recorded⟩
    fetched := rfl
    saved := fun shard => congrArg (fun left => left.checkpoint.get? shard) same
    empty
    closed := Session.close_of_empty empty
    own := fun _ member => absurd member List.not_mem_nil
    unreached := fun _ _ _ member => absurd member List.not_mem_nil
    failing := fun _ member => by cases member
    takenUp := Session.takenUp (same ▸ indexed) empty }

/-- A pass that has been entered leaves its reader as it was before the failing visit. -/
theorem aborted_visit {before : List Visit} {failing : Visit}
    (passing : Passing reader world prepared (before ++ [failing]) handedOut later)
    (indexed : reader.Indexed) (empty : later.pass.buffer = [])
    (failed : failing.result = some (.error error))
    (first : failing.made.head?.map Exchange.request =
      (later.reader.step failing.shard).firstRequest?) :
    Aborted service reader world error (before ++ [failing]) handedOut later := by
  obtain ⟨stage, recorded⟩ := passing
  generalize whole : before ++ [failing] = visits at *
  cases stage with
  | unopened _ => simp at whole
  | shut _ _ _ => simp at whole
  | @entered _ entered _ _ _ opened started underWay =>
      obtain ⟨sound, came, fetched, saved, kept, stops, waiting, new, route⟩ := underWay
      have latest : visits.getLast? = some failing := by rw [← whole, List.getLast?_concat]
      rw [empty, List.foldl_nil, ← whole, List.foldl_append, List.foldl_cons, List.foldl_nil,
        Reader.takeIn, failed] at came
      rw [empty, List.append_nil] at fetched
      refine ⟨⟨prepared, ?_, recorded⟩, fetched, ?_, empty, Session.close_of_empty empty, ?_, ?_,
        ?_, Session.takenUp sound empty⟩
      · rw [← whole] at kept ⊢
        rw [came] at kept ⊢
        exact .visit opened failed kept
      · rw [saved, opened.checkpoint indexed]
        exact reader.checkpoint.recordAll_saves handedOut
      · intro visit member exchange made stream shard position opened
        obtain ⟨stop, here, inside, same⟩ := route.stopped member
        rw [same]
        exact (route.once stop here).opens exchange
          (List.mem_flatMap.mpr ⟨visit, inside, made⟩) stream shard position opened
      · exact fun shard queued => route.unreached sound latest
          (fun outcome came => by rw [failed] at came; cases came) queued
      · intro last member
        rw [latest] at member
        obtain rfl := Option.some.inj member
        obtain ⟨tracked, here, same⟩ := Reader.mem_ids.mp
          (route.visited_known (whole ▸ List.mem_append_right _ List.mem_cons_self))
        refine ⟨tracked, here, same, ?_⟩
        rw [first, ← same, Reader.firstRequest_step sound here]

/-- A pass is aborted by the turn that fails, whatever goes on around it afterwards. -/
theorem aborted {visits : List Visit} {session after : Session σ}
    (passing : Passing reader world prepared visits handedOut session) (indexed : reader.Indexed)
    (advanced : session.advance service = (.failed error, after))
    (clock : Clock) (signal : Signal) (monitor : Monitor) :
    Aborted service reader world error (visits ++ (session.visit? service).toList) handedOut
      { after with world := { after.world with clock, signal, monitor } } := by
  obtain ⟨prepared, next⟩ := passing.turn service indexed
  rw [advanced, Progress.delivery?, Option.toList_none, List.append_nil] at next
  obtain ⟨same, empty, started, cause⟩ := Session.advance_failed advanced
  rcases cause with ⟨unstarted, fresh, visitless⟩ | ⟨failing, visits, failed⟩
  · rw [visitless, Option.toList_none, List.append_nil] at next ⊢
    cases passing.stage with
    | unopened now =>
        exact (next.surround clock signal monitor).aborted_preparation indexed fresh started same
          empty
    | shut _ _ _ => cases unstarted
    | entered _ begun _ =>
        rw [begun] at unstarted
        cases unstarted
  · have first := Session.visit?_first visits
    rw [← same] at first
    rw [visits, Option.toList_some] at next ⊢
    exact (next.surround clock signal monitor).aborted_visit indexed empty failed first

end Passing

/--
An aborted pass leaves earlier progress behind and nothing else: wherever the pass had come when it
returned its error, its reader is as the visits before the failing one have made it, and a later
pass takes every shard up from there.
-/
theorem Life.pass_aborts {settings : ReaderSettings} {reader : Reader}
    (reached : Reader.Reached settings reader) (world : World σ) (acts : List Act)
    (unclosed : .close ∉ acts) {fuel : Nat} {patience : Option Nat} {later : Session σ}
    (failed : ((Life.ofReader reader world).run service acts).session.nextWithin service fuel
      patience = (some (.error error), later)) :
    ∃ rest, .close ∉ rest ∧
      ((Life.ofReader reader world).run service (acts ++ rest)).session = later ∧
      Aborted service reader world error
        ((Life.ofReader reader world).visits service (acts ++ rest))
        ((Life.ofReader reader world).run service acts).handedOut later := by
  obtain ⟨calm, after, still, same, advanced, rfl⟩ := exists_failed_nextWithin failed
  let left := after.world.limitTo none
  have uninterrupted : .close ∉ acts ++ calm := by
    rw [List.mem_append, not_or]
    exact ⟨unclosed, still⟩
  obtain ⟨prepared, passing⟩ := ofReader_passing service reached.indexed world uninterrupted
  rw [run_append, same] at passing
  refine ⟨calm ++ [.turn, .surround left.clock left.signal left.monitor], ?_, ?_, ?_⟩
  · rw [List.mem_append, not_or]
    exact ⟨still, by simp⟩
  · rw [run_append, run_append, run_cons, run_cons, run_nil, perform, perform, turn, advanced]
    rfl
  · rw [← List.append_assoc, visits_append, run_append]
    have aborted := passing.aborted reached.indexed advanced left.clock left.signal left.monitor
    rw [visits, visits, visits, visited, visited, List.append_nil, List.append_nil]
    exact aborted

namespace Session

/-- Three shards have been opened, all at their beginnings. -/
def threeOpened : Reader :=
  { ((Reader.ofSettings (.ofStream "stream")).track
      (((Assignments.empty.assign "A" .trimHorizon).assign "B" .trimHorizon).assign "C"
        .trimHorizon)).2 with initialized := true }

/-- The first shard has a record, and the second one may not be read. -/
def brokenService : Script :=
  (Script.describing [])
    |>.queueBatches "A" [.now (.ok ⟨[⟨"110", "key", [], none⟩], true, 5⟩)]
    |>.queueBatches "B" [.now (.error (.accessDenied "denied"))]

/-- The pass has handed out the record of the first shard. -/
def afterFirst : Life Script :=
  (Life.ofReader threeOpened (.start brokenService .off)).run Script.service [.turn, .turn, .turn]

/-- The pass is aborted at the second shard, and the third one has not been reached. -/
theorem brokenService_aborts :
    let answered := afterFirst.session.nextWithin Script.service 2 none
    afterFirst.handedOut = [⟨"A", "110", "key", [], none⟩] ∧
      answered.1 = some (.error (.client (.accessDenied "denied"))) ∧
      answered.2.pass.queue = ["C"] ∧ answered.2.reader.checkpoint.get? "A" = some "110" ∧
      ∃ rest, .close ∉ rest ∧
        ((Life.ofReader threeOpened (.start brokenService .off)).run Script.service
          ([.turn, .turn, .turn] ++ rest)).session = answered.2 ∧
        Aborted Script.service threeOpened (.start brokenService .off)
          (.client (.accessDenied "denied"))
          ((Life.ofReader threeOpened (.start brokenService .off)).visits Script.service
            ([.turn, .turn, .turn] ++ rest))
          afterFirst.handedOut answered.2 := by
  intro answered
  have failed : answered.1 = some (.error (.client (.accessDenied "denied"))) := by
    decide +kernel
  have reached : Reader.Reached (.ofStream "stream") threeOpened := .single (.prepared _ _)
  exact ⟨by decide +kernel, failed, by decide +kernel, by decide +kernel,
    Life.pass_aborts reached (.start brokenService .off) [.turn, .turn, .turn] (by simp)
      (Prod.ext failed rfl)⟩

end Session
end ShardedStream
