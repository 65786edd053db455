import ShardedStream.Proofs.Reader.Failure
import ShardedStream.Proofs.Reader.Succession
import ShardedStream.Proofs.Session.Queue

/-!
Which failures end a pass.
One failure of the service that is neither throttling nor expected ends its pass with an error, and
nothing else does. A pass that has ended so makes no more calls.
-/

namespace ShardedStream

variable {σ : Type} {service : Service σ}

/-- A turn raises one error or none. -/
def Progress.raised? : Progress → Option ReaderError
  | .delivered _ => none
  | .ended => none
  | .failed error => some error
  | .unanswered => none
  | .moved => none

namespace Session

variable {session : Session σ}

/-- The pass is over, and all its records have been handed out. -/
def Spent (session : Session σ) : Prop :=
  session.pass.finished = true ∧ session.pass.buffer = []

/-- The operations of a turn raise its error, and an error ends the pass. -/
structure Raised (before : Session σ) (error : Option ReaderError) (after : Session σ) : Prop where
  made : ∃ made, Raises made error ∧ after.world.exchanges = before.world.exchanges ++ made
  spent : error ≠ none → after.Spent

theorem raised_refl (session : Session σ) : session.Raised none session :=
  ⟨⟨[], .nothing, (List.append_nil _).symm⟩, fun raised => absurd rfl raised⟩

/-- A stretch of a pass that raises nothing may be followed by another one. -/
theorem Raised.trans {between after : Session σ} {error : Option ReaderError}
    (first : session.Raised none between) (second : between.Raised error after) :
    session.Raised error after := by
  obtain ⟨earlier, quiet, before⟩ := first.made
  obtain ⟨later, raises, rest⟩ := second.made
  refine ⟨⟨earlier ++ later, quiet.append raises, ?_⟩, second.spent⟩
  rw [rest, before, List.append_assoc]

/-- Opening a pass fails by the service alone. -/
theorem enter_raised (service : Service σ) (session : Session σ)
    (empty : session.pass.buffer = []) :
    session.Raised (session.enter service).1.raised? (session.enter service).2 := by
  obtain ⟨made, raises, exchanges⟩ := World.converse_raises service session.plan
    session.reader.surfaces_prepare session.world
  unfold enter
  simp only [plan] at raises exchanges ⊢
  generalize session.world.converse service session.reader.settings.retry.plan
    session.reader.prepare = conversed at raises exchanges ⊢
  obtain ⟨answer, world⟩ := conversed
  rcases answer with _ | error | _ | reader
  · exact ⟨⟨made, raises, exchanges⟩, fun raised => absurd rfl raised⟩
  · exact ⟨⟨made, raises, exchanges⟩, fun _ => ⟨rfl, empty⟩⟩
  · exact ⟨⟨made, raises, exchanges⟩, fun raised => absurd rfl raised⟩
  · exact ⟨⟨made, raises, exchanges⟩, fun raised => absurd rfl raised⟩

/-- A visit to a tracked shard fails by the service alone. -/
theorem visit_raised (service : Service σ) (session : Session σ)
    (empty : session.pass.buffer = []) {shard : ShardId} {tracked : Tracked}
    (found : session.reader.tracked? shard = some tracked) :
    session.Raised (session.visit service shard).1.raised? (session.visit service shard).2 := by
  obtain ⟨made, raises, exchanges⟩ := World.converse_raises service session.plan
    (Reader.surfaces_step found) session.world
  unfold visit
  generalize session.world.converse service session.plan (session.reader.step shard) = conversed
    at raises exchanges ⊢
  obtain ⟨answer, world⟩ := conversed
  rcases answer with _ | error | outcome
  · exact ⟨⟨made, raises, exchanges⟩, fun raised => absurd rfl raised⟩
  · exact ⟨⟨made, raises, exchanges⟩, fun _ => ⟨rfl, empty⟩⟩
  · refine ⟨⟨made, raises, ?_⟩, fun raised => absurd rfl raised⟩
    simp only [absorb, World.reportAll_exchanges]
    exact exchanges

/-- A turn fails by the service alone. -/
theorem advance_raised (service : Service σ) (session : Session σ)
    (indexed : session.reader.Indexed) (queued : session.Queued) :
    session.Raised (session.advance service).1.raised? (session.advance service).2 := by
  unfold advance
  split
  · exact ⟨⟨[], .nothing, (List.append_nil _).symm⟩, fun raised => absurd rfl raised⟩
  · rename_i empty
    split
    · exact raised_refl session
    · split
      · exact enter_raised service session empty
      · split
        · exact ⟨⟨[], .nothing, (List.append_nil _).symm⟩, fun raised => absurd rfl raised⟩
        · rename_i shard rest filled
          obtain ⟨tracked, member, same⟩ :=
            Reader.mem_ids.mp (queued shard (filled ▸ List.mem_cons_self))
          have found := indexed.tracked?_eq_some_iff.mpr ⟨member, same⟩
          have visited := visit_raised service
            { session with pass := { session.pass with queue := rest } } empty found
          exact ⟨visited.made, visited.spent⟩

/-- Asking for the next record fails by the service alone, and leaves the pass in order. -/
theorem next_raised (service : Service σ) (fuel : Nat) (session : Session σ)
    (indexed : session.reader.Indexed) (queued : session.Queued) :
    session.Raised (raised? (session.next service fuel).1) (session.next service fuel).2 ∧
      (session.next service fuel).2.reader.Indexed ∧ (session.next service fuel).2.Queued := by
  induction fuel generalizing session with
  | zero => exact ⟨raised_refl session, indexed, queued⟩
  | succ fuel inductionHypothesis =>
      have raised := advance_raised service session indexed queued
      have turn : Turn service session _ _ := advance_turn indexed
      have indexedLater := (turn.indexed indexed).1
      have queuedLater : (session.advance service).2.Queued := queued.advance indexed
      unfold next
      generalize session.advance service = advanced at raised indexedLater queuedLater
      obtain ⟨progress, later⟩ := advanced
      cases progress with
      | moved =>
          obtain ⟨rest, kept⟩ := inductionHypothesis later indexedLater queuedLater
          exact ⟨raised.trans rest, kept⟩
      | _ => exact ⟨raised, indexedLater, queuedLater⟩

/-- A pass that is over returns nothing and changes nothing. -/
theorem Spent.next (spent : session.Spent) (fuel : Nat) :
    session.next service (fuel + 1) = (some (.ok none), session) := by
  rw [Session.next, advance_finished spent.2 spent.1]

end Session

/-- This is what can happen while a pass is open. -/
inductive Demand where
  /-- The caller asks for the next record, and waits only so long; the pass may take one turn more
  than it has turns to spare. -/
  | next (spare : Nat) (patience : Option Nat)
  /-- Time passes, and others use the signal and the monitor. -/
  | surround (clock : Clock) (signal : Signal) (monitor : Monitor)

/-- The answer to somebody who asks for the next record. -/
abbrev NextAnswer := Option (Except ReaderError (Option Delivery))

namespace Session

/-- The pass serves its caller, whose answers come in order. -/
def serve (service : Service σ) : List Demand → Session σ → List NextAnswer × Session σ
  | [], session => ([], session)
  | .next spare patience :: demands, session =>
    let answered := session.nextWithin service (spare + 1) patience
    let rest := serve service demands answered.2
    (answered.1 :: rest.1, rest.2)
  | .surround clock signal monitor :: demands, session =>
    serve service demands
      { session with world := { session.world with clock, signal, monitor } }

/-- An impatient caller meets the same failures. -/
theorem nextWithin_raised (service : Service σ) (fuel : Nat) (patience : Option Nat)
    (session : Session σ)
    (indexed : session.reader.Indexed) (queued : session.Queued) :
    session.Raised (raised? (session.nextWithin service fuel patience).1)
        (session.nextWithin service fuel patience).2 ∧
      (session.nextWithin service fuel patience).2.reader.Indexed ∧
      (session.nextWithin service fuel patience).2.Queued := by
  obtain ⟨raised, indexedLater, queuedLater⟩ := next_raised service fuel
    { session with world := session.world.limitTo patience } indexed queued
  exact ⟨⟨raised.made, raised.spent⟩, indexedLater, queuedLater⟩

/-- A pass that is over has nothing more to say, and it makes no call. -/
theorem Spent.serve (service : Service σ) {session : Session σ} (spent : session.Spent)
    (demands : List Demand) :
    (∀ answer ∈ (session.serve service demands).1, answer = some (.ok none)) ∧
      (session.serve service demands).2.Spent ∧
      (session.serve service demands).2.world.exchanges = session.world.exchanges := by
  induction demands generalizing session with
  | nil => exact ⟨fun _ member => absurd member List.not_mem_nil, spent, rfl⟩
  | cons demand demands inductionHypothesis =>
      cases demand with
      | next spare patience =>
          have answered : session.nextWithin service (spare + 1) patience = (some (.ok none),
              { session with world := (session.world.limitTo patience).limitTo none }) := by
            have impatient : Spent { session with world := session.world.limitTo patience } := spent
            rw [nextWithin, impatient.next]
          have patient : Spent { session with
            world := (session.world.limitTo patience).limitTo none } := spent
          obtain ⟨rest, spentLater, exchanges⟩ := inductionHypothesis patient
          simp only [Session.serve, answered]
          refine ⟨fun answer member => ?_, spentLater, exchanges⟩
          rcases List.mem_cons.mp member with rfl | later
          · rfl
          · exact rest answer later
      | surround clock signal monitor =>
          have surrounded : Spent { session with
            world := { session.world with clock, signal, monitor } } := spent
          exact inductionHypothesis surrounded

/-- This is the first error among some answers. -/
def firstError? (answers : List NextAnswer) : Option ReaderError := answers.findSome? raised?

/-- After an error there is nothing but the end of the pass. -/
def Closes (answers : List NextAnswer) : Prop :=
  ∀ before error after, answers = before ++ some (.error error) :: after →
    ∀ answer ∈ after, answer = some (.ok none)

theorem closes_cons {answer : NextAnswer} {answers : List NextAnswer}
    (rest : ∀ error, answer = some (.error error) →
      ∀ answer ∈ answers, answer = some (.ok none))
    (closes : Closes answers) : Closes (answer :: answers) := by
  intro before error after split
  cases before with
  | nil =>
      obtain ⟨first, rfl⟩ := List.cons.inj split
      exact rest error first
  | cons _ before => exact closes before error after (List.cons.inj split).2

/-- When nothing but the end follows an error, every error is the first one. -/
theorem Closes.mem_iff {answers : List NextAnswer} (closes : Closes answers)
    (error : ReaderError) : some (.error error) ∈ answers ↔ firstError? answers = some error := by
  induction answers with
  | nil => simp [firstError?]
  | cons answer answers inductionHypothesis =>
      have rest := inductionHypothesis fun before error after split =>
        closes (answer :: before) error after (congrArg (answer :: ·) split)
      simp only [firstError?, List.findSome?_cons, List.mem_cons] at rest ⊢
      rcases answer with _ | first | delivery
      · simpa [raised?] using rest
      · have after := closes [] first answers rfl
        simp only [raised?, Option.some.injEq, Except.error.injEq]
        constructor
        · rintro (same | later)
          · exact same.symm
          · cases after _ later
        · rintro rfl
          exact .inl rfl
      · simpa [raised?] using rest

/-- Whoever asks for the records of a pass meets the failures of the service, and no others. -/
theorem serve_raised (service : Service σ) (demands : List Demand) (session : Session σ)
    (indexed : session.reader.Indexed) (queued : session.Queued) :
    session.Raised (firstError? (session.serve service demands).1)
        (session.serve service demands).2 ∧
      Closes (session.serve service demands).1 := by
  induction demands generalizing session with
  | nil => exact ⟨raised_refl session, fun before error after split => by simp [serve] at split⟩
  | cons demand demands inductionHypothesis =>
      cases demand with
      | next spare patience =>
          obtain ⟨raised, indexedLater, queuedLater⟩ :=
            nextWithin_raised service (spare + 1) patience session indexed queued
          obtain ⟨rest, closes⟩ := inductionHypothesis _ indexedLater queuedLater
          simp only [serve, firstError?, List.findSome?_cons]
          cases error : raised? (session.nextWithin service (spare + 1) patience).1 with
          | none =>
              rw [error] at raised
              refine ⟨raised.trans rest, closes_cons (fun other same => ?_) closes⟩
              rw [same] at error
              cases error
          | some other =>
              rw [error] at raised
              have ended := raised.spent (Option.some_ne_none _)
              obtain ⟨silent, spent, exchanges⟩ := ended.serve service demands
              obtain ⟨made, raises, before⟩ := raised.made
              exact ⟨⟨⟨made, raises, exchanges.trans before⟩, fun _ => spent⟩,
                closes_cons (fun _ _ => silent) closes⟩
      | surround clock signal monitor =>
          obtain ⟨raised, closes⟩ := inductionHypothesis
            { session with world := { session.world with clock, signal, monitor } } indexed queued
          exact ⟨⟨raised.made, raised.spent⟩, closes⟩

/-- This is how the failures of the operations of a pass show in its answers. -/
structure Shows (made : List Exchange) (answers : List NextAnswer) : Prop where
  /-- The errors are the failures that end the pass. -/
  raised : ∀ error, some (.error error) ∈ answers ↔
    ∃ exchange ∈ made, ∃ fault, exchange.AbortsWith fault ∧ error = .client fault
  /-- Nothing is asked after such a failure. -/
  last : ∀ earlier exchange later fault, made = earlier ++ exchange :: later →
    exchange.AbortsWith fault → later = []
  /-- No attempt follows such a failure. -/
  unretried : ∀ exchange ∈ made, ∀ earlier (attempt : Attempt exchange.request.Answer) later fault,
    exchange.attempts = earlier ++ attempt :: later → attempt.result = some (.error fault) →
      exchange.request.isFatal fault = true → later = []
  /-- After an error the pass is at its end. -/
  ended : ∀ before error after, answers = before ++ some (.error error) :: after →
    ∀ answer ∈ after, answer = some (.ok none)
  /-- An operation that used up its budget, or met the signal, is no such failure. -/
  spared : ∀ exchange ∈ made, Unanswered exchange.outcome →
    ∀ fault, ¬ exchange.AbortsWith fault

/--
A pass fails exactly when the last attempt of one of its operations does so with a fault that is
neither throttling nor expected of its request. The pass returns that fault; it is neither tried
again nor followed by any other call, and the rest of the pass is its end.
-/
theorem serve_shows {settings : ReaderSettings} {reader : Reader}
    (reached : Reader.Reached settings reader) (world : World σ) (demands : List Demand) :
    ∃ made,
      ((start reader world).serve service demands).2.world.exchanges = world.exchanges ++ made ∧
        Shows made ((start reader world).serve service demands).1 := by
  obtain ⟨raised, closes⟩ := serve_raised service demands (start reader world) reached.indexed
    fun _ member => absurd member List.not_mem_nil
  obtain ⟨made, raises, exchanges⟩ := raised.made
  refine ⟨made, exchanges, ?_, ?_, ?_, closes, ?_⟩
  · intro error
    rw [closes.mem_iff, raises.error_iff]
  · exact fun earlier exchange later fault split aborts => raises.ended aborts split
  · intro exchange member earlier attempt later fault split result fatal
    rcases (raises.tried exchange member).ended_or_throttled split with
      ended | ⟨other, failed, throttling⟩
    · exact ended
    · rw [result] at failed
      cases failed
      rw [Request.isThrottling_of_isFatal fatal] at throttling
      cases throttling
  · intro exchange member unanswered
    refine (raises.tried exchange member).harmless fun fault outcome => ?_
    rw [outcome] at unanswered
    exact unanswered.elim

/-- The split shard is read to its end, and its successor may not be opened. -/
def deniedService : Script :=
  (Script.describing Reader.splitOnce)
    |>.queueBatches "A" [.now (.ok ⟨[⟨"110", "key", [], none⟩], false, 5⟩)]
    |>.queueIterators "B" [.now (.error (.accessDenied "denied"))]

/-- A record is returned, and then the denial, and then the end of the pass. -/
theorem deniedService_shows :
    ((start (.ofSettings (.ofStream "stream")) (.start deniedService .off)).serve Script.service
        [.next 2 none, .next 9 none, .next 0 (some 1000)]).1 =
      [some (.ok (some ⟨"A", "110", "key", [], none⟩)),
        some (.error (.client (.accessDenied "denied"))), some (.ok none)] ∧
    ∃ made,
      ((start (.ofSettings (.ofStream "stream")) (.start deniedService .off)).serve
          Script.service [.next 2 none, .next 9 none, .next 0 (some 1000)]).2.world.exchanges =
        [] ++ made ∧
      Shows made ((start (.ofSettings (.ofStream "stream")) (.start deniedService .off)).serve
        Script.service [.next 2 none, .next 9 none, .next 0 (some 1000)]).1 :=
  ⟨by decide +kernel, serve_shows .refl (.start deniedService .off) _⟩

end Session
end ShardedStream
